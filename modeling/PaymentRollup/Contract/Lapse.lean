import PaymentRollup.Contract.Drains

/-! # When a lapsed grace period is final

A settlement is refused once the deadline has passed, but a payout of the sequencer is still
credited, and one that fills a tranche moves the deadline. Only such a payout, with a grace
period long enough to reach the present, lets anything settle again.
-/
namespace PaymentRollup.Contract

section Lapses
variable [Crypto] {app : App} {env : Env} {s s' : State} {call : Call} {log log' : Log}
  {round round' : UInt64}

/-- The grace period of a live signal has run out. -/
def Lapsed (s : State) (round : UInt64) : Prop :=
  ∃ deadline, s.escapeDeadline = some deadline ∧ deadline < round

/-- Nothing can settle: the rollup has escaped, or anyone may escape it. -/
def Shut (s : State) (round : UInt64) : Prop := s.escaped = true ∨ Lapsed s round

/-- A payout of the sequencer that fills a tranche and moves the deadline to the present or
beyond. -/
def Reopens (app : App) (s : State) (env : Env) (call : Call) : Prop :=
  (∃ recipient amount tail, call = .payWithdrawal recipient amount tail) ∧
    env.sender = app.creator ∧ ∃ deadline progress, s.escapeDeadline = some deadline ∧
      s.escapeProgress = some progress ∧ escapeProgressTranche.toNat ≤ progress.toNat + 1 ∧
      env.round.toNat ≤ deadline.toNat + s.escapeGrace.toNat

omit [Crypto] in
theorem Lapsed.later (h : Lapsed s round) (hround : round ≤ round') : Lapsed s round' := by
  obtain ⟨deadline, hdeadline, hlapsed⟩ := h
  exact ⟨deadline, hdeadline, UInt64.lt_of_lt_of_le hlapsed hround⟩

omit [Crypto] in
theorem Shut.later (h : Shut s round) (hround : round ≤ round') : Shut s round' :=
  h.imp_right fun hlapsed => hlapsed.later hround

theorem Effect.settles_not (h : Effect app env s call s') (hshut : Shut s env.round) :
    s'.stateRoot = s.stateRoot ∧ ∀ verifier signals p, call ≠ .verifyBatch verifier signals p := by
  cases h with
  | inert hcall =>
    refine ⟨rfl, ?_⟩
    rintro verifier signals p rfl
    exact hcall
  | prune _ hcall =>
    refine ⟨rfl, ?_⟩
    rintro verifier signals p rfl
    simp at hcall
  | escape dropped hdropped _ hcall =>
    subst hdropped
    constructor
    · split_ifs <;> rfl
    · rintro verifier signals p rfl
      simp at hcall
  | settle _ hlive hround =>
    exfalso
    rcases hshut with hescaped | ⟨deadline, hdeadline, hlapsed⟩
    · exact absurd (hlive.symm.trans hescaped) (by decide)
    · exact UInt64.not_le.mpr hlapsed (hround deadline hdeadline)
  | _ =>
    refine ⟨rfl, ?_⟩
    rintro _ _ _ ⟨⟩

omit [Crypto] in
theorem Credited.lapsed {deadline progress : Option UInt64}
    (h : Credited s.escapeGrace 1 s.escapeDeadline s.escapeProgress deadline progress)
    (hlapsed : Lapsed s round) :
    (∃ d, deadline = some d ∧ d < round) ∨ ∃ d p, s.escapeDeadline = some d ∧
      s.escapeProgress = some p ∧ escapeProgressTranche.toNat ≤ p.toNat + 1 ∧
      round.toNat ≤ d.toNat + s.escapeGrace.toNat := by
  obtain ⟨d, hdeadline, hbefore⟩ := hlapsed
  generalize hold : s.escapeDeadline = old at h
  generalize hcount : s.escapeProgress = count at h
  rw [hold] at hdeadline
  subst hdeadline
  cases h with
  | counted => exact .inl ⟨d, rfl, hbefore⟩
  | @extended _ p p' d' hsum htranche hd' =>
    by_cases hreach : d' < round
    · exact .inl ⟨d', rfl, hreach⟩
    · right
      rw [UInt64.not_lt, UInt64.le_iff_toNat_le, hd'] at hreach
      rw [UInt64.le_iff_toNat_le, hsum] at htranche
      exact ⟨d, p, rfl, rfl, htranche, hreach⟩

/-- Exactly the payouts that reopen undo a lapse. -/
theorem Effect.shut_iff (h : Effect app env s call s') (hshut : Shut s env.round)
    (hlive : s.escaped = false) : Shut s' env.round ↔ ¬Reopens app s env call := by
  have hlapsed : Lapsed s env.round :=
    hshut.resolve_left fun hescaped => absurd (hlive.symm.trans hescaped) (by decide)
  by_cases hreopens : Reopens app s env call
  · refine iff_of_false ?_ (not_not_intro hreopens)
    obtain ⟨⟨recipient, amount, tail, rfl⟩, hcreator, d, p, hd, hp, htranche, hreach⟩ := hreopens
    cases h with
    | inert hcall => exact hcall.elim
    | prune _ hcall => simp at hcall
    | escape _ _ _ hcall => simp at hcall
    | pay _ hcredit =>
      rw [if_pos hcreator, hd, hp] at hcredit
      have hone : (1 : UInt64).toNat = 1 := rfl
      rintro (hescaped | ⟨d', hd', hlapsed'⟩)
      · exact absurd (hlive.symm.trans hescaped) (by decide)
      · dsimp only at hd'
        subst hd'
        rw [UInt64.lt_iff_toNat_lt] at hlapsed'
        cases hcredit with
        | counted hsum hshort =>
          rw [UInt64.lt_iff_toNat_lt] at hshort
          omega
        | extended _ _ hdeadline => omega
  · refine iff_of_true ?_ hreopens
    cases h with
    | pay _ hcredit =>
      right
      split_ifs at hcredit with hcreator
      · rcases hcredit.lapsed hlapsed with hstill | hwhole
        · exact hstill
        · exact absurd ⟨⟨_, _, _, rfl⟩, hcreator, hwhole⟩ hreopens
      · obtain ⟨d, hd, hbefore⟩ := hlapsed
        exact ⟨d, hcredit.1.trans hd, hbefore⟩
    | signal _ hquiet =>
      obtain ⟨d, hd, -⟩ := hlapsed
      exact absurd (hd.symm.trans hquiet) (Option.some_ne_none _)
    | escape => exact .inl rfl
    | settle _ _ hround =>
      obtain ⟨d, hd, hbefore⟩ := hlapsed
      exact absurd (hround d hd) (UInt64.not_le.mpr hbefore)
    | _ => exact .inr hlapsed

theorem Later.shut (h : Later app (fun s env call => ¬Reopens app s env call) round s log round' s' log')
    (hshut : Shut s round) : Shut s' round' ∧ s'.stateRoot = s.stateRoot ∧ ∃ made, log' = made ++ log ∧
      ∀ e ∈ made, ∀ verifier signals p, e.call ≠ .verifyBatch verifier signals p := by
  induction h with
  | start =>
    refine ⟨hshut, rfl, [], rfl, ?_⟩
    intro e he
    cases he
  | @call round₁ s₁ s' log₁ h env call hmay hround hok ih =>
    obtain ⟨hshut₁, hroot, made, rfl, hmade⟩ := ih
    have heffect := exec_effect hok
    have hnow := hshut₁.later hround
    obtain ⟨hsame, hcall⟩ := heffect.settles_not hnow
    refine ⟨?_, hsame.trans hroot, _, (List.cons_append ..).symm, ?_⟩
    · cases hescaped : s₁.escaped with
      | true => exact .inl (heffect.escaped_stays hescaped)
      | false => exact (heffect.shut_iff hnow hescaped).mpr hmay
    · exact List.forall_mem_cons.mpr ⟨hcall, hmade⟩

end Lapses

section Results
variable [Crypto] {app : App} {s s' : State} {log log' : Log} {now round' : UInt64}

/-- After a deadline has passed, and as long as no payout of the sequencer fills a tranche whose
grace period reaches the present, nothing settles whatever anyone calls. -/
theorem lapsed_grace_is_final {deadline : UInt64} (hlive : s.escapeDeadline = some deadline)
    (hlapsed : deadline < now)
    (hlater : Later app (fun s env call => ¬Reopens app s env call) now s log round' s' log') :
    s'.stateRoot = s.stateRoot ∧
      (∃ made, log' = made ++ log ∧
        ∀ e ∈ made, ∀ verifier signals p, e.call ≠ .verifyBatch verifier signals p) ∧
      ∀ env verifier signals p, round' ≤ env.round →
        ¬∃ s'', exec app env s' (.verifyBatch verifier signals p) = .ok s'' := by
  obtain ⟨hshut, hroot, hmade⟩ := hlater.shut (.inr ⟨deadline, hlive, hlapsed⟩)
  refine ⟨hroot, hmade, ?_⟩
  rintro env verifier signals p hround ⟨s'', hok⟩
  exact ((exec_effect hok).settles_not (hshut.later hround)).2 _ _ _ rfl

end Results

section Sample
attribute [local instance] Crypto.unsigned

/-- A batch abandoned after the deadline does not bring settlement back. -/
theorem sampleWatched_lapsed : ∃ s' log',
    Later sampleApp (fun s env call => ¬Reopens sampleApp s env call) 1201 sampleWatched.1
      sampleWatched.2 1250 s' log' ∧
    s'.batchLength = none ∧ s'.stateRoot = sampleWatched.1.stateRoot ∧
    (∃ made, log' = made ++ sampleWatched.2 ∧
      ∀ e ∈ made, ∀ verifier signals p, e.call ≠ .verifyBatch verifier signals p) ∧
    ∀ env verifier signals p, 1250 ≤ env.round →
      ¬∃ s'', exec sampleApp env s' (.verifyBatch verifier signals p) = .ok s'' := by
  have hok : (exec sampleApp (sampleEnv (sampleAccount 1) 1250) sampleWatched.1
      .abandonBatch).isOk = true := by decide +kernel
  cases habandon : exec sampleApp (sampleEnv (sampleAccount 1) 1250) sampleWatched.1
      .abandonBatch with
  | error e =>
    rw [habandon] at hok
    cases hok
  | ok s' =>
    have hlater : Later sampleApp (fun s env call => ¬Reopens sampleApp s env call) 1201
        sampleWatched.1 sampleWatched.2 1250 s'
        (⟨sampleWatched.1, sampleEnv (sampleAccount 1) 1250, .abandonBatch, s'⟩ ::
          sampleWatched.2) := by
      refine Later.start.call (sampleEnv (sampleAccount 1) 1250) .abandonBatch ?_ (by decide) habandon
      rintro ⟨⟨_, _, _, ⟨⟩⟩, -⟩
    have hlive : sampleWatched.1.escapeDeadline = some 1200 := by decide +kernel
    refine ⟨s', _, hlater, ?_, lapsed_grace_is_final hlive (by decide) hlater⟩
    cases exec_effect habandon with
    | inert hcall => exact hcall.elim
    | prune _ hcall => simp at hcall
    | escape _ _ _ hcall => simp at hcall
    | abandon => rfl

/-- A payout kept back until the deadline has passed moves it, and the next batch settles. -/
theorem drained_reopens : ∃ (s s' : State) (log log' : Log) (deadline : UInt64),
    Run sampleApp 100000 200 s log ∧ s.escapeDeadline = some deadline ∧ deadline < 1201 ∧
    (∃ s₁, exec sampleApp (sampleEnv (sampleAccount 8) 1201) s .executeEscape = .ok s₁) ∧
    Later sampleApp (fun _ _ _ => True) 1201 s log 1201 s' log' ∧
    (∀ e ∈ log', e.Genuine (2 ^ 32)) ∧ s'.stateRoot ≠ s.stateRoot := by
  obtain ⟨e, before, block, l, x, p, s, log, h⟩ :=
    exists_drained 1000 sampleKey (by decide) (by decide) sample_unlooped
  obtain ⟨deadline, hdeadline, howing⟩ := h.owing
  have hlapsed : deadline < 1201 := by
    rw [UInt64.lt_iff_toNat_lt, hdeadline]
    decide
  obtain ⟨s₁, hescape, -⟩ : ∃ s₁, exec sampleApp (sampleEnv (sampleAccount 8) 1201) s
      .executeEscape = .ok s₁ ∧ s₁.escaped = true :=
    executeEscape_ok howing.live howing.deadline hlapsed
  obtain ⟨nonce, left, hnonce, hleft, -, hroot⟩ := h.root
  obtain ⟨s', log', nonce', left', hlater, hgenuine, hnonce', hleft', hroot'⟩ :=
    h.resume (by decide) (by decide) 1201 (by decide) (by decide)
  refine ⟨s, s', log, log', deadline, h.run, howing.deadline, hlapsed, ⟨s₁, hescape⟩, hlater,
    hgenuine, ?_⟩
  have htwo : nonce = 2 := UInt64.toNat_inj.mp hnonce
  have htwo' : nonce' = 2 := UInt64.toNat_inj.mp hnonce'
  have hamount : left = 75700000 := UInt64.toNat_inj.mp hleft
  have hamount' : left' = 76000000 := UInt64.toNat_inj.mp hleft'
  rw [hroot, hroot', htwo, htwo', hamount, hamount']
  decide +kernel

end Sample

end PaymentRollup.Contract
