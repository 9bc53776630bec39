import PaymentRollup.Contract.Invariant

/-! # The watchdog's accounting

A live signal remembers the inbox it was raised over. Its deadline has moved by one grace
period for each call that filled a tranche, and tranches are filled by entries settled and by
payouts the creator made.
-/
namespace PaymentRollup.Contract

section Counting
variable (app : App)

/-- The call that raised the newest signal. -/
def raised : Log → Option Step
  | [] => none
  | e :: log =>
    match e.call with
    | .signalEscape => some e
    | _ => raised log

def since : Log → Log
  | [] => []
  | e :: log =>
    match e.call with
    | .signalEscape => []
    | _ => e :: since log

def Step.isPayout (e : Step) : Bool :=
  match e.call with
  | .payWithdrawal _ _ _ => true
  | _ => false

def Step.isOwnPayout (e : Step) : Bool := e.isPayout && decide (e.env.sender = app.creator)

def Step.consumed (e : Step) : ℕ :=
  e.after.settledInboxCursor.toNat - e.before.settledInboxCursor.toNat

/-- The obligations one call discharged. -/
def Step.discharged (e : Step) : ℕ := e.consumed + (e.isOwnPayout app).toNat

/-- Whether what a call discharged filled a tranche. -/
def Step.crosses (e : Step) : Bool :=
  decide (escapeProgressTranche.toNat ≤
    e.before.escapeProgress.elim 0 UInt64.toNat + e.discharged app)

def crossings (log : Log) : ℕ := log.countP (Step.crosses app)

def ownPayouts (log : Log) : ℕ := log.countP (Step.isOwnPayout app)

theorem since_cons {e : Step} (h : e.call ≠ .signalEscape) (log : Log) :
    raised (e :: log) = raised log ∧ since (e :: log) = e :: since log := by
  rcases e with ⟨before, env, call, after⟩
  cases call <;> first | exact ⟨rfl, rfl⟩ | exact absurd rfl h

theorem crossings_cons (e : Step) (log : Log) :
    crossings app (e :: log) = crossings app log + (e.crosses app).toNat := by
  rw [crossings, List.countP_cons, crossings]
  cases e.crosses app <;> rfl

theorem ownPayouts_cons (e : Step) (log : Log) :
    ownPayouts app (e :: log) = ownPayouts app log + (e.isOwnPayout app).toNat := by
  rw [ownPayouts, List.countP_cons, ownPayouts]
  cases e.isOwnPayout app <;> rfl

end Counting

section Steps
variable [Crypto] {app : App} {env : Env} {s s' : State} {call : Call} {log : Log}

theorem Effect.escapeGrace_eq (h : Effect app env s call s') : s'.escapeGrace = s.escapeGrace := by
  cases h with
  | escape dropped hdropped =>
    subst hdropped
    split_ifs <;> rfl
  | _ => rfl

theorem Effect.settled_le (h : Effect app env s call s') {items : List InboxItem}
    {chunks : List Bytes} (hkept : Kept app s items chunks) :
    s.settledInboxCursor ≤ s'.settledInboxCursor := by
  cases h with
  | settle _ _ _ hlength _ _ _ _ _ _ hcursor =>
    obtain ⟨c, hposting⟩ := hkept.batch.posting hlength
    cases hcursor.symm.trans hposting.sealedCursor
    exact UInt64.le_iff_toNat_le.mpr hposting.sealedFrom
  | escape dropped hdropped =>
    subst hdropped
    split_ifs <;> exact UInt64.le_refl _
  | _ => exact UInt64.le_refl _

theorem Effect.escaped_stays (h : Effect app env s call s') (hescaped : s.escaped = true) :
    s'.escaped = true := by
  cases h <;> first | exact hescaped | rfl

theorem Effect.settled_frozen (h : Effect app env s call s') (hescaped : s.escaped = true) :
    s'.settledInboxCursor = s.settledInboxCursor := by
  cases h with
  | settle _ hlive => exact absurd (hlive.symm.trans hescaped) (by decide)
  | escape _ _ hlive => exact absurd (hlive.symm.trans hescaped) (by decide)
  | _ => rfl

/-- What one call does to a signal that is live before it and after it. -/
structure Ticks (app : App) (e : Step) (deadline deadline' : UInt64) : Prop where
  target : e.after.escapeInboxTarget = e.before.escapeInboxTarget
  deadline : deadline'.toNat =
    deadline.toNat + e.before.escapeGrace.toNat * (e.crosses app).toNat
  progress : ∃ progress progress', e.before.escapeProgress = some progress ∧
    e.after.escapeProgress = some progress' ∧
    escapeProgressTranche.toNat * (e.crosses app).toNat + progress'.toNat ≤
      progress.toNat + e.discharged app

omit [Crypto] in
theorem Ticks.credited {e : Step} {deadline deadline' discharged : UInt64}
    (hcredit : Credited e.before.escapeGrace discharged e.before.escapeDeadline
      e.before.escapeProgress e.after.escapeDeadline e.after.escapeProgress)
    (hbefore : e.before.escapeDeadline = some deadline)
    (hafter : e.after.escapeDeadline = some deadline')
    (htarget : e.after.escapeInboxTarget = e.before.escapeInboxTarget)
    (hdischarged : e.discharged app = discharged.toNat) : Ticks app e deadline deadline' := by
  rw [hbefore, hafter] at hcredit
  generalize hcount : e.before.escapeProgress = progress at hcredit
  generalize hcount' : e.after.escapeProgress = progress' at hcredit
  cases hcredit with
  | @counted _ p p' hsum hshort =>
    rw [UInt64.lt_iff_toNat_lt, hsum] at hshort
    have hcrosses : e.crosses app = false := by
      rw [Step.crosses, hdischarged, hcount]
      exact decide_eq_false (Nat.not_le.mpr hshort)
    refine ⟨htarget, ?_, p, p', hcount, hcount', ?_⟩
    · simp [hcrosses]
    · simp [hcrosses, hdischarged, hsum]
  | @extended _ p p' _ hsum htranche hdeadline =>
    rw [UInt64.le_iff_toNat_le, hsum] at htranche
    have hcrosses : e.crosses app = true := by
      rw [Step.crosses, hdischarged, hcount]
      exact decide_eq_true htranche
    refine ⟨htarget, ?_, p, 0, hcount, hcount', ?_⟩
    · simp [hcrosses, hdeadline]
    · simp [hcrosses, hdischarged, htranche]

omit [Crypto] in
theorem Step.discharged_eq_zero {e : Step} (hpay : e.isPayout = false)
    (hcursor : e.after.settledInboxCursor = e.before.settledInboxCursor) :
    e.discharged app = 0 := by
  simp [Step.discharged, Step.consumed, Step.isOwnPayout, hpay, hcursor]

omit [Crypto] in
theorem Step.isPayout_quiet {e : Step} (h : e.call.IsQuiet) : e.isPayout = false := by
  rcases e with ⟨before, env, call, after⟩
  cases call <;> first | rfl | exact h.elim

omit [Crypto] in
theorem Ticks.still {e : Step} {deadline deadline' : UInt64}
    (hsignal : Signalled e.before.escapeDeadline e.before.escapeInboxTarget e.before.escapeProgress)
    (hshort : ProgressShort e.before.escapeProgress)
    (hbefore : e.before.escapeDeadline = some deadline)
    (hafter : e.after.escapeDeadline = some deadline')
    (hdeadline : e.after.escapeDeadline = e.before.escapeDeadline)
    (htarget : e.after.escapeInboxTarget = e.before.escapeInboxTarget)
    (hprogress : e.after.escapeProgress = e.before.escapeProgress)
    (hnothing : e.discharged app = 0) : Ticks app e deadline deadline' := by
  rw [hbefore] at hsignal
  rw [hdeadline, hbefore] at hafter
  cases hafter
  generalize htarget' : e.before.escapeInboxTarget = target at hsignal
  generalize hcount : e.before.escapeProgress = count at hsignal
  cases hsignal with
  | live _ target progress =>
    have hless := UInt64.lt_iff_toNat_lt.mp (hshort progress hcount)
    have hcrosses : e.crosses app = false := by
      rw [Step.crosses, hnothing, hcount]
      exact decide_eq_false (Nat.not_le.mpr hless)
    refine ⟨htarget, ?_, progress, progress, hcount, hprogress.trans hcount, ?_⟩
    · simp [hcrosses]
    · simp [hcrosses, hnothing]

/-- A live signal keeps its target, and its deadline moves on by one grace period exactly when
the call fills a tranche. -/
theorem Effect.ticks (h : Effect app env s call s')
    (hsignal : Signalled s.escapeDeadline s.escapeInboxTarget s.escapeProgress)
    (hshort : ProgressShort s.escapeProgress) {deadline deadline' : UInt64}
    (hbefore : s.escapeDeadline = some deadline) (hafter : s'.escapeDeadline = some deadline') :
    Ticks app ⟨s, env, call, s'⟩ deadline deadline' := by
  cases h with
  | inert hcall =>
    exact .still hsignal hshort hbefore hafter rfl rfl rfl
      (Step.discharged_eq_zero (Step.isPayout_quiet hcall.isQuiet) rfl)
  | @prune call index record hbox hcall =>
    have hquiet : call.IsQuiet := by
      rcases hcall with ⟨rfl, -⟩ | ⟨rfl, -⟩ <;> exact True.intro
    exact .still hsignal hshort hbefore hafter rfl rfl rfl
      (Step.discharged_eq_zero (Step.isPayout_quiet hquiet) rfl)
  | pay hhead hcredit =>
    split_ifs at hcredit with hcreator
    · refine .credited hcredit hbefore hafter rfl ?_
      simp [Step.discharged, Step.consumed, Step.isOwnPayout, Step.isPayout, hcreator]
    · refine .still hsignal hshort hbefore hafter hcredit.1 rfl hcredit.2 ?_
      simp [Step.discharged, Step.consumed, Step.isOwnPayout, Step.isPayout, hcreator]
  | signal _ hquiet => exact absurd (hbefore.symm.trans hquiet) (Option.some_ne_none _)
  | escape => cases hafter
  | settle _ _ _ _ _ _ _ _ _ _ _ hanswer =>
    generalize htarget : s.escapeInboxTarget = target at hsignal hanswer
    cases hanswer with
    | quiet =>
      rw [hbefore] at hsignal
      cases hsignal
    | reached => cases hafter
    | credited hlt hconsumed hcredit =>
      refine .credited hcredit hbefore hafter htarget.symm ?_
      simp [Step.discharged, Step.consumed, Step.isOwnPayout, Step.isPayout, hconsumed]
  | _ => exact .still hsignal hshort hbefore hafter rfl rfl rfl (Step.discharged_eq_zero rfl rfl)

end Steps

section Results
variable [Crypto] {app : App} {env : Env} {s s' : State} {call : Call} {log : Log} {funds : ℕ}
  {round : UInt64}

/-- What is known of the signal `e` raised while it is live, from the calls since. -/
structure Counted (app : App) (s : State) (log : Log) (deadline : UInt64) (e : Step) : Prop where
  raised : raised log = some e
  target : s.escapeInboxTarget = some e.before.inboxCursor
  settled : e.before.settledInboxCursor ≤ s.settledInboxCursor
  deadline : deadline.toNat =
    e.env.round.toNat + s.escapeGrace.toNat * (1 + crossings app (since log))
  progress : ∃ progress, s.escapeProgress = some progress ∧
    escapeProgressTranche.toNat * crossings app (since log) + progress.toNat ≤
      (s.settledInboxCursor.toNat - e.before.settledInboxCursor.toNat) +
        ownPayouts app (since log)

omit [Crypto] in
theorem Credited.none_iff {grace discharged : UInt64}
    {deadline progress deadline' progress' : Option UInt64}
    (h : Credited grace discharged deadline progress deadline' progress') :
    deadline' = none ↔ deadline = none := by
  cases h <;> simp

omit [Crypto] in
/-- A settlement raises no signal, and ends one only by reaching its target. -/
theorem Answered.ends {grace old cursor : UInt64}
    {deadline target progress deadline' target' progress' : Option UInt64}
    (h : Answered grace old cursor deadline target progress deadline' target' progress') :
    (deadline = none → deadline' = none) ∧
      (deadline ≠ none → deadline' = none → ∀ t ∈ target, t ≤ cursor) := by
  cases h with
  | quiet => exact ⟨id, fun hlive hgone => absurd hgone hlive⟩
  | reached hle =>
    refine ⟨fun _ => rfl, ?_⟩
    rintro - - t ⟨⟩
    exact UInt64.le_iff_toNat_le.mpr hle
  | credited _ _ hcredit =>
    exact ⟨hcredit.none_iff.mpr, fun hlive hgone => absurd (hcredit.none_iff.mp hgone) hlive⟩

theorem Effect.deadline_some (h : Effect app env s call s') {deadline : UInt64}
    (hafter : s'.escapeDeadline = some deadline) :
    call = .signalEscape ∨ ∃ deadline, s.escapeDeadline = some deadline := by
  rw [← Option.ne_none_iff_exists']
  have hlive : s'.escapeDeadline ≠ none := hafter ▸ Option.some_ne_none _
  cases h with
  | signal => exact .inl rfl
  | pay _ hcredit =>
    right
    intro hnone
    split_ifs at hcredit
    · exact hlive (hcredit.none_iff.mpr hnone)
    · exact hlive (hcredit.1.trans hnone)
  | escape => exact absurd rfl hlive
  | settle _ _ _ _ _ _ _ _ _ _ _ hanswer => exact .inr fun hnone => hlive (hanswer.ends.1 hnone)
  | _ => exact .inr hlive

theorem Run.counted (hrun : Run app funds round s log) {deadline : UInt64}
    (hlive : s.escapeDeadline = some deadline) : ∃ e, Counted app s log deadline e := by
  induction hrun generalizing deadline with
  | create => cases hlive
  | @call round s s' log hrun env call hround hok ih =>
    have heffect := exec_effect hok
    by_cases hcall : call = .signalEscape
    · subst hcall
      refine ⟨⟨s, env, .signalEscape, s'⟩, ?_⟩
      cases heffect with
      | inert hcall => exact hcall.elim
      | prune _ hcall => simp at hcall
      | escape _ _ _ hcall => simp at hcall
      | signal _ _ _ _ _ hdeadline =>
        cases hlive
        exact ⟨rfl, rfl, UInt64.le_refl _, hdeadline.trans (by simp [since, crossings]), 0, rfl,
          Nat.zero_le _⟩
    · obtain ⟨before, hbefore⟩ := (heffect.deadline_some hlive).resolve_left hcall
      obtain ⟨e, he⟩ := ih hbefore
      obtain ⟨p, hp, hcount⟩ := he.progress
      obtain ⟨htarget, hdeadline, p', p'', hp', hp'', htick⟩ :=
        heffect.ticks hrun.kept.signal hrun.progressShort hbefore hlive
      cases hp.symm.trans hp'
      obtain ⟨hraised, hsince⟩ := since_cons (e := ⟨s, env, call, s'⟩) hcall log
      have hsettled := heffect.settled_le hrun.kept
      refine ⟨e, hraised.trans he.raised, htarget.trans he.target,
        UInt64.le_trans he.settled hsettled, ?_, p'', hp'', ?_⟩
      · rw [hsince, crossings_cons, heffect.escapeGrace_eq, hdeadline, he.deadline]
        ring
      · rw [hsince, crossings_cons, ownPayouts_cons]
        have hfrom := UInt64.le_iff_toNat_le.mp he.settled
        rw [UInt64.le_iff_toNat_le] at hsettled
        simp only [Step.discharged, Step.consumed] at htick
        rw [Nat.mul_add]
        omega

/-- A live signal ends when a settlement reaches its target, or in an escape. -/
theorem Effect.signal_ends (h : Effect app env s call s')
    (hlive : s.escapeDeadline ≠ none) (hgone : s'.escapeDeadline = none) :
    ((∃ verifier signals p, call = .verifyBatch verifier signals p) ∧
      ∀ target ∈ s.escapeInboxTarget, target ≤ s'.settledInboxCursor) ∨
    ((call = .executeEscape ∨ call = .securityCouncilEscape) ∧ s'.escaped = true) := by
  cases h with
  | pay _ hcredit =>
    split_ifs at hcredit
    · exact absurd (hcredit.none_iff.mp hgone) hlive
    · exact absurd (hcredit.1.symm.trans hgone) hlive
  | signal => cases hgone
  | escape _ _ _ hcall =>
    refine .inr ⟨?_, rfl⟩
    rcases hcall with ⟨hcall, -⟩ | ⟨hcall, -⟩
    · exact .inr hcall
    · exact .inl hcall
  | settle _ _ _ _ _ _ _ _ _ _ _ hanswer =>
    exact .inl ⟨⟨_, _, _, rfl⟩, hanswer.ends.2 hlive hgone⟩
  | _ => exact absurd hgone hlive

structure Watchdog (app : App) (s : State) (log : Log) : Prop where
  counted : ∀ deadline, s.escapeDeadline = some deadline → ∃ e, Counted app s log deadline e
  once : ∀ env call s' deadline deadline', exec app env s call = .ok s' →
    s.escapeDeadline = some deadline → s'.escapeDeadline = some deadline' →
    deadline' = deadline ∨ (Step.crosses app ⟨s, env, call, s'⟩ = true ∧
      deadline'.toNat = deadline.toNat + s.escapeGrace.toNat)
  outsiders : ∀ env recipient amount tail s', env.sender ≠ app.creator →
    exec app env s (.payWithdrawal recipient amount tail) = .ok s' →
    s'.escapeDeadline = s.escapeDeadline ∧ s'.escapeProgress = s.escapeProgress
  ends : ∀ env call s', exec app env s call = .ok s' → s.escapeDeadline ≠ none →
    s'.escapeDeadline = none →
    ((∃ verifier signals p, call = .verifyBatch verifier signals p) ∧
      ∀ target ∈ s.escapeInboxTarget, target ≤ s'.settledInboxCursor) ∨
    ((call = .executeEscape ∨ call = .securityCouncilEscape) ∧ s'.escaped = true)

/-- In every run the deadline of a live signal is its first one and one grace period for each
call that filled a tranche, what filled them was settled or paid out by the creator since, and
the signal ends only by a settlement that reaches the target or by an escape. -/
theorem watchdog_accounting (hrun : Run app funds round s log) : Watchdog app s log := by
  refine ⟨?_, ?_, ?_, ?_⟩
  · intro deadline hlive
    exact hrun.counted hlive
  · intro env call s' deadline deadline' hok hbefore hafter
    have hticks := (exec_effect hok).ticks hrun.kept.signal hrun.progressShort hbefore hafter
    have hdeadline := hticks.deadline
    cases hcrosses : Step.crosses app ⟨s, env, call, s'⟩ with
    | false =>
      rw [hcrosses] at hdeadline
      exact .inl (UInt64.toNat_inj.mp hdeadline)
    | true =>
      rw [hcrosses, Bool.toNat_true, Nat.mul_one] at hdeadline
      exact .inr ⟨rfl, hdeadline⟩
  · intro env recipient amount tail s' hother hok
    cases exec_effect hok with
    | inert hcall => exact hcall.elim
    | prune _ hcall => simp at hcall
    | escape _ _ _ hcall => simp at hcall
    | pay _ hcredit =>
      rw [if_neg hother] at hcredit
      exact hcredit
  · intro env call s' hok hlive hgone
    exact (exec_effect hok).signal_ends hlive hgone

end Results

section Sample
attribute [local instance] Crypto.unsigned

theorem sampleWatched_counts : Watchdog sampleApp sampleWatched.1 sampleWatched.2 :=
  watchdog_accounting sampleWatched_run

end Sample

end PaymentRollup.Contract
