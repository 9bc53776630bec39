import PaymentRollup.Contract.Watchdog

/-! # The escape hatch cannot be jammed

The head of the pending inbox is its oldest entry and nobody can remove it, so whether
anything has waited too long can be read off the head alone; and once sequencer and council
fall silent nothing anyone else does delays an escape.
-/
namespace PaymentRollup.Contract

section Head
variable [Crypto] {app : App} {env : Env} {s s' : State} {log : Log} {funds : ℕ} {round : UInt64}

theorem Run.head (hrun : Run app funds round s log) (hlive : s.escaped = false)
    (hpending : s.settledInboxCursor < s.inboxCursor) :
    ∃ head, s.inbox s.settledInboxCursor = some head ∧
      (Contract.filed app log)[s.settledInboxCursor.toNat]? = some head := by
  have hlength : (arrivals app log).length = s.inboxCursor.toNat := hrun.kept.inbox.length
  rw [UInt64.lt_iff_toNat_lt, ← hlength] at hpending
  have hbox := hrun.kept.inbox.kept hlive s.settledInboxCursor (Nat.le_refl _) hpending
  obtain ⟨head, hhead⟩ := Option.ne_none_iff_exists'.mp hbox
  exact ⟨head, hhead, hrun.filed.boxes _ head hhead⟩

theorem Run.head_oldest (hrun : Run app funds round s log) {head record : InboxRecord} {i : ℕ}
    (hhead : (Contract.filed app log)[s.settledInboxCursor.toNat]? = some head)
    (hi : s.settledInboxCursor.toNat ≤ i) (hrecord : (Contract.filed app log)[i]? = some record) :
    head.round ≤ record.round := by
  rcases Nat.eq_or_lt_of_le hi with rfl | hlt
  · cases hhead.symm.trans hrecord
    exact UInt64.le_refl _
  · obtain ⟨hfrom, rfl⟩ := List.getElem?_eq_some_iff.mp hhead
    obtain ⟨hto, rfl⟩ := List.getElem?_eq_some_iff.mp hrecord
    exact List.pairwise_iff_getElem.mp hrun.filed.ordered _ _ hfrom hto hlt

omit [Crypto] in
theorem signalEscape_ok (hlive : s.escaped = false) (hquiet : s.escapeDeadline = none)
    (hpending : s.settledInboxCursor < s.inboxCursor) {head : InboxRecord}
    (hhead : s.inbox s.settledInboxCursor = some head)
    (hstale : head.round.toNat + s.inboxTimeout.toNat < env.round.toNat)
    (hfits : env.round.toNat + s.escapeGrace.toNat < 2 ^ 64) :
    ∃ s' deadline, signalEscape env s = .ok s' ∧ s'.escapeDeadline = some deadline ∧
      deadline.toNat = env.round.toNat + s.escapeGrace.toNat ∧ s'.escaped = false ∧
      s'.settledInboxCursor < s'.inboxCursor := by
  have hround := toNat_lt env.round
  obtain ⟨stale, hsum⟩ := exists_add (a := head.round) (b := s.inboxTimeout) (by omega)
  obtain ⟨deadline, hdeadline⟩ := exists_add hfits
  have hlate : stale < env.round := by
    rw [UInt64.lt_iff_toNat_lt, add_eq_ok.mp hsum]
    exact hstale
  simp only [signalEscape, bind_eq_ok, assert_eq_ok, demand_eq_ok, Except.ok.injEq]
  exact ⟨_, deadline, ⟨(), by simp [hlive], (), hquiet, (), hpending, head, hhead, stale, hsum, (),
    hlate, deadline, hdeadline, rfl⟩, rfl, add_eq_ok.mp hdeadline, hlive, hpending⟩

omit [Crypto] in
theorem executeEscape_ok (hlive : s.escaped = false) {deadline : UInt64}
    (hdeadline : s.escapeDeadline = some deadline) (hlapsed : deadline < env.round) :
    ∃ s', executeEscape env s = .ok s' ∧ s'.escaped = true := by
  simp only [executeEscape, bind_eq_ok, assert_eq_ok, demand_eq_ok, Except.ok.injEq]
  refine ⟨_, ⟨(), by simp [hlive], (), by simp [hdeadline], deadline, hdeadline, (), hlapsed, rfl⟩, ?_⟩
  split_ifs <;> rfl

/-- Reading the head alone finds out whether anything has been waiting too long. -/
theorem signalEscape_ok_iff (hrun : Run app funds round s log) (hlive : s.escaped = false)
    (hpending : s.settledInboxCursor < s.inboxCursor) (hquiet : s.escapeDeadline = none)
    (hfits : env.round.toNat + s.escapeGrace.toNat < 2 ^ 64) :
    (∃ s', exec app env s .signalEscape = .ok s') ↔
      ∃ (i : ℕ) (record : InboxRecord), s.settledInboxCursor.toNat ≤ i ∧
        (filed app log)[i]? = some record ∧
        record.round.toNat + s.inboxTimeout.toNat < env.round.toNat := by
  obtain ⟨head, hbox, hhead⟩ := hrun.head hlive hpending
  constructor
  · rintro ⟨s', hok⟩
    cases exec_effect hok with
    | inert hcall => exact hcall.elim
    | prune _ hcall => simp at hcall
    | escape _ _ _ hcall => simp at hcall
    | signal _ _ _ hrecord hstale =>
      cases hbox.symm.trans hrecord
      exact ⟨_, head, Nat.le_refl _, hhead, hstale⟩
  · rintro ⟨i, record, hi, hrecord, hstale⟩
    have holdest := UInt64.le_iff_toNat_le.mp (hrun.head_oldest hhead hi hrecord)
    obtain ⟨s', deadline, hok, -⟩ := signalEscape_ok hlive hquiet hpending hbox
      (by omega : head.round.toNat + s.inboxTimeout.toNat < env.round.toNat) hfits
    exact ⟨s', hok⟩

end Head

section Silence
variable [Crypto] {app : App} {env : Env} {s s₁ s' : State} {call : Call} {log log' : Log}
  {funds : ℕ} {round round' : UInt64}

/-- What everybody but the sequencer and the council may call. -/
def Silent (app : App) (s : State) (env : Env) (call : Call) : Prop :=
  env.sender ≠ app.creator ∧ env.sender ≠ s.securityCouncil ∧ ¬call.IsUpdate

/-- What the accused entry and a live signal are to the states that follow. -/
structure Stands (s s' : State) : Prop where
  settled : s'.settledInboxCursor = s.settledInboxCursor
  arrived : s.inboxCursor ≤ s'.inboxCursor
  head : s'.inbox s.settledInboxCursor = s.inbox s.settledInboxCursor
  timeout : s'.inboxTimeout = s.inboxTimeout
  grace : s'.escapeGrace = s.escapeGrace
  deadline : ∀ deadline, s.escapeDeadline = some deadline → s'.escapeDeadline = some deadline

omit [Crypto] in
theorem Stands.refl (s : State) : Stands s s :=
  ⟨rfl, UInt64.le_refl _, rfl, rfl, rfl, fun _ => id⟩

omit [Crypto] in
theorem Stands.trans (h : Stands s s₁) (h' : Stands s₁ s') : Stands s s' where
  settled := h'.settled.trans h.settled
  arrived := UInt64.le_trans h.arrived h'.arrived
  head := by
    rw [← h.head, ← h.settled]
    exact h'.head
  timeout := h'.timeout.trans h.timeout
  grace := h'.grace.trans h.grace
  deadline d hd := h'.deadline d (h.deadline d hd)

omit [Crypto] in
theorem Stands.pending (h : Stands s s') (hpending : s.settledInboxCursor < s.inboxCursor) :
    s'.settledInboxCursor < s'.inboxCursor := by
  rw [h.settled]
  exact UInt64.lt_of_lt_of_le hpending h.arrived

/-- Nobody but the sequencer and the council can touch the accused entry or the deadline: all
that is left is to escape. -/
theorem Effect.stands (h : Effect app env s call s') (hlive : s.escaped = false)
    (hpending : s.settledInboxCursor < s.inboxCursor) (hsilent : Silent app s env call) :
    (call = .executeEscape ∧ s'.escaped = true) ∨ (s'.escaped = false ∧ Stands s s') := by
  obtain ⟨hcreator, hcouncil, -⟩ := hsilent
  have hdead : s.escaped = true → False := by
    intro hescaped
    exact absurd (hlive.symm.trans hescaped) (by decide)
  have hfiled : ∀ record, Function.update s.inbox s.inboxCursor record s.settledInboxCursor =
      s.inbox s.settledInboxCursor := by
    intro record
    exact Function.update_of_ne (UInt64.ne_of_lt hpending) _ _
  have hnext : ∀ next : UInt64, next.toNat = s.inboxCursor.toNat + 1 → s.inboxCursor ≤ next := by
    intro next hnext
    rw [UInt64.le_iff_toNat_le]
    omega
  cases h with
  | inert => exact .inr ⟨hlive, rfl, UInt64.le_refl _, rfl, rfl, rfl, fun _ => id⟩
  | deposit _ _ _ hcursor =>
    exact .inr ⟨hlive, rfl, hnext _ hcursor, hfiled _, rfl, rfl, fun _ => id⟩
  | request _ _ _ _ _ hcursor =>
    exact .inr ⟨hlive, rfl, hnext _ hcursor, hfiled _, rfl, rfl, fun _ => id⟩
  | @prune call index record hbox hcall =>
    have hbelow : index < s.settledInboxCursor := by
      rcases hcall with ⟨-, -, hbelow | hescaped⟩ | ⟨-, -, hbelow⟩
      · exact hbelow
      · exact (hdead hescaped).elim
      · exact hbelow
    refine .inr ⟨hlive, rfl, UInt64.le_refl _, ?_, rfl, rfl, fun _ => id⟩
    exact Function.update_of_ne (UInt64.ne_of_lt hbelow).symm _ _
  | reclaim hescaped => exact (hdead hescaped).elim
  | pay _ hcredit =>
    rw [if_neg hcreator] at hcredit
    exact .inr ⟨hlive, rfl, UInt64.le_refl _, rfl, rfl, rfl, fun _ hd => hcredit.1.trans hd⟩
  | exit hescaped => exact (hdead hescaped).elim
  | signal _ hquiet =>
    refine .inr ⟨hlive, rfl, UInt64.le_refl _, rfl, rfl, rfl, ?_⟩
    intro d hd
    exact absurd (hd.symm.trans hquiet) (Option.some_ne_none _)
  | escape _ _ _ hcall =>
    rcases hcall with ⟨-, hsender⟩ | ⟨rfl, -⟩
    · exact absurd hsender hcouncil
    · exact .inl ⟨rfl, rfl⟩
  | abandon hsender => exact absurd hsender hcreator
  | openBatch hsender => exact absurd hsender hcreator
  | chunk hsender => exact absurd hsender hcreator
  | settle hsender => exact absurd hsender hcreator

theorem Later.stands (h : Later app (Silent app) round s log round' s' log')
    (hlive : s.escaped = false) (hpending : s.settledInboxCursor < s.inboxCursor) :
    (s'.escaped = true ∧ ∃ e ∈ log', e.call = .executeEscape) ∨
      (s'.escaped = false ∧ Stands s s') := by
  induction h with
  | start => exact .inr ⟨hlive, Stands.refl s⟩
  | @call round₁ s₁ s' log₁ h env call hsilent hround hok ih =>
    have heffect := exec_effect hok
    rcases ih with ⟨hescaped, e, he, hcall⟩ | ⟨hlive₁, hstands⟩
    · exact .inl ⟨heffect.escaped_stays hescaped, e, List.mem_cons_of_mem _ he, hcall⟩
    · rcases heffect.stands hlive₁ (hstands.pending hpending) hsilent with
        ⟨rfl, hescaped⟩ | ⟨hlive', hstands'⟩
      · exact .inl ⟨hescaped, _, List.mem_cons_self .., rfl⟩
      · exact .inr ⟨hlive', hstands.trans hstands'⟩

end Silence

section Results
variable [Crypto] {app : App} {s : State} {log : Log} {funds : ℕ} {round : UInt64}

def HasEscaped (s : State) (log : Log) : Prop :=
  s.escaped = true ∧ ∃ e ∈ log, e.call = .executeEscape

/-- Anyone can pull it after the deadline. -/
def Escapable (app : App) (s : State) (deadline : UInt64) : Prop :=
  ∀ env : Env, deadline < env.round →
    ∃ s', exec app env s .executeEscape = .ok s' ∧ s'.escaped = true

/-- The permissionless way out of a state that came after `s`, over the entry `head`. -/
structure WayOut (app : App) (s : State) (head : InboxRecord) (round' : UInt64) (s' : State)
    (log' : Log) : Prop where
  live : s'.escaped = false
  stands : ∀ deadline, s.escapeDeadline = some deadline → s'.escapeDeadline = some deadline
  escape : ∀ deadline, s'.escapeDeadline = some deadline → Escapable app s' deadline
  signal : s'.escapeDeadline = none → ∀ env : Env, round' ≤ env.round →
    head.round.toNat + s.inboxTimeout.toNat < env.round.toNat →
    env.round.toNat + s.escapeGrace.toNat < 2 ^ 64 →
    ∃ s₁ deadline, exec app env s' .signalEscape = .ok s₁ ∧
      deadline.toNat = env.round.toNat + s.escapeGrace.toNat ∧
      ∀ {round'' s'' log''}, Later app (Silent app) env.round s₁
        (⟨s', env, .signalEscape, s₁⟩ :: log') round'' s'' log'' →
        HasEscaped s'' log'' ∨ Escapable app s'' deadline

/-- With no signal live, anyone can raise one exactly when some pending entry has waited too
long; and from any state with something pending, once the sequencer and the council no longer
act, anyone can raise it and execute the escape whatever others call, unless that has happened
already. -/
theorem escape_hatch_opens (hrun : Run app funds round s log) (hlive : s.escaped = false)
    (hpending : s.settledInboxCursor < s.inboxCursor) :
    (∀ env : Env, s.escapeDeadline = none →
      env.round.toNat + s.escapeGrace.toNat < 2 ^ 64 →
      ((∃ s', exec app env s .signalEscape = .ok s') ↔
        ∃ (i : ℕ) (record : InboxRecord), s.settledInboxCursor.toNat ≤ i ∧
          (filed app log)[i]? = some record ∧
          record.round.toNat + s.inboxTimeout.toNat < env.round.toNat)) ∧
    ∃ head, (filed app log)[s.settledInboxCursor.toNat]? = some head ∧
      ∀ {round' s' log'}, Later app (Silent app) round s log round' s' log' →
        HasEscaped s' log' ∨ WayOut app s head round' s' log' := by
  obtain ⟨head, hbox, hhead⟩ := hrun.head hlive hpending
  constructor
  · intro env hquiet hfits
    exact signalEscape_ok_iff hrun hlive hpending hquiet hfits
  refine ⟨head, hhead, ?_⟩
  intro round' s' log' hlater
  rcases hlater.stands hlive hpending with hescaped | ⟨hlive', hstands⟩
  · exact .inl hescaped
  refine .inr ⟨hlive', hstands.deadline, ?_, ?_⟩
  · intro deadline hdeadline env hlapsed
    exact executeEscape_ok hlive' hdeadline hlapsed
  · intro hquiet env hround hstale hfits
    have hbox' : s'.inbox s'.settledInboxCursor = some head := by
      rw [hstands.settled, hstands.head]
      exact hbox
    rw [← hstands.timeout] at hstale
    rw [← hstands.grace] at hfits ⊢
    obtain ⟨s₁, deadline, hok, hdeadline, hsum, hlive₁, hpending₁⟩ :=
      signalEscape_ok hlive' hquiet (hstands.pending hpending) hbox' hstale hfits
    refine ⟨s₁, deadline, hok, hsum, ?_⟩
    intro round'' s'' log'' hlater'
    rcases hlater'.stands hlive₁ hpending₁ with hescaped | ⟨hlive'', hstands'⟩
    · exact .inl hescaped
    · right
      intro env' hlapsed
      exact executeEscape_ok hlive'' (hstands'.deadline deadline hdeadline) hlapsed

end Results

section Sample
attribute [local instance] Crypto.unsigned

/-- A deposit nobody settles, under a batch that was opened for it and left. -/
def sampleAbandoned : List (Env × Call) :=
  [sampleDeposit, (sampleEnv (sampleAccount 1) 100, .openBatch 10 1)]

theorem sampleAbandoned_evaluated :
    let s := (samplePlayed 100000 sampleAbandoned).1
    (play sampleApp (sampleStart 100000) [] sampleAbandoned).isOk = true ∧ s.escaped = false ∧
      s.settledInboxCursor < s.inboxCursor := by
  decide +kernel

theorem sampleAbandoned_run : Run sampleApp 100000 100 (samplePlayed 100000 sampleAbandoned).1
    (samplePlayed 100000 sampleAbandoned).2 :=
  samplePlayed_run 100000 sampleAbandoned sampleAbandoned_evaluated.1 (by decide)

theorem sampleAbandoned_opens :
    let s := (samplePlayed 100000 sampleAbandoned).1
    let log := (samplePlayed 100000 sampleAbandoned).2
    (∀ env : Env, s.escapeDeadline = none → env.round.toNat + s.escapeGrace.toNat < 2 ^ 64 →
      ((∃ s', exec sampleApp env s .signalEscape = .ok s') ↔
        ∃ (i : ℕ) (record : InboxRecord), s.settledInboxCursor.toNat ≤ i ∧
          (filed sampleApp log)[i]? = some record ∧
          record.round.toNat + s.inboxTimeout.toNat < env.round.toNat)) ∧
    ∃ head, (filed sampleApp log)[s.settledInboxCursor.toNat]? = some head ∧
      ∀ {round' s' log'}, Later sampleApp (Silent sampleApp) 100 s log round' s' log' →
        HasEscaped s' log' ∨ WayOut sampleApp s head round' s' log' :=
  escape_hatch_opens sampleAbandoned_run (by decide +kernel) (by decide)

end Sample

end PaymentRollup.Contract
