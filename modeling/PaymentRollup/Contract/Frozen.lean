import PaymentRollup.Contract.Filing
import PaymentRollup.Contract.Playing

/-! # An escape is terminal

Once the flag is set only deletions, payouts and exits go through, so a frozen state can
only be emptied.
-/
namespace PaymentRollup.Contract

section Frozen
variable [Crypto] {app : App} {env : Env} {s s₁ s' : State} {call : Call}

/-- One payout of a chain: from the word that commits to it to the word after it. -/
inductive PaidOne (app : App) : Option Word → Option Word → Prop
  | pay (recipient : L1Address) (amount : UInt64) (tail : Word) :
      PaidOne app (some (sha256 (payoutString tail recipient amount)))
        (if tail = withdrawalTerminal app then none else some tail)

/-- What can still differ between two states once the rollup has escaped. -/
structure Frozen (app : App) (s s' : State) : Prop where
  escaped : s'.escaped = true
  stateRoot : s'.stateRoot = s.stateRoot
  inboxChain : s'.inboxChain = s.inboxChain
  inboxCursor : s'.inboxCursor = s.inboxCursor
  settledInboxChain : s'.settledInboxChain = s.settledInboxChain
  settledInboxCursor : s'.settledInboxCursor = s.settledInboxCursor
  requestCursor : s'.requestCursor = s.requestCursor
  verifierAddress : s'.verifierAddress = s.verifierAddress
  programVkeyHash : s'.programVkeyHash = s.programVkeyHash
  recursionVkeyRoot : s'.recursionVkeyRoot = s.recursionVkeyRoot
  approvalProgram : s'.approvalProgram = s.approvalProgram
  clearStateProgram : s'.clearStateProgram = s.clearStateProgram
  payouts : Relation.ReflTransGen (PaidOne app) s.pendingWithdrawals s'.pendingWithdrawals
  exits : ∀ address amount, s.exits address = some amount → s'.exits address = some amount
  inbox : ∀ i record, s'.inbox i = some record → s.inbox i = some record

theorem Frozen.refl (app : App) (hescaped : s.escaped = true) : Frozen app s s :=
  ⟨hescaped, rfl, rfl, rfl, rfl, rfl, rfl, rfl, rfl, rfl, rfl, rfl, .refl, fun _ _ => id,
    fun _ _ => id⟩

theorem Frozen.trans (h : Frozen app s s₁) (h' : Frozen app s₁ s') : Frozen app s s' where
  escaped := h'.escaped
  stateRoot := h'.stateRoot.trans h.stateRoot
  inboxChain := h'.inboxChain.trans h.inboxChain
  inboxCursor := h'.inboxCursor.trans h.inboxCursor
  settledInboxChain := h'.settledInboxChain.trans h.settledInboxChain
  settledInboxCursor := h'.settledInboxCursor.trans h.settledInboxCursor
  requestCursor := h'.requestCursor.trans h.requestCursor
  verifierAddress := h'.verifierAddress.trans h.verifierAddress
  programVkeyHash := h'.programVkeyHash.trans h.programVkeyHash
  recursionVkeyRoot := h'.recursionVkeyRoot.trans h.recursionVkeyRoot
  approvalProgram := h'.approvalProgram.trans h.approvalProgram
  clearStateProgram := h'.clearStateProgram.trans h.clearStateProgram
  payouts := h.payouts.trans h'.payouts
  exits address amount hexit := h'.exits address amount (h.exits address amount hexit)
  inbox i record hrecord := h.inbox i record (h'.inbox i record hrecord)

omit [Crypto] in
theorem exits_write {exits : Address → Option UInt64} {address a : Address} {amount x : UInt64}
    (hfresh : exits address = none) (h : exits a = some x) :
    Function.update exits address (some amount) a = some x := by
  rw [Function.update_apply]
  split_ifs with ha
  · rw [ha, hfresh] at h
    cases h
  · exact h

section Updates
variable (hescaped : s.escaped = true)
include hescaped

omit [Crypto] in
/-- The update methods carry their own guards: a frozen rollup takes none of them. -/
theorem scheduleVerifierUpdate_frozen (v : L1Address) (p r : Word) :
    scheduleVerifierUpdate env v p r s ≠ .ok s' := by
  intro h
  simp [scheduleVerifierUpdate, hescaped, bind_eq_ok] at h

omit [Crypto] in
theorem executeVerifierUpdate_frozen : executeVerifierUpdate env s ≠ .ok s' := by
  intro h
  simp [executeVerifierUpdate, hescaped, bind_eq_ok] at h

omit [Crypto] in
theorem scheduleApplicationUpdate_frozen (hash : Word) :
    scheduleApplicationUpdate env hash s ≠ .ok s' := by
  intro h
  simp [scheduleApplicationUpdate, hescaped, bind_eq_ok] at h

theorem updateApplication_frozen (pages : List Bytes) (clear : Bytes) :
    updateApplication env pages clear s ≠ .ok s' := by
  intro h
  simp [updateApplication, hescaped, bind_eq_ok] at h

theorem inert_frozen (hcall : call.IsInert) (hok : exec app env s call = .ok s') :
    ∃ balance, s' = { s with balance } := by
  cases call with
  | fund payment =>
    obtain ⟨-, ⟨-, -, rfl⟩ | ⟨-, rfl⟩⟩ := State.receive_eq_ok.mp hok
    · exact ⟨_, rfl⟩
    · exact ⟨s.balance, rfl⟩
  | scheduleVerifierUpdate v p r => exact absurd hok (scheduleVerifierUpdate_frozen hescaped v p r)
  | executeVerifierUpdate => exact absurd hok (executeVerifierUpdate_frozen hescaped)
  | scheduleApplicationUpdate hash =>
    exact absurd hok (scheduleApplicationUpdate_frozen hescaped hash)
  | updateApplication pages clear =>
    exact absurd hok (updateApplication_frozen hescaped pages clear)
  | opUp nonce =>
    cases hok
    exact ⟨s.balance, rfl⟩
  | _ => exact hcall.elim

end Updates

theorem exec_frozen (hescaped : s.escaped = true) (hclosed : s.batchKeys.Closed)
    (hok : exec app env s call = .ok s') : Frozen app s s' := by
  have hdead : s.escaped = false → False := by
    intro hlive
    exact absurd (hlive.symm.trans hescaped) (by decide)
  have heffect := exec_effect hok
  cases heffect with
  | inert hcall =>
    obtain ⟨balance, heq⟩ := inert_frozen hescaped hcall hok
    rw [heq]
    exact { Frozen.refl app hescaped with }
  | deposit hlive => exact (hdead hlive).elim
  | request hlive => exact (hdead hlive).elim
  | prune => exact { Frozen.refl app hescaped with inbox := fun _ _ => inbox_delete }
  | reclaim => exact { Frozen.refl app hescaped with inbox := fun _ _ => inbox_delete }
  | @pay recipient amount tail deadline progress hhead =>
    refine { Frozen.refl app hescaped with payouts := .single ?_ }
    rw [hhead]
    exact .pay recipient amount tail
  | exit _ hfresh =>
    exact { Frozen.refl app hescaped with exits := fun _ _ => exits_write hfresh }
  | signal hlive => exact (hdead hlive).elim
  | escape _ _ hlive => exact (hdead hlive).elim
  | abandon => exact { Frozen.refl app hescaped with }
  | openBatch _ hlive => exact (hdead hlive).elim
  | chunk _ hlength =>
    have hnone : s.batchLength = none := hclosed.length_eq
    cases hnone.symm.trans hlength
  | settle _ hlive => exact (hdead hlive).elim

/-- The flag is only ever set by an escape, which itself changes nothing that it freezes. -/
theorem exec_escapes (hlive : s.escaped = false) (hok : exec app env s call = .ok s')
    (hescaped : s'.escaped = true) :
    (call = .executeEscape ∨ call = .securityCouncilEscape) ∧ Frozen app s s' := by
  cases exec_effect hok with
  | @escape call dropped hdropped _ hcall =>
    constructor
    · rcases hcall with ⟨hcall, -⟩ | ⟨hcall, -⟩
      · exact .inr hcall
      · exact .inl hcall
    · subst hdropped
      split_ifs <;> exact ⟨rfl, rfl, rfl, rfl, rfl, rfl, rfl, rfl, rfl, rfl, rfl, rfl, .refl,
        fun _ _ => id, fun _ _ => id⟩
  | _ => exact absurd (hlive.symm.trans hescaped) (by decide)

/-- The guards that keep a scheduled update, or a new batch, from ever going through. -/
structure Refuses (app : App) (s : State) : Prop where
  verifierUpdate : ∀ env, exec app env s .executeVerifierUpdate =
    .error (.assertion "the rollup has escaped")
  applicationUpdate : ∀ env pages clear, exec app env s (.updateApplication pages clear) =
    .error (.assertion "the rollup has escaped")
  scheduleVerifier : ∀ env v p r s', exec app env s (.scheduleVerifierUpdate v p r) ≠ .ok s'
  scheduleApplication : ∀ env hash s', exec app env s (.scheduleApplicationUpdate hash) ≠ .ok s'
  openBatch : ∀ env n target s', exec app env s (.openBatch n target) ≠ .ok s'

theorem refuses_of_escaped (hescaped : s.escaped = true) : Refuses app s where
  verifierUpdate env := by
    simp [exec, executeVerifierUpdate, hescaped, assert, require]
  applicationUpdate env pages clear := by
    simp [exec, updateApplication, hescaped, assert, require]
  scheduleVerifier env v p r s' := scheduleVerifierUpdate_frozen hescaped v p r
  scheduleApplication env hash s' := scheduleApplicationUpdate_frozen hescaped hash
  openBatch env n target s' h := by
    simp [exec, openBatch, hescaped, bind_eq_ok] at h

/-- From the call that sets the flag on, whatever anyone calls: the state stays frozen, no
batch is open, and no update that was scheduled before can be executed. -/
theorem escape_is_terminal {funds : ℕ} {round : UInt64} {log : Log}
    (hrun : Run app funds round s log) :
    (∀ env call s', s.escaped = false → exec app env s call = .ok s' → s'.escaped = true →
      (call = .executeEscape ∨ call = .securityCouncilEscape) ∧ Frozen app s s') ∧
    (s.escaped = true → ∀ {round' s' log'},
      Later app (fun _ _ _ => True) round s log round' s' log' →
        Frozen app s s' ∧ s'.batchKeys.Closed ∧ Refuses app s') := by
  constructor
  · intro env call s' hlive hok hescaped
    exact exec_escapes hlive hok hescaped
  · intro hescaped round' s' log' hlater
    have hclosed : ∀ {round s log}, Run app funds round s log → s.escaped = true →
        s.batchKeys.Closed := by
      intro round s log hrun hescaped
      rcases hrun.kept.batch with hclosed | ⟨n, c, hposting⟩
      · exact hclosed
      · exact absurd (hposting.live.symm.trans hescaped) (by decide)
    have hfrozen : Frozen app s s' := by
      induction hlater with
      | start => exact Frozen.refl app hescaped
      | call hlater env call _ _ hok ih =>
        exact ih.trans (exec_frozen ih.escaped (hclosed (hlater.run hrun) ih.escaped) hok)
    exact ⟨hfrozen, hclosed (hlater.run hrun) hfrozen.escaped, refuses_of_escaped hfrozen.escaped⟩

end Frozen

section Sample
attribute [local instance] Crypto.unsigned

def sampleEscape : List (Env × Call) :=
  [sampleDeposit, (sampleEnv (sampleAccount 8) 200, .signalEscape),
    (sampleEnv (sampleAccount 1) 300, .openBatch 10 1),
    (sampleEnv (sampleAccount 8) 1201, .executeEscape)]

/-- The accused sequencer lets the deadline pass with a batch half posted. -/
def sampleEscaped : State × Log := samplePlayed 100000 sampleEscape

theorem sampleEscaped_evaluated :
    (play sampleApp (sampleStart 100000) [] sampleEscape).isOk = true ∧
    sampleEscaped.1.escaped = true ∧ (exec sampleApp (sampleEnv (sampleAccount 8) 1300)
      sampleEscaped.1 (.reclaimDeposit 0)).isOk = true := by
  decide +kernel

theorem sampleEscaped_run : Run sampleApp 100000 1201 sampleEscaped.1 sampleEscaped.2 :=
  samplePlayed_run 100000 sampleEscape sampleEscaped_evaluated.1 (by decide)

theorem sampleEscaped_frozen : ∃ s' log', Later sampleApp (fun _ _ _ => True) 1201 sampleEscaped.1
    sampleEscaped.2 1300 s' log' ∧ s'.inbox 0 = none ∧ Frozen sampleApp sampleEscaped.1 s' ∧
      s'.batchKeys.Closed ∧ Refuses sampleApp s' := by
  obtain ⟨-, hescaped, hok⟩ := sampleEscaped_evaluated
  cases hreclaim : exec sampleApp (sampleEnv (sampleAccount 8) 1300) sampleEscaped.1
      (.reclaimDeposit 0) with
  | error e =>
    rw [hreclaim] at hok
    cases hok
  | ok s' =>
    have hlater : Later sampleApp (fun _ _ _ => True) 1201 sampleEscaped.1 sampleEscaped.2 1300 s' _ :=
      Later.start.call (sampleEnv (sampleAccount 8) 1300) (.reclaimDeposit 0) True.intro
        (by decide) hreclaim
    refine ⟨s', _, hlater, ?_, (escape_is_terminal sampleEscaped_run).2 hescaped hlater⟩
    cases exec_effect hreclaim with
    | inert hcall => exact hcall.elim
    | prune _ hcall => simp at hcall
    | escape _ _ _ hcall => simp at hcall
    | reclaim => simp

end Sample

end PaymentRollup.Contract
