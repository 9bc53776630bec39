import PaymentRollup.Contract.Run

/-! # The box a call touches

A call reads and writes one box at most, told by its arguments and the cursors alone. Whatever the
other boxes hold, it fails with the same rejection or ends in the same state, and leaves them alone.
-/
namespace PaymentRollup.Contract

section Statements

inductive Box where
  | inbox (index : UInt64)
  | exit (address : Address)
deriving DecidableEq

/-- The key prefix of the box map, and the key. -/
def Box.name : Box → Bytes
  | .inbox index => ascii ['i'] ++ itob index
  | .exit address => ascii ['e'] ++ address.bytes

/-- The box a call may touch. -/
def Call.box? (s : State) : Call → Option Box
  | .deposit _ _ => some (.inbox s.inboxCursor)
  | .requestWithdrawal _ _ _ _ _ _ _ => some (.inbox s.inboxCursor)
  | .pruneRequest index => some (.inbox index)
  | .pruneDeposit index => some (.inbox index)
  | .reclaimDeposit index => some (.inbox index)
  | .forceExit address _ _ _ _ _ _ _ _ => some (.exit address)
  | .signalEscape =>
    if s.settledInboxCursor < s.inboxCursor then some (.inbox s.settledInboxCursor) else none
  | .openBatch _ target =>
    if s.settledInboxCursor < target then some (.inbox (target - 1)) else none
  | _ => none

/-- The state, but for the boxes that are not named: these are those of another. -/
def State.graft (s : State) (named : Box → Prop) [DecidablePred named] (other : State) : State :=
  { s with
    inbox := fun index => if named (.inbox index) then s.inbox index else other.inbox index
    exits := fun address => if named (.exit address) then s.exits address else other.exits address }

end Statements

section Grafts
variable {named : Box → Prop} [DecidablePred named] {other s : State} {index : UInt64}
  {address : Address} {app : App} {env : Env}

theorem graft_inbox (h : named (.inbox index)) :
    (s.graft named other).inbox index = s.inbox index := if_pos h

theorem graft_exits (h : named (.exit address)) :
    (s.graft named other).exits address = s.exits address := if_pos h

theorem graft_update_inbox (h : named (.inbox index)) (record : Option InboxRecord) :
    Function.update (s.graft named other).inbox index record =
      (State.graft { s with inbox := Function.update s.inbox index record } named other).inbox := by
  funext i
  by_cases hi : i = index
  · subst hi
    rw [graft_inbox h, Function.update_self]
    exact (Function.update_self i record s.inbox).symm
  · rw [Function.update_of_ne hi]
    simp only [State.graft, Function.update_of_ne hi]

theorem graft_update_exits (h : named (.exit address)) (amount : Option UInt64) :
    Function.update (s.graft named other).exits address amount =
      (State.graft { s with exits := Function.update s.exits address amount } named
        other).exits := by
  funext a
  by_cases ha : a = address
  · subst ha
    rw [graft_exits h, Function.update_self]
    exact (Function.update_self a amount s.exits).symm
  · rw [Function.update_of_ne ha]
    simp only [State.graft, Function.update_of_ne ha]

theorem boxCost_graft (h : named (.inbox index)) :
    (s.graft named other).boxCost app index = s.boxCost app index := by
  rw [State.boxCost, graft_inbox h, State.boxCost]

theorem createInboxBox_graft (h : named (.inbox index)) :
    (s.graft named other).createInboxBox app index =
      (s.createInboxBox app index).graft named other := by
  rw [State.createInboxBox, boxCost_graft h]
  rfl

theorem deleteInboxBox_graft (h : named (.inbox index)) :
    (s.graft named other).deleteInboxBox app index =
      (s.deleteInboxBox app index).graft named other := by
  rw [State.deleteInboxBox, graft_update_inbox h]
  rfl

theorem checkMinBalance_graft (s : State) : (s.graft named other).checkMinBalance =
    s.checkMinBalance.map (·.graft named other) := by
  rw [State.checkMinBalance, State.checkMinBalance, map_bind]
  rfl

theorem receive_graft (payment : PaymentTxn) (s : State) :
    (s.graft named other).receive app payment =
      (s.receive app payment).map (·.graft named other) := by
  rw [State.receive, State.receive, map_bind]
  refine bind_congr fun _ => ?_
  split_ifs
  · exact checkMinBalance_graft { s with balance := s.balance + payment.amount.toNat }
  · rfl

theorem pay_graft (receiver : L1Address) (amount : UInt64) (s : State) :
    (s.graft named other).pay app env receiver amount =
      (s.pay app env receiver amount).map (·.graft named other) := by
  simp only [State.pay, map_bind]
  refine bind_congr fun _ => bind_congr fun _ => ?_
  split_ifs
  · exact checkMinBalance_graft s
  · exact checkMinBalance_graft { s with balance := s.balance - amount.toNat }

theorem creditEscapeProgress_graft (discharged : UInt64) (s : State) :
    (s.graft named other).creditEscapeProgress discharged =
      (s.creditEscapeProgress discharged).map (·.graft named other) := by
  have hsame : (s.graft named other).escapeDeadline = s.escapeDeadline := rfl
  unfold State.creditEscapeProgress
  rw [hsame]
  cases s.escapeDeadline with
  | none => rfl
  | some deadline =>
    simp only [map_bind]
    refine bind_congr fun _ => bind_congr fun _ => ?_
    split_ifs
    · rw [map_bind]
      rfl
    · rfl

theorem receive_cursor {payment : PaymentTxn} {s' : State} (h : s.receive app payment = .ok s') :
    s'.inboxCursor = s.inboxCursor := by
  obtain ⟨-, ⟨-, -, rfl⟩ | ⟨-, rfl⟩⟩ := State.receive_eq_ok.mp h <;> rfl

theorem pruneRequest_graft (h : named (.inbox index)) :
    pruneRequest app env index (s.graft named other) =
      (pruneRequest app env index s).map (·.graft named other) := by
  simp only [pruneRequest, map_bind, graft_inbox h, deleteInboxBox_graft h, pay_graft]
  rfl

theorem pruneDeposit_graft (h : named (.inbox index)) :
    pruneDeposit app env index (s.graft named other) =
      (pruneDeposit app env index s).map (·.graft named other) := by
  simp only [pruneDeposit, map_bind, graft_inbox h, deleteInboxBox_graft h, pay_graft]
  rfl

theorem reclaimDeposit_graft (h : named (.inbox index)) :
    reclaimDeposit app env index (s.graft named other) =
      (reclaimDeposit app env index s).map (·.graft named other) := by
  simp only [reclaimDeposit, map_bind, graft_inbox h, deleteInboxBox_graft h, pay_graft]
  rfl

theorem signalEscape_graft (h : s.settledInboxCursor < s.inboxCursor →
      named (.inbox s.settledInboxCursor)) :
    signalEscape env (s.graft named other) =
      (signalEscape env s).map (·.graft named other) := by
  simp only [signalEscape, map_bind]
  refine bind_congr fun _ => bind_congr fun _ => bind_congr_ok fun _ hpending => ?_
  have hnamed := h (assert_eq_ok.mp hpending)
  simp only [State.graft, if_pos hnamed]
  rfl

theorem sub_one_eq_ok {target last : UInt64} (h : sub target 1 = .ok last) : target - 1 = last := by
  have hsum := sub_eq_ok.mp h
  rw [← UInt64.toNat_inj, UInt64.toNat_sub]
  have := target.toNat_lt
  simp only [UInt64.toNat_one] at hsum ⊢
  omega

theorem checkpoint_graft {target : UInt64} (h : target ≠ s.settledInboxCursor →
      named (.inbox (target - 1))) :
    (s.graft named other).checkpoint target = s.checkpoint target := by
  have hcursor : (s.graft named other).settledInboxCursor = s.settledInboxCursor := rfl
  rw [State.checkpoint, State.checkpoint, hcursor]
  split_ifs with htarget
  · rfl
  · refine bind_congr_ok fun last hlast => ?_
    rw [graft_inbox (sub_one_eq_ok hlast ▸ h htarget)]

theorem answerSignal_graft (cursor : UInt64) (s : State) :
    (s.graft named other).answerSignal cursor =
      (s.answerSignal cursor).map (·.graft named other) := by
  have hsame : (s.graft named other).escapeInboxTarget = s.escapeInboxTarget := rfl
  have hcursor : (s.graft named other).settledInboxCursor = s.settledInboxCursor := rfl
  unfold State.answerSignal
  rw [hsame, hcursor]
  cases s.escapeInboxTarget with
  | none => rfl
  | some target =>
    by_cases hanswered : target ≤ s.settledInboxCursor
    · simp only [if_pos hanswered]
      rfl
    · simp only [if_neg hanswered, map_bind]
      exact bind_congr fun consumed => creditEscapeProgress_graft consumed s

theorem dropBatch_graft (s : State) : (if (s.graft named other).batchLength.isSome then
      (s.graft named other).dropBatch else s.graft named other) =
    (if s.batchLength.isSome then s.dropBatch else s).graft named other := by
  have hsame : (s.graft named other).batchLength = s.batchLength := rfl
  rw [hsame]
  split_ifs <;> rfl

end Grafts

section Calls
variable [Crypto] {named : Box → Prop} [DecidablePred named] {other s : State} {index : UInt64}
  {address : Address} {app : App} {env : Env}

theorem deposit_graft {payment : PaymentTxn} {recipient : Address}
    (h : named (.inbox s.inboxCursor)) :
    deposit app env payment recipient (s.graft named other) =
      (deposit app env payment recipient s).map (·.graft named other) := by
  simp only [deposit, map_bind]
  refine bind_map_congr_ok (receive_graft payment s) fun s₁ hs₁ => ?_
  have hnamed : named (.inbox s₁.inboxCursor) := by
    rw [receive_cursor hs₁]
    exact h
  have hcursor : (s₁.graft named other).inboxCursor = s₁.inboxCursor := rfl
  rw [hcursor, boxCost_graft hnamed, createInboxBox_graft hnamed]
  refine bind_congr fun _ => bind_congr fun _ => bind_congr fun amount => bind_congr fun next => ?_
  rw [graft_update_inbox hnamed, ← checkMinBalance_graft]
  rfl

theorem requestWithdrawal_graft {payment : PaymentTxn} {nonce : UInt64} {recipient : L1Address}
    {scheme signature : Bytes} {pubKey : Word} (h : named (.inbox s.inboxCursor)) :
    requestWithdrawal app env payment nonce address recipient scheme pubKey signature
        (s.graft named other) =
      (requestWithdrawal app env payment nonce address recipient scheme pubKey signature s).map
        (·.graft named other) := by
  simp only [requestWithdrawal, map_bind]
  refine bind_map_congr_ok (receive_graft payment s) fun s₁ hs₁ => ?_
  have hnamed : named (.inbox s₁.inboxCursor) := by
    rw [receive_cursor hs₁]
    exact h
  have hcursor : (s₁.graft named other).inboxCursor = s₁.inboxCursor := rfl
  rw [hcursor, boxCost_graft hnamed, createInboxBox_graft hnamed]
  refine bind_congr fun _ => bind_congr fun _ => bind_congr fun _ => bind_congr fun _ =>
    bind_congr fun _ => bind_congr fun _ => bind_congr fun next => bind_congr fun nextNonce => ?_
  rw [graft_update_inbox hnamed, ← checkMinBalance_graft]
  rfl

theorem payWithdrawal_graft {recipient : L1Address} {amount : UInt64} {tail : Word} :
    payWithdrawal app env recipient amount tail (s.graft named other) =
      (payWithdrawal app env recipient amount tail s).map (·.graft named other) := by
  simp only [payWithdrawal, map_bind]
  refine bind_congr fun _ => bind_congr fun head => bind_congr fun _ => ?_
  refine bind_map_congr (g := fun t => t.graft named other) ?_ fun s₁ => pay_graft _ _ s₁
  by_cases hcreator : env.sender = app.creator
  · rw [if_pos hcreator, if_pos hcreator]
    exact creditEscapeProgress_graft 1 { s with
      pendingWithdrawals := if tail = withdrawalTerminal app then none else some tail }
  · rw [if_neg hcreator, if_neg hcreator]
    rfl

theorem forceExit_graft {nonce amount : UInt64} {authAddress : Address} {scheme signature : Bytes}
    {pubKey : Word} {recipient : L1Address} {siblings : Bytes} (h : named (.exit address)) :
    forceExit app env address nonce amount authAddress scheme pubKey signature recipient siblings
        (s.graft named other) =
      (forceExit app env address nonce amount authAddress scheme pubKey signature recipient siblings
        s).map (·.graft named other) := by
  simp only [forceExit, map_bind, graft_exits h, graft_update_exits h, ← pay_graft]
  rfl

theorem openBatch_graft {batchLength target : UInt64} (h : s.settledInboxCursor < target →
      named (.inbox (target - 1))) :
    openBatch app env batchLength target (s.graft named other) =
      (openBatch app env batchLength target s).map (·.graft named other) := by
  simp only [openBatch, map_bind]
  refine bind_congr fun _ => bind_congr fun _ => bind_congr fun _ => bind_congr fun _ =>
    bind_congr_ok fun _ hfrom => bind_congr fun _ => ?_
  rw [checkpoint_graft fun hne => h (UInt64.lt_of_le_of_ne (assert_eq_ok.mp hfrom) (Ne.symm hne))]
  rfl

theorem verifyBatch_graft {verifier : PaymentTxn} {signals : List Word}
    {publicValues : PublicValues} :
    verifyBatch app env verifier signals publicValues (s.graft named other) =
      (verifyBatch app env verifier signals publicValues s).map (·.graft named other) := by
  simp only [verifyBatch, map_bind, ← answerSignal_graft]
  exact bind_map_congr (receive_graft verifier s) fun s₁ => rfl

/-- Whatever the boxes that are not named hold, a call that names the box it may touch fails as it
would, or succeeds as it would and leaves them as they are. -/
theorem exec_graft {call : Call} (h : ∀ box ∈ call.box? s, named box) :
    exec app env (s.graft named other) call =
      (exec app env s call).map (·.graft named other) := by
  cases call with
  | fund payment => exact receive_graft payment s
  | securityCouncilEscape =>
    simp only [exec, securityCouncilEscape, map_bind]
    refine bind_congr fun _ => bind_congr fun _ => ?_
    exact congrArg Except.ok (dropBatch_graft { s.clearSignal with
      escaped := true
      pendingVerifierAddress := none
      pendingProgramVkeyHash := none
      pendingRecursionVkeyRoot := none
      verifierUpdateAfter := none
      applicationUpdateAfter := none
      pendingApprovalProgramHash := none })
  | scheduleVerifierUpdate =>
    simp only [exec, scheduleVerifierUpdate, map_bind]
    rfl
  | executeVerifierUpdate =>
    simp only [exec, executeVerifierUpdate, map_bind]
    rfl
  | scheduleApplicationUpdate =>
    simp only [exec, scheduleApplicationUpdate, map_bind]
    rfl
  | updateApplication =>
    simp only [exec, updateApplication, map_bind]
    rfl
  | deposit => exact deposit_graft (h _ rfl)
  | requestWithdrawal => exact requestWithdrawal_graft (h _ rfl)
  | pruneRequest => exact pruneRequest_graft (h _ rfl)
  | pruneDeposit => exact pruneDeposit_graft (h _ rfl)
  | reclaimDeposit => exact reclaimDeposit_graft (h _ rfl)
  | payWithdrawal => exact payWithdrawal_graft
  | forceExit => exact forceExit_graft (h _ rfl)
  | opUp => rfl
  | signalEscape => exact signalEscape_graft fun hpending => h _ (if_pos hpending)
  | executeEscape =>
    simp only [exec, executeEscape, map_bind]
    refine bind_congr fun _ => bind_congr fun _ => bind_congr fun _ => bind_congr fun _ => ?_
    exact congrArg Except.ok (dropBatch_graft { s.clearSignal with escaped := true })
  | abandonBatch =>
    simp only [exec, abandonBatch, map_bind]
    rfl
  | openBatch => exact openBatch_graft fun hlater => h _ (if_pos hlater)
  | accumulateChunk =>
    simp only [exec, accumulateChunk, map_bind]
    rfl
  | verifyBatch => exact verifyBatch_graft

end Calls

end PaymentRollup.Contract
