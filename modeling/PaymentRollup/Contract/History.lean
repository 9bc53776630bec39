import PaymentRollup.Contract.Effects
import PaymentRollup.Rollup.Execution

/-! # What L1 recorded, and what stands behind a proof

Projections of the log: the inbox in arrival order, the chunks posted for the batch that is
open, the batches that settled and the payouts made since. Beside them stand the strings a
call hashes and the guest executions that the accepted proofs attest to.
-/
namespace PaymentRollup.Contract

variable [Crypto]

section Projections
variable (app : App)

/-- The L1 inbox, in arrival order. -/
def arrivals : Log → List InboxItem
  | [] => []
  | e :: log =>
    match e.call with
    | .deposit payment recipient => arrivals log ++
        [.deposit recipient (payment.amount - e.before.boxCost app e.before.inboxCursor)]
    | .requestWithdrawal _ _ address recipient _ _ _ =>
      arrivals log ++ [.forcedWithdrawal address recipient]
    | _ => arrivals log

/-- The chunks posted since a batch was last opened. -/
def posted : Log → List Bytes
  | [] => []
  | e :: log =>
    match e.call with
    | .openBatch _ _ => []
    | .accumulateChunk chunk => posted log ++ [chunk]
    | _ => posted log

/-- The bytes of every batch that settled, in settlement order. -/
def settledBatches : Log → List Bytes
  | [] => []
  | e :: log =>
    match e.call with
    | .verifyBatch _ _ _ => settledBatches log ++ [(posted log).flatten]
    | _ => settledBatches log

def paid : Log → List WithdrawalLink
  | [] => []
  | e :: log =>
    match e.call with
    | .payWithdrawal recipient amount tail => paid log ++ [⟨recipient, amount, tail⟩]
    | _ => paid log

/-- What each settlement left in `pendingWithdrawals`, in settlement order. -/
def installed : Log → List (Option Word)
  | [] => []
  | e :: log =>
    match e.call with
    | .verifyBatch _ _ _ => installed log ++ [e.after.pendingWithdrawals]
    | _ => installed log

/-- Calls that appear in no projection. -/
def Call.IsQuiet : Call → Prop
  | .deposit _ _ => False
  | .requestWithdrawal _ _ _ _ _ _ _ => False
  | .openBatch _ _ => False
  | .accumulateChunk _ => False
  | .verifyBatch _ _ _ => False
  | .payWithdrawal _ _ _ => False
  | _ => True

omit [Crypto] in
theorem Call.IsInert.isQuiet {call : Call} (h : call.IsInert) : call.IsQuiet := by
  cases call <;> first | exact h.elim | exact True.intro

omit [Crypto] in
theorem projections_quiet (e : Step) (h : e.call.IsQuiet) (log : Log) :
    arrivals app (e :: log) = arrivals app log ∧ posted (e :: log) = posted log ∧
      settledBatches (e :: log) = settledBatches log ∧ paid (e :: log) = paid log ∧
      installed (e :: log) = installed log := by
  rcases e with ⟨before, env, call, after⟩
  cases call <;> first | exact h.elim | exact ⟨rfl, rfl, rfl, rfl, rfl⟩

end Projections

section Replaying

def replayBatches : AccountMap → List Batch → Option (AccountMap × List (List Payout))
  | S, [] => some (S, [])
  | S, batch :: rest => do
    let (S, payouts) ← replay S batch.txns
    let (S, later) ← replayBatches S rest
    some (S, payouts :: later)

def emptyLedger : AccountMap := fun _ => none

omit [Crypto] in
theorem replayBatches_cons_eq_some {S S' : AccountMap} {batch : Batch} {rest : List Batch}
    {lists : List (List Payout)} : replayBatches S (batch :: rest) = some (S', lists) ↔
      ∃ S₁ payouts later, replay S batch.txns = some (S₁, payouts) ∧
        replayBatches S₁ rest = some (S', later) ∧ lists = payouts :: later := by
  simp only [replayBatches, Option.bind_eq_bind, Option.bind_eq_some_iff, Option.some.injEq,
    Prod.mk.injEq, Prod.exists]
  constructor
  · rintro ⟨S₁, payouts, hfirst, S₂, later, hrest, rfl, rfl⟩
    exact ⟨S₁, payouts, later, hfirst, hrest, rfl⟩
  · rintro ⟨S₁, payouts, later, hfirst, hrest, rfl⟩
    exact ⟨S₁, payouts, hfirst, S', later, hrest, rfl, rfl⟩

omit [Crypto] in
theorem replayBatches_concat {S S₁ S₂ : AccountMap} {batches : List Batch} {batch : Batch}
    {lists : List (List Payout)} {payouts : List Payout}
    (h : replayBatches S batches = some (S₁, lists))
    (hlast : replay S₁ batch.txns = some (S₂, payouts)) :
    replayBatches S (batches ++ [batch]) = some (S₂, lists ++ [payouts]) := by
  induction batches generalizing S lists with
  | nil =>
    cases h
    exact replayBatches_cons_eq_some.mpr ⟨S₂, payouts, [], hlast, rfl, rfl⟩
  | cons first rest ih =>
    obtain ⟨S', paid, later, hfirst, hrest, rfl⟩ := replayBatches_cons_eq_some.mp h
    exact replayBatches_cons_eq_some.mpr ⟨S', paid, _, hfirst, ih hrest, rfl⟩

omit [Crypto] in
theorem replayBatches_flat {S S' : AccountMap} {batches : List Batch} {lists : List (List Payout)}
    (h : replayBatches S batches = some (S', lists)) :
    replay S (batches.flatMap Batch.txns) = some (S', lists.flatten) := by
  induction batches generalizing S lists with
  | nil =>
    cases h
    rfl
  | cons batch rest ih =>
    obtain ⟨S₁, paid, later, hfirst, hrest, rfl⟩ := replayBatches_cons_eq_some.mp h
    rw [List.flatMap_cons, replay_append_eq_some]
    exact ⟨S₁, paid, later.flatten, hfirst, ih hrest, List.flatten_cons⟩

end Replaying

section Proofs

theorem PublicValues.words {p : PublicValues} {domain : DeploymentDomain}
    {oldRoot newRoot inboxAnchor inbox wchain : Word} {batchBytes : Bytes}
    (h : p.bytes = publicValues domain oldRoot newRoot batchBytes inboxAnchor inbox wchain) :
    p.oldRoot = oldRoot ∧ p.newRoot = newRoot ∧
      p.batchCommitment = PaymentRollup.batchCommitment domain batchBytes ∧
      p.oldInboxChain = inboxAnchor ∧ p.newInboxChain = inbox ∧ p.withdrawalChain = wchain := by
  have hlong : ∀ (w : Word) (n : ℕ), 32 ≤ n → w.bytes.drop n = [] :=
    fun w n hn => List.drop_eq_nil_of_le (w.size.le.trans hn)
  have htake : ∀ w : Word, w.bytes.take 32 = w.bytes := fun w => List.take_of_length_le w.size.le
  refine ⟨?_, ?_, ?_, ?_, ?_, ?_⟩ <;> refine Word.ext ?_ <;>
    simp [PublicValues.oldRoot, PublicValues.newRoot, PublicValues.batchCommitment,
      PublicValues.oldInboxChain, PublicValues.newInboxChain, PublicValues.withdrawalChain, word,
      h, publicValues, List.drop_append, Word.size, hlong, htake]

/-- The sibling a forced exit's proof spells out at `level`. -/
def siblingWord (siblings : Bytes) (level : ℕ) : Word :=
  (Word.ofBytes? ((siblings.drop (level * 32)).take 32)).getD Word.zero

/-- A forced exit's proof as the crates write one: the account at its own position. -/
def exitProof (siblings : Bytes) : MerkleProof :=
  ⟨(List.range (siblings.length / 32)).map (siblingWord siblings), .own⟩

/-- The strings a call hashes, keys' and programs' apart. -/
def callStrings (app : App) (s : State) : Call → Set Bytes
  | .deposit payment recipient =>
    {depositString s.inboxChain recipient (payment.amount - s.boxCost app s.inboxCursor)}
  | .requestWithdrawal _ _ address recipient _ _ _ =>
    {requestString s.inboxChain address recipient}
  | .payWithdrawal recipient amount tail =>
    {payoutString tail recipient amount, terminalString app}
  | .forceExit address nonce amount authAddress _ _ _ _ siblings =>
    rootStrings address (some ⟨nonce, amount, authAddress⟩) (exitProof siblings)
  | .openBatch batchLength _ => {seedString app batchLength}
  | .accumulateChunk chunk => {chunk} ∪ {string | ∃ accumulator,
      s.chunkAccumulator = some accumulator ∧ string = chunkString accumulator chunk}
  | .verifyBatch _ _ publicValues => {publicValues.bytes, terminalString app}
  | _ => ∅

/-- What the results about whole runs assume of every call in them: it does not replace the
program, the strings it hashes are among `Q`, and a proof it got accepted was made by
running the guest on the inputs `guest` names. -/
structure Call.Sound (app : App) (usize : ℕ) (guest : PublicValues → Execution) (Q : Set Bytes)
    (s : State) (call : Call) : Prop where
  program : ¬call.IsUpdate
  hashed : callStrings app s call ⊆ Q
  proved : ∀ verifier signals p, call = .verifyBatch verifier signals p →
    (guest p).Commits usize p.bytes ∧ (guest p).strings usize ⊆ Q

def Step.Sound (app : App) (usize : ℕ) (guest : PublicValues → Execution) (Q : Set Bytes)
    (e : Step) : Prop :=
  e.call.Sound app usize guest Q e.before

theorem Step.Sound.mono {app : App} {usize : ℕ} {guest : PublicValues → Execution} {Q R : Set Bytes}
    {e : Step} (h : e.Sound app usize guest Q) (hR : Q ⊆ R) : e.Sound app usize guest R := by
  obtain ⟨hprogram, hhashed, hproved⟩ := h
  refine ⟨hprogram, hhashed.trans hR, ?_⟩
  intro verifier signals p hcall
  obtain ⟨hcommits, hstrings⟩ := hproved verifier signals p hcall
  exact ⟨hcommits, hstrings.trans hR⟩

end Proofs

end PaymentRollup.Contract
