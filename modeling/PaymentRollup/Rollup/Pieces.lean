import PaymentRollup.Rollup.HostSettlement

/-! # A queue cut into blocks

The verifier and the sequencer carry their state from one transaction to the next and only ever
add to what they put out. So it makes no difference where a queue of transactions is cut into
blocks: the states between are the same, and what the blocks put out is what one block would.
-/
namespace PaymentRollup

section Frames

/-- A fold that only adds to its output can start from any output. -/
theorem foldlM_frame {m : Type → Type} [Monad m] [LawfulMonad m] {σ α : Type} {frame : σ → σ}
    {step : σ → α → m σ} (hstep : ∀ s a, step (frame s) a = frame <$> step s a) (s : σ)
    (as : List α) : as.foldlM step (frame s) = frame <$> as.foldlM step s := by
  induction as generalizing s with
  | nil => rw [List.foldlM_nil, List.foldlM_nil, map_pure]
  | cons a rest ih =>
    rw [List.foldlM_cons, List.foldlM_cons, hstep, bind_map_left, map_eq_pure_bind, bind_assoc]
    apply bind_congr
    intro s'
    rw [ih, map_eq_pure_bind]

end Frames

section Verifier
variable [Crypto]

/-- What the loop stands at where `paid` was queued before. -/
def Replaying.after (paid : List Payout) (r : Replaying) : Replaying :=
  { r with payouts := paid ++ r.payouts }

theorem verifyTxn_after (domain : DeploymentDomain) (paid : List Payout) (r : Replaying)
    (pair : Transaction × TxnSidecar) :
    verifyTxn domain (r.after paid) pair =
      (verifyTxn domain r pair).map (Replaying.after paid) := by
  rcases pair with ⟨txn, entry⟩
  cases txn <;> cases entry <;> try rfl
  · simp only [verifyTxn, Replaying.after, map_bind]
    rfl
  · simp only [verifyTxn, Replaying.after, map_bind]
    rfl
  · simp only [verifyTxn, Replaying.after, map_bind, List.append_assoc]
    rfl
  · simp only [verifyTxn, Replaying.after, map_bind]
    apply bind_congr
    intro _
    split
    · simp only [map_bind, List.append_assoc]
      rfl
    · rfl

theorem verifyTxns_after (domain : DeploymentDomain) (r : Replaying)
    (pairs : List (Transaction × TxnSidecar)) :
    pairs.foldlM (verifyTxn domain) r = (pairs.foldlM (verifyTxn domain)
      ⟨r.root, r.inboxChain, []⟩).map (Replaying.after r.payouts) := by
  have hr : r = Replaying.after r.payouts ⟨r.root, r.inboxChain, []⟩ := by
    rw [Replaying.after, List.append_nil]
  conv_lhs => rw [hr]
  exact foldlM_frame (verifyTxn_after domain r.payouts) _ pairs

def paired (piece : Batch × Sidecar) : List (Transaction × TxnSidecar) :=
  piece.1.txns.zip piece.2.entries

def joined (pieces : List (Batch × Sidecar)) : Batch × Sidecar :=
  (⟨pieces.flatMap fun piece => piece.1.txns⟩, ⟨pieces.flatMap fun piece => piece.2.entries⟩)

/-- Pieces verified one after another, each from where the last one led, with all they pay out. -/
def verifyPieces (domain : DeploymentDomain) :
    Word → Word → List (Batch × Sidecar) → Except VerificationError (Word × Word × List Payout)
  | root, inboxChain, [] => .ok (root, inboxChain, [])
  | root, inboxChain, (batch, sidecar) :: rest => do
    let (root, inboxChain, _) ← verifyBatch domain root inboxChain batch sidecar
    let (root, inboxChain, later) ← verifyPieces domain root inboxChain rest
    .ok (root, inboxChain, withdrawalPayouts batch sidecar ++ later)

variable {domain : DeploymentDomain} {root inboxChain : Word} {pieces : List (Batch × Sidecar)}

omit [Crypto] in
theorem joined_pairs (hlen : ∀ piece ∈ pieces, piece.1.txns.length = piece.2.entries.length) :
    paired (joined pieces) = pieces.flatMap paired ∧
      (joined pieces).1.txns.length = (joined pieces).2.entries.length := by
  induction pieces with
  | nil => exact ⟨rfl, rfl⟩
  | cons piece rest ih =>
    obtain ⟨hpiece, hrest⟩ := List.forall_mem_cons.mp hlen
    obtain ⟨hpairs, hlength⟩ := ih hrest
    simp only [paired, joined, List.flatMap_cons] at hpairs hlength ⊢
    rw [List.zip_append hpiece, hpairs, List.length_append, List.length_append, hpiece, hlength]
    exact ⟨rfl, rfl⟩

theorem verifyBatch_eq {batch : Batch} {sidecar : Sidecar}
    (hlen : batch.txns.length = sidecar.entries.length) :
    verifyBatch domain root inboxChain batch sidecar =
      ((paired (batch, sidecar)).foldlM (verifyTxn domain) ⟨root, inboxChain, []⟩).map
        fun r => (r.root, r.inboxChain, withdrawalChain domain r.payouts) := by
  simp only [verifyBatch, require, if_pos hlen, ok_bind]
  rfl

/-- The loop over the pieces together, from where the loop over the first one left off. -/
theorem verifyPieces_eq
    (hlen : ∀ piece ∈ pieces, piece.1.txns.length = piece.2.entries.length) :
    (pieces.flatMap paired).foldlM (verifyTxn domain) ⟨root, inboxChain, []⟩ =
      (verifyPieces domain root inboxChain pieces).map fun out => ⟨out.1, out.2.1, out.2.2⟩ := by
  induction pieces generalizing root inboxChain with
  | nil => rfl
  | cons piece rest ih =>
    obtain ⟨hpiece, hrest⟩ := List.forall_mem_cons.mp hlen
    rw [List.flatMap_cons, List.foldlM_append, verifyPieces, verifyBatch_eq hpiece]
    cases hloop : (paired piece).foldlM (verifyTxn domain) ⟨root, inboxChain, []⟩ with
    | error e => rfl
    | ok r =>
      have hpaid : r.payouts = withdrawalPayouts piece.1 piece.2 := verifyTxns_payouts hloop
      rw [ok_bind, verifyTxns_after, ih hrest, hpaid]
      cases hlater : verifyPieces domain r.root r.inboxChain rest with
      | error e => simp [Except.map, hlater]
      | ok out => simp [Except.map, hlater, Replaying.after]

/-- A batch verifies as its pieces do, one after another, wherever it is cut: with the same root,
inbox chain and payouts, or with the same error. -/
theorem verified_in_pieces (domain : DeploymentDomain) (root inboxChain : Word)
    (pieces : List (Batch × Sidecar))
    (hlen : ∀ piece ∈ pieces, piece.1.txns.length = piece.2.entries.length) :
    verifyBatch domain root inboxChain (joined pieces).1 (joined pieces).2 =
      (verifyPieces domain root inboxChain pieces).map
        fun out => (out.1, out.2.1, withdrawalChain domain out.2.2) := by
  obtain ⟨hpairs, hlength⟩ := joined_pairs hlen
  rw [verifyBatch_eq hlength, Prod.mk.eta, hpairs, verifyPieces_eq hlen]
  cases verifyPieces domain root inboxChain pieces <;> rfl

end Verifier

section Sequencer
variable [Crypto]

namespace Ledger

/-- What a block under construction holds where the one before it held `b₀`. -/
def Building.after (b₀ b : Building) : Building :=
  ⟨b.ledger, b₀.payouts ++ b.payouts, b₀.txns ++ b.txns, b₀.entries ++ b.entries⟩

omit [Crypto] in
theorem Building.push_after (b₀ b : Building) (l : Ledger) (paid : List Payout)
    (txn : Transaction) (entry : TxnSidecar) :
    (Building.after b₀ b).push l paid txn entry = Building.after b₀ (b.push l paid txn entry) := by
  simp only [push, after, List.append_assoc]

theorem Building.step_after (b₀ b : Building) (stxn : SignedTransaction) :
    (Building.after b₀ b).step stxn = (b.step stxn).map (Building.after b₀) := by
  have hledger : (Building.after b₀ b).ledger = b.ledger := rfl
  cases stxn with
  | payment p sig =>
    simp only [step, hledger, push_after, Option.bind_eq_bind, Option.map_bind, Function.comp_def,
      Option.map_some]
  | deposit d =>
    simp only [step, hledger, push_after, Option.bind_eq_bind, Option.map_bind, Function.comp_def,
      Option.map_some]
  | withdrawal w sig =>
    simp only [step, hledger, push_after, Option.bind_eq_bind]
    split
    · simp only [Option.map_bind, Function.comp_def, Option.map_some]
    · rfl
  | forcedWithdrawal f =>
    simp only [step, hledger, push_after, Option.bind_eq_bind]
    split
    · simp only [Option.map_bind, Function.comp_def, Option.map_some]
    · rfl

theorem Building.steps_after (b : Building) (stxns : List SignedTransaction) :
    stxns.foldlM Building.step b =
      (stxns.foldlM Building.step ⟨b.ledger, [], [], []⟩).map (Building.after b) := by
  have hb : b = Building.after b ⟨b.ledger, [], [], []⟩ := by
    simp only [after, List.append_nil]
  conv_lhs => rw [hb]
  exact foldlM_frame (Building.step_after b) _ stxns

/-- A session of the sequencer: one block after another. -/
def getBlocks : Ledger → List (List SignedTransaction) → Option (List Block × Ledger)
  | l, [] => some ([], l)
  | l, stxns :: rest => do
    let (block, l) ← l.getBlock stxns
    let (blocks, l) ← l.getBlocks rest
    some (block :: blocks, l)

/-- One block over everything a session from `l` to `l'` put into its blocks. -/
def joinBlocks (l l' : Ledger) (blocks : List Block) : Block where
  domain := l.domain
  oldRoot := l.stateRoot
  newRoot := l'.stateRoot
  oldInboxChain := l.inboxChain
  newInboxChain := l'.inboxChain
  withdrawalChain := PaymentRollup.withdrawalChain l.domain
    (blocks.flatMap fun block => withdrawalPayouts block.batch block.sidecar)
  batch := ⟨blocks.flatMap fun block => block.batch.txns⟩
  sidecar := ⟨blocks.flatMap fun block => block.sidecar.entries⟩

theorem getBlocks_eq {l : Ledger} (hl : l.Consistent) (pieces : List (List SignedTransaction)) :
    pieces.flatten.foldlM Building.step ⟨l, [], [], []⟩ =
      (l.getBlocks pieces).map fun out => ⟨out.2,
        out.1.flatMap fun block => withdrawalPayouts block.batch block.sidecar,
        out.1.flatMap fun block => block.batch.txns,
        out.1.flatMap fun block => block.sidecar.entries⟩ := by
  induction pieces generalizing l with
  | nil => rfl
  | cons stxns rest ih =>
    rw [List.flatten_cons, List.foldlM_append, getBlocks]
    cases hrun : stxns.foldlM Building.step ⟨l, [], [], []⟩ with
    | none => simp [getBlock, hrun]
    | some b =>
      have hbuilt := (built_start hl).run hrun
      have hpaid : b.payouts = withdrawalPayouts ⟨b.txns⟩ ⟨b.entries⟩ :=
        verifyTxns_payouts hbuilt.verified
      simp only [Option.bind_eq_bind, Option.bind_some]
      rw [Building.steps_after, ih hbuilt.consistent]
      cases hlater : b.ledger.getBlocks rest with
      | none => simp [getBlock, hrun, hlater]
      | some out => simp [getBlock, hrun, hlater, Building.after, hpaid]

end Ledger

/-- A queue of transactions leads to the same accounts, the same inbox chain and the same payouts
in the same order however it is cut into blocks, and can be built in blocks exactly where it can
be built in one. -/
theorem built_in_pieces {domain : DeploymentDomain} {l : Ledger} (hl : Ledger.Reached domain l)
    (pieces : List (List SignedTransaction)) :
    l.getBlock pieces.flatten =
      (l.getBlocks pieces).map fun out => (Ledger.joinBlocks l out.2 out.1, out.2) := by
  have hconsistent := hl.consistent.1
  have hrun := Ledger.getBlocks_eq hconsistent pieces
  cases hout : l.getBlocks pieces with
  | none =>
    rw [hout, Option.map_none] at hrun
    simp only [Ledger.getBlock, hrun, Option.bind_eq_bind, Option.bind_none, Option.map_none]
  | some out =>
    rw [hout, Option.map_some] at hrun
    have hdomain := ((Ledger.built_start hconsistent).run hrun).domain
    dsimp only at hdomain
    simp only [Ledger.getBlock, hrun, Option.bind_eq_bind, Option.bind_some, Option.map_some,
      hdomain]
    rfl

end Sequencer

section Sample
attribute [local instance] Crypto.unsigned

def samplePieces : List (Batch × Sidecar) :=
  (sampleBatch.txns.zip sampleSidecar.entries).map fun pair => (⟨[pair.1]⟩, ⟨[pair.2]⟩)

theorem samplePieces_verify :
    verifyBatch Word.zero Word.zero Word.zero (joined samplePieces).1 (joined samplePieces).2 =
      (verifyPieces Word.zero Word.zero Word.zero samplePieces).map
        fun out => (out.1, out.2.1, withdrawalChain Word.zero out.2.2) :=
  verified_in_pieces _ _ _ _ (by decide +kernel)

theorem sampleTxns_built_apart :
    (Ledger.withDomain Word.zero).getBlock (sampleTxns.map fun stxn => [stxn]).flatten =
      ((Ledger.withDomain Word.zero).getBlocks (sampleTxns.map fun stxn => [stxn])).map
        fun out => (Ledger.joinBlocks (Ledger.withDomain Word.zero) out.2 out.1, out.2) :=
  built_in_pieces .new _

end Sample

end PaymentRollup
