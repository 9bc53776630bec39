import PaymentRollup.Rollup.Execution
import PaymentRollup.Rollup.LedgerProofs

/-! # What the host makes of a block

The host runs a block the way the guest will, from its two encoded halves, and reads the
arguments of the settlement calls back off those bytes.
-/
namespace PaymentRollup

variable [Crypto]

/-- One block, reduced to the arguments the settlement contract takes. -/
structure Settlement where
  domain : DeploymentDomain
  oldRoot : Word
  newRoot : Word
  oldInboxChain : Word
  newInboxChain : Word
  withdrawalChain : Word
  deposits : List (Address × UInt64)
  withdrawals : List Payout
  requests : List (Address × L1Address)
  inbox : List InboxItem
  txnCount : ℕ
  batchBytes : Bytes
  sidecarBytes : Bytes
  publicValues : Bytes
deriving DecidableEq

namespace Settlement

def forBlock (usize : ℕ) (block : Block) : Except ExecutionError Settlement := do
  let batchBytes := block.batch.encode
  let sidecarBytes := block.sidecar.encode
  let publicValues ← execute usize block.domain block.oldRoot block.oldInboxChain batchBytes
    sidecarBytes
  -- The guest is never told what root or chain to expect.
  require ((publicValues.drop 32).take 32 = block.newRoot.bytes ∧
    (publicValues.drop 128).take 32 = block.newInboxChain.bytes ∧
    (publicValues.drop 160).take 32 = block.withdrawalChain.bytes) (.verification .rootMismatch)
  let batch ← (Batch.decode usize batchBytes).mapError .decode
  let deposits := batch.txns.filterMap fun
    | .deposit deposit => some (deposit.receiver, deposit.amount)
    | _ => none
  let sidecar ← (Sidecar.decode usize sidecarBytes batch).mapError .decode
  let requests := batch.txns.filterMap fun
    | .forcedWithdrawal forced => some (forced.address, forced.recipient)
    | _ => none
  .ok {
    domain := block.domain
    oldRoot := block.oldRoot
    newRoot := block.newRoot
    oldInboxChain := block.oldInboxChain
    newInboxChain := block.newInboxChain
    withdrawalChain := block.withdrawalChain
    deposits := deposits
    withdrawals := withdrawalPayouts batch sidecar
    requests := requests
    inbox := inboxItems batch.txns
    txnCount := block.batch.txns.length
    batchBytes := batchBytes
    sidecarBytes := sidecarBytes
    publicValues := publicValues }

/-- What `openBatch` is called with. -/
def batchLength (s : Settlement) : ℕ := s.batchBytes.length

/-- One `accumulateChunk` argument each, in the order they must be posted. -/
def chunks (s : Settlement) : List Bytes := PaymentRollup.chunks s.batchBytes

/-- The payout calls the contract will accept, in the only order it will accept them. -/
def withdrawalLinks (s : Settlement) : List WithdrawalLink :=
  PaymentRollup.withdrawalLinks s.domain s.withdrawals

end Settlement

def Block.execution (block : Block) : Execution :=
  ⟨block.domain, block.oldRoot, block.oldInboxChain, block.batch.encode, block.sidecar.encode⟩

section Blocks

namespace Ledger

theorem getBlock_replays {l l' : Ledger} (hl : l.Consistent) {stxns : List SignedTransaction}
    {block : Block} (h : l.getBlock stxns = some (block, l')) :
    replay l.accounts block.batch.txns =
      some (l'.accounts, withdrawalPayouts block.batch block.sidecar) := by
  simp only [getBlock, Option.bind_eq_bind, Option.bind_eq_some_iff, Option.some.injEq,
    Prod.mk.injEq] at h
  obtain ⟨b, hrun, rfl, rfl⟩ := h
  have hbuilt := (built_start hl).run hrun
  rw [hbuilt.replayed]
  exact congrArg (fun payouts => some (b.ledger.accounts, payouts))
    (verifyTxns_payouts hbuilt.verified)

end Ledger

end Blocks

section Hosting

/-- What a settlement that came out of a built block consists of. -/
structure Settlement.Hosts (s : Settlement) (usize : ℕ) (block : Block) : Prop where
  domain : s.domain = block.domain
  batchBytes : s.batchBytes = block.batch.encode
  inbox : s.inbox = inboxItems block.batch.txns
  withdrawals : s.withdrawals = withdrawalPayouts block.batch block.sidecar
  publicValues : s.publicValues = PaymentRollup.publicValues block.domain block.oldRoot
    block.newRoot s.batchBytes block.oldInboxChain block.newInboxChain
    (PaymentRollup.withdrawalChain block.domain s.withdrawals)
  commits : block.execution.Commits usize s.publicValues
  decoded : Batch.decode usize block.batch.encode = .ok block.batch
  witnessed : Sidecar.decode usize block.sidecar.encode block.batch = .ok block.sidecar

/-- The host agrees with the sequencer on every block the sequencer builds. -/
theorem Settlement.forBlock_hosts {l l' : Ledger} {block : Block}
    (h : Ledger.Proves l block l') {usize : ℕ} (husize : usize ≤ 2 ^ 64)
    (hbatch : block.batch.encode.length < usize)
    (hsidecar : block.sidecar.encode.length < usize) :
    ∃ s, Settlement.forBlock usize block = .ok s ∧ s.Hosts usize block := by
  have hexecute := Proves.execute h husize hbatch hsidecar
  have hwords : require (((PaymentRollup.publicValues block.domain block.oldRoot block.newRoot
        block.batch.encode block.oldInboxChain block.newInboxChain
        block.withdrawalChain).drop 32).take 32 = block.newRoot.bytes ∧
      ((PaymentRollup.publicValues block.domain block.oldRoot block.newRoot block.batch.encode
        block.oldInboxChain block.newInboxChain block.withdrawalChain).drop 128).take 32 =
        block.newInboxChain.bytes ∧
      ((PaymentRollup.publicValues block.domain block.oldRoot block.newRoot block.batch.encode
        block.oldInboxChain block.newInboxChain block.withdrawalChain).drop 160).take 32 =
        block.withdrawalChain.bytes) (ExecutionError.verification .rootMismatch) = .ok () := by
    have hlong : ∀ (w : Word) (n : ℕ), 32 ≤ n → w.bytes.drop n = [] :=
      fun w n hn => List.drop_eq_nil_of_le (w.size.le.trans hn)
    have htake : ∀ w : Word, w.bytes.take 32 = w.bytes :=
      fun w => List.take_of_length_le w.size.le
    rw [require_eq_ok]
    refine ⟨?_, ?_, ?_⟩ <;> simp [PaymentRollup.publicValues, List.drop_append, Word.size, hlong,
      htake]
  have hok : ∃ s, Settlement.forBlock usize block = .ok s := by
    simp only [forBlock, hexecute, ok_bind, hwords, Batch.decode_encode husize _ hbatch,
      Sidecar.decode_encode husize h.aligned hsidecar, Except.mapError, Except.ok.injEq,
      exists_eq']
  obtain ⟨s, hs⟩ := hok
  refine ⟨s, hs, ?_⟩
  simp only [forBlock, bind_eq_ok, hexecute, Batch.decode_encode husize _ hbatch,
    Except.mapError, Except.ok.injEq] at hs
  obtain ⟨_, rfl, _, -, _, rfl, _, hdecoded, rfl⟩ := hs
  rw [Sidecar.decode_encode husize h.aligned hsidecar] at hdecoded
  cases hdecoded
  refine ⟨rfl, rfl, rfl, rfl, ?_, hexecute, Batch.decode_encode husize _ hbatch,
    Sidecar.decode_encode husize h.aligned hsidecar⟩
  simp only [verifyBatch_payouts h.verified]

end Hosting

end PaymentRollup
