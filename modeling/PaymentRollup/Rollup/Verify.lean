import PaymentRollup.Lib.Outcome
import PaymentRollup.Rollup.Chains
import PaymentRollup.Rollup.Merkle
import PaymentRollup.Rollup.Signature

/-! # The replay a proof attests to

`verifyBatch` checks every write against the running root and advances it. The loop of the
source is a fold of `verifyTxn` over the paired transactions and sidecar entries.
-/
namespace PaymentRollup

variable [Crypto]

section Writes

def rootWith (address : Address) (account : Option Account) (proof : MerkleProof) :
    Except VerificationError Word :=
  demand (rootFromProof address account proof) .malformedProof

/-- Check that `witness` describes the slot for `address` as it stands at `root`. -/
def expectPreState (address : Address) (witness : LeafWitness) (root : Word) :
    Except VerificationError Unit := do
  let implied ← rootWith address witness.oldAccount witness.proof
  require (implied = root) .staleWitness

def debit (sender : Address) (witness : LeafWitness) (sig : Signature) (amount fee : UInt64)
    (root : Word) (bytesToSign : UInt64 → Bytes) : Except VerificationError Word := do
  expectPreState sender witness root
  let account ← demand witness.oldAccount .unknownSender
  let account ← account.bumpNonce
  sig.verify account (bytesToSign account.nonce)
  let balance ← demand
    ((checkedSub account.amount amount).bind fun balance => checkedSub balance fee)
    .insufficientFunds
  rootWith sender (some { account with amount := balance }) witness.proof

/-- A created account is pinned to `Account.empty`. -/
def credit (receiver : Address) (witness : LeafWitness) (amount : UInt64) (root : Word) :
    Except VerificationError Word := do
  expectPreState receiver witness root
  let account := witness.oldAccount.getD (Account.empty receiver)
  let balance ← demand (checkedAdd account.amount amount) .amountOverflow
  rootWith receiver (some { account with amount := balance }) witness.proof

/-- The third write of a payment or the second of a withdrawal, for a nonzero fee only. -/
def creditFee (fee : UInt64) (witness : Option LeafWitness) (root : Word) :
    Except VerificationError Word :=
  match witness with
  | none => if fee = 0 then .ok root else .error .sidecarKindMismatch
  | some witness =>
    if fee ≠ 0 then credit feeSink witness fee root else .error .sidecarKindMismatch

end Writes

/-- What the loop carries from one transaction to the next. -/
structure Replaying where
  root : Word
  inboxChain : Word
  payouts : List Payout
deriving DecidableEq

def verifyTxn (domain : DeploymentDomain) (r : Replaying) :
    Transaction × TxnSidecar → Except VerificationError Replaying
  | (.payment payment, .payment entry) => do
    let root ← debit payment.header.sender entry.senderWitness entry.sig payment.amount
      payment.header.fee r.root fun nonce => payment.bytesToSign domain nonce
    let root ← credit payment.receiver entry.receiverWitness payment.amount root
    let root ← creditFee payment.header.fee entry.feeSinkWitness root
    .ok { r with root }
  | (.deposit deposit, .deposit entry) => do
    let root ← credit deposit.receiver entry.receiverWitness deposit.amount r.root
    let inboxChain := accumulateDeposit r.inboxChain deposit.receiver deposit.amount
    .ok { r with root, inboxChain }
  | (.withdrawal withdrawal, .withdrawal entry) => do
    -- Before the debit, so that an unpayable withdrawal is rejected on its own terms.
    require (minWithdrawal ≤ withdrawal.amount) .withdrawalTooSmall
    let root ← debit withdrawal.header.sender entry.senderWitness entry.sig withdrawal.amount
      withdrawal.header.fee r.root fun nonce => withdrawal.bytesToSign domain nonce
    let root ← creditFee withdrawal.header.fee entry.feeSinkWitness root
    .ok { r with root, payouts := r.payouts ++ [(withdrawal.recipient, withdrawal.amount)] }
  | (.forcedWithdrawal forced, .forcedWithdrawal entry) => do
    expectPreState forced.address entry.senderWitness r.root
    let balance := entry.senderWitness.oldAccount.elim 0 Account.amount
    -- Folded whether or not the request can be paid.
    let inboxChain := accumulateRequest r.inboxChain forced.address forced.recipient
    if minWithdrawal ≤ balance then do
      let account ← demand entry.senderWitness.oldAccount .unknownSender
      let account ← { account with amount := 0 }.bumpNonce
      let root ← rootWith forced.address (some account) entry.senderWitness.proof
      .ok ⟨root, inboxChain, r.payouts ++ [(forced.recipient, balance)]⟩
    else .ok { r with inboxChain }
  | _ => .error .sidecarKindMismatch

def verifyBatch (domain : DeploymentDomain) (oldRoot inboxAnchor : Word) (batch : Batch)
    (sidecar : Sidecar) : Except VerificationError (Word × Word × Word) := do
  require (batch.txns.length = sidecar.entries.length) .sidecarLengthMismatch
  let r ← (batch.txns.zip sidecar.entries).foldlM (verifyTxn domain) ⟨oldRoot, inboxAnchor, []⟩
  .ok (r.root, r.inboxChain, withdrawalChain domain r.payouts)

def paidOut (pairs : List (Transaction × TxnSidecar)) : List Payout :=
  pairs.filterMap fun
    | (.withdrawal withdrawal, _) => some (withdrawal.recipient, withdrawal.amount)
    | (.forcedWithdrawal forced, .forcedWithdrawal entry) =>
      let balance := entry.senderWitness.oldAccount.elim 0 Account.amount
      if minWithdrawal ≤ balance then some (forced.recipient, balance) else none
    | _ => none

/-- Every payout a batch queues on L1, read back out of a batch and sidecar that verified. -/
def withdrawalPayouts (batch : Batch) (sidecar : Sidecar) : List Payout :=
  paidOut (batch.txns.zip sidecar.entries)

/-- A block as the sequencer holds it. -/
structure Block where
  domain : DeploymentDomain
  oldRoot : Word
  newRoot : Word
  oldInboxChain : Word
  newInboxChain : Word
  withdrawalChain : Word
  batch : Batch
  sidecar : Sidecar
deriving DecidableEq

/-- Replay a whole block and check it reaches its claimed roots and chains. -/
def verifyBlock (block : Block) : Except VerificationError Unit := do
  let (root, inboxChain, withdrawalChain) ← verifyBatch block.domain block.oldRoot
    block.oldInboxChain block.batch block.sidecar
  require (root = block.newRoot ∧ inboxChain = block.newInboxChain ∧
    withdrawalChain = block.withdrawalChain) .rootMismatch

end PaymentRollup
