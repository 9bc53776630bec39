import PaymentRollup.Rollup.Verify

/-! # The sequencer's ledger

The builder panics on a transaction it cannot apply, which is `none` here. Its account
table and its tree are written together and kept apart, as in the source.
-/
namespace PaymentRollup

variable [Crypto]

/-- A transaction as submitted, before the sequencer has placed it in a block. -/
inductive SignedTransaction where
  | payment (payment : Payment) (sig : Signature)
  | deposit (deposit : Deposit)
  | withdrawal (withdrawal : Withdrawal) (sig : Signature)
  | forcedWithdrawal (forced : ForcedWithdrawal)
deriving DecidableEq, Repr

/-- The transaction a sequencer makes of a submitted one. -/
def SignedTransaction.txn : SignedTransaction → Transaction
  | .payment p _ => .payment p
  | .deposit d => .deposit d
  | .withdrawal w _ => .withdrawal w
  | .forcedWithdrawal f => .forcedWithdrawal f

structure Ledger where
  domain : DeploymentDomain
  accounts : AccountMap
  /-- Commitment to `accounts`. -/
  tree : SparseMerkleTree
  /-- Fold over every inbox item this ledger has applied. -/
  inboxChain : Word

namespace Ledger

def withDomain (domain : DeploymentDomain) : Ledger :=
  ⟨domain, fun _ => none, .new, inboxChainGenesis⟩

def stateRoot (l : Ledger) : Word := l.tree.root

def insertAccount (l : Ledger) (address : Address) (account : Account) : Ledger :=
  { l with
    accounts := Function.update l.accounts address (some account)
    tree := l.tree.update address (some account) }

/-- An account that already exists at the key's address is left untouched. -/
def createAccount (l : Ledger) (scheme : Scheme) (pubKey : Bytes) : Address × Ledger :=
  let (address, account) := Account.fromPublicKey scheme pubKey
  (address, if (l.accounts address).isSome then l else l.insertAccount address account)

/-- The slot for `address` as it stands. -/
def witness (l : Ledger) (address : Address) : LeafWitness :=
  ⟨l.accounts address, l.tree.proof address⟩

/-- Debit, returning the witness for the slot as it stood beforehand. -/
def debit (l : Ledger) (sender : Address) (amount fee : UInt64) (sig : Signature)
    (bytesToSign : UInt64 → Bytes) : Option (LeafWitness × Ledger) := do
  let account ← l.accounts sender
  let account ← account.bumpNonce.toOption
  (sig.verify account (bytesToSign account.nonce)).toOption
  let balance ← (checkedSub account.amount amount).bind fun balance => checkedSub balance fee
  some (l.witness sender, l.insertAccount sender { account with amount := balance })

def credit (l : Ledger) (receiver : Address) (amount : UInt64) : Option (LeafWitness × Ledger) := do
  let account := (l.accounts receiver).getD (Account.empty receiver)
  let balance ← checkedAdd account.amount amount
  some (l.witness receiver, l.insertAccount receiver { account with amount := balance })

/-- The fee sink's credit, for a nonzero fee only. -/
def creditFee (l : Ledger) (fee : UInt64) : Option (Option LeafWitness × Ledger) :=
  if fee ≠ 0 then do
    let (witness, l) ← l.credit feeSink fee
    some (some witness, l)
  else some (none, l)

/-- What the builder's loop carries from one transaction to the next. -/
structure Building where
  ledger : Ledger
  payouts : List Payout
  txns : List Transaction
  entries : List TxnSidecar

def Building.push (b : Building) (ledger : Ledger) (paid : List Payout) (txn : Transaction)
    (entry : TxnSidecar) : Building :=
  ⟨ledger, b.payouts ++ paid, b.txns ++ [txn], b.entries ++ [entry]⟩

def Building.step (b : Building) : SignedTransaction → Option Building
  | .payment payment sig => do
    let (senderWitness, l) ← b.ledger.debit payment.header.sender payment.amount
      payment.header.fee sig fun nonce => payment.bytesToSign b.ledger.domain nonce
    let (receiverWitness, l) ← l.credit payment.receiver payment.amount
    let (feeSinkWitness, l) ← l.creditFee payment.header.fee
    some (b.push l [] (.payment payment)
      (.payment ⟨sig, senderWitness, receiverWitness, feeSinkWitness⟩))
  | .deposit deposit => do
    let (receiverWitness, l) ← b.ledger.credit deposit.receiver deposit.amount
    let inboxChain := accumulateDeposit l.inboxChain deposit.receiver deposit.amount
    some (b.push { l with inboxChain } [] (.deposit deposit) (.deposit ⟨receiverWitness⟩))
  | .withdrawal withdrawal sig =>
    if minWithdrawal ≤ withdrawal.amount then do
      let (senderWitness, l) ← b.ledger.debit withdrawal.header.sender withdrawal.amount
        withdrawal.header.fee sig fun nonce => withdrawal.bytesToSign b.ledger.domain nonce
      let (feeSinkWitness, l) ← l.creditFee withdrawal.header.fee
      some (b.push l [(withdrawal.recipient, withdrawal.amount)] (.withdrawal withdrawal)
        (.withdrawal ⟨sig, senderWitness, feeSinkWitness⟩))
    else none
  | .forcedWithdrawal forced => do
    let senderWitness := b.ledger.witness forced.address
    let balance := (b.ledger.accounts forced.address).elim 0 Account.amount
    let inboxChain := accumulateRequest b.ledger.inboxChain forced.address forced.recipient
    if minWithdrawal ≤ balance then do
      let account ← b.ledger.accounts forced.address
      let account ← { account with amount := 0 }.bumpNonce.toOption
      let l := b.ledger.insertAccount forced.address account
      some (b.push { l with inboxChain } [(forced.recipient, balance)] (.forcedWithdrawal forced)
        (.forcedWithdrawal ⟨senderWitness⟩))
    else
      some (b.push { b.ledger with inboxChain } [] (.forcedWithdrawal forced)
        (.forcedWithdrawal ⟨senderWitness⟩))

/-- Apply `stxns` in order, splitting them into a block's two halves. -/
def getBlock (l : Ledger) (stxns : List SignedTransaction) : Option (Block × Ledger) := do
  let b ← stxns.foldlM Building.step ⟨l, [], [], []⟩
  some (
    { domain := b.ledger.domain
      oldRoot := l.stateRoot
      newRoot := b.ledger.stateRoot
      oldInboxChain := l.inboxChain
      newInboxChain := b.ledger.inboxChain
      withdrawalChain := PaymentRollup.withdrawalChain b.ledger.domain b.payouts
      batch := ⟨b.txns⟩
      sidecar := ⟨b.entries⟩ }, b.ledger)

/-- The ledgers a sequencer of one deployment can hold. -/
inductive Reached (domain : DeploymentDomain) : Ledger → Prop
  | new : Reached domain (withDomain domain)
  | insertAccount {l : Ledger} (h : Reached domain l) (address : Address) (account : Account) :
      Reached domain (l.insertAccount address account)
  | createAccount {l : Ledger} (h : Reached domain l) (scheme : Scheme) (pubKey : Bytes) :
      Reached domain (l.createAccount scheme pubKey).2
  | getBlock {l l' : Ledger} {block : Block} (h : Reached domain l)
      (stxns : List SignedTransaction) (hblock : l.getBlock stxns = some (block, l')) :
      Reached domain l'

end Ledger

end PaymentRollup
