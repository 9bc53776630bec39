import PaymentRollup.Lib.HashChain
import PaymentRollup.Rollup.Transaction

/-! # The inbox, payout and chunk commitments -/
namespace PaymentRollup

variable [Crypto]

section Inbox

/-- One L1 action, in the global order the settlement must submit it. -/
inductive InboxItem where
  | deposit (recipient : Address) (amount : UInt64)
  | forcedWithdrawal (address : Address) (recipient : L1Address)
deriving DecidableEq, Repr

/-- Where the inbox chain starts: nothing has been accepted. -/
def inboxChainGenesis : Word := Word.zero

def depositString (chain : Word) (receiver : Address) (amount : UInt64) : Bytes :=
  ascii ['I', 'N', 'B', 'O', 'X', 'D'] ++ chain.bytes ++ receiver.bytes ++ toBeBytes amount

def requestString (chain : Word) (address : Address) (recipient : L1Address) : Bytes :=
  ascii ['I', 'N', 'B', 'O', 'X', 'W'] ++ chain.bytes ++ address.bytes ++ recipient.bytes

def accumulateDeposit (chain : Word) (receiver : Address) (amount : UInt64) : Word :=
  sha256 (depositString chain receiver amount)

def accumulateRequest (chain : Word) (address : Address) (recipient : L1Address) : Word :=
  sha256 (requestString chain address recipient)

/-- What a transaction takes out of the inbox. -/
def Transaction.inboxItem? : Transaction → Option InboxItem
  | .deposit d => some (.deposit d.receiver d.amount)
  | .forcedWithdrawal f => some (.forcedWithdrawal f.address f.recipient)
  | .payment _ => none
  | .withdrawal _ => none

def inboxItems (txns : List Transaction) : List InboxItem := txns.filterMap Transaction.inboxItem?

def InboxItem.string (chain : Word) : InboxItem → Bytes
  | .deposit recipient amount => depositString chain recipient amount
  | .forcedWithdrawal address recipient => requestString chain address recipient

def foldInbox (chain : Word) (items : List InboxItem) : Word :=
  HashChain.fold sha256 InboxItem.string chain items

end Inbox

section Payouts

/-- A payment the settlement contract owes. -/
abbrev Payout := L1Address × UInt64

def terminalString (domain : DeploymentDomain) : Bytes :=
  ascii ['W', 'E', 'N', 'D'] ++ domain.bytes

def withdrawalChainTerminal (domain : DeploymentDomain) : Word := sha256 (terminalString domain)

def withdrawalString (tail : Word) (recipient : L1Address) (amount : UInt64) : Bytes :=
  ascii ['W', 'P', 'A', 'Y'] ++ tail.bytes ++ recipient.bytes ++ toBeBytes amount

/-- Fold one payout onto the front of a chain; `tail` is the value that follows it. -/
def accumulateWithdrawal (tail : Word) (recipient : L1Address) (amount : UInt64) : Word :=
  sha256 (withdrawalString tail recipient amount)

def withdrawalChain (domain : DeploymentDomain) (payouts : List Payout) : Word :=
  payouts.reverse.foldl (fun tail payout => accumulateWithdrawal tail payout.1 payout.2)
    (withdrawalChainTerminal domain)

structure WithdrawalLink where
  recipient : L1Address
  amount : UInt64
  tail : Word
deriving DecidableEq, Repr

/-- Every payout call a chain requires, in the order the contract will accept them. -/
def withdrawalLinks (domain : DeploymentDomain) (payouts : List Payout) : List WithdrawalLink :=
  let (links, _) := payouts.reverse.foldl
    (fun (links, tail) (recipient, amount) =>
      (links ++ [⟨recipient, amount, tail⟩], accumulateWithdrawal tail recipient amount))
    (([] : List WithdrawalLink), withdrawalChainTerminal domain)
  links.reverse

end Payouts

section Chunks

def maxAppArg : ℕ := 4096
def abiLengthPrefix : ℕ := 2

/-- Largest fragment of a batch. -/
def chunkSize : ℕ := maxAppArg - abiLengthPrefix

def chunkCount (batchLen : ℕ) : ℕ := (batchLen + chunkSize - 1) / chunkSize

/-- `bytes.chunks(CHUNK_SIZE)`. -/
def chunks (bytes : Bytes) : List Bytes :=
  (List.range (chunkCount bytes.length)).map fun i => (bytes.drop (i * chunkSize)).take chunkSize

def seedString (domain : DeploymentDomain) (batchLen : UInt64) : Bytes :=
  ascii ['B', 'A', 'T', 'C', 'H'] ++ domain.bytes ++ toBeBytes batchLen

def chunkAccumulatorSeed (domain : DeploymentDomain) (batchLen : ℕ) : Word :=
  sha256 (seedString domain (UInt64.ofNat batchLen))

def chunkDigest (chunk : Bytes) : Word := sha256 chunk

def chunkString (accumulator chunkDigest : Word) : Bytes :=
  ascii ['C', 'H', 'U', 'N', 'K'] ++ accumulator.bytes ++ chunkDigest.bytes

def accumulateChunk (accumulator chunkDigest : Word) : Word :=
  sha256 (chunkString accumulator chunkDigest)

/-- Commitment to the batch bytes, folded over the chunks they are posted in. -/
def batchCommitment (domain : DeploymentDomain) (batchBytes : Bytes) : Word :=
  (chunks batchBytes).foldl
    (fun accumulator chunk => accumulateChunk accumulator (chunkDigest chunk))
    (chunkAccumulatorSeed domain batchBytes.length)

/-- What a proof exposes: 192 bytes. -/
def publicValues (domain : DeploymentDomain) (oldRoot newRoot : Word) (batchBytes : Bytes)
    (oldInboxChain newInboxChain withdrawalChain : Word) : Bytes :=
  oldRoot.bytes ++ newRoot.bytes ++ (batchCommitment domain batchBytes).bytes ++
    oldInboxChain.bytes ++ newInboxChain.bytes ++ withdrawalChain.bytes

end Chunks

end PaymentRollup
