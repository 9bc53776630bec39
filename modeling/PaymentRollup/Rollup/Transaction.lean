import PaymentRollup.Primitives

/-! # Accounts, transactions and the two halves of a block -/
namespace PaymentRollup

/-- A position in the rollup's tree. -/
abbrev Address := Word

/-- An account on the settlement chain, as the AVM holds one. -/
abbrev L1Address := Word

abbrev DeploymentDomain := Word

def minWithdrawal : UInt64 := 100000

/-- The sender of a deposit: a marker for value from outside. -/
def zeroAddress : Address := Word.zero

/-- The protocol account that receives transaction fees. -/
def feeSink : Address where
  bytes := [
    0x3c, 0x59, 0x3f, 0x54, 0x58, 0xdd, 0x87, 0x8c, 0x42, 0x37, 0x9b, 0x05, 0xb2, 0xb3, 0x2f, 0xc2,
    0x88, 0xb1, 0xff, 0x4a, 0x8e, 0x88, 0xf0, 0xa5, 0x09, 0x28, 0xe9, 0x9d, 0xb1, 0x8b, 0xed, 0x4d]
  size := rfl

inductive Scheme where
  | managed
  | ed25519
  | falcon1024HybridEd25519
deriving DecidableEq, Repr

def Scheme.all : List Scheme := [.managed, .ed25519, .falcon1024HybridEd25519]

def Scheme.identifier : Scheme → Bytes
  | .managed => ascii ['m', 'a', 'n']
  | .ed25519 => ascii ['e', 'd', 'd']
  | .falcon1024HybridEd25519 => ascii ['f', '1', 'h']

def Scheme.fromIdentifier (identifier : Bytes) : Option Scheme :=
  Scheme.all.find? fun scheme => scheme.identifier = identifier

@[simp] theorem Scheme.identifier_length (s : Scheme) : s.identifier.length = 3 := by
  cases s <;> rfl

@[simp] theorem Scheme.fromIdentifier_identifier (s : Scheme) :
    Scheme.fromIdentifier s.identifier = some s := by
  cases s <;> decide

inductive VerificationError where
  | invalidAuthAddress
  | invalidSignature
  | malformedKey
  | malformedSignature
  | invalidNonce
  | unknownSender
  | insufficientFunds
  | amountOverflow
  | withdrawalTooSmall
  | malformedProof
  | staleWitness
  | rootMismatch
  | sidecarLengthMismatch
  | sidecarKindMismatch
deriving DecidableEq, Repr

structure Account where
  nonce : UInt64
  amount : UInt64
  authAddress : Address
deriving DecidableEq, Repr

namespace Account

/-- What an account is created as when it is first paid. -/
def empty (address : Address) : Account := ⟨0, 0, address⟩

/-- The account as a leaf commits to it: 48 bytes. -/
def encode (a : Account) : Bytes :=
  toBeBytes a.nonce ++ toBeBytes a.amount ++ a.authAddress.bytes

def encodedSize : ℕ := 8 + 8 + 32

@[simp] theorem encode_length (a : Account) : a.encode.length = encodedSize := by
  simp [encode, encodedSize, a.authAddress.size]

def decode (bytes : { b : Bytes // b.length = encodedSize }) : Account where
  nonce := fromBeBytes (bytes.1.take 8)
  amount := fromBeBytes ((bytes.1.drop 8).take 8)
  authAddress := ⟨bytes.1.drop 16, by simp [bytes.2, encodedSize]⟩

@[simp] theorem decode_encode (a : Account) (h : a.encode.length = encodedSize) :
    decode ⟨a.encode, h⟩ = a := by
  have hn : a.encode.take 8 = toBeBytes a.nonce := by
    simp [encode, List.append_assoc]
  have hd : a.encode.drop 8 = toBeBytes a.amount ++ a.authAddress.bytes := by
    simp [encode, List.append_assoc]
  have ha : a.encode.drop 16 = a.authAddress.bytes := by
    rw [show 16 = 8 + 8 from rfl, ← List.drop_drop, hd]
    simp
  unfold decode
  simp only [hn, hd, ha]
  simp

theorem encode_inj {a b : Account} (h : a.encode = b.encode) : a = b := by
  have ha := decode_encode a a.encode_length
  have hb := decode_encode b b.encode_length
  simp only [h] at ha
  exact ha.symm.trans hb

/-- The next nonce is the only one a transaction from this account can carry. -/
def bumpNonce (a : Account) : Except VerificationError Account :=
  match checkedAdd a.nonce 1 with
  | some nonce => .ok { a with nonce }
  | none => .error .invalidNonce

end Account

/-- The accounts of a ledger. There are finitely many addresses, so every such map is finite. -/
abbrev AccountMap := Address → Option Account

structure TransactionHeader where
  sender : Address
  fee : UInt64
deriving DecidableEq, Repr

structure Payment where
  header : TransactionHeader
  receiver : Address
  amount : UInt64
deriving DecidableEq, Repr

/-- Value leaving the rollup; the recipient is an account on L1. -/
structure Withdrawal where
  header : TransactionHeader
  recipient : L1Address
  amount : UInt64
deriving DecidableEq, Repr

/-- Value entering the rollup. Its one constructor pins the header, so no field holds it. -/
structure Deposit where
  receiver : Address
  amount : UInt64
deriving DecidableEq, Repr

def Deposit.header (_ : Deposit) : TransactionHeader := ⟨zeroAddress, 0⟩

/-- A withdrawal L1 ordered: the whole balance of `address`, for no fee. -/
structure ForcedWithdrawal where
  address : Address
  recipient : L1Address
deriving DecidableEq, Repr

def ForcedWithdrawal.header (f : ForcedWithdrawal) : TransactionHeader := ⟨f.address, 0⟩

def Payment.new (sender receiver : Address) (amount fee : UInt64) : Payment :=
  ⟨⟨sender, fee⟩, receiver, amount⟩

def Withdrawal.new (sender : Address) (recipient : L1Address) (amount fee : UInt64) : Withdrawal :=
  ⟨⟨sender, fee⟩, recipient, amount⟩

inductive Transaction where
  | payment (payment : Payment)
  | deposit (deposit : Deposit)
  | withdrawal (withdrawal : Withdrawal)
  | forcedWithdrawal (forced : ForcedWithdrawal)
deriving DecidableEq, Repr

/-- The transactions of a block, as the chain records them. -/
structure Batch where
  txns : List Transaction
deriving DecidableEq, Repr

def signTagPayment : Bytes := ascii ['P', 'A', 'Y']
def signTagWithdrawal : Bytes := ascii ['W', 'D', 'R']

/-- The bytes a sender signs; shared by payments and withdrawals. -/
def bytesToSign (domain : DeploymentDomain) (tag : Bytes) (sender : Address) (nonce fee : UInt64)
    (destination : Word) (amount : UInt64) : Bytes :=
  tag ++ domain.bytes ++ sender.bytes ++ toBeBytes nonce ++ toBeBytes fee ++
    destination.bytes ++ toBeBytes amount

def Payment.bytesToSign (p : Payment) (domain : DeploymentDomain) (nonce : UInt64) : Bytes :=
  PaymentRollup.bytesToSign domain signTagPayment p.header.sender nonce p.header.fee p.receiver
    p.amount

def Withdrawal.bytesToSign (w : Withdrawal) (domain : DeploymentDomain) (nonce : UInt64) : Bytes :=
  PaymentRollup.bytesToSign domain signTagWithdrawal w.header.sender nonce w.header.fee w.recipient
    w.amount

structure Signature where
  scheme : Scheme
  pubKey : Bytes
  sig : Bytes
deriving DecidableEq, Repr

/-- What the end of a Merkle path holds. -/
inductive Slot where
  | own
  | neighbor (address : Address) (account : Account)
deriving DecidableEq, Repr

/-- A path from the root down; `siblings` are the digests turned away from, root first. -/
structure MerkleProof where
  siblings : List Word
  slot : Slot
deriving DecidableEq, Repr

/-- One leaf slot at the moment it is written. -/
structure LeafWitness where
  oldAccount : Option Account
  proof : MerkleProof
deriving DecidableEq, Repr

structure PaymentSidecar where
  sig : Signature
  senderWitness : LeafWitness
  receiverWitness : LeafWitness
  feeSinkWitness : Option LeafWitness
deriving DecidableEq, Repr

structure DepositSidecar where
  receiverWitness : LeafWitness
deriving DecidableEq, Repr

structure WithdrawalSidecar where
  sig : Signature
  senderWitness : LeafWitness
  feeSinkWitness : Option LeafWitness
deriving DecidableEq, Repr

structure ForcedWithdrawalSidecar where
  senderWitness : LeafWitness
deriving DecidableEq, Repr

inductive TxnSidecar where
  | payment (entry : PaymentSidecar)
  | deposit (entry : DepositSidecar)
  | withdrawal (entry : WithdrawalSidecar)
  | forcedWithdrawal (entry : ForcedWithdrawalSidecar)
deriving DecidableEq, Repr

/-- The signatures and witnesses for a batch; entry `i` belongs to transaction `i`. -/
structure Sidecar where
  entries : List TxnSidecar
deriving DecidableEq, Repr

end PaymentRollup
