import PaymentRollup.Rollup.Verify

/-! # Wire formats for the two halves of a block

A reader is a state over the bytes not yet read. `usize` is the number of values the
machine's word has, `2 ^ 32` in the guest; the encoder's loops over a `u64` run on fuel.
-/
namespace PaymentRollup

def batchVersion : UInt8 := 1
def sidecarVersion : UInt8 := 1

def kindPayment : UInt8 := 0
def kindDeposit : UInt8 := 1
def kindWithdrawal : UInt8 := 2
def kindForcedWithdrawal : UInt8 := 3

def absent : UInt8 := 0
def present : UInt8 := 1

def slotOwn : UInt8 := 0
def slotNeighbor : UInt8 := 1

/-- Smallest a witness can encode to: an absent account, depth zero, and its own slot. -/
def minEncodedWitnessSize : ℕ := 1 + 1 + 1

/-- Smallest a transaction can encode to: a deposit. -/
def minEncodedTxnSize : ℕ := 1 + 1 + 1

/-- Smallest a sidecar entry can encode to: a deposit entry, being a single witness. -/
def minEncodedEntrySize : ℕ := minEncodedWitnessSize

inductive DecodeError where
  | unsupportedVersion (version : UInt8)
  | unexpectedEnd
  | trailingBytes
  | malformedVarint
  | implausibleLength
  | unknownTransactionKind (kind : UInt8)
  | unknownScheme (identifier : Bytes)
  | unknownSlotKind (kind : UInt8)
  | unknownPresenceTag (tag : UInt8)
  | unknownAddressRef (reference : UInt64)
  | proofTooDeep (depth : ℕ)
  | sidecarLengthMismatch (expected found : ℕ)
deriving DecidableEq, Repr

section Encoding

/-- The loop of `putVarint`: seven bits a byte, at most ten bytes for 64 bits. -/
def putVarintLoop : ℕ → UInt64 → Bytes
  | 0, _ => []
  | fuel + 1, value =>
    let byte := (value &&& 0x7f).toUInt8
    let value := value >>> 7
    if value = 0 then [byte] else (byte ||| 0x80) :: putVarintLoop fuel value

/-- LEB128, little-endian base-128 with a continuation bit. -/
def putVarint (value : UInt64) : Bytes := putVarintLoop 10 value

def putBytes (bytes : Bytes) : Bytes := putVarint (UInt64.ofNat bytes.length) ++ bytes

/-- Per-block address dictionary, encoder side: each address with its one-based position. -/
abbrev Dictionary := List (Address × UInt64)

def Dictionary.put (positions : Dictionary) (address : Address) : Bytes × Dictionary :=
  match positions.lookup address with
  | some position => (putVarint position, positions)
  | none =>
    (0 :: address.bytes, positions ++ [(address, UInt64.ofNat positions.length + 1)])

def putTxn (positions : Dictionary) : Transaction → Bytes × Dictionary
  | .payment payment =>
    let (sender, positions) := positions.put payment.header.sender
    let (receiver, positions) := positions.put payment.receiver
    (kindPayment :: (sender ++ putVarint payment.header.fee ++ receiver ++
      putVarint payment.amount), positions)
  | .deposit deposit =>
    let (receiver, positions) := positions.put deposit.receiver
    (kindDeposit :: (receiver ++ putVarint deposit.amount), positions)
  | .withdrawal withdrawal =>
    let (sender, positions) := positions.put withdrawal.header.sender
    (kindWithdrawal :: (sender ++ putVarint withdrawal.header.fee ++
      withdrawal.recipient.bytes ++ putVarint withdrawal.amount), positions)
  | .forcedWithdrawal forced =>
    let (address, positions) := positions.put forced.address
    (kindForcedWithdrawal :: (address ++ forced.recipient.bytes), positions)

def putTxns : Dictionary → List Transaction → Bytes
  | _, [] => []
  | positions, txn :: rest =>
    let (bytes, positions) := putTxn positions txn
    bytes ++ putTxns positions rest

def Batch.encode (batch : Batch) : Bytes :=
  batchVersion :: (putVarint (UInt64.ofNat batch.txns.length) ++ putTxns [] batch.txns)

def putOptionalAccount : Option Account → Bytes
  | none => [absent]
  | some account => present :: account.encode

def putSlot : Slot → Bytes
  | .own => [slotOwn]
  | .neighbor address account => slotNeighbor :: (address.bytes ++ account.encode)

def putWitness (witness : LeafWitness) : Bytes :=
  putOptionalAccount witness.oldAccount ++
    putVarint (UInt64.ofNat witness.proof.siblings.length) ++
    witness.proof.siblings.flatMap Word.bytes ++ putSlot witness.proof.slot

def putSignature (sig : Signature) : Bytes :=
  sig.scheme.identifier ++ putBytes sig.pubKey ++ putBytes sig.sig

def putOptionalWitness : Option LeafWitness → Bytes
  | none => []
  | some witness => putWitness witness

def putEntry : TxnSidecar → Bytes
  | .payment entry =>
    putSignature entry.sig ++ putWitness entry.senderWitness ++
      putWitness entry.receiverWitness ++ putOptionalWitness entry.feeSinkWitness
  | .deposit entry => putWitness entry.receiverWitness
  | .withdrawal entry =>
    putSignature entry.sig ++ putWitness entry.senderWitness ++
      putOptionalWitness entry.feeSinkWitness
  | .forcedWithdrawal entry => putWitness entry.senderWitness

/-- The bytes handed to the prover alongside the batch. -/
def Sidecar.encode (sidecar : Sidecar) : Bytes :=
  sidecarVersion :: (putVarint (UInt64.ofNat sidecar.entries.length) ++
    sidecar.entries.flatMap putEntry)

end Encoding

/-- A cursor that cannot read past the end of its input. -/
abbrev Reader := StateT Bytes (Except DecodeError)

namespace Reader

def fail {α : Type} (e : DecodeError) : Reader α := fun _ => .error e

def remaining : Reader ℕ := fun bytes => .ok (bytes.length, bytes)

def take (len : ℕ) : Reader { b : Bytes // b.length = len } := fun bytes =>
  if h : bytes.length < len then .error .unexpectedEnd
  else .ok (⟨bytes.take len, by simp; omega⟩, bytes.drop len)

def byte : Reader UInt8 := do
  let b ← take 1
  pure (b.1.headD 0)

/-- `array::<32>`. -/
def word : Reader Word := do
  let b ← take 32
  pure ⟨b.1, b.2⟩

def varintLoop (value : UInt64) (shift : ℕ) : Bytes → Except DecodeError (UInt64 × Bytes)
  | [] => .error .unexpectedEnd
  | byte :: rest =>
    let payload := (byte &&& 0x7f).toUInt64
    if 64 ≤ shift ∨ 0xffffffffffffffff >>> UInt64.ofNat shift < payload then
      .error .malformedVarint
    else
      let value := value ||| payload <<< UInt64.ofNat shift
      if byte &&& 0x80 = 0 then .ok (value, rest) else varintLoop value (shift + 7) rest

def varint : Reader UInt64 := varintLoop 0 0

def expectVersion (expected : UInt8) : Reader Unit := do
  let version ← byte
  if version = expected then pure () else fail (.unsupportedVersion version)

/-- A count whose items need at least `stride` bytes each. -/
def count (usize stride : ℕ) : Reader ℕ := do
  let count ← varint
  if usize ≤ count.toNat then fail .implausibleLength
  else
    let remaining ← remaining
    -- The product overflows the word, or asks for more than is left.
    if usize ≤ count.toNat * stride ∨ remaining < count.toNat * stride then
      fail .implausibleLength
    else pure count.toNat

def bytes (usize : ℕ) : Reader Bytes := do
  let len ← count usize 1
  let b ← take len
  pure b.1

def account : Reader Account := do
  let b ← take Account.encodedSize
  pure (Account.decode b)

def finish : Reader Unit := fun bytes =>
  if bytes = [] then .ok ((), []) else .error .trailingBytes

def address (usize : ℕ) (seen : List Address) : Reader (Address × List Address) := do
  let reference ← varint
  if reference = 0 then do
    let address ← word
    pure (address, seen ++ [address])
  else
    let index := (reference - 1).toNat
    match if index < usize then seen[index]? else none with
    | some address => pure (address, seen)
    | none => fail (.unknownAddressRef reference)

def txn (usize : ℕ) (seen : List Address) : Reader (Transaction × List Address) := do
  let kind ← byte
  if kind = kindPayment then
    let (sender, seen) ← address usize seen
    let fee ← varint
    let (receiver, seen) ← address usize seen
    let amount ← varint
    pure (.payment ⟨⟨sender, fee⟩, receiver, amount⟩, seen)
  else if kind = kindDeposit then
    let (receiver, seen) ← address usize seen
    let amount ← varint
    pure (.deposit ⟨receiver, amount⟩, seen)
  else if kind = kindWithdrawal then
    let (sender, seen) ← address usize seen
    let fee ← varint
    let recipient ← word
    let amount ← varint
    pure (.withdrawal (.new sender recipient amount fee), seen)
  else if kind = kindForcedWithdrawal then
    let (address, seen) ← address usize seen
    let recipient ← word
    pure (.forcedWithdrawal ⟨address, recipient⟩, seen)
  else fail (.unknownTransactionKind kind)

def txns (usize : ℕ) : ℕ → List Address → Reader (List Transaction)
  | 0, _ => pure []
  | count + 1, seen => do
    let (txn, seen) ← txn usize seen
    let rest ← txns usize count seen
    pure (txn :: rest)

def optionalAccount : Reader (Option Account) := do
  let tag ← byte
  if tag = absent then pure none
  else if tag = present then
    let account ← account
    pure (some account)
  else fail (.unknownPresenceTag tag)

def signature (usize : ℕ) : Reader Signature := do
  let identifier ← take 3
  match Scheme.fromIdentifier identifier.1 with
  | none => fail (.unknownScheme identifier.1)
  | some scheme =>
    let pubKey ← bytes usize
    let sig ← bytes usize
    pure ⟨scheme, pubKey, sig⟩

def words : ℕ → Reader (List Word)
  | 0 => pure []
  | count + 1 => do
    let word ← word
    let rest ← words count
    pure (word :: rest)

def slot : Reader Slot := do
  let kind ← byte
  if kind = slotOwn then pure .own
  else if kind = slotNeighbor then
    let address ← word
    let account ← account
    pure (.neighbor address account)
  else fail (.unknownSlotKind kind)

def witness (usize : ℕ) : Reader LeafWitness := do
  let oldAccount ← optionalAccount
  let depth ← count usize 32
  if maxDepth < depth then fail (.proofTooDeep depth)
  else
    let siblings ← words depth
    let slot ← slot
    pure ⟨oldAccount, ⟨siblings, slot⟩⟩

/-- A fee-sink witness is on the wire exactly when the transaction has a fee. -/
def feeSinkWitness (usize : ℕ) (fee : UInt64) : Reader (Option LeafWitness) :=
  if fee ≠ 0 then do
    let witness ← witness usize
    pure (some witness)
  else pure none

def entry (usize : ℕ) : Transaction → Reader TxnSidecar
  | .payment payment => do
    let sig ← signature usize
    let senderWitness ← witness usize
    let receiverWitness ← witness usize
    let feeSinkWitness ← feeSinkWitness usize payment.header.fee
    pure (.payment ⟨sig, senderWitness, receiverWitness, feeSinkWitness⟩)
  | .deposit _ => do
    let receiverWitness ← witness usize
    pure (.deposit ⟨receiverWitness⟩)
  | .withdrawal withdrawal => do
    let sig ← signature usize
    let senderWitness ← witness usize
    let feeSinkWitness ← feeSinkWitness usize withdrawal.header.fee
    pure (.withdrawal ⟨sig, senderWitness, feeSinkWitness⟩)
  | .forcedWithdrawal _ => do
    let senderWitness ← witness usize
    pure (.forcedWithdrawal ⟨senderWitness⟩)

def entries (usize : ℕ) : List Transaction → Reader (List TxnSidecar)
  | [] => pure []
  | txn :: rest => do
    let first ← entry usize txn
    let later ← entries usize rest
    pure (first :: later)

end Reader

def Batch.decode (usize : ℕ) (bytes : Bytes) : Except DecodeError Batch := do
  let reader : Reader Batch := do
    Reader.expectVersion batchVersion
    let count ← Reader.count usize minEncodedTxnSize
    let txns ← Reader.txns usize count []
    Reader.finish
    pure ⟨txns⟩
  let (batch, _) ← reader bytes
  .ok batch

def Sidecar.decode (usize : ℕ) (bytes : Bytes) (batch : Batch) : Except DecodeError Sidecar := do
  let reader : Reader Sidecar := do
    Reader.expectVersion sidecarVersion
    let found ← Reader.count usize minEncodedEntrySize
    if found ≠ batch.txns.length then
      Reader.fail (.sidecarLengthMismatch batch.txns.length found)
    else
      let entries ← Reader.entries usize batch.txns
      Reader.finish
      pure ⟨entries⟩
  let (sidecar, _) ← reader bytes
  .ok sidecar

inductive ExecutionError where
  | decode (error : DecodeError)
  | verification (error : VerificationError)
deriving DecidableEq, Repr

/-- The whole of what a proof asserts, computed from the same bytes the guest is handed. -/
def execute [Crypto] (usize : ℕ) (domain : DeploymentDomain) (oldRoot inboxAnchor : Word)
    (batchBytes sidecarBytes : Bytes) : Except ExecutionError Bytes := do
  let batch ← (Batch.decode usize batchBytes).mapError .decode
  let sidecar ← (Sidecar.decode usize sidecarBytes batch).mapError .decode
  let (newRoot, newInboxChain, withdrawalChain) ←
    (verifyBatch domain oldRoot inboxAnchor batch sidecar).mapError .verification
  .ok (publicValues domain oldRoot newRoot batchBytes inboxAnchor newInboxChain withdrawalChain)

end PaymentRollup
