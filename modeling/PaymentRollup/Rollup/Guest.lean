import PaymentRollup.Lib.Panics
import PaymentRollup.Rollup.Codec

/-! # The guest, with all that could panic in it

The functions behind `execute` once more, operation by operation: what is indexed, sliced,
shifted, added without a check or unwrapped, and what is reserved before it is read. `usize` is
the number of values the machine's word has. What values cost in memory is outside of this.
-/
namespace PaymentRollup
namespace Guest
open Guarded

variable (usize : ℕ)

section Layouts
variable {ε : Type}

/-- `buf[offset..offset + field.len()].copy_from_slice(field)`, and the offset after it. -/
def putField (buf : Bytes) (offset : ℕ) (field : Bytes) : Guarded ε (Bytes × ℕ) := do
  let stop ← add usize offset field.length
  let buf ← copyFromSlice buf offset stop field
  .ok (buf, stop)

/-- `bytes[offset..offset + len].try_into().unwrap()`, and the offset after it. -/
def getField (bytes : Bytes) (offset len : ℕ) :
    Guarded ε ({ field : Bytes // field.length = len } × ℕ) := do
  let stop ← add usize offset len
  let field ← slice bytes offset stop
  let field ← toArray len field
  .ok (field, stop)

/-- `Account::encode`. -/
def encodeAccount (a : Account) : Guarded ε Bytes := do
  let buf : Bytes := List.replicate Account.encodedSize 0
  let (buf, offset) ← putField usize buf 0 (toBeBytes a.nonce)
  let (buf, offset) ← putField usize buf offset (toBeBytes a.amount)
  let (buf, _) ← putField usize buf offset a.authAddress.bytes
  .ok buf

/-- `Account::decode`. -/
def decodeAccount (bytes : { b : Bytes // b.length = Account.encodedSize }) :
    Guarded ε Account := do
  let (nonce, offset) ← getField usize bytes.1 0 8
  let (amount, offset) ← getField usize bytes.1 offset 8
  let (⟨authAddress, hsize⟩, _) ← getField usize bytes.1 offset 32
  .ok ⟨fromBeBytes nonce.1, fromBeBytes amount.1, ⟨authAddress, hsize⟩⟩

def encodedTxSize : ℕ := 32 + 3 + 32 + 8 + 8 + 32 + 8

def bytesToSign (domain : DeploymentDomain) (tag : Bytes) (sender : Address) (nonce fee : UInt64)
    (destination : Word) (amount : UInt64) : Guarded ε Bytes := do
  let buf : Bytes := List.replicate encodedTxSize 0
  let (buf, offset) ← putField usize buf 0 tag
  let (buf, offset) ← putField usize buf offset domain.bytes
  let (buf, offset) ← putField usize buf offset sender.bytes
  let (buf, offset) ← putField usize buf offset (toBeBytes nonce)
  let (buf, offset) ← putField usize buf offset (toBeBytes fee)
  let (buf, offset) ← putField usize buf offset destination.bytes
  let (buf, _) ← putField usize buf offset (toBeBytes amount)
  .ok buf

/-- The loop of `put_varint`, for a number of turns. The guest never writes, but what wrote the
bytes it reads is as total as it is. -/
def putVarintLoop : ℕ → UInt64 → Guarded ε Bytes
  | 0, _ => .error (.panic .diverged)
  | turns + 1, value => do
    let byte := (value &&& 0x7f).toUInt8
    let value ← shr64 value 7
    if value = 0 then .ok [byte]
    else do
      let rest ← putVarintLoop turns value
      .ok ((byte ||| 0x80) :: rest)

/-- Sixty-four bits are gone after ten turns. -/
def putVarint (value : UInt64) : Guarded ε Bytes := putVarintLoop 10 value

end Layouts

section Paths
variable {ε : Type}

def bitAt (address : Address) (depth : ℕ) : Guarded ε ℕ := do
  let byte ← index address.bytes (depth / 8)
  let shift ← sub 7 (depth % 8)
  let bits ← shr8 byte shift
  .ok (bits &&& 1).toNat

def commonPrefixFrom : ℕ → Bytes → Bytes → Guarded ε ℕ
  | i, x :: xs, y :: ys =>
    if x ≠ y then do
      let bits ← mul usize i 8
      add usize bits (leadingZeros (x ^^^ y))
    else commonPrefixFrom (i + 1) xs ys
  | _, _, _ => .ok maxDepth

def commonPrefixLen (a b : Address) : Guarded ε ℕ := commonPrefixFrom usize 0 a.bytes b.bytes

def checkNeighbor (address neighbor : Address) (depth : ℕ) : Guarded ε (Option Unit) :=
  if neighbor ≠ address then do
    let shared ← commonPrefixLen usize address neighbor
    .ok (if depth ≤ shared then some () else none)
  else .ok none

end Paths

section Merkle
variable [Crypto] {ε : Type}

def leafHash (address : Address) (account : Account) : Guarded ε Word := do
  let encoded ← encodeAccount usize account
  .ok (sha256 (ascii ['L', 'E', 'A', 'F'] ++ address.bytes ++ encoded))

def subtreeWithBoth (depth : ℕ) (own other : Address × Account) : Guarded ε Word := do
  let splitDepth ← commonPrefixLen usize own.1 other.1
  let ownHash ← leafHash usize own.1 own.2
  let otherHash ← leafHash usize other.1 other.2
  let bit ← bitAt own.1 splitDepth
  let current := if bit = 0 then nodeHash ownHash otherHash else nodeHash otherHash ownHash
  (List.range' depth (splitDepth - depth)).reverse.foldlM
    (fun current level => do
      let bit ← bitAt own.1 level
      .ok (if bit = 0 then nodeHash current emptySubtree else nodeHash emptySubtree current))
    current

def pathStart (address : Address) (account : Option Account) (proof : MerkleProof) :
    Guarded ε (Option Word) := do
  let depth := proof.siblings.length
  match proof.slot, account with
  | .own, none => .ok (some emptySubtree)
  | .own, some account => do
    let hash ← leafHash usize address account
    .ok (some hash)
  | .neighbor neighbor held, none => do
    match ← checkNeighbor usize address neighbor depth with
    | none => .ok none
    | some _ => do
      let hash ← leafHash usize neighbor held
      .ok (some hash)
  | .neighbor neighbor held, some account => do
    match ← checkNeighbor usize address neighbor depth with
    | none => .ok none
    | some _ => do
      let hash ← subtreeWithBoth usize depth (address, account) (neighbor, held)
      .ok (some hash)

def rootFromProof (address : Address) (account : Option Account) (proof : MerkleProof) :
    Guarded ε (Option Word) :=
  if maxDepth < proof.siblings.length then .ok none
  else do
    match ← pathStart usize address account proof with
    | none => .ok none
    | some current => do
      let root ← (List.range proof.siblings.length).reverse.foldlM
        (fun current level => do
          let bit ← bitAt address level
          let sibling ← index proof.siblings level
          .ok (if bit = 0 then nodeHash current sibling else nodeHash sibling current))
        current
      .ok (some root)

end Merkle

section Replay
variable [Crypto]

/-- `crypto::verify`. -/
def verifySignature (scheme : Scheme) (pubKey sig message : Bytes) :
    Guarded VerificationError Unit := do
  match scheme with
  | .managed => .ok ()
  | .ed25519 => do
    let key ← ofResult (asKey ed25519PublicKeySize pubKey)
    ofResult (verifyEd25519 key sig message)
  | .falcon1024HybridEd25519 =>
    if pubKey.length ≠ hybridPublicKeySize then .error (.error .malformedKey)
    else if sig.length < minHybridSignatureSize ∨ maxHybridSignatureSize < sig.length then
      .error (.error .malformedSignature)
    else do
      let (ed25519Key, falconKey) ← splitAt pubKey ed25519PublicKeySize
      let (ed25519Sig, falconSig) ← splitAt sig ed25519SignatureSize
      let ed25519Key ← ofResult (asKey ed25519PublicKeySize ed25519Key)
      ofResult (verifyEd25519 ed25519Key ed25519Sig message)
      let falconKey ← ofResult (asKey falconPublicKeySize falconKey)
      if Crypto.falconVerifyCompressed falconSig falconKey message then .ok ()
      else .error (.error .invalidSignature)

def rootWith (address : Address) (account : Option Account) (proof : MerkleProof) :
    Guarded VerificationError Word := do
  let root ← rootFromProof usize address account proof
  ofResult (demand root .malformedProof)

def expectPreState (address : Address) (witness : LeafWitness) (root : Word) :
    Guarded VerificationError Unit := do
  let implied ← rootWith usize address witness.oldAccount witness.proof
  ofResult (require (implied = root) .staleWitness)

def debit (sender : Address) (witness : LeafWitness) (sig : Signature) (amount fee : UInt64)
    (root : Word) (bytesToSign : UInt64 → Guarded VerificationError Bytes) :
    Guarded VerificationError Word := do
  expectPreState usize sender witness root
  let account ← ofResult (demand witness.oldAccount .unknownSender)
  let account ← ofResult account.bumpNonce
  let message ← bytesToSign account.nonce
  ofResult (sig.verifyAuth account)
  verifySignature sig.scheme sig.pubKey sig.sig message
  let balance ← ofResult (demand
    ((checkedSub account.amount amount).bind fun balance => checkedSub balance fee)
    .insufficientFunds)
  rootWith usize sender (some { account with amount := balance }) witness.proof

def credit (receiver : Address) (witness : LeafWitness) (amount : UInt64) (root : Word) :
    Guarded VerificationError Word := do
  expectPreState usize receiver witness root
  let account := witness.oldAccount.getD (Account.empty receiver)
  let balance ← ofResult (demand (checkedAdd account.amount amount) .amountOverflow)
  rootWith usize receiver (some { account with amount := balance }) witness.proof

def creditFee (fee : UInt64) (witness : Option LeafWitness) (root : Word) :
    Guarded VerificationError Word :=
  match witness with
  | none => if fee = 0 then .ok root else .error (.error .sidecarKindMismatch)
  | some witness =>
    if fee ≠ 0 then credit usize feeSink witness fee root
    else .error (.error .sidecarKindMismatch)

def verifyTxn (domain : DeploymentDomain) (r : Replaying) :
    Transaction × TxnSidecar → Guarded VerificationError Replaying
  | (.payment payment, .payment entry) => do
    let root ← debit usize payment.header.sender entry.senderWitness entry.sig payment.amount
      payment.header.fee r.root fun nonce => bytesToSign usize domain signTagPayment
        payment.header.sender nonce payment.header.fee payment.receiver payment.amount
    let root ← credit usize payment.receiver entry.receiverWitness payment.amount root
    let root ← creditFee usize payment.header.fee entry.feeSinkWitness root
    .ok { r with root }
  | (.deposit deposit, .deposit entry) => do
    let root ← credit usize deposit.receiver entry.receiverWitness deposit.amount r.root
    let inboxChain := accumulateDeposit r.inboxChain deposit.receiver deposit.amount
    .ok { r with root, inboxChain }
  | (.withdrawal withdrawal, .withdrawal entry) => do
    ofResult (require (minWithdrawal ≤ withdrawal.amount) .withdrawalTooSmall)
    let root ← debit usize withdrawal.header.sender entry.senderWitness entry.sig
      withdrawal.amount withdrawal.header.fee r.root fun nonce =>
        bytesToSign usize domain signTagWithdrawal withdrawal.header.sender nonce
          withdrawal.header.fee withdrawal.recipient withdrawal.amount
    let root ← creditFee usize withdrawal.header.fee entry.feeSinkWitness root
    .ok { r with root, payouts := r.payouts ++ [(withdrawal.recipient, withdrawal.amount)] }
  | (.forcedWithdrawal forced, .forcedWithdrawal entry) => do
    expectPreState usize forced.address entry.senderWitness r.root
    let balance := entry.senderWitness.oldAccount.elim 0 Account.amount
    let inboxChain := accumulateRequest r.inboxChain forced.address forced.recipient
    if minWithdrawal ≤ balance then do
      let account ← ofResult (demand entry.senderWitness.oldAccount .unknownSender)
      let account ← ofResult { account with amount := 0 }.bumpNonce
      let root ← rootWith usize forced.address (some account) entry.senderWitness.proof
      .ok ⟨root, inboxChain, r.payouts ++ [(forced.recipient, balance)]⟩
    else .ok { r with inboxChain }
  | _ => .error (.error .sidecarKindMismatch)

def verifyBatch (domain : DeploymentDomain) (oldRoot inboxAnchor : Word) (batch : Batch)
    (sidecar : Sidecar) : Guarded VerificationError (Word × Word × Word) := do
  ofResult (require (batch.txns.length = sidecar.entries.length) .sidecarLengthMismatch)
  let r ← (batch.txns.zip sidecar.entries).foldlM (verifyTxn usize domain) ⟨oldRoot, inboxAnchor, []⟩
  .ok (r.root, r.inboxChain, withdrawalChain domain r.payouts)

end Replay

section Commitments
variable [Crypto] {ε : Type}

def chunkDigest (chunk : Bytes) : Guarded ε Word := do
  assert (chunk.length ≤ chunkSize)
  .ok (PaymentRollup.chunkDigest chunk)

def batchCommitment (domain : DeploymentDomain) (batchBytes : Bytes) : Guarded ε Word := do
  -- `chunks` panics on a chunk size of zero.
  assert (chunkSize ≠ 0)
  (chunks batchBytes).foldlM
    (fun accumulator chunk => do
      let digest ← chunkDigest chunk
      .ok (accumulateChunk accumulator digest))
    (chunkAccumulatorSeed domain batchBytes.length)

def publicValues (domain : DeploymentDomain) (oldRoot newRoot : Word) (batchBytes : Bytes)
    (oldInboxChain newInboxChain withdrawalChain : Word) : Guarded ε Bytes := do
  let buf : Bytes := List.replicate 192 0
  let buf ← copyFromSlice buf 0 32 oldRoot.bytes
  let buf ← copyFromSlice buf 32 64 newRoot.bytes
  let commitment ← batchCommitment domain batchBytes
  let buf ← copyFromSlice buf 64 96 commitment.bytes
  let buf ← copyFromSlice buf 96 128 oldInboxChain.bytes
  let buf ← copyFromSlice buf 128 160 newInboxChain.bytes
  copyFromSlice buf 160 192 withdrawalChain.bytes

end Commitments

abbrev Reader := StateT Bytes (Except (Fault DecodeError))

namespace Reader

def fail {α : Type} (e : DecodeError) : Reader α := fun _ => .error (.error e)

def lift {α : Type} (x : Guarded DecodeError α) : Reader α := StateT.lift x

def remaining : Reader ℕ := fun bytes => .ok (bytes.length, bytes)

/-- `Vec::with_capacity`, for items of at least `stride` bytes each. To reserve for more of them
than what is left could hold counts as a panic. -/
def withCapacity (count stride : ℕ) : Reader Unit := fun bytes =>
  if count * stride ≤ bytes.length then .ok ((), bytes) else .error (.panic .reservation)

def take (len : ℕ) : Reader Bytes := fun bytes =>
  if bytes.length < len then .error (.error .unexpectedEnd) else splitAt bytes len

def byte : Reader UInt8 := do
  let b ← take 1
  lift (index b 0)

def array (size : ℕ) : Reader { b : Bytes // b.length = size } := do
  let b ← take size
  lift (toArray size b)

def word : Reader Word := do
  let ⟨b, hsize⟩ ← array 32
  pure ⟨b, hsize⟩

def varintLoop : ℕ → UInt64 → ℕ → Reader UInt64
  | 0, _, _ => lift (.error (.panic .diverged))
  | turns + 1, value, shift => do
    let byte ← byte
    let payload := (byte &&& 0x7f).toUInt64
    if 64 ≤ shift then fail .malformedVarint
    else do
      let most ← lift (shr64 0xffffffffffffffff shift)
      if most < payload then fail .malformedVarint
      else do
        let bits ← lift (shl64 payload shift)
        let value := value ||| bits
        if byte &&& 0x80 = 0 then pure value
        else do
          -- `shift` is a `u32`
          let shift ← lift (add (2 ^ 32) shift 7)
          varintLoop turns value shift

/-- Ten bytes end a number or overflow it, and one turn more finds out. -/
def varint : Reader UInt64 := varintLoop 11 0 0

def expectVersion (expected : UInt8) : Reader Unit := do
  let version ← byte
  if version = expected then pure () else fail (.unsupportedVersion version)

def count (stride : ℕ) : Reader ℕ := do
  let count ← varint
  if usize ≤ count.toNat then fail .implausibleLength
  else
    let remaining ← remaining
    if usize ≤ count.toNat * stride ∨ remaining < count.toNat * stride then
      fail .implausibleLength
    else pure count.toNat

def bytes : Reader Bytes := do
  let len ← count usize 1
  take len

def account : Reader Account := do
  let b ← array Account.encodedSize
  lift (decodeAccount usize b)

def finish : Reader Unit := fun bytes =>
  if bytes = [] then .ok ((), []) else .error (.error .trailingBytes)

def address (seen : List Address) : Reader (Address × List Address) := do
  let reference ← varint
  if reference = 0 then do
    let address ← word
    pure (address, seen ++ [address])
  else
    let index ← lift (sub64 reference 1)
    match if index.toNat < usize then seen[index.toNat]? else none with
    | some address => pure (address, seen)
    | none => fail (.unknownAddressRef reference)

def txn (seen : List Address) : Reader (Transaction × List Address) := do
  let kind ← byte
  if kind = kindPayment then
    let (sender, seen) ← address usize seen
    let fee ← varint
    let (receiver, seen) ← address usize seen
    let amount ← varint
    pure (.payment ⟨⟨sender, fee⟩, receiver, amount⟩, seen)
  else if kind = kindDeposit then
    let (receiver, seen) ← address usize seen
    let amount ← varint
    pure (.deposit ⟨receiver, amount⟩, seen)
  else if kind = kindWithdrawal then
    let (sender, seen) ← address usize seen
    let fee ← varint
    let recipient ← word
    let amount ← varint
    pure (.withdrawal (.new sender recipient amount fee), seen)
  else if kind = kindForcedWithdrawal then
    let (address, seen) ← address usize seen
    let recipient ← word
    pure (.forcedWithdrawal ⟨address, recipient⟩, seen)
  else fail (.unknownTransactionKind kind)

def txns : ℕ → List Address → Reader (List Transaction)
  | 0, _ => pure []
  | count + 1, seen => do
    let (txn, seen) ← txn usize seen
    let rest ← txns count seen
    pure (txn :: rest)

def optionalAccount : Reader (Option Account) := do
  let tag ← byte
  if tag = absent then pure none
  else if tag = present then
    let account ← account usize
    pure (some account)
  else fail (.unknownPresenceTag tag)

def signature : Reader Signature := do
  let identifier ← array 3
  match Scheme.fromIdentifier identifier.1 with
  | none => fail (.unknownScheme identifier.1)
  | some scheme =>
    let pubKey ← bytes usize
    let sig ← bytes usize
    pure ⟨scheme, pubKey, sig⟩

def words : ℕ → Reader (List Word)
  | 0 => pure []
  | count + 1 => do
    let word ← word
    let rest ← words count
    pure (word :: rest)

def slot : Reader Slot := do
  let kind ← byte
  if kind = slotOwn then pure .own
  else if kind = slotNeighbor then
    let address ← word
    let account ← account usize
    pure (.neighbor address account)
  else fail (.unknownSlotKind kind)

def witness : Reader LeafWitness := do
  let oldAccount ← optionalAccount usize
  let depth ← count usize 32
  if maxDepth < depth then fail (.proofTooDeep depth)
  else
    withCapacity depth 32
    let siblings ← words depth
    let slot ← slot usize
    pure ⟨oldAccount, ⟨siblings, slot⟩⟩

def feeSinkWitness (fee : UInt64) : Reader (Option LeafWitness) :=
  if fee ≠ 0 then do
    let witness ← witness usize
    pure (some witness)
  else pure none

def entry : Transaction → Reader TxnSidecar
  | .payment payment => do
    let sig ← signature usize
    let senderWitness ← witness usize
    let receiverWitness ← witness usize
    let feeSinkWitness ← feeSinkWitness usize payment.header.fee
    pure (.payment ⟨sig, senderWitness, receiverWitness, feeSinkWitness⟩)
  | .deposit _ => do
    let receiverWitness ← witness usize
    pure (.deposit ⟨receiverWitness⟩)
  | .withdrawal withdrawal => do
    let sig ← signature usize
    let senderWitness ← witness usize
    let feeSinkWitness ← feeSinkWitness usize withdrawal.header.fee
    pure (.withdrawal ⟨sig, senderWitness, feeSinkWitness⟩)
  | .forcedWithdrawal _ => do
    let senderWitness ← witness usize
    pure (.forcedWithdrawal ⟨senderWitness⟩)

def entries : List Transaction → Reader (List TxnSidecar)
  | [] => pure []
  | txn :: rest => do
    let first ← entry usize txn
    let later ← entries rest
    pure (first :: later)

end Reader

/-- `Batch::decode`. -/
def decodeBatch (bytes : Bytes) : Guarded DecodeError Batch := do
  let reader : Reader Batch := do
    Reader.expectVersion batchVersion
    let count ← Reader.count usize minEncodedTxnSize
    Reader.withCapacity count minEncodedTxnSize
    let txns ← Reader.txns usize count []
    Reader.finish
    pure ⟨txns⟩
  let (batch, _) ← reader bytes
  .ok batch

/-- `Sidecar::decode`. -/
def decodeSidecar (bytes : Bytes) (batch : Batch) : Guarded DecodeError Sidecar := do
  let reader : Reader Sidecar := do
    Reader.expectVersion sidecarVersion
    let found ← Reader.count usize minEncodedEntrySize
    if found ≠ batch.txns.length then
      Reader.fail (.sidecarLengthMismatch batch.txns.length found)
    else
      Reader.withCapacity found minEncodedEntrySize
      let entries ← Reader.entries usize batch.txns
      Reader.finish
      pure ⟨entries⟩
  let (sidecar, _) ← reader bytes
  .ok sidecar

def execute [Crypto] (domain : DeploymentDomain) (oldRoot inboxAnchor : Word)
    (batchBytes sidecarBytes : Bytes) : Guarded ExecutionError Bytes := do
  let batch ← Guarded.mapError .decode (decodeBatch usize batchBytes)
  let sidecar ← Guarded.mapError .decode (decodeSidecar usize sidecarBytes batch)
  let (newRoot, newInboxChain, withdrawalChain) ← Guarded.mapError .verification
    (verifyBatch usize domain oldRoot inboxAnchor batch sidecar)
  publicValues domain oldRoot newRoot batchBytes inboxAnchor newInboxChain withdrawalChain

end Guest

end PaymentRollup
