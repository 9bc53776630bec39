import PaymentRollup.Contract.Authorizations

/-! # The messages the client library has users sign

The client lays each message out in a buffer, at offsets written by hand. Those the contract
checks come out as the contract spells them; those the guest checks have no room for a fee.
-/
namespace PaymentRollup.Client

section Buffers

inductive RangeError where
  | offsetOutOfBounds
deriving DecidableEq, Repr

/-- `new Uint8Array(length)`. -/
def uint8Array (length : ℕ) : Bytes := List.replicate length 0

/-- `message.set(bytes, offset)`. -/
def set (message bytes : Bytes) (offset : ℕ) : Except RangeError Bytes :=
  if offset + bytes.length ≤ message.length then
    .ok (message.take offset ++ bytes ++ message.drop (offset + bytes.length))
  else .error .offsetOutOfBounds

/-- `view.setBigUint64(offset, value)`: big-endian, of the value modulo `2 ^ 64`. -/
def setBigUint64 (message : Bytes) (offset : ℕ) (value : ℤ) : Except RangeError Bytes :=
  set message (toBeBytes (UInt64.ofNat (value % 2 ^ 64).toNat)) offset

end Buffers

section Builders

inductive TransactionKind where
  | pay
  | wdr
deriving DecidableEq, Repr

def TransactionKind.tag : TransactionKind → Bytes
  | .pay => ascii ['P', 'A', 'Y']
  | .wdr => ascii ['W', 'D', 'R']

def l2TransactionMessage (kind : TransactionKind) (domain sender : Bytes) (nonce : ℤ)
    (destination : Bytes) (amount : ℤ) : Except RangeError Bytes := do
  let message := uint8Array (3 + 32 + 32 + 8 + 32 + 8)
  let message ← set message kind.tag 0
  let message ← set message domain 3
  let message ← set message sender 35
  let message ← setBigUint64 message 67 nonce
  let message ← set message destination 75
  setBigUint64 message 107 amount

def paymentMessage (domain sender : Bytes) (nonce : ℤ) (receiver : Bytes) (amount : ℤ) :
    Except RangeError Bytes :=
  l2TransactionMessage .pay domain sender nonce receiver amount

def withdrawalMessage (domain sender : Bytes) (nonce : ℤ) (recipient : L1Address) (amount : ℤ) :
    Except RangeError Bytes :=
  l2TransactionMessage .wdr domain sender nonce recipient.bytes amount

def withdrawalRequestMessage (domain : Bytes) (nonce : ℤ) (address : Bytes)
    (recipient : L1Address) : Except RangeError Bytes := do
  let tag := ascii ['W', 'R', 'E', 'Q']
  let message := uint8Array (tag.length + 32 + 8 + 32 + 32)
  let message ← set message tag 0
  let message ← set message domain tag.length
  let message ← setBigUint64 message (tag.length + 32) nonce
  let message ← set message address (tag.length + 40)
  set message recipient.bytes (tag.length + 40 + 32)

def exitMessage (domain address : Bytes) (recipient : L1Address) : Except RangeError Bytes := do
  let tag := ascii ['E', 'X', 'I', 'T']
  let message := uint8Array (tag.length + 32 + 32 + 32)
  let message ← set message tag 0
  let message ← set message domain tag.length
  let message ← set message address (tag.length + 32)
  set message recipient.bytes (tag.length + 32 + 32)

/-- The message the client builds for what is to be authorized. It takes no fee. -/
def message : Authorization → Except RangeError Bytes
  | .payment domain nonce p =>
    paymentMessage domain.bytes p.header.sender.bytes nonce.toNat p.receiver.bytes p.amount.toNat
  | .withdrawal domain nonce w =>
    withdrawalMessage domain.bytes w.header.sender.bytes nonce.toNat w.recipient w.amount.toNat
  | .request domain nonce address recipient =>
    withdrawalRequestMessage domain.bytes nonce.toNat address.bytes recipient
  | .exit domain address recipient => exitMessage domain.bytes address.bytes recipient

end Builders

section Layout

theorem set_length {message bytes written : Bytes} {offset : ℕ}
    (h : set message bytes offset = .ok written) : written.length = message.length := by
  unfold set at h
  split_ifs at h with hfit
  cases h
  simp only [List.length_append, List.length_take, List.length_drop]
  omega

theorem set_next {before bytes : Bytes} {offset room : ℕ} (hoffset : before.length = offset)
    (hroom : bytes.length ≤ room) :
    set (before ++ uint8Array room) bytes offset =
      .ok (before ++ bytes ++ uint8Array (room - bytes.length)) := by
  subst hoffset
  have hfit : before.length + bytes.length ≤ (before ++ uint8Array room).length := by
    rw [List.length_append, uint8Array, List.length_replicate]
    omega
  have hrest : (before ++ uint8Array room).drop (before.length + bytes.length) =
      uint8Array (room - bytes.length) := by
    rw [← List.drop_drop, List.drop_left, uint8Array, List.drop_replicate, uint8Array]
  rw [set, if_pos hfit, List.take_left, hrest]

theorem set_first {bytes : Bytes} {room : ℕ} (hroom : bytes.length ≤ room) :
    set (uint8Array room) bytes 0 = .ok (bytes ++ uint8Array (room - bytes.length)) :=
  set_next List.length_nil hroom

theorem setBigUint64_next {before : Bytes} {offset room : ℕ} (value : UInt64)
    (hoffset : before.length = offset) (hroom : 8 ≤ room) :
    setBigUint64 (before ++ uint8Array room) offset value.toNat =
      .ok (before ++ toBeBytes value ++ uint8Array (room - 8)) := by
  have hvalue : UInt64.ofNat ((value.toNat : ℤ) % 2 ^ 64).toNat = value := by
    have hmod : ((value.toNat : ℤ) % 2 ^ 64).toNat = value.toNat := by
      have := value.toNat_lt
      omega
    rw [hmod, UInt64.ofNat_toNat]
  rw [setBigUint64, hvalue, set_next hoffset (by simpa using hroom), toBeBytes_length]

theorem l2TransactionMessage_length {kind : TransactionKind} {domain sender destination m : Bytes}
    {nonce amount : ℤ}
    (h : l2TransactionMessage kind domain sender nonce destination amount = .ok m) :
    m.length = 115 := by
  simp only [l2TransactionMessage, setBigUint64, bind_eq_ok] at h
  obtain ⟨m₁, h₁, m₂, h₂, m₃, h₃, m₄, h₄, m₅, h₅, h₆⟩ := h
  rw [set_length h₆, set_length h₅, set_length h₄, set_length h₃, set_length h₂, set_length h₁]
  rfl

theorem l2TransactionMessage_eq (kind : TransactionKind) (domain : DeploymentDomain)
    (sender destination : Address) (nonce amount : UInt64) :
    l2TransactionMessage kind domain.bytes sender.bytes nonce.toNat destination.bytes amount.toNat =
      .ok (kind.tag ++ domain.bytes ++ sender.bytes ++ toBeBytes nonce ++ destination.bytes ++
        toBeBytes amount) := by
  have htag : kind.tag.length = 3 := by
    cases kind <;> rfl
  rw [l2TransactionMessage, set_first (by omega), ok_bind, htag,
    set_next htag (by simp [Word.size]), ok_bind, Word.size,
    set_next (by simp [htag, Word.size]) (by simp [Word.size]), ok_bind, Word.size,
    setBigUint64_next nonce (by simp [htag, Word.size]) (by omega), ok_bind,
    set_next (by simp [htag, Word.size]) (by simp [Word.size]), ok_bind, Word.size,
    setBigUint64_next amount (by simp [htag, Word.size]) (by omega)]
  exact congrArg Except.ok (List.append_nil _)

theorem withdrawalRequestMessage_eq (domain : DeploymentDomain) (nonce : UInt64)
    (address : Address) (recipient : L1Address) :
    withdrawalRequestMessage domain.bytes nonce.toNat address.bytes recipient =
      .ok (Authorization.request domain nonce address recipient).preimage := by
  have htag : (ascii ['W', 'R', 'E', 'Q']).length = 4 := rfl
  rw [withdrawalRequestMessage, htag, set_first (by omega), ok_bind, htag,
    set_next htag (by simp [Word.size]), ok_bind, Word.size,
    setBigUint64_next nonce (by simp [htag, Word.size]) (by omega), ok_bind,
    set_next (by simp [htag, Word.size]) (by simp [Word.size]), ok_bind, Word.size,
    set_next (by simp [htag, Word.size]) (by simp [Word.size]), Word.size]
  exact congrArg Except.ok (List.append_nil _)

theorem exitMessage_eq (domain : DeploymentDomain) (address : Address) (recipient : L1Address) :
    exitMessage domain.bytes address.bytes recipient =
      .ok (Authorization.exit domain address recipient).preimage := by
  have htag : (ascii ['E', 'X', 'I', 'T']).length = 4 := rfl
  rw [exitMessage, htag, set_first (by omega), ok_bind, htag,
    set_next htag (by simp [Word.size]), ok_bind, Word.size,
    set_next (by simp [htag, Word.size]) (by simp [Word.size]), ok_bind, Word.size,
    set_next (by simp [htag, Word.size]) (by simp [Word.size]), Word.size]
  exact congrArg Except.ok (List.append_nil _)

end Layout

section Agreement

/-- The contract checks the signature, and not the guest. -/
def ByContract : Authorization → Prop
  | .payment _ _ _ => False
  | .withdrawal _ _ _ => False
  | .request _ _ _ _ => True
  | .exit _ _ _ => True

theorem l2TransactionMessage_ne {kind : TransactionKind} {domain sender destination m : Bytes}
    {nonce amount : ℤ}
    (h : l2TransactionMessage kind domain sender nonce destination amount = .ok m)
    (a : Authorization) : m ≠ a.preimage := by
  rintro rfl
  have hlength := l2TransactionMessage_length h
  rw [Authorization.preimage_length] at hlength
  cases a <;> simp at hlength

theorem message_payment_ne (domain : DeploymentDomain) (nonce : UInt64) (p : Payment) :
    ∃ m, message (.payment domain nonce p) = .ok m ∧ ∀ a : Authorization, m ≠ a.preimage :=
  have hm := l2TransactionMessage_eq .pay domain p.header.sender p.receiver nonce p.amount
  ⟨_, hm, l2TransactionMessage_ne hm⟩

theorem message_withdrawal_ne (domain : DeploymentDomain) (nonce : UInt64) (w : Withdrawal) :
    ∃ m, message (.withdrawal domain nonce w) = .ok m ∧ ∀ a : Authorization, m ≠ a.preimage :=
  have hm := l2TransactionMessage_eq .wdr domain w.header.sender w.recipient nonce w.amount
  ⟨_, hm, l2TransactionMessage_ne hm⟩

/-- What the client has its user sign is what is checked, if it is the contract that checks it. A
message for the guest is never one that the guest checks, whatever the fee, nor any other that is
checked at all. -/
theorem client_message_checked_iff [Crypto] (app : Contract.App) :
    (∀ a : Authorization, message a = .ok a.preimage ↔ ByContract a) ∧
    (∀ a : Authorization, ¬ByContract a →
      ∃ m, message a = .ok m ∧ ∀ b : Authorization, m ≠ b.preimage) ∧
    (∀ (nonce : UInt64) (address : Address) (recipient : L1Address),
      withdrawalRequestMessage (Contract.deploymentDomain app).bytes nonce.toNat address.bytes
        recipient = .ok (Contract.requestMessage app nonce address recipient)) ∧
    (∀ (address : Address) (recipient : L1Address),
      exitMessage (Contract.deploymentDomain app).bytes address.bytes recipient =
        .ok (Contract.exitMessage app address recipient)) := by
  have hguest : ∀ a : Authorization, ¬ByContract a →
      ∃ m, message a = .ok m ∧ ∀ b : Authorization, m ≠ b.preimage := by
    intro a ha
    cases a with
    | payment domain nonce p => exact message_payment_ne domain nonce p
    | withdrawal domain nonce w => exact message_withdrawal_ne domain nonce w
    | request => exact absurd trivial ha
    | exit => exact absurd trivial ha
  refine ⟨?_, hguest, ?_, ?_⟩
  · intro a
    constructor
    · intro hsame
      by_contra hnot
      obtain ⟨m, hm, hne⟩ := hguest a hnot
      exact hne a (Except.ok.inj (hm.symm.trans hsame))
    · intro hcontract
      cases a with
      | payment => exact hcontract.elim
      | withdrawal => exact hcontract.elim
      | request domain nonce address recipient =>
        exact withdrawalRequestMessage_eq domain nonce address recipient
      | exit domain address recipient => exact exitMessage_eq domain address recipient
  · intro nonce address recipient
    rw [Contract.requestMessage_eq]
    exact withdrawalRequestMessage_eq _ nonce address recipient
  · intro address recipient
    rw [Contract.exitMessage_eq]
    exact exitMessage_eq _ address recipient

section Sample

def sampleWord (byte : UInt8) : Word := sampleAccount byte

/-- A payment of 4 at nonce 3, for no fee: what is signed is not what is checked. -/
theorem client_payment_refused :
    message (.payment (sampleWord 0x42) 3 (.new (sampleWord 1) (sampleWord 2) 4 0)) ≠
      .ok (Payment.bytesToSign (.new (sampleWord 1) (sampleWord 2) 4 0) (sampleWord 0x42) 3) := by
  decide +kernel

end Sample

end Agreement

end PaymentRollup.Client
