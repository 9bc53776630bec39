import PaymentRollup.Lib.MachineInt
import PaymentRollup.Lib.Sha256
import Mathlib.Data.Fintype.Vector
import Mathlib.Data.Set.Function

/-! # Words, byte layouts and the cryptographic primitives

SHA-256 and the signature checks come from outside the repository, so they are
operations of a class. A result that needs the hash to be collision-free says so for
the set of strings hashed in the run it is about.
-/
namespace PaymentRollup

/-- `[u8; 32]` in the crates and `bytes<32>` in the contract. -/
structure Word where
  bytes : Bytes
  size : bytes.length = 32
deriving DecidableEq, Repr

namespace Word

@[ext] theorem ext {a b : Word} (h : a.bytes = b.bytes) : a = b := by
  cases a
  cases b
  cases h
  rfl

def zero : Word := ⟨List.replicate 32 0, rfl⟩

instance : Inhabited Word := ⟨zero⟩

def ofBytes? (bytes : Bytes) : Option Word :=
  if h : bytes.length = 32 then some ⟨bytes, h⟩ else none

instance : Finite Word := by
  have : Finite UInt8 := Finite.of_injective UInt8.toFin fun _ _ => UInt8.toFin_inj.mp
  let toVector : Word → List.Vector UInt8 32 := fun w => ⟨w.bytes, w.size⟩
  refine Finite.of_injective toVector ?_
  intro a b h
  exact ext (congrArg Subtype.val h)

noncomputable instance : Fintype Word := Fintype.ofFinite Word

end Word

/-- An ASCII tag, as the byte string literals `b".."` spell one. -/
def ascii (chars : List Char) : Bytes := chars.map fun c => UInt8.ofNat c.toNat

/-- `u64::to_be_bytes`; the AVM's `itob` is the same function. -/
def toBeBytes (x : UInt64) : Bytes := beBytes 8 x.toNat

@[simp] theorem toBeBytes_length (x : UInt64) : (toBeBytes x).length = 8 := beBytes_length 8 _

/-- `u64::from_be_bytes`. -/
def fromBeBytes (bytes : Bytes) : UInt64 := UInt64.ofNat (ofBeBytes bytes)

@[simp] theorem fromBeBytes_toBeBytes (x : UInt64) : fromBeBytes (toBeBytes x) = x := by
  have hx : x.toNat < 256 ^ 8 := toNat_lt x
  rw [fromBeBytes, toBeBytes, ofBeBytes_beBytes 8 _ hx, UInt64.ofNat_toNat]

section Layout

/-! Fixed-width fields, read off the front of a concatenation one at a time. -/

theorem word_append_inj {a b : Word} {x y : Bytes} (h : a.bytes ++ x = b.bytes ++ y) :
    a = b ∧ x = y := by
  obtain ⟨hw, hx⟩ := List.append_inj h (by rw [a.size, b.size])
  exact ⟨Word.ext hw, hx⟩

theorem word_inj {a b : Word} (h : a.bytes = b.bytes) : a = b := Word.ext h

theorem toBeBytes_inj {a b : UInt64} (h : toBeBytes a = toBeBytes b) : a = b := by
  rw [← fromBeBytes_toBeBytes a, h, fromBeBytes_toBeBytes]

theorem toBeBytes_append_inj {a b : UInt64} {x y : Bytes}
    (h : toBeBytes a ++ x = toBeBytes b ++ y) : a = b ∧ x = y := by
  obtain ⟨hw, hx⟩ := List.append_inj h (by simp)
  exact ⟨toBeBytes_inj hw, hx⟩

theorem tag_ne {s t x y : Bytes} (hlen : s.length = t.length) (hst : s ≠ t) : s ++ x ≠ t ++ y :=
  fun h => hst (List.append_inj h hlen).1

end Layout

/-- What the repository takes from its cryptography packages and from the AVM. -/
class Crypto where
  sha256 : Bytes → Word
  /-- `ed25519_dalek::VerifyingKey::from_bytes` accepts these bytes. -/
  ed25519Key : Bytes → Bool
  /-- `VerifyingKey::verify_strict` accepts key, signature and message. -/
  ed25519VerifyStrict : Bytes → Bytes → Bytes → Bool
  /-- `falcon_det1024::verify_compressed` accepts signature, key and message. -/
  falconVerifyCompressed : Bytes → Bytes → Bytes → Bool
  /-- The AVM's `ed25519verify_bare` accepts message, signature and key. -/
  ed25519VerifyBare : Bytes → Bytes → Bytes → Bool

export Crypto (sha256)

/-- SHA-256, and nobody able to sign: what a run without signatures sees. -/
@[reducible] def Crypto.unsigned : Crypto where
  sha256 bytes := ⟨Sha256.digest bytes, Sha256.digest_length bytes⟩
  ed25519Key _ := false
  ed25519VerifyStrict _ _ _ := false
  falconVerifyCompressed _ _ _ := false
  ed25519VerifyBare _ _ _ := false

/-- The strings in `Q` do not collide, and none of them hashes to thirty-two zero bytes. -/
structure Ideal [Crypto] (Q : Set Bytes) : Prop where
  inj : ∀ x ∈ Q, ∀ y ∈ Q, sha256 x = sha256 y → x = y
  ne_zero : ∀ x ∈ Q, sha256 x ≠ Word.zero

theorem Ideal.injOn [Crypto] {Q : Set Bytes} (h : Ideal Q) : Set.InjOn sha256 Q :=
  fun x hx y hy => h.inj x hx y hy

theorem Ideal.mono [Crypto] {Q R : Set Bytes} (h : Ideal Q) (hR : R ⊆ Q) : Ideal R :=
  ⟨fun x hx y hy => h.inj x (hR hx) y (hR hy), fun x hx => h.ne_zero x (hR hx)⟩

theorem Ideal.of_list [Crypto] {strings : List Bytes}
    (h : (Word.zero :: strings.map sha256).Nodup) : Ideal {string | string ∈ strings} := by
  obtain ⟨hzero, hnodup⟩ := List.nodup_cons.mp h
  refine ⟨List.inj_on_of_nodup_map hnodup, ?_⟩
  intro x hx heq
  exact hzero (List.mem_map.mpr ⟨x, hx, heq⟩)

end PaymentRollup
