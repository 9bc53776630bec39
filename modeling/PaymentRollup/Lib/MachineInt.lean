import Mathlib.Data.List.Basic
import Mathlib.Data.Nat.ModEq
import Mathlib.Tactic.Ring

/-! # Checked 64-bit arithmetic and big-endian byte strings -/
namespace PaymentRollup

abbrev Bytes := List UInt8

section Checked

/-- `u64::checked_add`, and the sum the AVM computes or fails on. -/
def checkedAdd (a b : UInt64) : Option UInt64 :=
  if a.toNat + b.toNat < 2 ^ 64 then some (a + b) else none

/-- `u64::checked_sub`, and the difference the AVM computes or fails on. -/
def checkedSub (a b : UInt64) : Option UInt64 :=
  if b.toNat ≤ a.toNat then some (a - b) else none

theorem toNat_lt (a : UInt64) : a.toNat < 2 ^ 64 := a.toNat_lt

theorem checkedAdd_eq_some {a b c : UInt64} :
    checkedAdd a b = some c ↔ c.toNat = a.toNat + b.toNat := by
  have hc := toNat_lt c
  unfold checkedAdd
  split
  · rename_i h
    rw [Option.some.injEq, ← UInt64.toNat_inj, UInt64.toNat_add, Nat.mod_eq_of_lt h]
    exact eq_comm
  · constructor
    · intro h
      exact nomatch h
    · intro h
      omega

theorem exists_checkedAdd {a b : UInt64} (h : a.toNat + b.toNat < 2 ^ 64) :
    ∃ c, checkedAdd a b = some c := ⟨a + b, if_pos h⟩

theorem checkedAdd_eq_none {a b : UInt64} :
    checkedAdd a b = none ↔ 2 ^ 64 ≤ a.toNat + b.toNat := by
  unfold checkedAdd
  split <;> simp <;> omega

theorem checkedSub_eq_some {a b c : UInt64} :
    checkedSub a b = some c ↔ a.toNat = c.toNat + b.toNat := by
  have ha := toNat_lt a
  have hb := toNat_lt b
  unfold checkedSub
  split
  · rename_i h
    have hle : b ≤ a := UInt64.le_iff_toNat_le.mpr h
    rw [Option.some.injEq, ← UInt64.toNat_inj, UInt64.toNat_sub_of_le _ _ hle]
    omega
  · constructor
    · intro h
      exact nomatch h
    · intro h
      omega

theorem sub_eq_of_toNat {a b c : UInt64} (h : a.toNat = c.toNat + b.toNat) : a - b = c := by
  have hle : b ≤ a := UInt64.le_iff_toNat_le.mpr (by omega)
  rw [← UInt64.toNat_inj, UInt64.toNat_sub_of_le _ _ hle]
  omega

end Checked

section BigEndian

/-- The low `8 * width` bits of `n`, most significant byte first. -/
def beBytes : ℕ → ℕ → Bytes
  | 0, _ => []
  | width + 1, n => UInt8.ofNat (n / 256 ^ width) :: beBytes width (n % 256 ^ width)

def ofBeBytes : Bytes → ℕ
  | [] => 0
  | b :: rest => b.toNat * 256 ^ rest.length + ofBeBytes rest

@[simp] theorem beBytes_length (width n : ℕ) : (beBytes width n).length = width := by
  induction width generalizing n with
  | zero => rfl
  | succ width ih => simp only [beBytes, List.length_cons, ih]

theorem ofBeBytes_beBytes (width n : ℕ) (hn : n < 256 ^ width) :
    ofBeBytes (beBytes width n) = n := by
  induction width generalizing n with
  | zero => simp only [pow_zero] at hn; simp [beBytes, ofBeBytes]; omega
  | succ width ih =>
    have hpos : 0 < 256 ^ width := Nat.pow_pos (by omega)
    have hq : n / 256 ^ width < 256 := by
      rw [Nat.div_lt_iff_lt_mul hpos]
      rwa [pow_succ, mul_comm] at hn
    have hdigit : (UInt8.ofNat (n / 256 ^ width)).toNat = n / 256 ^ width := by
      rw [UInt8.toNat_ofNat']
      exact Nat.mod_eq_of_lt (by simpa using hq)
    simp only [beBytes, ofBeBytes, beBytes_length, hdigit, ih _ (Nat.mod_lt _ hpos)]
    exact Nat.div_add_mod' n (256 ^ width)

end BigEndian

end PaymentRollup
