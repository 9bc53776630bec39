import Mathlib.Algebra.Order.Ring.Nat
import Mathlib.Tactic.Ring
import Mathlib.Data.UInt

/-! # Little-endian base 128

A number is cut into groups of seven bits, lowest first, and every byte but the last has its
top bit set. Padding with empty groups is allowed, so a number has many strings; the one
without padding is the shortest, and wider numbers never have narrower strings.
-/
namespace PaymentRollup

/-- The string stands for the number. -/
inductive Leb128 : List UInt8 → ℕ → Prop
  | last {byte : UInt8} (h : byte.toNat < 128) : Leb128 [byte] byte.toNat
  | more {byte : UInt8} {rest : List UInt8} {n : ℕ} (h : 128 ≤ byte.toNat) (hrest : Leb128 rest n) :
      Leb128 (byte :: rest) (byte.toNat - 128 + 128 * n)

namespace Leb128
variable {w w' : List UInt8} {n n' : ℕ}

theorem length_pos (h : Leb128 w n) : 0 < w.length := by
  cases h <;> simp

theorem split_cons {byte : UInt8} {tail rest : List UInt8} (h : Leb128 w n)
    (hx : byte :: tail = w ++ rest) :
    (byte.toNat < 128 ∧ w = [byte] ∧ tail = rest ∧ n = byte.toNat) ∨
      (128 ≤ byte.toNat ∧ ∃ w' m, w = byte :: w' ∧ tail = w' ++ rest ∧ Leb128 w' m ∧
        n = byte.toNat - 128 + 128 * m) := by
  cases h with
  | last hlast =>
    obtain ⟨rfl, htail⟩ := List.cons.inj hx
    exact .inl ⟨hlast, rfl, htail, rfl⟩
  | @more first w' m hmore hm =>
    obtain ⟨rfl, htail⟩ := List.cons.inj hx
    exact .inr ⟨hmore, w', m, rfl, htail, hm, rfl⟩

theorem lt_pow (h : Leb128 w n) : n < 128 ^ w.length := by
  induction h with
  | last h => simpa using h
  | @more byte rest n h _ ih =>
    have hbyte := byte.toNat_lt
    have hstep : 128 * (n + 1) ≤ 128 * 128 ^ rest.length := Nat.mul_le_mul_left 128 ih
    rw [List.length_cons, pow_succ, Nat.mul_comm]
    omega

theorem unique (h : Leb128 w n) (h' : Leb128 w' n) (hlength : w.length = w'.length) : w = w' := by
  induction h generalizing w' with
  | @last byte hbyte =>
    generalize hn : byte.toNat = n at h'
    cases h' with
    | last => rw [UInt8.toNat_inj.mp hn]
    | more _ hrest =>
      have := hrest.length_pos
      simp only [List.length_cons, List.length_nil] at hlength
      omega
  | @more byte rest n hbyte hrest ih =>
    generalize hn : byte.toNat - 128 + 128 * n = m at h'
    have hlt := byte.toNat_lt
    cases h' with
    | last =>
      have := hrest.length_pos
      simp only [List.length_cons, List.length_nil] at hlength
      omega
    | @more byte' rest' n' hbyte' hrest' =>
      have hlt' := byte'.toNat_lt
      have hhigh : n = n' := by omega
      have hlow : byte = byte' := UInt8.toNat_inj.mp (by omega)
      subst hhigh hlow
      rw [ih hrest' (by simpa using hlength)]

/-- No group at the end is empty, except in a string of one byte. -/
def Minimal (w : List UInt8) (n : ℕ) : Prop := Leb128 w n ∧ (w.length = 1 ∨ 128 ^ (w.length - 1) ≤ n)

theorem Minimal.last {byte : UInt8} (h : byte.toNat < 128) : Minimal [byte] byte.toNat :=
  ⟨.last h, .inl rfl⟩

theorem Minimal.more {byte : UInt8} (h : Minimal w n) (hbyte : 128 ≤ byte.toNat) (hn : 0 < n) :
    Minimal (byte :: w) (byte.toNat - 128 + 128 * n) := by
  refine ⟨.more hbyte h.1, .inr ?_⟩
  have hpos := h.1.length_pos
  have hwide : 128 ^ (w.length - 1) ≤ n := by
    rcases h.2 with hone | hwide
    · rw [hone]
      exact hn
    · exact hwide
  calc 128 ^ ((byte :: w).length - 1) = 128 ^ (w.length - 1) * 128 := by
        rw [← pow_succ, List.length_cons]
        congr 1
        omega
    _ ≤ byte.toNat - 128 + 128 * n := by omega

/-- A string without padding is no longer than any string of a number at least as large. -/
theorem Minimal.length_le (h : Minimal w n) (h' : Leb128 w' n') (hle : n ≤ n') :
    w.length ≤ w'.length := by
  rcases h.2 with hone | hwide
  · rw [hone]
    exact h'.length_pos
  · have hlt : 128 ^ (w.length - 1) < 128 ^ w'.length := (hwide.trans hle).trans_lt h'.lt_pow
    have := (Nat.pow_lt_pow_iff_right (by omega)).mp hlt
    omega

theorem Minimal.eq_of_length (h : Minimal w n) (h' : Leb128 w' n) (hlength : w'.length = w.length) :
    w' = w := h'.unique h.1 hlength

end Leb128

end PaymentRollup
