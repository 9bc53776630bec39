import PaymentRollup.Rollup.GuestDecoder

/-! # The law of the varints

A number is read off a string exactly if the string starts with a group of at most ten bytes
for a number of 64 bits, however padded; it is written as the one group that is not padded.
-/
namespace PaymentRollup
open Guarded

/-- The writer's loop comes to its end, ten turns being enough for any number. -/
theorem Guest.putVarintLoop_eq {ε : Type} {turns : ℕ} {value : UInt64}
    (hturns : 0 < turns) (hvalue : value.toNat < 128 ^ turns) :
    (Guest.putVarintLoop turns value : Guarded ε Bytes) =
      .ok (PaymentRollup.putVarintLoop turns value) := by
  induction turns generalizing value with
  | zero => exact absurd hturns (Nat.lt_irrefl 0)
  | succ turns ih =>
    have hshift := @shr64_of_lt ε 7 value (by decide)
    have hseven : value >>> UInt64.ofNat 7 = value >>> 7 := rfl
    have hhigh := Reader.shiftRight_seven value
    rw [Guest.putVarintLoop, hshift, ok_bind, hseven, PaymentRollup.putVarintLoop]
    split_ifs with hlast
    · rfl
    · have hpos : 0 < (value >>> 7).toNat :=
        Nat.pos_of_ne_zero fun h => hlast (UInt64.toNat_inj.mp h)
      have hless : (value >>> 7).toNat < 128 ^ turns := by
        rw [hhigh, Nat.div_lt_iff_lt_mul (by omega)]
        rwa [pow_succ] at hvalue
      have hturns' : 0 < turns := by
        rcases Nat.eq_zero_or_pos turns with rfl | h
        · omega
        · exact h
      rw [ih hturns' hless, ok_bind]

theorem Guest.putVarint_eq {ε : Type} (value : UInt64) :
    (Guest.putVarint value : Guarded ε Bytes) = .ok (PaymentRollup.putVarint value) :=
  Guest.putVarintLoop_eq (by decide) (value.toNat_lt.trans (by decide))

theorem putVarint_shortest {v : UInt64} {w : Bytes} (h : Leb128 w v.toNat) (hne : w ≠ putVarint v) :
    (putVarint v).length < w.length := by
  have hminimal := Reader.putVarint_minimal v
  apply lt_of_le_of_ne
  · exact hminimal.length_le h (Nat.le_refl _)
  · intro hlength
    exact hne (hminimal.eq_of_length h hlength.symm)

/-- What is read off a string is the group it starts with, and no string that starts with a group
is refused. What is written is read back, whatever follows, and is the shortest group. Neither
loop runs on, and no shift in them is by 64 or more. -/
theorem varint_boundary_law :
    (∀ x : Bytes, (∃ v rest, Reader.varint.run x = .ok (v, rest)) ↔
      ∃ w rest n, x = w ++ rest ∧ Leb128 w n ∧ w.length ≤ 10 ∧ n < 2 ^ 64) ∧
    (∀ (w rest : Bytes) (n : ℕ), Leb128 w n → w.length ≤ 10 → n < 2 ^ 64 →
      Reader.varint.run (w ++ rest) = .ok (UInt64.ofNat n, rest)) ∧
    (∀ (v : UInt64) (suffix : Bytes), Reader.varint.run (putVarint v ++ suffix) = .ok (v, suffix)) ∧
    (∀ v : UInt64, Leb128 (putVarint v) v.toNat ∧
      ∀ w, Leb128 w v.toNat → w ≠ putVarint v → (putVarint v).length < w.length) ∧
    (∀ x : Bytes, Guest.Reader.varint.run x = ofResult (Reader.varint.run x)) ∧
    ∀ v : UInt64, (Guest.putVarint v : Guarded DecodeError Bytes) = .ok (putVarint v) := by
  have hread : ∀ (w rest : Bytes) (n : ℕ), Leb128 w n → w.length ≤ 10 → n < 2 ^ 64 →
      Reader.varint.run (w ++ rest) = .ok (UInt64.ofNat n, rest) := by
    intro w rest n hw hlength hn
    have hto : (UInt64.ofNat n).toNat = n := by
      rw [UInt64.toNat_ofNat']
      exact Nat.mod_eq_of_lt hn
    exact Reader.varint_run ⟨hlength, by rwa [hto]⟩ rest
  refine ⟨?_, hread, Reader.run_varint, ?_, ?_, Guest.putVarint_eq⟩
  · intro x
    constructor
    · rintro ⟨v, rest, h⟩
      obtain ⟨w, rfl, hlength, hw⟩ := Reader.varint_eq_ok.mp h
      exact ⟨w, rest, v.toNat, rfl, hw, hlength, v.toNat_lt⟩
    · rintro ⟨w, rest, n, rfl, hw, hlength, hn⟩
      exact ⟨_, rest, hread w rest n hw hlength hn⟩
  · intro v
    constructor
    · exact (Reader.putVarint_minimal v).1
    · intro w hw hne
      exact putVarint_shortest hw hne
  · intro x
    exact Guest.Reader.varint_agrees x

end PaymentRollup
