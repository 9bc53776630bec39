import PaymentRollup.Rollup.Merkle
import PaymentRollup.Lib.PrefixTree

/-! # Prefix lengths and path bits describe the same paths

One function works bytewise with XOR and leading zeros, the other extracts single bits.
Together they make addresses keys of a prefix tree.
-/
namespace PaymentRollup

/-- The path bit of an address as a truth value: set means right. -/
def addressBit (address : Address) (level : ℕ) : Bool :=
  (address.bytes.getD (level / 8) 0).toNat.testBit (7 - level % 8)

theorem bitAt_eq (address : Address) (level : ℕ) :
    bitAt address level = if addressBit address level then 1 else 0 := by
  have hsub : 7 - level % 8 < 8 := by omega
  have hshift : (UInt8.ofNat (7 - level % 8)).toNat % 8 = 7 - level % 8 := by
    rw [UInt8.toNat_ofNat', Nat.mod_mod_of_dvd _ (by decide), Nat.mod_eq_of_lt hsub]
  rw [bitAt, addressBit, UInt8.toNat_and, UInt8.toNat_shiftRight, hshift, Nat.testBit,
    Nat.and_comm 1]
  generalize (address.bytes.getD (level / 8) 0).toNat >>> (7 - level % 8) = bits
  have hone : (1 : UInt8).toNat = 1 := rfl
  rw [hone, Nat.and_one_is_mod]
  rcases Nat.mod_two_eq_zero_or_one bits with h | h <;> simp [h]

theorem bitAt_eq_zero (address : Address) (level : ℕ) :
    bitAt address level = 0 ↔ addressBit address level = false := by
  rw [bitAt_eq]
  cases addressBit address level <;> simp

theorem bitAt_inj (a b : Address) (level : ℕ) :
    bitAt a level = bitAt b level ↔ addressBit a level = addressBit b level := by
  rw [bitAt_eq, bitAt_eq]
  cases addressBit a level <;> cases addressBit b level <;> decide

/-- The first set bit of a nonzero byte, counted from the top. -/
theorem leadingZeros_spec (z : UInt8) (hz : z ≠ 0) : leadingZeros z < 8 ∧
    (∀ i < leadingZeros z, z.toNat.testBit (7 - i) = false) ∧
      z.toNat.testBit (7 - leadingZeros z) = true := by
  have hall : ∀ n < 256, n ≠ 0 →
      ((List.range 8).takeWhile fun i => !n.testBit (7 - i)).length < 8 ∧
      (∀ i < ((List.range 8).takeWhile fun i => !n.testBit (7 - i)).length,
        n.testBit (7 - i) = false) ∧
      n.testBit (7 - ((List.range 8).takeWhile fun i => !n.testBit (7 - i)).length) = true := by
    decide +kernel
  exact hall z.toNat z.toNat_lt fun h => hz (UInt8.toNat_inj.mp h)

theorem byte_part {x y : UInt8} (hxy : x ≠ y) : leadingZeros (x ^^^ y) < 8 ∧
    (∀ i < leadingZeros (x ^^^ y), x.toNat.testBit (7 - i) = y.toNat.testBit (7 - i)) ∧
      x.toNat.testBit (7 - leadingZeros (x ^^^ y)) ≠
        y.toNat.testBit (7 - leadingZeros (x ^^^ y)) := by
  have hz : x ^^^ y ≠ 0 := fun h => hxy (UInt8.xor_eq_zero_iff.mp h)
  obtain ⟨hlt, hbelow, hat⟩ := leadingZeros_spec _ hz
  simp only [UInt8.toNat_xor, Nat.testBit_xor] at hbelow hat
  refine ⟨hlt, ?_, ?_⟩
  · intro i hi
    simpa using hbelow i hi
  · intro heq
    simp [heq] at hat

/-- Where the byte loop stops: at the end, or at the first byte that differs. -/
theorem commonPrefixFrom_spec {xs ys : Bytes} (hlen : xs.length = ys.length) (index : ℕ) :
    (xs = ys ∧ commonPrefixFrom index xs ys = maxDepth) ∨
    ∃ j < xs.length, (∀ i < j, xs.getD i 0 = ys.getD i 0) ∧ xs.getD j 0 ≠ ys.getD j 0 ∧
      commonPrefixFrom index xs ys =
        (index + j) * 8 + leadingZeros (xs.getD j 0 ^^^ ys.getD j 0) := by
  induction xs generalizing ys index with
  | nil =>
    left
    cases ys with
    | nil => exact ⟨rfl, rfl⟩
    | cons y ys => simp at hlen
  | cons x xs ih =>
    cases ys with
    | nil => simp at hlen
    | cons y ys =>
      by_cases hxy : x = y
      · subst hxy
        have hrec : commonPrefixFrom index (x :: xs) (x :: ys) =
            commonPrefixFrom (index + 1) xs ys := by simp [commonPrefixFrom]
        rw [hrec]
        rcases ih (by simpa using hlen) (index + 1) with ⟨rfl, hend⟩ | ⟨j, hj, hsame, hne, hval⟩
        · exact Or.inl ⟨rfl, hend⟩
        · refine Or.inr ⟨j + 1, by simpa using hj, ?_, by simpa using hne, ?_⟩
          · intro i hi
            cases i with
            | zero => rfl
            | succ i => simpa using hsame i (by omega)
          · rw [hval]
            simp only [List.getD_cons_succ]
            ring
      · refine Or.inr ⟨0, by simp, fun i hi => absurd hi (Nat.not_lt_zero i), by simpa using hxy, ?_⟩
        simp [commonPrefixFrom, hxy]

theorem commonPrefixLen_of_ne {a b : Address} (hab : a ≠ b) :
    ∃ j < 32, (∀ i < j, a.bytes.getD i 0 = b.bytes.getD i 0) ∧
      a.bytes.getD j 0 ≠ b.bytes.getD j 0 ∧
      commonPrefixLen a b = j * 8 + leadingZeros (a.bytes.getD j 0 ^^^ b.bytes.getD j 0) := by
  have hlen : a.bytes.length = b.bytes.length := by rw [a.size, b.size]
  rcases commonPrefixFrom_spec hlen 0 with ⟨h, _⟩ | ⟨j, hj, hsame, hne, hval⟩
  · exact absurd (Word.ext h) hab
  · refine ⟨j, by rw [← a.size]; exact hj, hsame, hne, ?_⟩
    rw [commonPrefixLen, hval, Nat.zero_add]

theorem commonPrefixLen_lt {a b : Address} (hab : a ≠ b) : commonPrefixLen a b < maxDepth := by
  obtain ⟨j, hj, _, hne, hval⟩ := commonPrefixLen_of_ne hab
  have hlz := (byte_part hne).1
  unfold maxDepth
  omega

theorem addressBit_agree (a b : Address) (i : ℕ) (hi : i < commonPrefixLen a b) :
    addressBit a i = addressBit b i := by
  by_cases hab : a = b
  · rw [hab]
  · obtain ⟨j, _, hsame, hne, hval⟩ := commonPrefixLen_of_ne hab
    have hlz := (byte_part hne).1
    unfold addressBit
    rcases Nat.lt_or_ge (i / 8) j with hlt | hge
    · rw [hsame _ hlt]
    · have hj : i / 8 = j := by omega
      rw [hj]
      exact (byte_part hne).2.1 _ (by omega)

theorem addressBit_part (a b : Address) (hab : a ≠ b) :
    addressBit a (commonPrefixLen a b) ≠ addressBit b (commonPrefixLen a b) := by
  obtain ⟨j, _, _, hne, hval⟩ := commonPrefixLen_of_ne hab
  obtain ⟨hlz, _, hat⟩ := byte_part hne
  have hdiv : commonPrefixLen a b / 8 = j := by omega
  have hmod : commonPrefixLen a b % 8 = leadingZeros (a.bytes.getD j 0 ^^^ b.bytes.getD j 0) := by
    omega
  unfold addressBit
  rw [hdiv, hmod]
  exact hat

/-- The parting level is symmetric because it is the only one of its kind. -/
theorem commonPrefixLen_comm (a b : Address) : commonPrefixLen a b = commonPrefixLen b a := by
  by_cases hab : a = b
  · rw [hab]
  · apply le_antisymm
    · by_contra hlt
      exact addressBit_part b a (Ne.symm hab) (addressBit_agree a b _ (by omega)).symm
    · by_contra hlt
      exact addressBit_part a b hab (addressBit_agree b a _ (by omega)).symm

def addressPaths : PrefixTree.Paths Address where
  bit := addressBit
  common := commonPrefixLen
  depth := maxDepth
  bit_agree := addressBit_agree
  bit_part := addressBit_part
  common_lt _ _ := commonPrefixLen_lt
  common_comm := commonPrefixLen_comm

section Lengths

theorem commonPrefixLen_self (a : Address) : commonPrefixLen a a = maxDepth := by
  rcases @commonPrefixFrom_spec a.bytes a.bytes rfl 0 with ⟨-, hend⟩ | ⟨j, -, -, hne, -⟩
  · exact hend
  · exact absurd rfl hne

theorem commonPrefixLen_le (a b : Address) : commonPrefixLen a b ≤ maxDepth := by
  by_cases hab : a = b
  · rw [hab, commonPrefixLen_self]
  · exact (commonPrefixLen_lt hab).le

theorem commonPrefixLen_eq_iff {a b : Address} : commonPrefixLen a b = maxDepth ↔ a = b := by
  constructor
  · intro h
    by_contra hab
    exact (commonPrefixLen_lt hab).ne h
  · rintro rfl
    exact commonPrefixLen_self a

theorem min_le_commonPrefixLen (a b c : Address) :
    min (commonPrefixLen a b) (commonPrefixLen b c) ≤ commonPrefixLen a c := by
  by_cases hac : a = c
  · rw [hac, commonPrefixLen_self]
    exact (min_le_right _ _).trans (commonPrefixLen_le b c)
  · exact addressPaths.min_le_common hac b

/-- Bit for bit, the common prefix of two addresses is where their paths run together. Of the
three prefix lengths between three addresses, the two shortest are the same. -/
theorem prefix_lengths_match_bits (a b c : Address) :
    (∀ i < commonPrefixLen a b, bitAt a i = bitAt b i) ∧
    (a ≠ b → commonPrefixLen a b < 256 ∧
      bitAt a (commonPrefixLen a b) ≠ bitAt b (commonPrefixLen a b)) ∧
    commonPrefixLen a b = commonPrefixLen b a ∧
    (commonPrefixLen a b = 256 ↔ a = b) ∧
    ((commonPrefixLen a b = commonPrefixLen b c ∧ commonPrefixLen a b ≤ commonPrefixLen a c) ∨
      (commonPrefixLen a b = commonPrefixLen a c ∧ commonPrefixLen a b ≤ commonPrefixLen b c) ∨
      (commonPrefixLen b c = commonPrefixLen a c ∧ commonPrefixLen b c ≤ commonPrefixLen a b)) := by
  refine ⟨?_, ?_, commonPrefixLen_comm a b, commonPrefixLen_eq_iff, ?_⟩
  · intro i hi
    exact (bitAt_inj a b i).mpr (addressBit_agree a b i hi)
  · intro hab
    constructor
    · exact commonPrefixLen_lt hab
    · exact mt (bitAt_inj a b _).mp (addressBit_part a b hab)
  · have hac := min_le_commonPrefixLen a b c
    have hbc := min_le_commonPrefixLen b a c
    have hab := min_le_commonPrefixLen a c b
    rw [commonPrefixLen_comm b a] at hbc
    rw [commonPrefixLen_comm c b] at hab
    omega

end Lengths

end PaymentRollup
