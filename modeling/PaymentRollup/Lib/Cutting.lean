import Mathlib.Data.List.Induction

/-! # Cutting a string at fixed boundaries

The total length fixes where the cuts fall: every piece is full but the last. So a string is
cut in one way, and taking the pieces one after another arrives at it.
-/
namespace PaymentRollup.Cutting

variable {α : Type*} {size n : ℕ}

/-- The first pieces of a string of length `n`: each is full, or what is left of it. -/
def Cut (size : ℕ) : ℕ → List (List α) → Prop
  | _, [] => True
  | n, piece :: rest => 0 < n ∧ piece.length = min size n ∧ Cut size (n - piece.length) rest

theorem cut_cons {piece : List α} {rest : List (List α)} : Cut size n (piece :: rest) ↔
    0 < n ∧ piece.length = min size n ∧ Cut size (n - piece.length) rest := Iff.rfl

theorem cut_append {xs ys : List (List α)} :
    Cut size n (xs ++ ys) ↔ Cut size n xs ∧ Cut size (n - xs.flatten.length) ys := by
  induction xs generalizing n with
  | nil => simp [Cut]
  | cons x xs ih =>
    simp only [List.cons_append, Cut, ih, List.flatten_cons, List.length_append, Nat.sub_sub,
      and_assoc]

theorem cut_concat {xs : List (List α)} {x : List α} :
    Cut size n (xs ++ [x]) ↔ Cut size n xs ∧ xs.flatten.length < n ∧
      x.length = min size (n - xs.flatten.length) := by
  rw [cut_append]
  simp only [Cut, and_true, Nat.sub_pos_iff_lt]

theorem cut_of_next {xs : List (List α)}
    (h : ∀ before x after, before ++ x :: after = xs → before.flatten.length < n ∧
      x.length = min size (n - before.flatten.length)) : Cut size n xs := by
  induction xs using List.reverseRecOn with
  | nil => exact True.intro
  | append_singleton xs x ih =>
    rw [cut_concat]
    constructor
    · apply ih
      intro before y after heq
      apply h before y (after ++ [x])
      rw [← heq, List.append_assoc, List.cons_append]
    · exact h xs x [] rfl

theorem Cut.unique (hsize : 0 < size) {xs ys : List (List α)} (hx : Cut size n xs)
    (hy : Cut size n ys) (h : xs.flatten = ys.flatten) : xs = ys := by
  induction xs generalizing n ys with
  | nil =>
    cases ys with
    | nil => rfl
    | cons y ys =>
      obtain ⟨hpos, hlength, -⟩ := hy
      have hempty := congrArg List.length h
      simp only [List.flatten_nil, List.length_nil, List.flatten_cons, List.length_append] at hempty
      omega
  | cons x xs ih =>
    obtain ⟨hpos, hlength, hrest⟩ := hx
    cases ys with
    | nil =>
      have hempty := congrArg List.length h
      simp only [List.flatten_nil, List.length_nil, List.flatten_cons, List.length_append] at hempty
      omega
    | cons y ys =>
      obtain ⟨-, hlength', hrest'⟩ := hy
      simp only [List.flatten_cons] at h
      obtain ⟨rfl, htail⟩ := List.append_inj h (hlength.trans hlength'.symm)
      rw [ih hrest hrest' htail]

/-- Slices of one width, from the front, are the string up to where they end. -/
theorem slices_flatten (xs : List α) (width count : ℕ) :
    ((List.range count).map fun i => (xs.drop (i * width)).take width).flatten =
      xs.take (count * width) := by
  induction count with
  | zero => simp
  | succ count ih =>
    rw [List.range_succ, List.map_append, List.flatten_append, ih, Nat.succ_mul, List.take_add]
    simp

end PaymentRollup.Cutting
