import Mathlib.Data.List.Induction

/-! # Collecting a stream into groups

One item after another joins the group being composed, and a full group is sent before the next
item is taken. What is left over at the end is sent as it is.
-/
namespace PaymentRollup.Grouping

variable {α : Type*}

/-- The groups sent so far, and the one being composed. -/
structure Composing (α : Type*) where
  sent : List (List α)
  group : List α

def Composing.add (size : ℕ) (c : Composing α) (x : α) : Composing α :=
  if c.group.length = size then ⟨c.sent ++ [c.group], [x]⟩ else ⟨c.sent, c.group ++ [x]⟩

def compose (size : ℕ) (xs : List α) : Composing α := xs.foldl (Composing.add size) ⟨[], []⟩

/-- Everything that is sent, the last group included. -/
def groups (size : ℕ) (xs : List α) : List (List α) :=
  (compose size xs).sent ++ [(compose size xs).group]

theorem compose_concat (size : ℕ) (xs : List α) (x : α) :
    compose size (xs ++ [x]) = (compose size xs).add size x := by
  rw [compose, compose, List.foldl_append, List.foldl_cons, List.foldl_nil]

theorem compose_flatten (size : ℕ) (xs : List α) :
    (compose size xs).sent.flatten ++ (compose size xs).group = xs := by
  induction xs using List.reverseRecOn with
  | nil => rfl
  | append_singleton xs x ih =>
    rw [compose_concat, Composing.add]
    split_ifs
    · rw [List.flatten_concat, ih]
    · rw [← List.append_assoc, ih]

theorem groups_flatten (size : ℕ) (xs : List α) : (groups size xs).flatten = xs := by
  rw [groups, List.flatten_concat, compose_flatten]

/-- A group is sent when it is full, and one that is being composed never grows beyond that. -/
theorem compose_sizes {size : ℕ} (hsize : 0 < size) (xs : List α) :
    (∀ group ∈ (compose size xs).sent, group.length = size) ∧
      (compose size xs).group.length ≤ size ∧ (xs ≠ [] → (compose size xs).group ≠ []) := by
  induction xs using List.reverseRecOn with
  | nil => exact ⟨List.forall_mem_nil _, Nat.zero_le _, fun h => absurd rfl h⟩
  | append_singleton xs x ih =>
    obtain ⟨hsent, hle, -⟩ := ih
    rw [compose_concat, Composing.add]
    split_ifs with hfull
    · refine ⟨?_, hsize, fun _ => List.cons_ne_nil _ _⟩
      intro group hgroup
      rcases List.mem_append.mp hgroup with hold | hnew
      · exact hsent group hold
      · rw [List.mem_singleton.mp hnew, hfull]
    · refine ⟨hsent, ?_, fun _ => by simp⟩
      rw [List.length_append, List.length_singleton]
      omega

theorem groups_bounds {size : ℕ} (hsize : 0 < size) {xs : List α} (hxs : xs ≠ []) :
    ∀ group ∈ groups size xs, group ≠ [] ∧ group.length ≤ size := by
  obtain ⟨hsent, hle, hne⟩ := compose_sizes hsize xs
  intro group hgroup
  rcases List.mem_append.mp hgroup with hfull | hlast
  · have hlength := hsent group hfull
    refine ⟨?_, Nat.le_of_eq hlength⟩
    rintro rfl
    exact Nat.ne_of_lt hsize hlength
  · rw [List.mem_singleton.mp hlast]
    exact ⟨hne hxs, hle⟩

end PaymentRollup.Grouping
