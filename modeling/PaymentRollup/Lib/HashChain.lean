import Mathlib.Data.List.Induction
import Mathlib.Data.Set.Insert
import Mathlib.Data.Set.Function

/-! # Hash chains

A chain is extended by hashing its last word together with one more item. Within a set of
strings that do not collide, the word it ends at determines where it began and every item
folded in since, provided no link ends at either beginning.
-/
namespace PaymentRollup.HashChain

variable {W A S : Type*} (h : S → W) (link : W → A → S)

def fold (w : W) (items : List A) : W := items.foldl (fun w a => h (link w a)) w

def strings : W → List A → Set S
  | _, [] => ∅
  | w, a :: rest => {link w a} ∪ strings (h (link w a)) rest

/-- No link in `Q` ends at `w`, so a chain can only begin there. -/
def Anchor (Q : Set S) (w : W) : Prop := ∀ v a, link v a ∈ Q → h (link v a) ≠ w

variable {h link}

@[simp] theorem fold_nil (w : W) : fold h link w [] = w := rfl

@[simp] theorem fold_cons (w : W) (a : A) (items : List A) :
    fold h link w (a :: items) = fold h link (h (link w a)) items := rfl

theorem fold_append (w : W) (xs ys : List A) :
    fold h link w (xs ++ ys) = fold h link (fold h link w xs) ys := List.foldl_append

@[simp] theorem fold_concat (w : W) (xs : List A) (a : A) :
    fold h link w (xs ++ [a]) = h (link (fold h link w xs) a) := by
  simp [fold_append]

@[simp] theorem strings_nil_subset (w : W) {Q : Set S} : strings h link w [] ⊆ Q :=
  Set.empty_subset Q

@[simp] theorem strings_cons_subset {w : W} {a : A} {items : List A} {Q : Set S} :
    strings h link w (a :: items) ⊆ Q ↔
      link w a ∈ Q ∧ strings h link (h (link w a)) items ⊆ Q := by
  simp only [strings, Set.union_subset_iff, Set.singleton_subset_iff]

theorem strings_append_subset {w : W} {xs ys : List A} {Q : Set S} :
    strings h link w (xs ++ ys) ⊆ Q ↔
      strings h link w xs ⊆ Q ∧ strings h link (fold h link w xs) ys ⊆ Q := by
  induction xs generalizing w with
  | nil => simp
  | cons a rest ih => simp only [List.cons_append, strings_cons_subset, fold_cons, ih, and_assoc]

instance decidableStringsSubset {Q : Set S} [DecidablePred (· ∈ Q)] :
    (w : W) → (items : List A) → Decidable (strings h link w items ⊆ Q)
  | w, [] => .isTrue (strings_nil_subset w)
  | w, a :: rest =>
    have : Decidable (strings h link (h (link w a)) rest ⊆ Q) := decidableStringsSubset _ rest
    decidable_of_iff _ strings_cons_subset.symm

/-- From two beginnings, equal words are ends of the same chain. -/
theorem fold_inj {Q : Set S} (hQ : Set.InjOn h Q) (hlink : Function.Injective2 link) {w w' : W}
    {xs ys : List A} (hx : strings h link w xs ⊆ Q) (hy : strings h link w' ys ⊆ Q)
    (hw : Anchor h link Q w) (hw' : Anchor h link Q w')
    (heq : fold h link w xs = fold h link w' ys) : xs = ys ∧ w = w' := by
  induction xs using List.reverseRecOn generalizing ys with
  | nil =>
    cases ys using List.reverseRecOn with
    | nil => exact ⟨rfl, heq⟩
    | append_singleton ys b =>
      rw [fold_concat] at heq
      have hmem := (strings_append_subset.mp hy).2
      exact absurd heq.symm (hw _ b (strings_cons_subset.mp hmem).1)
  | append_singleton xs a ih =>
    rw [fold_concat] at heq
    obtain ⟨hxs, hmem⟩ := strings_append_subset.mp hx
    have ha := (strings_cons_subset.mp hmem).1
    cases ys using List.reverseRecOn with
    | nil => exact absurd heq (hw' _ a ha)
    | append_singleton ys b =>
      obtain ⟨hys, hmem'⟩ := strings_append_subset.mp hy
      rw [fold_concat] at heq
      obtain ⟨hprev, rfl⟩ := hlink (hQ ha (strings_cons_subset.mp hmem').1 heq)
      obtain ⟨rfl, hstart⟩ := ih hxs hys hprev
      exact ⟨rfl, hstart⟩

theorem map_injOn {Q : Set S} (hQ : Set.InjOn h Q) {xs ys : List S} (hx : ∀ x ∈ xs, x ∈ Q)
    (hy : ∀ y ∈ ys, y ∈ Q) (heq : xs.map h = ys.map h) : xs = ys := by
  induction xs generalizing ys with
  | nil => exact (List.map_eq_nil_iff.mp heq.symm).symm
  | cons x xs ih =>
    cases ys with
    | nil => cases heq
    | cons y ys =>
      simp only [List.forall_mem_cons] at hx hy
      obtain ⟨hhead, htail⟩ := List.cons.inj heq
      rw [hQ hx.1 hy.1 hhead, ih hx.2 hy.2 htail]

end PaymentRollup.HashChain
