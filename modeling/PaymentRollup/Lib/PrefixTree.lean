import Mathlib.Data.List.Basic
import Mathlib.Logic.Function.Basic

/-! # Compressed binary prefix trees

A finite map is held as a tree that branches on the bits of its keys. A subtree with
one entry is that entry's leaf, however high it sits, and an empty subtree is empty,
so the shape is fixed by the contents. Nothing here mentions hashing.
-/
namespace PaymentRollup.PrefixTree

/-- How keys spell paths: their bits, and the level at which two of them part. -/
structure Paths (K : Type*) where
  bit : K → ℕ → Bool
  common : K → K → ℕ
  depth : ℕ
  bit_agree : ∀ a b i, i < common a b → bit a i = bit b i
  bit_part : ∀ a b, a ≠ b → bit a (common a b) ≠ bit b (common a b)
  common_lt : ∀ a b, a ≠ b → common a b < depth
  common_comm : ∀ a b, common a b = common b a

inductive Tree (K V : Type*) where
  | empty
  | leaf (key : K) (value : V)
  | branch (left right : Tree K V)

variable {K V : Type*} (P : Paths K)

/-- The level where two keys part is the only one agreeing below and differing there. -/
theorem Paths.le_common {a b : K} (hab : a ≠ b) {d : ℕ}
    (h : ∀ i < d, P.bit a i = P.bit b i) : d ≤ P.common a b := by
  by_contra hlt
  exact P.bit_part a b hab (h _ (by omega))

theorem Paths.min_le_common {a c : K} (hac : a ≠ c) (b : K) :
    min (P.common a b) (P.common b c) ≤ P.common a c := by
  apply P.le_common hac
  intro i hi
  obtain ⟨hab, hbc⟩ := Nat.lt_min.mp hi
  exact (P.bit_agree a b i hab).trans (P.bit_agree b c i hbc)

/-- A branch with `node` on the side `k` takes at `level`. -/
def oneSided (k : K) (level : ℕ) (node : Tree K V) : Tree K V :=
  if P.bit k level = false then .branch node .empty else .branch .empty node

def pair (a b : K × V) : Tree K V :=
  if P.bit a.1 (P.common a.1 b.1) = false then .branch (.leaf a.1 a.2) (.leaf b.1 b.2)
  else .branch (.leaf b.1 b.2) (.leaf a.1 a.2)

/-- A subtree at level `d` holding exactly `a` and `b`. -/
def split (d : ℕ) (a b : K × V) : Tree K V :=
  (List.range' d (P.common a.1 b.1 - d)).foldr (oneSided P a.1) (pair P a b)

/-- Branches that have emptied down to one entry or none give way to what they hold. -/
def collapse : Tree K V → Tree K V
  | .branch .empty .empty => .empty
  | .branch (.leaf k v) .empty => .leaf k v
  | .branch .empty (.leaf k v) => .leaf k v
  | t => t

section Writes
variable [DecidableEq K]

def insert : ℕ → K → V → Tree K V → Tree K V
  | _, k, v, .empty => .leaf k v
  | d, k, v, .leaf held w => if held = k then .leaf k v else split P d (held, w) (k, v)
  | d, k, v, .branch l r =>
    if P.bit k d = false then .branch (insert (d + 1) k v l) r
    else .branch l (insert (d + 1) k v r)

def remove : ℕ → K → Tree K V → Tree K V
  | _, _, .empty => .empty
  | _, k, .leaf held w => if held = k then .empty else .leaf held w
  | d, k, .branch l r =>
    if P.bit k d = false then collapse (.branch (remove (d + 1) k l) r)
    else collapse (.branch l (remove (d + 1) k r))

end Writes

/-- The entries of `S` on side `b` of a branch at level `d`. -/
def side (d : ℕ) (b : Bool) (S : K → Option V) : K → Option V :=
  fun k => if P.bit k d = b then S k else none

/-- `t` is the compressed tree of `S`, seen from level `d`. -/
def Canonical : ℕ → (K → Option V) → Tree K V → Prop
  | _, S, .empty => ∀ k, S k = none
  | _, S, .leaf k v => S k = some v ∧ ∀ j, j ≠ k → S j = none
  | d, S, .branch l r =>
    (∃ a b, a ≠ b ∧ S a ≠ none ∧ S b ≠ none) ∧
      Canonical (d + 1) (side P d false S) l ∧ Canonical (d + 1) (side P d true S) r

def Together (d : ℕ) (S : K → Option V) : Prop :=
  ∀ a b, S a ≠ none → S b ≠ none → ∀ i < d, P.bit a i = P.bit b i

variable {P}

theorem side_ne_none {d : ℕ} {b : Bool} {S : K → Option V} {k : K}
    (h : side P d b S k ≠ none) : P.bit k d = b ∧ S k ≠ none := by
  unfold side at h
  split at h
  · exact ⟨by assumption, h⟩
  · exact absurd rfl h

theorem side_of_bit {d : ℕ} {b : Bool} {S : K → Option V} {k : K} (h : P.bit k d = b) :
    side P d b S k = S k := if_pos h

theorem Together.side {d : ℕ} {S : K → Option V} (h : Together P d S) (b : Bool) :
    Together P (d + 1) (side P d b S) := by
  intro j k hj hk i hi
  obtain ⟨hjb, hj⟩ := side_ne_none hj
  obtain ⟨hkb, hk⟩ := side_ne_none hk
  rcases Nat.lt_succ_iff_lt_or_eq.mp hi with hlt | rfl
  · exact h j k hj hk i hlt
  · exact hjb.trans hkb.symm

theorem together_zero (S : K → Option V) : Together P 0 S :=
  fun _ _ _ _ _ hi => absurd hi (Nat.not_lt_zero _)

section Shape

theorem split_of_lt {d : ℕ} {a b : K × V} (h : d < P.common a.1 b.1) :
    split P d a b = oneSided P a.1 d (split P (d + 1) a b) := by
  obtain ⟨n, hn⟩ : ∃ n, P.common a.1 b.1 - d = n + 1 := ⟨_, (Nat.succ_pred (by omega)).symm⟩
  have hn' : P.common a.1 b.1 - (d + 1) = n := by omega
  simp only [split, hn, hn', List.range'_succ, List.foldr_cons]

theorem split_of_ge {d : ℕ} {a b : K × V} (h : P.common a.1 b.1 ≤ d) :
    split P d a b = pair P a b := by
  simp [split, Nat.sub_eq_zero_of_le h]

theorem split_comm {a b : K × V} (hab : a.1 ≠ b.1) (d : ℕ) : split P d a b = split P d b a := by
  have hpair : pair P a b = pair P b a := by
    have hpart := P.bit_part _ _ hab
    unfold pair
    rw [P.common_comm b.1 a.1]
    cases ha : P.bit a.1 (P.common a.1 b.1) <;> cases hb : P.bit b.1 (P.common a.1 b.1) <;>
      simp_all
  induction hn : P.common a.1 b.1 - d generalizing d with
  | zero =>
    rw [split_of_ge (by omega), split_of_ge (by rw [P.common_comm]; omega), hpair]
  | succ n ih =>
    have hlt : d < P.common a.1 b.1 := by omega
    have hbit := P.bit_agree _ _ _ hlt
    have hlt' : d < P.common b.1 a.1 := by rwa [P.common_comm]
    rw [split_of_lt hlt, split_of_lt hlt', ih (d + 1) (by omega)]
    simp only [oneSided, hbit]

def Both (S : K → Option V) (a b : K × V) : Prop :=
  S a.1 = some a.2 ∧ S b.1 = some b.2 ∧ ∀ j, j ≠ a.1 → j ≠ b.1 → S j = none

theorem canonical_leaf_side {d : ℕ} {S : K → Option V} {a b : K × V} (hS : Both S a b)
    (hpart : P.bit a.1 d ≠ P.bit b.1 d) :
    Canonical P (d + 1) (side P d (P.bit a.1 d) S) (.leaf a.1 a.2) := by
  refine ⟨by rw [side_of_bit rfl]; exact hS.1, ?_⟩
  intro j hj
  by_cases hjb : j = b.1
  · subst hjb
    simp [side, Ne.symm hpart]
  · simp [side, hS.2.2 j hj hjb]

theorem Both.symm {S : K → Option V} {a b : K × V} (h : Both S a b) : Both S b a :=
  ⟨h.2.1, h.1, fun j hb ha => h.2.2 j ha hb⟩

theorem Both.two {S : K → Option V} {a b : K × V} (h : Both S a b) (hab : a.1 ≠ b.1) :
    ∃ j k, j ≠ k ∧ S j ≠ none ∧ S k ≠ none :=
  ⟨a.1, b.1, hab, by simp [h.1], by simp [h.2.1]⟩

theorem canonical_pair {d : ℕ} {S : K → Option V} {a b : K × V} (hab : a.1 ≠ b.1)
    (hd : P.common a.1 b.1 = d) (hS : Both S a b) : Canonical P d S (pair P a b) := by
  subst hd
  have hpart := P.bit_part _ _ hab
  have ha := canonical_leaf_side hS hpart
  have hb := canonical_leaf_side hS.symm hpart.symm
  unfold pair
  cases hbit : P.bit a.1 (P.common a.1 b.1) with
  | false =>
    have hbit' : P.bit b.1 (P.common a.1 b.1) = true := by
      cases h : P.bit b.1 (P.common a.1 b.1) <;> simp_all
    rw [hbit] at ha
    rw [hbit'] at hb
    exact ⟨hS.two hab, ha, hb⟩
  | true =>
    have hbit' : P.bit b.1 (P.common a.1 b.1) = false := by
      cases h : P.bit b.1 (P.common a.1 b.1) <;> simp_all
    rw [hbit] at ha
    rw [hbit'] at hb
    exact ⟨hS.two hab, hb, ha⟩

theorem Both.side {d : ℕ} {S : K → Option V} {a b : K × V} (hS : Both S a b)
    (hbit : P.bit a.1 d = P.bit b.1 d) : Both (side P d (P.bit a.1 d) S) a b := by
  refine ⟨by rw [side_of_bit rfl]; exact hS.1, by rw [side_of_bit hbit.symm]; exact hS.2.1, ?_⟩
  intro j ha hb
  simp [PrefixTree.side, hS.2.2 j ha hb]

theorem Both.side_other {d : ℕ} {S : K → Option V} {a b : K × V} (hS : Both S a b)
    {x : Bool} (ha : P.bit a.1 d ≠ x) (hb : P.bit b.1 d ≠ x) (j : K) :
    PrefixTree.side P d x S j = none := by
  unfold PrefixTree.side
  split
  · rename_i hj
    exact hS.2.2 j (fun h => ha (h ▸ hj)) (fun h => hb (h ▸ hj))
  · rfl

theorem canonical_split {a b : K × V} (hab : a.1 ≠ b.1) {d : ℕ} (hd : d ≤ P.common a.1 b.1)
    {S : K → Option V} (hS : Both S a b) : Canonical P d S (split P d a b) := by
  induction hn : P.common a.1 b.1 - d generalizing d S with
  | zero =>
    rw [split_of_ge (by omega)]
    exact canonical_pair hab (by omega) hS
  | succ n ih =>
    have hlt : d < P.common a.1 b.1 := by omega
    have hbit := P.bit_agree _ _ _ hlt
    have hd' : d + 1 ≤ P.common a.1 b.1 := hlt
    have hsub := ih hd' (hS.side hbit) (by omega)
    rw [split_of_lt hlt]
    unfold oneSided
    cases ha : P.bit a.1 d with
    | false =>
      rw [ha] at hsub
      exact ⟨hS.two hab, hsub, hS.side_other (by simp [ha]) (by simp [← hbit, ha])⟩
    | true =>
      rw [ha] at hsub
      exact ⟨hS.two hab, hS.side_other (by simp [ha]) (by simp [← hbit, ha]), hsub⟩

theorem two_of_sides {d : ℕ} {S : K → Option V} {j k : K} (hj : side P d false S j ≠ none)
    (hk : side P d true S k ≠ none) : ∃ a b, a ≠ b ∧ S a ≠ none ∧ S b ≠ none := by
  obtain ⟨hjb, hj⟩ := side_ne_none hj
  obtain ⟨hkb, hk⟩ := side_ne_none hk
  exact ⟨j, k, fun h => by simp [h, hkb] at hjb, hj, hk⟩

theorem two_of_side {d : ℕ} {S : K → Option V} {x : Bool}
    (h : ∃ a b, a ≠ b ∧ side P d x S a ≠ none ∧ side P d x S b ≠ none) :
    ∃ a b, a ≠ b ∧ S a ≠ none ∧ S b ≠ none := by
  obtain ⟨a, b, hab, ha, hb⟩ := h
  exact ⟨a, b, hab, (side_ne_none ha).2, (side_ne_none hb).2⟩

theorem canonical_collapse {d : ℕ} {S : K → Option V} {l r : Tree K V}
    (hl : Canonical P (d + 1) (side P d false S) l)
    (hr : Canonical P (d + 1) (side P d true S) r) : Canonical P d S (collapse (.branch l r)) := by
  have hnone : ∀ k, side P d false S k = none → side P d true S k = none → S k = none := by
    intro k hf ht
    cases hb : P.bit k d with
    | false => rwa [side_of_bit hb] at hf
    | true => rwa [side_of_bit hb] at ht
  have hsome : ∀ {b k v}, side P d b S k = some v → S k = some v := by
    intro b k v h
    have hne : side P d b S k ≠ none := by simp [h]
    rwa [side_of_bit (side_ne_none hne).1] at h
  cases l with
  | empty =>
    cases r with
    | empty => exact fun k => hnone k (hl k) (hr k)
    | leaf k v => exact ⟨hsome hr.1, fun j hj => hnone j (hl j) (hr.2 j hj)⟩
    | branch rl rr => exact ⟨two_of_side hr.1, hl, hr⟩
  | leaf k v =>
    cases r with
    | empty => exact ⟨hsome hl.1, fun j hj => hnone j (hl.2 j hj) (hr j)⟩
    | leaf j w =>
      have hk : side P d false S k ≠ none := by simp [hl.1]
      have hj : side P d true S j ≠ none := by simp [hr.1]
      exact ⟨two_of_sides hk hj, hl, hr⟩
    | branch rl rr => exact ⟨two_of_side hr.1, hl, hr⟩
  | branch ll lr =>
    have htwo := two_of_side hl.1
    cases r <;> exact ⟨htwo, hl, hr⟩

/-- The contents fix the shape. -/
theorem canonical_unique {d : ℕ} {S : K → Option V} {t u : Tree K V} (ht : Canonical P d S t)
    (hu : Canonical P d S u) : t = u := by
  induction t generalizing d S u with
  | empty =>
    cases u with
    | empty => rfl
    | leaf k v => exact absurd hu.1 (by simp [ht k])
    | branch l r =>
      obtain ⟨⟨a, _, _, ha, _⟩, _⟩ := hu
      exact absurd (ht a) ha
  | leaf k v =>
    cases u with
    | empty => exact absurd ht.1 (by simp [hu k])
    | leaf j w =>
      by_cases hjk : j = k
      · subst hjk
        rw [Option.some.inj (ht.1.symm.trans hu.1)]
      · exact absurd hu.1 (by simp [ht.2 j hjk])
    | branch l r =>
      obtain ⟨⟨a, b, hab, ha, hb⟩, _⟩ := hu
      have hak : a = k := by_contra fun h => ha (ht.2 a h)
      have hbk : b = k := by_contra fun h => hb (ht.2 b h)
      exact absurd (hak.trans hbk.symm) hab
  | branch l r ihl ihr =>
    cases u with
    | empty =>
      obtain ⟨⟨a, _, _, ha, _⟩, _⟩ := ht
      exact absurd (hu a) ha
    | leaf k v =>
      obtain ⟨⟨a, b, hab, ha, hb⟩, _⟩ := ht
      have hak : a = k := by_contra fun h => ha (hu.2 a h)
      have hbk : b = k := by_contra fun h => hb (hu.2 b h)
      exact absurd (hak.trans hbk.symm) hab
    | branch l' r' => rw [ihl ht.2.1 hu.2.1, ihr ht.2.2 hu.2.2]

/-- The shape fixes the contents. -/
theorem canonical_contents {d : ℕ} {S S' : K → Option V} {t : Tree K V} (h : Canonical P d S t)
    (h' : Canonical P d S' t) : S = S' := by
  induction t generalizing d S S' with
  | empty =>
    funext k
    rw [h k, h' k]
  | leaf k v =>
    funext j
    by_cases hj : j = k
    · rw [hj, h.1, h'.1]
    · rw [h.2 j hj, h'.2 j hj]
  | branch l r ihl ihr =>
    have hl := ihl h.2.1 h'.2.1
    have hr := ihr h.2.2 h'.2.2
    funext k
    cases hb : P.bit k d with
    | false =>
      have hk := congrFun hl k
      rwa [side_of_bit hb, side_of_bit hb] at hk
    | true =>
      have hk := congrFun hr k
      rwa [side_of_bit hb, side_of_bit hb] at hk

end Shape

section Canonical
variable [DecidableEq K]

theorem side_update {d : ℕ} {S : K → Option V} {k : K} {x : Option V} {b : Bool}
    (h : P.bit k d = b) :
    side P d b (Function.update S k x) = Function.update (side P d b S) k x := by
  funext j
  by_cases hj : j = k
  · subst hj
    simp [side, h]
  · simp [side, hj]

theorem side_update_other {d : ℕ} {S : K → Option V} {k : K} {x : Option V} {b : Bool}
    (h : P.bit k d ≠ b) : side P d b (Function.update S k x) = side P d b S := by
  funext j
  by_cases hj : j = k
  · subst hj
    simp [side, h]
  · simp [side, hj]

/-- Writing one entry keeps the tree canonical. -/
theorem canonical_insert {d : ℕ} {S : K → Option V} {t : Tree K V} (h : Canonical P d S t)
    (k : K) (v : V) (hk : Together P d (Function.update S k (some v))) :
    Canonical P d (Function.update S k (some v)) (insert P d k v t) := by
  induction t generalizing d S with
  | empty =>
    refine ⟨by simp, ?_⟩
    intro j hj
    simpa [hj] using h j
  | leaf held w =>
    by_cases heq : held = k
    · subst heq
      simp only [insert, ↓reduceIte]
      refine ⟨by simp, ?_⟩
      intro j hj
      simpa [hj] using h.2 j hj
    · simp only [insert, if_neg heq]
      have hd : d ≤ P.common held k := by
        refine P.le_common heq (hk held k ?_ (by simp))
        simp [heq, h.1]
      refine canonical_split heq hd ⟨by simpa [heq] using h.1, by simp, ?_⟩
      intro j hj hjk
      simp only at hjk hj
      simpa [hjk] using h.2 j hj
  | branch l r ihl ihr =>
    obtain ⟨⟨a, b, hab, ha, hb⟩, hl, hr⟩ := h
    have htwo : ∃ a b, a ≠ b ∧ Function.update S k (some v) a ≠ none ∧
        Function.update S k (some v) b ≠ none := by
      refine ⟨a, b, hab, ?_, ?_⟩
      · by_cases hak : a = k <;> simp [hak, ha]
      · by_cases hbk : b = k <;> simp [hbk, hb]
    have hside := hk.side (P.bit k d)
    rw [side_update rfl] at hside
    unfold insert
    cases hbit : P.bit k d with
    | false =>
      rw [hbit] at hside
      refine ⟨htwo, ?_, ?_⟩
      · rw [side_update hbit]
        exact ihl hl hside
      · rw [side_update_other (by simp [hbit])]
        exact hr
    | true =>
      rw [hbit] at hside
      refine ⟨htwo, ?_, ?_⟩
      · rw [side_update_other (by simp [hbit])]
        exact hl
      · rw [side_update hbit]
        exact ihr hr hside

theorem canonical_remove {d : ℕ} {S : K → Option V} {t : Tree K V} (h : Canonical P d S t)
    (k : K) : Canonical P d (Function.update S k none) (remove P d k t) := by
  induction t generalizing d S with
  | empty =>
    intro j
    by_cases hj : j = k <;> simp [hj, h j]
  | leaf held w =>
    by_cases heq : held = k
    · subst heq
      simp only [remove, ↓reduceIte]
      intro j
      by_cases hj : j = held
      · simp [hj]
      · simpa [hj] using h.2 j hj
    · simp only [remove, if_neg heq]
      refine ⟨by simpa [heq] using h.1, ?_⟩
      intro j hj
      by_cases hjk : j = k
      · simp [hjk]
      · simpa [hjk] using h.2 j hj
  | branch l r ihl ihr =>
    obtain ⟨_, hl, hr⟩ := h
    unfold remove
    cases hbit : P.bit k d with
    | false =>
      simp only [↓reduceIte]
      apply canonical_collapse
      · rw [side_update hbit]
        exact ihl hl
      · rwa [side_update_other (by simp [hbit])]
    | true =>
      simp only [Bool.true_eq_false, ↓reduceIte]
      apply canonical_collapse
      · rwa [side_update_other (by simp [hbit])]
      · rw [side_update hbit]
        exact ihr hr

end Canonical

end PaymentRollup.PrefixTree
