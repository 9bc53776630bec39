import PaymentRollup.Lib.PrefixTree
import Mathlib.Data.Set.Insert

/-! # Digests of prefix trees, and paths through them

A digest commits to a tree through one preimage per leaf and per branch. A path is the
list of digests turned away from on the way to a subtree. Soundness needs no property
of the digest beyond having no collision among the preimages actually compared, so it
is stated relative to a set of them.
-/
namespace PaymentRollup.PrefixTree

/-- What one digest is computed from. -/
inductive Preimage (K V D : Type*) where
  | leaf (key : K) (value : V)
  | node (left right : D)

variable {K V D : Type*}

/-- No two preimages in `Q` collide, and none reaches the digest of the empty tree. -/
structure IdealOn (h : Preimage K V D → D) (e : D) (Q : Set (Preimage K V D)) : Prop where
  inj : ∀ x ∈ Q, ∀ y ∈ Q, h x = h y → x = y
  ne_empty : ∀ x ∈ Q, h x ≠ e

variable (h : Preimage K V D → D) (e : D)

def digest : Tree K V → D
  | .empty => e
  | .leaf k v => h (.leaf k v)
  | .branch l r => h (.node (digest l) (digest r))

/-- The preimages hashed in computing a digest from scratch. -/
def preimages : Tree K V → Set (Preimage K V D)
  | .empty => ∅
  | .leaf k v => {.leaf k v}
  | .branch l r => {.node (digest h e l) (digest h e r)} ∪ (preimages l ∪ preimages r)

variable (P : Paths K) (k : K)

/-- The node above `below` on the way to `k`, given the digest `s` turned away from. -/
def turn (level : ℕ) (s below : D) : Preimage K V D :=
  if P.bit k level = false then .node below s else .node s below

/-- Hash up from `below` through the siblings met from `level` downwards. -/
def climb : ℕ → List D → D → D
  | _, [], below => below
  | level, s :: rest, below => h (turn P k level s (climb (level + 1) rest below))

def climbPreimages : ℕ → List D → D → Set (Preimage K V D)
  | _, [], _ => ∅
  | level, s :: rest, below =>
    {turn P k level s (climb h P k (level + 1) rest below)} ∪ climbPreimages (level + 1) rest below

/-- Walking from `t` towards `k` turns away from `siblings` and arrives at `u`. -/
def Path : ℕ → Tree K V → List D → Tree K V → Prop
  | _, t, [], u => t = u
  | level, .branch l r, s :: rest, u =>
    if P.bit k level = false then s = digest h e r ∧ Path (level + 1) l rest u
    else s = digest h e l ∧ Path (level + 1) r rest u
  | _, _, _ :: _, _ => False

variable {h e P k}

@[simp] theorem preimages_leaf_subset {j : K} {v : V} {Q : Set (Preimage K V D)} :
    preimages h e (.leaf j v) ⊆ Q ↔ .leaf j v ∈ Q := Set.singleton_subset_iff

@[simp] theorem preimages_branch_subset {l r : Tree K V} {Q : Set (Preimage K V D)} :
    preimages h e (.branch l r) ⊆ Q ↔ .node (digest h e l) (digest h e r) ∈ Q ∧
      preimages h e l ⊆ Q ∧ preimages h e r ⊆ Q := by
  simp only [preimages, Set.union_subset_iff, Set.singleton_subset_iff]

@[simp] theorem climbPreimages_cons_subset {level : ℕ} {s below : D} {rest : List D}
    {Q : Set (Preimage K V D)} : climbPreimages h P k level (s :: rest) below ⊆ Q ↔
      turn P k level s (climb h P k (level + 1) rest below) ∈ Q ∧
        climbPreimages h P k (level + 1) rest below ⊆ Q := by
  simp only [climbPreimages, Set.union_subset_iff, Set.singleton_subset_iff]

section Deciding
variable {Q : Set (Preimage K V D)} [DecidablePred (· ∈ Q)]

instance decidablePreimagesSubset : (t : Tree K V) → Decidable (preimages h e t ⊆ Q)
  | .empty => .isTrue (Set.empty_subset Q)
  | .leaf _ _ => decidable_of_iff _ preimages_leaf_subset.symm
  | .branch l r =>
    have : Decidable (preimages h e l ⊆ Q) := decidablePreimagesSubset l
    have : Decidable (preimages h e r ⊆ Q) := decidablePreimagesSubset r
    decidable_of_iff _ preimages_branch_subset.symm

instance decidableClimbSubset : (level : ℕ) → (siblings : List D) → (below : D) →
    Decidable (climbPreimages h P k level siblings below ⊆ Q)
  | _, [], _ => .isTrue (Set.empty_subset Q)
  | level, _ :: rest, below =>
    have : Decidable (climbPreimages h P k (level + 1) rest below ⊆ Q) :=
      decidableClimbSubset (level + 1) rest below
    decidable_of_iff _ climbPreimages_cons_subset.symm

end Deciding

theorem path_nil {level : ℕ} {t u : Tree K V} : Path h e P k level t [] u ↔ t = u := by
  cases t <;> simp [Path]

theorem path_branch_left {level : ℕ} {l r u : Tree K V} {s : D} {rest : List D}
    (hb : P.bit k level = false) : Path h e P k level (.branch l r) (s :: rest) u ↔
      s = digest h e r ∧ Path h e P k (level + 1) l rest u := by
  simp [Path, hb]

theorem path_branch_right {level : ℕ} {l r u : Tree K V} {s : D} {rest : List D}
    (hb : P.bit k level = true) : Path h e P k level (.branch l r) (s :: rest) u ↔
      s = digest h e l ∧ Path h e P k (level + 1) r rest u := by
  simp [Path, hb]

theorem Path.branch_of_cons {level : ℕ} {t u : Tree K V} {s : D} {rest : List D}
    (hp : Path h e P k level t (s :: rest) u) : ∃ l r, t = .branch l r := by
  cases t with
  | empty => exact hp.elim
  | leaf j v => exact hp.elim
  | branch l r => exact ⟨l, r, rfl⟩

theorem Path.digest_eq {level : ℕ} {t u : Tree K V} {sibs : List D}
    (hp : Path h e P k level t sibs u) : digest h e t = climb h P k level sibs (digest h e u) := by
  induction sibs generalizing level t with
  | nil => exact congrArg _ (path_nil.mp hp)
  | cons s rest ih =>
    obtain ⟨l, r, rfl⟩ := hp.branch_of_cons
    cases hb : P.bit k level with
    | false =>
      obtain ⟨hs, hp⟩ := (path_branch_left hb).mp hp
      simp only [digest, climb, turn, hb, ↓reduceIte, ← ih hp, hs]
    | true =>
      obtain ⟨hs, hp⟩ := (path_branch_right hb).mp hp
      simp only [digest, climb, turn, hb, Bool.true_eq_false, ↓reduceIte, ← ih hp, hs]

theorem Path.unique {level : ℕ} {t u v : Tree K V} {sibs sibs' : List D}
    (hp : Path h e P k level t sibs u) (hp' : Path h e P k level t sibs' v)
    (hu : ∀ l r, u ≠ .branch l r) (hv : ∀ l r, v ≠ .branch l r) : sibs = sibs' ∧ u = v := by
  induction sibs generalizing level t sibs' with
  | nil =>
    obtain rfl := path_nil.mp hp
    cases sibs' with
    | nil => exact ⟨rfl, path_nil.mp hp'⟩
    | cons s' rest' =>
      obtain ⟨l, r, rfl⟩ := hp'.branch_of_cons
      exact absurd rfl (hu l r)
  | cons s rest ih =>
    obtain ⟨l, r, rfl⟩ := hp.branch_of_cons
    cases sibs' with
    | nil => exact absurd (path_nil.mp hp').symm (hv l r)
    | cons s' rest' =>
      cases hb : P.bit k level with
      | false =>
        obtain ⟨hs, hp⟩ := (path_branch_left hb).mp hp
        obtain ⟨hs', hp'⟩ := (path_branch_left hb).mp hp'
        obtain ⟨hrest, hend⟩ := ih hp hp'
        exact ⟨by rw [hs, hs', hrest], hend⟩
      | true =>
        obtain ⟨hs, hp⟩ := (path_branch_right hb).mp hp
        obtain ⟨hs', hp'⟩ := (path_branch_right hb).mp hp'
        obtain ⟨hrest, hend⟩ := ih hp hp'
        exact ⟨by rw [hs, hs', hrest], hend⟩

section Soundness
variable {Q : Set (Preimage K V D)} (hQ : IdealOn h e Q)
include hQ

/-- Within a collision-free set a digest determines its tree. -/
theorem digest_inj {t u : Tree K V} (ht : preimages h e t ⊆ Q) (hu : preimages h e u ⊆ Q)
    (heq : digest h e t = digest h e u) : t = u := by
  induction t generalizing u with
  | empty =>
    cases u with
    | empty => rfl
    | leaf j w => exact absurd heq.symm (hQ.ne_empty _ (preimages_leaf_subset.mp hu))
    | branch l r => exact absurd heq.symm (hQ.ne_empty _ (preimages_branch_subset.mp hu).1)
  | leaf j v =>
    have hj := preimages_leaf_subset.mp ht
    cases u with
    | empty => exact absurd heq (hQ.ne_empty _ hj)
    | leaf j' w =>
      cases hQ.inj _ hj _ (preimages_leaf_subset.mp hu) heq
      rfl
    | branch l r => exact nomatch hQ.inj _ hj _ (preimages_branch_subset.mp hu).1 heq
  | branch l r ihl ihr =>
    obtain ⟨hn, hl, hr⟩ := preimages_branch_subset.mp ht
    cases u with
    | empty => exact absurd heq (hQ.ne_empty _ hn)
    | leaf j w => exact nomatch hQ.inj _ hn _ (preimages_leaf_subset.mp hu) heq
    | branch l' r' =>
      obtain ⟨hn', hl', hr'⟩ := preimages_branch_subset.mp hu
      have hnode := hQ.inj _ hn _ hn' heq
      simp only [Preimage.node.injEq] at hnode
      rw [ihl hl hl' hnode.1, ihr hr hr' hnode.2]

/-- Whatever siblings are offered, hashing up to the digest of `t` from the digest of a
subtree means that this subtree sits in `t` at that position. -/
theorem path_of_climb {level : ℕ} {t u : Tree K V} {sibs : List D} (ht : preimages h e t ⊆ Q)
    (hu : preimages h e u ⊆ Q) (hc : climbPreimages h P k level sibs (digest h e u) ⊆ Q)
    (heq : climb h P k level sibs (digest h e u) = digest h e t) :
    Path h e P k level t sibs u := by
  induction sibs generalizing level t with
  | nil => exact path_nil.mpr (digest_inj hQ ht hu heq.symm)
  | cons s rest ih =>
    obtain ⟨hmem, hrest⟩ := climbPreimages_cons_subset.mp hc
    cases t with
    | empty => exact absurd heq (hQ.ne_empty _ hmem)
    | leaf j v =>
      have hturn := hQ.inj _ hmem _ (preimages_leaf_subset.mp ht) heq
      unfold turn at hturn
      split at hturn <;> exact nomatch hturn
    | branch l r =>
      obtain ⟨hn, hl, hr⟩ := preimages_branch_subset.mp ht
      have hturn := hQ.inj _ hmem _ hn heq
      cases hb : P.bit k level with
      | false =>
        simp only [turn, hb, ↓reduceIte, Preimage.node.injEq] at hturn
        exact (path_branch_left hb).mpr
          ⟨hturn.2, ih hl hrest hturn.1⟩
      | true =>
        simp only [turn, hb, Bool.true_eq_false, ↓reduceIte, Preimage.node.injEq] at hturn
        exact (path_branch_right hb).mpr
          ⟨hturn.1, ih hr hrest hturn.2⟩

end Soundness

/-- The subtree a path arrives at holds what `S` has for the key, and otherwise only keys
that descend alongside it. -/
theorem Path.canonical {level : ℕ} {t u : Tree K V} {sibs : List D} {S : K → Option V}
    (hp : Path h e P k level t sibs u) (ht : Canonical P level S t) :
    ∃ S', Canonical P (level + sibs.length) S' u ∧ S' k = S k ∧ ∀ j, S' j ≠ none →
      S j ≠ none ∧ ∀ i, level ≤ i → i < level + sibs.length → P.bit j i = P.bit k i := by
  induction sibs generalizing level t S with
  | nil =>
    refine ⟨S, path_nil.mp hp ▸ ht, rfl, fun j hj => ⟨hj, fun i hi hi' => ?_⟩⟩
    simp only [List.length_nil] at hi'
    omega
  | cons s rest ih =>
    obtain ⟨l, r, rfl⟩ := hp.branch_of_cons
    have hlen : level + (s :: rest).length = level + 1 + rest.length := by
      simp only [List.length_cons]
      omega
    rw [hlen]
    have hstep : ∀ b child, P.bit k level = b → Canonical P (level + 1) (side P level b S) child →
        Path h e P k (level + 1) child rest u →
        ∃ S', Canonical P (level + 1 + rest.length) S' u ∧ S' k = S k ∧ ∀ j, S' j ≠ none →
          S j ≠ none ∧ ∀ i, level ≤ i → i < level + 1 + rest.length → P.bit j i = P.bit k i := by
      intro b child hb hc hp
      obtain ⟨S', hu, hk, halong⟩ := ih hp hc
      refine ⟨S', hu, hk.trans (side_of_bit hb), ?_⟩
      intro j hj
      obtain ⟨hside, hbits⟩ := halong j hj
      obtain ⟨hjb, hj⟩ := side_ne_none hside
      refine ⟨hj, ?_⟩
      intro i hi hi'
      rcases Nat.eq_or_lt_of_le hi with rfl | hlt
      · exact hjb.trans hb.symm
      · exact hbits i hlt hi'
    cases hb : P.bit k level with
    | false => exact hstep false l hb ht.2.1 ((path_branch_left hb).mp hp).2
    | true => exact hstep true r hb ht.2.2 ((path_branch_right hb).mp hp).2

theorem Path.length_le {level : ℕ} {t u : Tree K V} {sibs : List D} {S : K → Option V}
    (hp : Path h e P k level t sibs u) (ht : Canonical P level S t) (hS : Together P level S)
    (hlevel : level ≤ P.depth) : level + sibs.length ≤ P.depth := by
  induction sibs generalizing level t S with
  | nil => exact hlevel
  | cons s rest ih =>
    obtain ⟨l, r, rfl⟩ := hp.branch_of_cons
    obtain ⟨⟨a, b, hab, ha, hb⟩, hl, hr⟩ := ht
    have hlt := (P.le_common hab (hS a b ha hb)).trans_lt (P.common_lt a b hab)
    have hlen : level + (s :: rest).length = level + 1 + rest.length := by
      simp only [List.length_cons]
      omega
    rw [hlen]
    cases hb : P.bit k level with
    | false => exact ih ((path_branch_left hb).mp hp).2 hl (hS.side false) hlt
    | true => exact ih ((path_branch_right hb).mp hp).2 hr (hS.side true) hlt

/-- The path to a key that is held is as long as it takes to tell the key from all others. -/
theorem Path.length_iff {level n : ℕ} {t : Tree K V} {v : V} {sibs : List D} {S : K → Option V}
    (hp : Path h e P k level t sibs (.leaf k v)) (ht : Canonical P level S t)
    (hS : Together P level S) (hn : level ≤ n) :
    level + sibs.length ≤ n ↔ ∀ j, j ≠ k → S j ≠ none → P.common k j < n := by
  induction sibs generalizing level t S with
  | nil =>
    obtain rfl := path_nil.mp hp
    refine iff_of_true hn ?_
    intro j hj hsome
    exact absurd (ht.2 j hj) hsome
  | cons s rest ih =>
    obtain ⟨S', hend, hk, -⟩ := hp.canonical ht
    have hsome : S k ≠ none := by
      rw [← hk, hend.1]
      exact Option.some_ne_none v
    obtain ⟨l, r, rfl⟩ := hp.branch_of_cons
    obtain ⟨⟨a, b, hab, ha, hb⟩, hl, hr⟩ := ht
    have hlen : level + (s :: rest).length = level + 1 + rest.length := by
      simp only [List.length_cons]
      omega
    rw [hlen]
    rcases Nat.eq_or_lt_of_le hn with rfl | hlt
    · obtain ⟨j, hj, hother⟩ : ∃ j, j ≠ k ∧ S j ≠ none := by
        by_cases hak : a = k
        · exact ⟨b, fun hbk => hab (hak.trans hbk.symm), hb⟩
        · exact ⟨a, hak, ha⟩
      have htogether := P.le_common hj.symm (hS k j hsome hother)
      refine iff_of_false (by omega) fun hparted => ?_
      exact absurd (hparted j hj hother) (Nat.not_lt.mpr htogether)
    · -- Keys on the other side of the branch part from `k` right here.
      have hstep : ∀ x child, P.bit k level = x → Canonical P (level + 1) (side P level x S) child →
          Path h e P k (level + 1) child rest (.leaf k v) →
          (level + 1 + rest.length ≤ n ↔ ∀ j, j ≠ k → S j ≠ none → P.common k j < n) := by
        intro x child hx hcanon hpath
        rw [ih hpath hcanon (hS.side x) hlt]
        constructor
        · intro hparted j hj hother
          by_cases hside : P.bit j level = x
          · exact hparted j hj (by rwa [side_of_bit hside])
          · have hearly : ¬level < P.common k j := fun hlate =>
              hside ((P.bit_agree k j level hlate).symm.trans hx)
            omega
        · intro hparted j hj hother
          exact hparted j hj (side_ne_none hother).2
      cases hbit : P.bit k level with
      | false => exact hstep false l hbit hl ((path_branch_left hbit).mp hp).2
      | true => exact hstep true r hbit hr ((path_branch_right hbit).mp hp).2

section Writes
variable [DecidableEq K]

/-- A write leaves the path to its key as it was and rewrites the subtree at its end. -/
theorem Path.insert {level : ℕ} {t u : Tree K V} {sibs : List D} (v : V)
    (hp : Path h e P k level t sibs u) :
    Path h e P k level (PrefixTree.insert P level k v t) sibs
      (PrefixTree.insert P (level + sibs.length) k v u) := by
  induction sibs generalizing level t with
  | nil => exact path_nil.mpr (congrArg _ (path_nil.mp hp))
  | cons s rest ih =>
    obtain ⟨l, r, rfl⟩ := hp.branch_of_cons
    have hlen : level + (s :: rest).length = level + 1 + rest.length := by
      simp only [List.length_cons]
      omega
    rw [hlen]
    cases hb : P.bit k level with
    | false =>
      obtain ⟨hs, hp⟩ := (path_branch_left hb).mp hp
      simp only [PrefixTree.insert, hb, ↓reduceIte]
      exact (path_branch_left hb).mpr ⟨hs, ih hp⟩
    | true =>
      obtain ⟨hs, hp⟩ := (path_branch_right hb).mp hp
      simp only [PrefixTree.insert, hb, Bool.true_eq_false, ↓reduceIte]
      exact (path_branch_right hb).mpr ⟨hs, ih hp⟩

theorem Path.insert_preimages {level : ℕ} {t u : Tree K V} {sibs : List D} (v : V)
    (hp : Path h e P k level t sibs u) {Q : Set (Preimage K V D)} (ht : preimages h e t ⊆ Q)
    (hu : preimages h e (PrefixTree.insert P (level + sibs.length) k v u) ⊆ Q)
    (hc : climbPreimages h P k level sibs
      (digest h e (PrefixTree.insert P (level + sibs.length) k v u)) ⊆ Q) :
    preimages h e (PrefixTree.insert P level k v t) ⊆ Q := by
  induction sibs generalizing level t with
  | nil =>
    rw [path_nil.mp hp]
    exact hu
  | cons s rest ih =>
    have hlen : level + (s :: rest).length = level + 1 + rest.length := by
      simp only [List.length_cons]
      omega
    rw [hlen] at hu hc
    obtain ⟨hmem, hrest⟩ := climbPreimages_cons_subset.mp hc
    obtain ⟨l, r, rfl⟩ := hp.branch_of_cons
    obtain ⟨_, hl, hr⟩ := preimages_branch_subset.mp ht
    cases hb : P.bit k level with
    | false =>
      obtain ⟨hs, hp⟩ := (path_branch_left hb).mp hp
      rw [turn, if_pos hb, ← (hp.insert v).digest_eq, hs] at hmem
      simp only [PrefixTree.insert, hb, ↓reduceIte]
      exact preimages_branch_subset.mpr ⟨hmem, ih hp hl hu hrest, hr⟩
    | true =>
      obtain ⟨hs, hp⟩ := (path_branch_right hb).mp hp
      rw [turn, if_neg (by simp [hb]), ← (hp.insert v).digest_eq, hs] at hmem
      simp only [PrefixTree.insert, hb, Bool.true_eq_false, ↓reduceIte]
      exact preimages_branch_subset.mpr ⟨hmem, hl, ih hp hr hu hrest⟩

theorem insert_split {j : K} {d : ℕ} (hd : d ≤ P.common k j) (v v' w : V) :
    PrefixTree.insert P d k v' (split P d (k, v) (j, w)) = split P d (k, v') (j, w) := by
  induction hn : P.common k j - d generalizing d with
  | zero =>
    have hcd : P.common k j = d := by omega
    rw [split_of_ge (by dsimp only; omega), split_of_ge (by dsimp only; omega)]
    subst hcd
    unfold pair
    cases hb : P.bit k (P.common k j) <;> simp [PrefixTree.insert, hb]
  | succ n ih =>
    have hlt : d < P.common k j := by omega
    have hd' : d + 1 ≤ P.common k j := hlt
    have hsub := ih hd' (by omega)
    have hv : split P d (k, v) (j, w) = oneSided P k d (split P (d + 1) (k, v) (j, w)) :=
      split_of_lt hlt
    have hv' : split P d (k, v') (j, w) = oneSided P k d (split P (d + 1) (k, v') (j, w)) :=
      split_of_lt hlt
    rw [hv, hv']
    unfold oneSided
    cases hb : P.bit k d <;> simp [PrefixTree.insert, hb, hsub]

end Writes

end PaymentRollup.PrefixTree
