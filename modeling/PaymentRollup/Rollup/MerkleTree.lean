import PaymentRollup.Rollup.AddressPaths
import PaymentRollup.Lib.MerklePath

/-! # The sparse Merkle tree refines the compressed prefix tree

Forgetting the cached hashes turns every operation of the tree into the operation of the
prefix tree, and the verifier's root into the digest at the top of a path. What a
verifying proof says about the accounts follows from the path it must describe.
-/
namespace PaymentRollup
open PrefixTree (Canonical Together Path Tree IdealOn digest preimages climb climbPreimages)

abbrev TreePreimage := PrefixTree.Preimage Address Account Word

def treeString : TreePreimage → Bytes
  | .leaf address account => leafString address account
  | .node left right => nodeString left right

theorem leafString_inj {a b : Address} {x y : Account} (h : leafString a x = leafString b y) :
    a = b ∧ x = y := by
  simp only [leafString, List.append_assoc] at h
  obtain ⟨ha, hx⟩ := word_append_inj (List.append_cancel_left h)
  exact ⟨ha, Account.encode_inj hx⟩

theorem nodeString_inj {l r l' r' : Word} (h : nodeString l r = nodeString l' r') :
    l = l' ∧ r = r' := by
  simp only [nodeString, List.append_assoc] at h
  obtain ⟨hl, hr⟩ := word_append_inj (List.append_cancel_left h)
  exact ⟨hl, word_inj hr⟩

theorem leafString_ne_nodeString (a : Address) (x : Account) (l r : Word) :
    leafString a x ≠ nodeString l r := by
  simp only [leafString, nodeString, List.append_assoc]
  exact tag_ne rfl (by decide)

theorem treeString_inj : Function.Injective treeString := by
  intro p q h
  cases p with
  | leaf a x =>
    cases q with
    | leaf b y =>
      obtain ⟨rfl, rfl⟩ := leafString_inj h
      rfl
    | node l r => exact absurd h (leafString_ne_nodeString a x l r)
  | node l r =>
    cases q with
    | leaf b y => exact absurd h.symm (leafString_ne_nodeString b y l r)
    | node l' r' =>
      obtain ⟨rfl, rfl⟩ := nodeString_inj h
      rfl

variable [Crypto]

def treeHash (p : TreePreimage) : Word := sha256 (treeString p)

theorem Ideal.tree {Q : Set Bytes} (h : Ideal Q) :
    IdealOn treeHash emptySubtree (Set.preimage treeString Q) :=
  ⟨fun _ hx _ hy hxy => treeString_inj (h.inj _ hx _ hy hxy), fun _ hx => h.ne_zero _ hx⟩

section Erasure

namespace Node

/-- The tree without its cached hashes. -/
def erase : Node → Tree Address Account
  | .empty => .empty
  | .leaf address account => .leaf address account
  | .branch _ left right => .branch left.erase right.erase

def Cached : Node → Prop
  | .branch hash left right => hash = nodeHash left.hash right.hash ∧ left.Cached ∧ right.Cached
  | _ => True

theorem digest_erase {n : Node} (h : n.Cached) :
    digest treeHash emptySubtree n.erase = n.hash := by
  induction n with
  | empty => rfl
  | leaf address account => rfl
  | branch hash left right ihl ihr =>
    obtain ⟨hh, hl, hr⟩ := h
    simp only [erase, digest, ihl hl, ihr hr, hh]
    rfl

theorem cached_ofChildren {l r : Node} (hl : l.Cached) (hr : r.Cached) :
    (ofChildren l r).Cached := ⟨rfl, hl, hr⟩

@[simp] theorem erase_ofChildren (l r : Node) :
    (ofChildren l r).erase = .branch l.erase r.erase := rfl

theorem erase_oneSided (address : Address) (level : ℕ) (n : Node) :
    (if bitAt address level = 0 then ofChildren n .empty else ofChildren .empty n).erase =
      PrefixTree.oneSided addressPaths address level n.erase := by
  have hbit : addressPaths.bit address level = addressBit address level := rfl
  unfold PrefixTree.oneSided
  rw [hbit]
  by_cases h : bitAt address level = 0
  · rw [if_pos h, if_pos ((bitAt_eq_zero _ _).mp h)]
    rfl
  · rw [if_neg h, if_neg (fun h' => h ((bitAt_eq_zero _ _).mpr h'))]
    rfl

theorem cached_oneSided (address : Address) (level : ℕ) {n : Node} (h : n.Cached) :
    (if bitAt address level = 0 then ofChildren n .empty else ofChildren .empty n).Cached := by
  split
  · exact cached_ofChildren h trivial
  · exact cached_ofChildren trivial h

theorem erase_split (depth : ℕ) (a b : Address × Account) :
    (split depth a b).erase = PrefixTree.split addressPaths depth a b := by
  have hbit : addressPaths.bit a.1 (commonPrefixLen a.1 b.1) =
      addressBit a.1 (commonPrefixLen a.1 b.1) := rfl
  have hcommon : addressPaths.common a.1 b.1 = commonPrefixLen a.1 b.1 := rfl
  simp only [split, PrefixTree.split, List.foldl_reverse, hcommon]
  induction List.range' depth (commonPrefixLen a.1 b.1 - depth) with
  | nil =>
    simp only [List.foldr_nil, PrefixTree.pair, hcommon, hbit]
    by_cases h : bitAt a.1 (commonPrefixLen a.1 b.1) = 0
    · rw [if_pos h, if_pos ((bitAt_eq_zero _ _).mp h)]
      rfl
    · rw [if_neg h, if_neg (fun h' => h ((bitAt_eq_zero _ _).mpr h'))]
      rfl
  | cons level rest ih =>
    simp only [List.foldr_cons]
    rw [erase_oneSided, ih]

theorem cached_split (depth : ℕ) (a b : Address × Account) : (split depth a b).Cached := by
  simp only [split, List.foldl_reverse]
  induction List.range' depth (commonPrefixLen a.1 b.1 - depth) with
  | nil =>
    simp only [List.foldr_nil]
    split <;> exact cached_ofChildren trivial trivial
  | cons level rest ih => exact cached_oneSided a.1 level ih

theorem erase_insert (depth : ℕ) (address : Address) (account : Account) (n : Node) :
    (insert depth address account n).erase =
      PrefixTree.insert addressPaths depth address account n.erase := by
  induction n generalizing depth with
  | empty => rfl
  | leaf held heldAccount =>
    simp only [insert, erase, PrefixTree.insert]
    split
    · rename_i h
      rw [h]
      rfl
    · exact erase_split _ _ _
  | branch hash left right ihl ihr =>
    have hbit : addressPaths.bit address depth = addressBit address depth := rfl
    simp only [insert, erase, PrefixTree.insert, hbit]
    by_cases h : bitAt address depth = 0
    · rw [if_pos h, if_pos ((bitAt_eq_zero _ _).mp h), erase_ofChildren, ihl]
    · rw [if_neg h, if_neg (fun h' => h ((bitAt_eq_zero _ _).mpr h')), erase_ofChildren, ihr]

theorem cached_insert (depth : ℕ) (address : Address) (account : Account) {n : Node}
    (h : n.Cached) : (insert depth address account n).Cached := by
  induction n generalizing depth with
  | empty => trivial
  | leaf held heldAccount =>
    unfold insert
    split
    · trivial
    · exact cached_split _ _ _
  | branch hash left right ihl ihr =>
    obtain ⟨_, hl, hr⟩ := h
    unfold insert
    split
    · exact cached_ofChildren (ihl _ hl) hr
    · exact cached_ofChildren hl (ihr _ hr)

omit [Crypto] in
theorem erase_collapse (n : Node) : (collapse n).erase = PrefixTree.collapse n.erase := by
  cases n with
  | empty => rfl
  | leaf address account => rfl
  | branch hash left right => cases left <;> cases right <;> rfl

theorem cached_collapse {n : Node} (h : n.Cached) : (collapse n).Cached := by
  cases n with
  | empty => trivial
  | leaf address account => trivial
  | branch hash left right => cases left <;> cases right <;> trivial

theorem erase_remove (depth : ℕ) (address : Address) (n : Node) :
    (remove depth address n).erase = PrefixTree.remove addressPaths depth address n.erase := by
  induction n generalizing depth with
  | empty => rfl
  | leaf held account =>
    simp only [remove, erase, PrefixTree.remove]
    split <;> rfl
  | branch hash left right ihl ihr =>
    have hbit : addressPaths.bit address depth = addressBit address depth := rfl
    simp only [remove, erase, PrefixTree.remove, hbit]
    by_cases h : bitAt address depth = 0
    · rw [if_pos h, if_pos ((bitAt_eq_zero _ _).mp h), erase_collapse, erase_ofChildren, ihl]
    · rw [if_neg h, if_neg (fun h' => h ((bitAt_eq_zero _ _).mpr h')), erase_collapse,
        erase_ofChildren, ihr]

theorem cached_remove (depth : ℕ) (address : Address) {n : Node} (h : n.Cached) :
    (remove depth address n).Cached := by
  induction n generalizing depth with
  | empty => trivial
  | leaf held account =>
    unfold remove
    split <;> trivial
  | branch hash left right ihl ihr =>
    obtain ⟨_, hl, hr⟩ := h
    unfold remove
    split
    · exact cached_collapse (cached_ofChildren (ihl _ hl) hr)
    · exact cached_collapse (cached_ofChildren hl (ihr _ hr))

/-- The prover's walk describes a path of the prefix tree, and its slot says where it ends. -/
theorem prove_path (depth : ℕ) (address : Address) {n : Node} (h : n.Cached) :
    ∃ u, Path treeHash emptySubtree addressPaths address depth n.erase
        (prove depth address n).1 u ∧
      match (prove depth address n).2 with
      | .own => u = .empty ∨ ∃ account, u = .leaf address account
      | .neighbor held account => held ≠ address ∧ u = .leaf held account := by
  induction n generalizing depth with
  | empty => exact ⟨.empty, PrefixTree.path_nil.mpr rfl, Or.inl rfl⟩
  | leaf held account =>
    refine ⟨.leaf held account, PrefixTree.path_nil.mpr rfl, ?_⟩
    by_cases heq : held = address
    · subst heq
      simp [prove]
    · simp [prove, heq]
  | branch hash left right ihl ihr =>
    obtain ⟨_, hl, hr⟩ := h
    by_cases hb : bitAt address depth = 0
    · obtain ⟨u, hp, hslot⟩ := ihl (depth + 1) hl
      refine ⟨u, ?_, by simpa only [prove, if_pos hb] using hslot⟩
      simp only [prove, if_pos hb, erase]
      exact (PrefixTree.path_branch_left ((bitAt_eq_zero _ _).mp hb)).mpr ⟨(digest_erase hr).symm, hp⟩
    · obtain ⟨u, hp, hslot⟩ := ihr (depth + 1) hr
      have hb' : addressPaths.bit address depth = true := by
        have hne := mt (bitAt_eq_zero address depth).mpr hb
        exact eq_true_of_ne_false hne
      refine ⟨u, ?_, by simpa only [prove, if_neg hb] using hslot⟩
      simp only [prove, if_neg hb, erase]
      exact (PrefixTree.path_branch_right hb').mpr ⟨(digest_erase hl).symm, hp⟩

end Node

end Erasure

section Verifier

/-- The subtree a proof claims to end at. -/
def slotTree (depth : ℕ) (address : Address) : Option Account → Slot → Tree Address Account
  | none, .own => .empty
  | some account, .own => .leaf address account
  | none, .neighbor neighbor held => .leaf neighbor held
  | some account, .neighbor neighbor held =>
    PrefixTree.split addressPaths depth (address, account) (neighbor, held)

/-- A proof is well formed when it fits the address space and its neighbor fits its path. -/
def MerkleProof.Fits (address : Address) (proof : MerkleProof) : Prop :=
  proof.siblings.length ≤ maxDepth ∧
    match proof.slot with
    | .own => True
    | .neighbor neighbor _ =>
      neighbor ≠ address ∧ proof.siblings.length ≤ commonPrefixLen address neighbor

theorem nodeHash_turn (address : Address) (level : ℕ) (sibling below : Word) :
    (if bitAt address level = 0 then nodeHash below sibling else nodeHash sibling below) =
      treeHash (PrefixTree.turn addressPaths address level sibling below) := by
  have hbit : addressPaths.bit address level = addressBit address level := rfl
  unfold PrefixTree.turn
  rw [hbit]
  by_cases h : bitAt address level = 0
  · rw [if_pos h, if_pos ((bitAt_eq_zero _ _).mp h)]
    rfl
  · rw [if_neg h, if_neg (fun h' => h ((bitAt_eq_zero _ _).mpr h'))]
    rfl

/-- The verifier's descending loop over the siblings is the climb along the path. -/
theorem foldl_eq_climb (address : Address) (siblings : List Word) (current : Word) :
    (List.range siblings.length).reverse.foldl
      (fun current level =>
        let sibling := siblings.getD level emptySubtree
        if bitAt address level = 0 then nodeHash current sibling else nodeHash sibling current)
      current = climb treeHash addressPaths address 0 siblings current := by
  have hgen : ∀ (siblings : List Word) (base : ℕ),
      (List.range siblings.length).foldr (fun level current =>
        let sibling := siblings.getD level emptySubtree
        if bitAt address (base + level) = 0 then nodeHash current sibling
        else nodeHash sibling current) current =
      climb treeHash addressPaths address base siblings current := by
    intro siblings
    induction siblings with
    | nil => exact fun _ => rfl
    | cons s rest ih =>
      intro base
      simp only [List.length_cons, List.range_succ_eq_map, List.foldr_cons, List.foldr_map,
        List.getD_cons_zero, List.getD_cons_succ, Nat.add_zero, climb]
      rw [nodeHash_turn, ← ih (base + 1)]
      simp only [Nat.succ_eq_add_one, Nat.add_assoc, Nat.add_comm 1]
  have h := hgen siblings 0
  simp only [Nat.zero_add] at h
  rw [List.foldl_reverse]
  exact h

theorem subtreeWithBoth_eq (depth : ℕ) (own other : Address × Account) :
    subtreeWithBoth depth own other =
      digest treeHash emptySubtree (PrefixTree.split addressPaths depth own other) := by
  rw [← Node.erase_split, Node.digest_erase (Node.cached_split _ _ _)]
  simp only [subtreeWithBoth, Node.split, List.foldl_reverse]
  induction List.range' depth (commonPrefixLen own.1 other.1 - depth) with
  | nil =>
    simp only [List.foldr_nil]
    split <;> rfl
  | cons level rest ih =>
    simp only [List.foldr_cons]
    rw [ih]
    split <;> rfl

omit [Crypto] in
theorem checkNeighbor_eq_some {address neighbor : Address} {depth : ℕ} :
    checkNeighbor address neighbor depth = some () ↔
      neighbor ≠ address ∧ depth ≤ commonPrefixLen address neighbor := by
  unfold checkNeighbor
  split <;> simp_all

/-- A root from a proof is the digest at the top of the path the proof describes. -/
theorem rootFromProof_eq_some {address : Address} {account : Option Account}
    {proof : MerkleProof} {root : Word} :
    rootFromProof address account proof = some root ↔
      proof.Fits address ∧ climb treeHash addressPaths address 0 proof.siblings
        (digest treeHash emptySubtree
          (slotTree proof.siblings.length address account proof.slot)) = root := by
  rcases proof with ⟨siblings, slot⟩
  unfold rootFromProof MerkleProof.Fits
  by_cases hlen : siblings.length ≤ maxDepth
  · simp only [not_lt.mpr hlen, ↓reduceIte, hlen, true_and, foldl_eq_climb]
    cases slot with
    | own =>
      cases account with
      | none => simp [slotTree, digest]
      | some account => simp [slotTree, digest, leafHash, treeHash, treeString]
    | neighbor neighbor held =>
      by_cases hn : checkNeighbor address neighbor siblings.length = some ()
      · have hfit := checkNeighbor_eq_some.mp hn
        cases account with
        | none => simp [slotTree, digest, hn, hfit, leafHash, treeHash, treeString]
        | some account => simp [slotTree, hn, hfit, subtreeWithBoth_eq]
      · have hfit := mt checkNeighbor_eq_some.mpr hn
        have hnone : checkNeighbor address neighbor siblings.length = none := by
          cases h : checkNeighbor address neighbor siblings.length with
          | none => rfl
          | some u => exact absurd h hn
        cases account <;> simp [hnone, hfit]
  · simp [not_le.mp hlen, hlen]

end Verifier

end PaymentRollup
