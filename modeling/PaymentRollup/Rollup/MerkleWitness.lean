import PaymentRollup.Rollup.MerkleTree

/-! # What a verifying proof says about the accounts

Every account map has one tree, whatever order it was written in. A proof that reaches
that tree's root was made for the account the map holds, and offering a new account
through the same proof gives the root of the map after that write.
-/
namespace PaymentRollup
open PrefixTree (Canonical Together Path Tree IdealOn digest preimages climb climbPreimages)

variable [Crypto]

/-- The tree was reached from a fresh one by writes that leave the accounts `S`. -/
inductive Holds : SparseMerkleTree → AccountMap → Prop
  | new : Holds .new fun _ => none
  | update {t : SparseMerkleTree} {S : AccountMap} (h : Holds t S) (address : Address)
      (account : Option Account) :
      Holds (t.update address account) (Function.update S address account)

section Trees

theorem Holds.shape {t : SparseMerkleTree} {S : AccountMap} (h : Holds t S) :
    t.node.Cached ∧ Canonical addressPaths 0 S t.node.erase := by
  induction h with
  | new => exact ⟨trivial, fun _ => rfl⟩
  | update h address account ih =>
    obtain ⟨hcached, hcanon⟩ := ih
    cases account with
    | none =>
      refine ⟨Node.cached_remove 0 address hcached, ?_⟩
      have hremove := PrefixTree.canonical_remove hcanon address
      rwa [← Node.erase_remove] at hremove
    | some account =>
      refine ⟨Node.cached_insert 0 address account hcached, ?_⟩
      have hinsert := PrefixTree.canonical_insert hcanon address account
        (PrefixTree.together_zero _)
      rwa [← Node.erase_insert] at hinsert

theorem Node.erase_inj {m n : Node} (hm : m.Cached) (hn : n.Cached) (h : m.erase = n.erase) :
    m = n := by
  induction m generalizing n with
  | empty => cases n <;> simp_all [Node.erase]
  | leaf address account => cases n <;> simp_all [Node.erase]
  | branch hash l r ihl ihr =>
    cases n with
    | empty => simp [Node.erase] at h
    | leaf address account => simp [Node.erase] at h
    | branch hash' l' r' =>
      simp only [Node.erase, Tree.branch.injEq] at h
      obtain ⟨hhash, hl, hr⟩ := hm
      obtain ⟨hhash', hl', hr'⟩ := hn
      obtain rfl := ihl hl hl' h.1
      obtain rfl := ihr hr hr' h.2
      rw [hhash, hhash']

/-- Whatever order the writes came in, the same accounts end in the same tree. -/
theorem Holds.unique {t u : SparseMerkleTree} {S : AccountMap} (ht : Holds t S)
    (hu : Holds u S) : t = u := by
  have hnode : t.node = u.node :=
    Node.erase_inj ht.shape.1 hu.shape.1 (PrefixTree.canonical_unique ht.shape.2 hu.shape.2)
  cases t
  cases u
  exact congrArg _ hnode

theorem exists_holds (S : AccountMap) : ∃ t, Holds t S := by
  classical
  have hpart : ∀ addresses : List Address,
      ∃ t, Holds t fun a => if a ∈ addresses then S a else none := by
    intro addresses
    induction addresses with
    | nil => exact ⟨.new, by simpa using Holds.new⟩
    | cons b rest ih =>
      obtain ⟨t, ht⟩ := ih
      refine ⟨t.update b (S b), ?_⟩
      have hupdate := ht.update b (S b)
      convert hupdate using 1
      funext a
      by_cases hab : a = b
      · simp [hab]
      · simp [hab]
  obtain ⟨t, ht⟩ := hpart Finset.univ.toList
  exact ⟨t, by simpa using ht⟩

noncomputable def treeOf (S : AccountMap) : SparseMerkleTree := (exists_holds S).choose

theorem holds_treeOf (S : AccountMap) : Holds (treeOf S) S := (exists_holds S).choose_spec

theorem Holds.eq_treeOf {t : SparseMerkleTree} {S : AccountMap} (h : Holds t S) : t = treeOf S :=
  h.unique (holds_treeOf S)

theorem treeOf_update (S : AccountMap) (address : Address) (account : Option Account) :
    (treeOf S).update address account = treeOf (Function.update S address account) :=
  ((holds_treeOf S).update address account).eq_treeOf

theorem treeOf_none : treeOf (fun _ => none) = .new := Holds.new.eq_treeOf.symm

end Trees

section HashedStrings

/-- The strings a node and everything below it was hashed from. -/
def Node.strings : Node → Set Bytes
  | .empty => ∅
  | .leaf address account => {leafString address account}
  | .branch _ left right => {nodeString left.hash right.hash} ∪ (left.strings ∪ right.strings)

def SparseMerkleTree.strings (t : SparseMerkleTree) : Set Bytes := t.node.strings

theorem Node.strings_eq {n : Node} (h : n.Cached) :
    n.strings = Set.image treeString (preimages treeHash emptySubtree n.erase) := by
  induction n with
  | empty => exact (Set.image_empty _).symm
  | leaf address account =>
    simp only [Node.strings, Node.erase, preimages, Set.image_singleton]
    rfl
  | branch hash l r ihl ihr =>
    obtain ⟨_, hl, hr⟩ := h
    simp only [Node.strings, Node.erase, preimages, Set.image_union, Set.image_singleton, ihl hl,
      ihr hr, Node.digest_erase hl, Node.digest_erase hr]
    rfl

/-- The strings `rootFromProof` hashes: none for a malformed proof, otherwise the subtree
claimed at the end of the path and one string for each level above it. -/
def rootStrings (address : Address) (account : Option Account) (proof : MerkleProof) :
    Set Bytes :=
  let tree := slotTree proof.siblings.length address account proof.slot
  {string | proof.Fits address ∧ string ∈ Set.image treeString
    (preimages treeHash emptySubtree tree ∪ climbPreimages treeHash addressPaths address 0
      proof.siblings (digest treeHash emptySubtree tree))}

theorem rootStrings_subset {address : Address} {account : Option Account} {proof : MerkleProof}
    (hfits : proof.Fits address) {Q : Set Bytes} (h : rootStrings address account proof ⊆ Q) :
    preimages treeHash emptySubtree (slotTree proof.siblings.length address account proof.slot) ⊆
        Set.preimage treeString Q ∧
      climbPreimages treeHash addressPaths address 0 proof.siblings
        (digest treeHash emptySubtree
          (slotTree proof.siblings.length address account proof.slot)) ⊆
        Set.preimage treeString Q :=
  ⟨fun p hp => h ⟨hfits, p, Or.inl hp, rfl⟩, fun p hp => h ⟨hfits, p, Or.inr hp, rfl⟩⟩

end HashedStrings

section Slots

omit [Crypto] in
theorem slotTree_account {address : Address} {account : Option Account} {proof : MerkleProof}
    (hfits : proof.Fits address) {S : AccountMap}
    (h : Canonical addressPaths proof.siblings.length S
      (slotTree proof.siblings.length address account proof.slot)) : S address = account := by
  rcases proof with ⟨siblings, slot⟩
  obtain ⟨-, hslot⟩ := hfits
  cases slot with
  | own =>
    cases account with
    | none => exact h address
    | some account => exact h.1
  | neighbor neighbor held =>
    obtain ⟨hne, hdepth⟩ := hslot
    cases account with
    | none => exact h.2 address hne.symm
    | some account =>
      let both : AccountMap :=
        Function.update (Function.update (fun _ => none) neighbor (some held)) address
          (some account)
      have hboth : PrefixTree.Both both (address, account) (neighbor, held) := by
        refine ⟨by simp [both], by simp [both, Function.update_of_ne hne], ?_⟩
        intro j hj hj'
        simp [both, Function.update_of_ne hj, Function.update_of_ne hj']
      have hcanon : Canonical addressPaths siblings.length both
          (slotTree siblings.length address (some account) (.neighbor neighbor held)) :=
        PrefixTree.canonical_split hne.symm hdepth hboth
      rw [PrefixTree.canonical_contents h hcanon]
      simp [both]

omit [Crypto] in
theorem slotTree_insert {address : Address} {account : Option Account} {proof : MerkleProof}
    (hfits : proof.Fits address) (new : Account) :
    PrefixTree.insert addressPaths proof.siblings.length address new
        (slotTree proof.siblings.length address account proof.slot) =
      slotTree proof.siblings.length address (some new) proof.slot := by
  rcases proof with ⟨siblings, slot⟩
  obtain ⟨-, hslot⟩ := hfits
  cases slot with
  | own => cases account <;> simp [slotTree, PrefixTree.insert]
  | neighbor neighbor held =>
    obtain ⟨hne, hdepth⟩ := hslot
    cases account with
    | none =>
      simp only [slotTree, PrefixTree.insert, if_neg hne]
      exact PrefixTree.split_comm hne _
    | some account => exact PrefixTree.insert_split hdepth account new held

end Slots

section Proofs

/-- The proof describes the path to `address` in the tree of `S`. -/
def Pins (S : AccountMap) (address : Address) (proof : MerkleProof) : Prop :=
  proof.Fits address ∧ Path treeHash emptySubtree addressPaths address 0 (treeOf S).node.erase
    proof.siblings (slotTree proof.siblings.length address (S address) proof.slot)

theorem treeOf_digest (S : AccountMap) :
    digest treeHash emptySubtree (treeOf S).node.erase = (treeOf S).root :=
  Node.digest_erase (holds_treeOf S).shape.1

theorem erase_write (S : AccountMap) (address : Address) (new : Account) :
    (treeOf (Function.update S address (some new))).node.erase =
      PrefixTree.insert addressPaths 0 address new (treeOf S).node.erase := by
  rw [← treeOf_update]
  exact Node.erase_insert 0 address new _

theorem Pins.root {S : AccountMap} {address : Address} {proof : MerkleProof}
    (h : Pins S address proof) : rootFromProof address (S address) proof = some (treeOf S).root :=
  rootFromProof_eq_some.mpr ⟨h.1, by rw [← h.2.digest_eq, treeOf_digest]⟩

theorem Pins.write {S : AccountMap} {address : Address} {proof : MerkleProof}
    (h : Pins S address proof) (new : Account) :
    Pins (Function.update S address (some new)) address proof := by
  refine ⟨h.1, ?_⟩
  have hpath := h.2.insert new
  rw [Nat.zero_add, slotTree_insert h.1, ← erase_write] at hpath
  rwa [Function.update_self]

theorem Pins.root_write {S : AccountMap} {address : Address} {proof : MerkleProof}
    (h : Pins S address proof) (new : Account) :
    rootFromProof address (some new) proof =
      some (treeOf (Function.update S address (some new))).root := by
  have hroot := (h.write new).root
  rwa [Function.update_self] at hroot

theorem Pins.length_le {S : AccountMap} {address : Address} {proof : MerkleProof}
    (h : Pins S address proof) : proof.siblings.length ≤ maxDepth := h.1.1

theorem pins_proof (S : AccountMap) (address : Address) :
    Pins S address ((treeOf S).proof address) := by
  obtain ⟨hcached, hcanon⟩ := (holds_treeOf S).shape
  obtain ⟨u, hpath, hslot⟩ := Node.prove_path 0 address hcached
  have hdepth := hpath.length_le hcanon (PrefixTree.together_zero S) (Nat.zero_le _)
  obtain ⟨S', hcanon', hS, halong⟩ := hpath.canonical hcanon
  rw [Nat.zero_add] at hdepth hcanon'
  rcases hproof : (treeOf S).proof address with ⟨siblings, slot⟩
  have hprove : (treeOf S).node.prove 0 address = (siblings, slot) := by
    simp only [SparseMerkleTree.proof, MerkleProof.mk.injEq] at hproof
    exact Prod.ext hproof.1 hproof.2
  simp only [hprove] at hpath hslot hdepth hcanon' halong
  cases slot with
  | own =>
    refine ⟨⟨hdepth, trivial⟩, ?_⟩
    rcases hslot with rfl | ⟨account, rfl⟩
    · rw [← hS, hcanon' address]
      exact hpath
    · rw [← hS, hcanon'.1]
      exact hpath
  | neighbor held account =>
    obtain ⟨hne, rfl⟩ := hslot
    have hheld : S' held ≠ none := by simp [hcanon'.1]
    have hbits := (halong held hheld).2
    have hcommon : siblings.length ≤ commonPrefixLen address held :=
      addressPaths.le_common hne.symm fun i hi => (hbits i (Nat.zero_le i) (by omega)).symm
    refine ⟨⟨hdepth, hne, hcommon⟩, ?_⟩
    rw [← hS, hcanon'.2 address hne.symm]
    exact hpath

/-- A proof that reaches the root can only claim the account the map holds. -/
theorem pins_of_root {Q : Set Bytes} (hQ : Ideal Q) {S : AccountMap}
    (hS : (treeOf S).strings ⊆ Q) {address : Address} {account : Option Account}
    {proof : MerkleProof} (hsub : rootStrings address account proof ⊆ Q)
    (hroot : rootFromProof address account proof = some (treeOf S).root) :
    account = S address ∧ Pins S address proof := by
  obtain ⟨hcached, hcanon⟩ := (holds_treeOf S).shape
  obtain ⟨hfits, hclimb⟩ := rootFromProof_eq_some.mp hroot
  obtain ⟨hslot, hsiblings⟩ := rootStrings_subset hfits hsub
  have htree : preimages treeHash emptySubtree (treeOf S).node.erase ⊆
      Set.preimage treeString Q := by
    rw [SparseMerkleTree.strings, Node.strings_eq hcached] at hS
    exact fun p hp => hS ⟨p, hp, rfl⟩
  rw [← treeOf_digest] at hclimb
  have hpath := PrefixTree.path_of_climb hQ.tree htree hslot hsiblings hclimb
  obtain ⟨S', hcanon', hkey, -⟩ := hpath.canonical hcanon
  rw [Nat.zero_add] at hcanon'
  have haccount : account = S address := (slotTree_account hfits hcanon').symm.trans hkey
  exact ⟨haccount, hfits, haccount ▸ hpath⟩

theorem Pins.strings_write {S : AccountMap} {address : Address} {proof : MerkleProof}
    (h : Pins S address proof) (new : Account) {Q : Set Bytes} (hS : (treeOf S).strings ⊆ Q)
    (hsub : rootStrings address (some new) proof ⊆ Q) :
    (treeOf (Function.update S address (some new))).strings ⊆ Q := by
  obtain ⟨hslot, hsiblings⟩ := rootStrings_subset h.1 hsub
  have htree : preimages treeHash emptySubtree (treeOf S).node.erase ⊆
      Set.preimage treeString Q := by
    rw [SparseMerkleTree.strings, Node.strings_eq (holds_treeOf S).shape.1] at hS
    exact fun p hp => hS ⟨p, hp, rfl⟩
  have hwrite := h.2.insert_preimages new htree
    (by rwa [Nat.zero_add, slotTree_insert h.1]) (by rwa [Nat.zero_add, slotTree_insert h.1])
  rw [← erase_write] at hwrite
  rw [SparseMerkleTree.strings, Node.strings_eq (holds_treeOf _).shape.1]
  rintro string ⟨p, hp, rfl⟩
  exact hwrite hp

end Proofs

end PaymentRollup
