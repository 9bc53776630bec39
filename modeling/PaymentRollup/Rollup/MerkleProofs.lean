import PaymentRollup.Rollup.CanonicalTree
import PaymentRollup.Rollup.Checking

/-! # One proof reads a slot and writes it

A path that hashes up to the root of a tree was walked in that tree, whoever supplied it.
So a proof that verifies names the account the tree holds, and the same siblings lead from
any new account to the root the tree has once that account is written.
-/
namespace PaymentRollup

section Proofs
variable [Crypto]

theorem Holds.update_root {t : SparseMerkleTree} {S : AccountMap} (h : Holds t S)
    (address : Address) (account : Account) :
    (t.update address (some account)).root =
      (treeOf (Function.update S address (some account))).root := by
  rw [(h.update address (some account)).eq_treeOf]

/-- What a proof reads, and where writing through it leads, in a tree holding `S`. -/
theorem Pins.read_write {t : SparseMerkleTree} {S : AccountMap} (h : Holds t S)
    {address : Address} {proof : MerkleProof} (hpins : Pins S address proof) :
    rootFromProof address (S address) proof = some t.root ∧
    ∀ account, rootFromProof address (some account) proof =
      some (t.update address (some account)).root := by
  constructor
  · rw [h.eq_treeOf]
    exact hpins.root
  · intro account
    rw [h.update_root]
    exact hpins.root_write account

theorem Holds.pins_proof {t : SparseMerkleTree} {S : AccountMap} (h : Holds t S)
    (address : Address) : Pins S address (t.proof address) := by
  rw [h.eq_treeOf]
  exact PaymentRollup.pins_proof S address

/-- Whatever proof is offered: if it verifies against the root of a tree that writes led to,
the account is the one the tree holds, and writing any other through the proof gives the root
of the tree after that write. Only the strings behind the tree and behind the check must not
collide. -/
theorem verified_proof_pins_account {writes : List (Address × Option Account)}
    {address : Address} {account : Option Account} {proof : MerkleProof}
    (hideal : Ideal ((SparseMerkleTree.new.updates writes).strings ∪
      rootStrings address account proof))
    (hverify : verifyProof (SparseMerkleTree.new.updates writes).root address account proof = true) :
    account = accountsAfter (fun _ => none) writes address ∧
    ∀ new, rootFromProof address (some new) proof =
      some ((SparseMerkleTree.new.updates writes).update address (some new)).root := by
  have hholds := holds_updates writes
  have hroot : rootFromProof address account proof =
      some (treeOf (accountsAfter (fun _ => none) writes)).root := by
    rw [← hholds.eq_treeOf]
    exact of_decide_eq_true hverify
  have hstrings : (treeOf (accountsAfter (fun _ => none) writes)).strings ⊆
      (SparseMerkleTree.new.updates writes).strings ∪ rootStrings address account proof := by
    rw [← hholds.eq_treeOf]
    exact Set.subset_union_left
  obtain ⟨haccount, hpins⟩ := pins_of_root hideal hstrings Set.subset_union_right hroot
  exact ⟨haccount, (hpins.read_write hholds).2⟩

/-- The prover's proof of an address reaches the root from what the tree holds there, and the
root of the tree after a write from what is written. -/
theorem prover_meets_verifier (writes : List (Address × Option Account)) (address : Address) :
    rootFromProof address (accountsAfter (fun _ => none) writes address)
        ((SparseMerkleTree.new.updates writes).proof address) =
      some (SparseMerkleTree.new.updates writes).root ∧
    ∀ account, rootFromProof address (some account)
        ((SparseMerkleTree.new.updates writes).proof address) =
      some ((SparseMerkleTree.new.updates writes).update address (some account)).root := by
  have hholds := holds_updates writes
  apply Pins.read_write hholds
  exact hholds.pins_proof address

theorem Holds.proof_slot {t : SparseMerkleTree} {S : AccountMap} (h : Holds t S)
    {address : Address} {account : Account} (haccount : S address = some account) :
    (t.proof address).slot = .own := by
  obtain ⟨hcached, hcanon⟩ := h.shape
  obtain ⟨u, hpath, hslot⟩ := Node.prove_path 0 address hcached
  obtain ⟨S', hcanon', hkey, -⟩ := hpath.canonical hcanon
  cases hend : (Node.prove 0 address t.node).2 with
  | own => exact hend
  | neighbor held other =>
    rw [hend] at hslot
    obtain ⟨hne, rfl⟩ := hslot
    have hnone := hcanon'.2 address hne.symm
    cases (hkey.trans haccount).symm.trans hnone

theorem proof_slot {writes : List (Address × Option Account)} {address : Address}
    {account : Account} (h : accountsAfter (fun _ => none) writes address = some account) :
    ((SparseMerkleTree.new.updates writes).proof address).slot = .own :=
  (holds_updates writes).proof_slot h

/-- A proof is as long as it takes to tell its account from all others. -/
theorem Holds.proof_length_iff {t : SparseMerkleTree} {S : AccountMap} (h : Holds t S)
    {address : Address} {account : Account} (haccount : S address = some account) (n : ℕ) :
    (t.proof address).siblings.length ≤ n ↔
      ∀ other, other ≠ address → S other ≠ none → commonPrefixLen address other < n := by
  have hown := h.proof_slot haccount
  obtain ⟨hcached, hcanon⟩ := h.shape
  obtain ⟨u, hpath, hslot⟩ := Node.prove_path 0 address hcached
  obtain ⟨S', hend, hkey, -⟩ := hpath.canonical hcanon
  have hslot : u = .empty ∨ ∃ account', u = .leaf address account' := by
    rw [SparseMerkleTree.proof] at hown
    dsimp only at hown
    rwa [hown] at hslot
  rcases hslot with rfl | ⟨account', rfl⟩
  · cases (hkey.trans haccount).symm.trans (hend address)
  · have hiff := hpath.length_iff hcanon (PrefixTree.together_zero S) (Nat.zero_le n)
    rw [Nat.zero_add] at hiff
    exact hiff

omit [Crypto] in
theorem slotTree_ne_branch {depth : ℕ} {address : Address} {account : Option Account} {slot : Slot}
    (hdirect : account ≠ none → slot = .own) (l r : PrefixTree.Tree Address Account) :
    slotTree depth address account slot ≠ .branch l r := by
  intro h
  cases account with
  | none => cases slot <;> cases h
  | some account =>
    rw [hdirect (Option.some_ne_none account)] at h
    cases h

/-- A direct proof of what an account map holds is the prover's own. -/
theorem Pins.eq_proof {S : AccountMap} {address : Address} {proof : MerkleProof}
    (h : Pins S address proof) (hdirect : S address ≠ none → proof.slot = .own) :
    (treeOf S).proof address = proof := by
  have hprover : S address ≠ none → ((treeOf S).proof address).slot = .own := by
    intro hne
    obtain ⟨account, haccount⟩ := Option.ne_none_iff_exists'.mp hne
    exact (holds_treeOf S).proof_slot haccount
  obtain ⟨-, hown⟩ := PaymentRollup.pins_proof S address
  obtain ⟨-, hpath⟩ := h
  generalize (treeOf S).proof address = prover at hprover hown ⊢
  obtain ⟨hsiblings, hslot⟩ :=
    hown.unique hpath (slotTree_ne_branch hprover) (slotTree_ne_branch hdirect)
  rcases prover with ⟨siblings, slot⟩
  rcases proof with ⟨siblings', slot'⟩
  dsimp only at hsiblings hslot hprover hdirect
  subst hsiblings
  cases haccount : S address with
  | some account =>
    have hne : S address ≠ none := by simp [haccount]
    rw [hprover hne, hdirect hne]
  | none =>
    rw [haccount] at hslot
    cases slot <;> cases slot' <;> cases hslot <;> rfl

theorem treeOf_preimages {S : AccountMap} {Q : Set Bytes} (hS : (treeOf S).strings ⊆ Q) :
    PrefixTree.preimages treeHash emptySubtree (treeOf S).node.erase ⊆ Set.preimage treeString Q := by
  rw [SparseMerkleTree.strings, Node.strings_eq (holds_treeOf S).shape.1] at hS
  exact fun p hp => hS ⟨p, hp, rfl⟩

theorem accounts_of_root {Q : Set Bytes} (hQ : Ideal Q) {S S' : AccountMap}
    (hS : (treeOf S).strings ⊆ Q) (hS' : (treeOf S').strings ⊆ Q)
    (hroot : (treeOf S).root = (treeOf S').root) : S = S' := by
  have hcanon := (holds_treeOf S).shape.2
  have hcanon' := (holds_treeOf S').shape.2
  rw [← treeOf_digest, ← treeOf_digest] at hroot
  rw [PrefixTree.digest_inj hQ.tree (treeOf_preimages hS) (treeOf_preimages hS') hroot] at hcanon
  exact PrefixTree.canonical_contents hcanon hcanon'

end Proofs

section Sample
attribute [local instance] Crypto.unsigned

/-- A neighbour proves that nobody stands at the zero address, and is pushed down by a write. -/
theorem sample_pinned : (none : Option Account) =
      accountsAfter (fun _ => none) [(feeSink, some (Account.empty feeSink))] zeroAddress ∧
    ∀ new, rootFromProof zeroAddress (some new) ⟨[], .neighbor feeSink (Account.empty feeSink)⟩ =
      some ((SparseMerkleTree.new.updates [(feeSink, some (Account.empty feeSink))]).update
        zeroAddress (some new)).root := by
  have hideal : Ideal {string | string ∈ [leafString feeSink (Account.empty feeSink)]} :=
    .of_list (by decide +kernel)
  apply verified_proof_pins_account
  · apply hideal.mono
    apply Set.union_subset
    · exact fun string hstring => List.mem_singleton.mpr hstring
    · decide +kernel
  · decide +kernel

end Sample

end PaymentRollup
