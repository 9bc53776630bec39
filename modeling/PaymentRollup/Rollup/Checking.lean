import PaymentRollup.Rollup.Execution

/-! # Checking which strings a guest execution hashes

Whether all of them lie in a decidable set can be computed, so what the results about runs
assume of a proof can be tested on a concrete one.
-/
namespace PaymentRollup

variable [Crypto] {Q : Set Bytes}

section Writes

instance (address : Address) (proof : MerkleProof) : Decidable (proof.Fits address) := by
  rcases proof with ⟨siblings, slot⟩
  cases slot <;> exact inferInstanceAs (Decidable (_ ∧ _))

theorem rootStrings_subset_iff {address : Address} {account : Option Account}
    {proof : MerkleProof} : rootStrings address account proof ⊆ Q ↔
      (proof.Fits address →
        PrefixTree.preimages treeHash emptySubtree
            (slotTree proof.siblings.length address account proof.slot) ⊆
          Set.preimage treeString Q ∧
        PrefixTree.climbPreimages treeHash addressPaths address 0 proof.siblings
            (PrefixTree.digest treeHash emptySubtree
              (slotTree proof.siblings.length address account proof.slot)) ⊆
          Set.preimage treeString Q) := by
  constructor
  · exact fun h hfits => rootStrings_subset hfits h
  · rintro h string ⟨hfits, preimage, htree | hclimb, rfl⟩
    · exact (h hfits).1 htree
    · exact (h hfits).2 hclimb

omit [Crypto] in
theorem exists_some_subset {α : Type} {x : Option α} {strings : α → Set Bytes} :
    {string | ∃ a, x = some a ∧ string ∈ strings a} ⊆ Q ↔ ∀ a ∈ x, strings a ⊆ Q := by
  constructor
  · exact fun h a ha string hstring => h ⟨a, ha, hstring⟩
  · rintro h string ⟨a, ha, hstring⟩
    exact h a ha hstring

variable [DecidablePred (· ∈ Q)]

instance : DecidablePred (· ∈ Set.preimage treeString Q) :=
  fun preimage => inferInstanceAs (Decidable (treeString preimage ∈ Q))

instance (address : Address) (account : Option Account) (proof : MerkleProof) :
    Decidable (rootStrings address account proof ⊆ Q) :=
  decidable_of_iff _ rootStrings_subset_iff.symm

instance Node.decidableStringsSubset : (n : Node) → Decidable (n.strings ⊆ Q)
  | .empty => .isTrue (Set.empty_subset Q)
  | .leaf address account =>
    decidable_of_iff (leafString address account ∈ Q) Set.singleton_subset_iff.symm
  | .branch _ left right =>
    have := Node.decidableStringsSubset left
    have := Node.decidableStringsSubset right
    decidable_of_iff
      (nodeString left.hash right.hash ∈ Q ∧ left.strings ⊆ Q ∧ right.strings ⊆ Q) (by
        rw [Node.strings, Set.union_subset_iff, Set.union_subset_iff, Set.singleton_subset_iff])

instance (t : SparseMerkleTree) : Decidable (t.strings ⊆ Q) :=
  Node.decidableStringsSubset t.node

instance (address : Address) (witness : LeafWitness) (post : Option Account) :
    Decidable (writeStrings address witness post ⊆ Q) :=
  have : Decidable ({string | ∃ account, post = some account ∧
      string ∈ rootStrings address (some account) witness.proof} ⊆ Q) :=
    decidable_of_iff (∀ account ∈ post, rootStrings address (some account) witness.proof ⊆ Q)
      exists_some_subset.symm
  decidable_of_iff _ Set.union_subset_iff.symm

instance (fee : UInt64) : (witness : Option LeafWitness) → Decidable (feeStrings fee witness ⊆ Q)
  | none => .isTrue (Set.empty_subset Q)
  | some witness => inferInstanceAs (Decidable (writeStrings feeSink witness
      ((witness.oldAccount.getD (Account.empty feeSink)).credited fee) ⊆ Q))

instance (sender : Address) (witness : LeafWitness) (amount fee : UInt64) :
    Decidable (debitStrings sender witness amount fee ⊆ Q) :=
  inferInstanceAs (Decidable (writeStrings _ _ _ ⊆ Q))

instance (receiver : Address) (witness : LeafWitness) (amount : UInt64) :
    Decidable (creditStrings receiver witness amount ⊆ Q) :=
  inferInstanceAs (Decidable (writeStrings _ _ _ ⊆ Q))

instance : (pair : Transaction × TxnSidecar) → Decidable (txnStrings pair ⊆ Q)
  | (.payment payment, .payment entry) =>
    have : Decidable (creditStrings payment.receiver entry.receiverWitness payment.amount ∪
        feeStrings payment.header.fee entry.feeSinkWitness ⊆ Q) :=
      decidable_of_iff _ Set.union_subset_iff.symm
    decidable_of_iff _ Set.union_subset_iff.symm
  | (.deposit _, .deposit _) => inferInstanceAs (Decidable (creditStrings _ _ _ ⊆ Q))
  | (.withdrawal _, .withdrawal _) => decidable_of_iff _ Set.union_subset_iff.symm
  | (.forcedWithdrawal _, .forcedWithdrawal _) =>
    inferInstanceAs (Decidable (writeStrings _ _ _ ⊆ Q))
  | (.payment _, .deposit _) => .isTrue (Set.empty_subset Q)
  | (.payment _, .withdrawal _) => .isTrue (Set.empty_subset Q)
  | (.payment _, .forcedWithdrawal _) => .isTrue (Set.empty_subset Q)
  | (.deposit _, .payment _) => .isTrue (Set.empty_subset Q)
  | (.deposit _, .withdrawal _) => .isTrue (Set.empty_subset Q)
  | (.deposit _, .forcedWithdrawal _) => .isTrue (Set.empty_subset Q)
  | (.withdrawal _, .payment _) => .isTrue (Set.empty_subset Q)
  | (.withdrawal _, .deposit _) => .isTrue (Set.empty_subset Q)
  | (.withdrawal _, .forcedWithdrawal _) => .isTrue (Set.empty_subset Q)
  | (.forcedWithdrawal _, .payment _) => .isTrue (Set.empty_subset Q)
  | (.forcedWithdrawal _, .deposit _) => .isTrue (Set.empty_subset Q)
  | (.forcedWithdrawal _, .withdrawal _) => .isTrue (Set.empty_subset Q)

end Writes

section Executions

theorem batchStrings_subset {batch : Batch} {sidecar : Sidecar} : batchStrings batch sidecar ⊆ Q ↔
    ∀ pair ∈ batch.txns.zip sidecar.entries, txnStrings pair ⊆ Q := by
  constructor
  · exact fun h pair hpair string hstring => h ⟨pair, hpair, hstring⟩
  · rintro h string ⟨pair, hpair, hstring⟩
    exact h pair hpair hstring

variable [DecidablePred (· ∈ Q)]

instance (batch : Batch) (sidecar : Sidecar) : Decidable (batchStrings batch sidecar ⊆ Q) :=
  decidable_of_iff _ batchStrings_subset.symm

instance (chain : Word) (items : List InboxItem) : Decidable (inboxStrings chain items ⊆ Q) :=
  HashChain.decidableStringsSubset _ _

instance (domain : DeploymentDomain) (payouts : List Payout) :
    Decidable (payoutStrings domain payouts ⊆ Q) :=
  decidable_of_iff _ payoutStrings_subset.symm

instance (domain : DeploymentDomain) (batchLen : UInt64) (posted : List Bytes) :
    Decidable (commitStrings domain batchLen posted ⊆ Q) :=
  decidable_of_iff _ commitStrings_subset.symm

omit [DecidablePred (· ∈ Q)] in
theorem Execution.strings_subset {usize : ℕ} {x : Execution} {batch : Batch} {sidecar : Sidecar}
    (hbatch : Batch.decode usize x.batchBytes = .ok batch)
    (hsidecar : Sidecar.decode usize x.sidecarBytes batch = .ok sidecar) :
    x.strings usize ⊆ Q ↔ batchStrings batch sidecar ⊆ Q ∧
      inboxStrings x.inboxAnchor (inboxItems batch.txns) ⊆ Q ∧
      payoutStrings x.domain (withdrawalPayouts batch sidecar) ⊆ Q ∧
      commitStrings x.domain (UInt64.ofNat x.batchBytes.length) (chunks x.batchBytes) ⊆ Q := by
  have hsame : x.strings usize = x.stringsOf batch sidecar := by
    ext string
    constructor
    · rintro ⟨batch', sidecar', hbatch', hsidecar', hstring⟩
      cases hbatch.symm.trans hbatch'
      cases hsidecar.symm.trans hsidecar'
      exact hstring
    · exact fun hstring => ⟨batch, sidecar, hbatch, hsidecar, hstring⟩
  rw [hsame, Execution.stringsOf]
  simp only [Set.union_subset_iff]

instance (usize : ℕ) (x : Execution) : Decidable (x.strings usize ⊆ Q) :=
  match hbatch : Batch.decode usize x.batchBytes with
  | .error _ => .isTrue fun _ ⟨_, _, hok, _⟩ => nomatch hbatch.symm.trans hok
  | .ok batch =>
    match hsidecar : Sidecar.decode usize x.sidecarBytes batch with
    | .error _ => .isTrue fun _ ⟨_, _, hok, hok', _⟩ => by
      cases hbatch.symm.trans hok
      cases hsidecar.symm.trans hok'
    | .ok sidecar => decidable_of_iff _ (Execution.strings_subset hbatch hsidecar).symm

end Executions

end PaymentRollup
