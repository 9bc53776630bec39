import PaymentRollup.Contract.Settlement

/-! # A forced exit proves the account it pays

The contract recomputes a root in its own loop over packed bytes. It is the crates' check
of an inclusion proof, so a root that matches names the account the ledger holds.
-/
namespace PaymentRollup.Contract

variable [Crypto]

omit [Crypto] in
theorem siblingWord_bytes {siblings : Bytes} {level : ℕ} (h : level < siblings.length / 32) :
    (siblingWord siblings level).bytes = (siblings.drop (level * 32)).take 32 := by
  have hsize : ((siblings.drop (level * 32)).take 32).length = 32 := by
    rw [List.length_take, List.length_drop]
    have := Nat.div_mul_le_self siblings.length 32
    omega
  simp [siblingWord, Word.ofBytes?, hsize]

omit [Crypto] in
theorem getBit_eq_zero {address : Address} {level : ℕ} :
    getBit address.bytes level = 0 ↔ bitAt address level = 0 := by
  rw [bitAt, ← UInt8.toNat_inj]
  rfl

/-- The contract's loop computes the crates' `rootFromProof`. -/
theorem exitRoot_eq (address : Address) (nonce amount : UInt64) (authAddress : Address)
    {siblings : Bytes} (hdepth : siblings.length / 32 ≤ maxProofDepth) :
    rootFromProof address (some ⟨nonce, amount, authAddress⟩) (exitProof siblings) =
      some (exitRoot address nonce amount authAddress siblings) := by
  have hlength : (exitProof siblings).siblings.length = siblings.length / 32 := by
    simp [exitProof]
  have hdepth' : ¬(siblings.length / 32 > maxDepth) := Nat.not_lt.mpr hdepth
  have hleaf : leafHash address ⟨nonce, amount, authAddress⟩ =
      sha256 (leafString address nonce amount authAddress) := by
    simp only [leafHash, PaymentRollup.leafString, leafString, Account.encode, List.append_assoc]
    rfl
  simp only [rootFromProof, hlength, if_neg hdepth']
  refine congrArg some ?_
  rw [exitRoot, hleaf]
  refine List.foldl_ext _ _ _ fun current level hlevel => ?_
  have hlt : level < siblings.length / 32 := List.mem_range.mp (List.mem_reverse.mp hlevel)
  have hget : (exitProof siblings).siblings.getD level emptySubtree =
      siblingWord siblings level := by
    simp [exitProof, hlt]
  simp only [hget, getBit_eq_zero]
  split_ifs
  · rw [nodeHash, PaymentRollup.nodeString, siblingWord_bytes hlt]
    rfl
  · rw [nodeHash, PaymentRollup.nodeString, siblingWord_bytes hlt]
    rfl

theorem exit_account {Q : Set Bytes} (hQ : Ideal Q) {S : AccountMap}
    (hS : (treeOf S).strings ⊆ Q) {address : Address} {nonce amount : UInt64}
    {authAddress : Address} {siblings : Bytes}
    (hdepth : siblings.length / 32 ≤ maxProofDepth)
    (hroot : exitRoot address nonce amount authAddress siblings = (treeOf S).root)
    (hstrings : rootStrings address (some ⟨nonce, amount, authAddress⟩) (exitProof siblings) ⊆ Q) :
    S address = some ⟨nonce, amount, authAddress⟩ := by
  have hproof := exitRoot_eq address nonce amount authAddress hdepth
  rw [hroot] at hproof
  exact (pins_of_root hQ hS hstrings hproof).1.symm

end PaymentRollup.Contract
