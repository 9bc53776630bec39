import Mathlib.Data.List.GetD
import PaymentRollup.Rollup.AddressPaths
import PaymentRollup.Rollup.Guest

/-! # The replay in the guest never panics

Function by function, what could panic does what its counterpart that cannot panic does. The
checks that make it so are often far from the operations they protect: a neighbor that is not
the address itself is what keeps the bit at depth 256 from being read.
-/
namespace PaymentRollup
namespace Guest
open Guarded

section Layouts
variable {usize : ℕ} {ε : Type}

theorem putField_fill (front field : Bytes) (room : ℕ) (hroom : field.length ≤ room)
    (hfit : front.length + room < usize) :
    (putField usize (front ++ List.replicate room 0) front.length field : Guarded ε _) =
      .ok (front ++ field ++ List.replicate (room - field.length) 0, (front ++ field).length) := by
  have hsplit : List.replicate room (0 : UInt8) =
      List.replicate field.length 0 ++ List.replicate (room - field.length) 0 := by
    rw [List.replicate_append_replicate, Nat.add_sub_cancel' hroom]
  have hcopy := @copyFromSlice_append ε _ front (List.replicate field.length 0)
    (List.replicate (room - field.length) 0) field (by simp)
  rw [List.length_replicate, List.append_assoc front] at hcopy
  rw [putField, add_of_lt (by omega), ok_bind, hsplit, hcopy, ok_bind, List.length_append]

theorem getField_eq {bytes : Bytes} {offset len : ℕ} (hlength : offset + len ≤ bytes.length)
    (hfit : bytes.length < usize) (hsize : ((bytes.drop offset).take len).length = len) :
    (getField usize bytes offset len : Guarded ε _) =
      .ok (⟨(bytes.drop offset).take len, hsize⟩, offset + len) := by
  rw [getField, add_of_lt (by omega), ok_bind, slice_of_le (by omega) hlength, ok_bind]
  simp only [Nat.add_sub_cancel_left]
  rw [toArray_of_length hsize, ok_bind]

theorem encodeAccount_eq (husize : 2 ^ 16 ≤ usize) (a : Account) :
    (encodeAccount usize a : Guarded ε Bytes) = .ok a.encode := by
  have hstart : (List.replicate Account.encodedSize 0 : Bytes) = [] ++ List.replicate 48 0 := rfl
  have hzero : (0 : ℕ) = ([] : Bytes).length := rfl
  unfold encodeAccount
  simp only [hstart]
  rw [hzero]
  simp (disch := (
    simp only [List.length_append, List.length_nil, toBeBytes_length, Word.size]
    omega)) only [putField_fill, ok_bind]
  simp [Account.encode, Word.size]

theorem decodeAccount_eq (husize : 2 ^ 16 ≤ usize)
    (bytes : { b : Bytes // b.length = Account.encodedSize }) :
    (decodeAccount usize bytes : Guarded ε Account) = .ok (Account.decode bytes) := by
  have hsize : bytes.1.length = 48 := bytes.2
  have hfit : bytes.1.length < usize := by omega
  have hnonce := @getField_eq usize ε bytes.1 0 8 (by omega) hfit (by simp [hsize])
  have hamount := @getField_eq usize ε bytes.1 8 8 (by omega) hfit (by simp [hsize])
  have haddress := @getField_eq usize ε bytes.1 16 32 (by omega) hfit (by simp [hsize])
  have hlast : (bytes.1.drop 16).take 32 = bytes.1.drop 16 := by
    apply List.take_of_length_le
    simp [hsize]
  unfold decodeAccount
  simp only [hnonce, hamount, haddress, hlast, ok_bind, Nat.zero_add, Nat.reduceAdd]
  rfl

theorem bytesToSign_eq (husize : 2 ^ 16 ≤ usize) (domain : DeploymentDomain) {tag : Bytes}
    (htag : tag.length = 3) (sender : Address) (nonce fee : UInt64) (destination : Word)
    (amount : UInt64) :
    (bytesToSign usize domain tag sender nonce fee destination amount : Guarded ε Bytes) =
      .ok (PaymentRollup.bytesToSign domain tag sender nonce fee destination amount) := by
  have hstart : (List.replicate encodedTxSize 0 : Bytes) = [] ++ List.replicate 123 0 := rfl
  have hzero : (0 : ℕ) = ([] : Bytes).length := rfl
  unfold bytesToSign
  simp only [hstart]
  rw [hzero]
  simp (disch := (
    simp only [List.length_append, List.length_nil, toBeBytes_length, Word.size, htag]
    omega)) only [putField_fill, ok_bind]
  simp [PaymentRollup.bytesToSign, Word.size, htag]

end Layouts

section Paths
variable {usize : ℕ} {ε : Type}

theorem bitAt_eq (address : Address) {depth : ℕ} (h : depth < maxDepth) :
    (bitAt address depth : Guarded ε ℕ) = .ok (PaymentRollup.bitAt address depth) := by
  have hbyte : depth / 8 < address.bytes.length := by
    rw [address.size]
    unfold maxDepth at h
    omega
  have hget : address.bytes.getD (depth / 8) 0 = address.bytes[depth / 8] :=
    List.getD_eq_getElem _ _ hbyte
  rw [bitAt, index_of_lt hbyte, ok_bind, sub_of_le (by omega), ok_bind, shr8_of_lt (by omega),
    ok_bind, PaymentRollup.bitAt, hget]

theorem commonPrefixFrom_eq {i : ℕ} {xs ys : Bytes} (hfit : (i + xs.length) * 8 < usize) :
    (commonPrefixFrom usize i xs ys : Guarded ε ℕ) =
      .ok (PaymentRollup.commonPrefixFrom i xs ys) := by
  induction xs generalizing i ys with
  | nil => rfl
  | cons x xs ih =>
    cases ys with
    | nil => rfl
    | cons y ys =>
      rw [List.length_cons] at hfit
      rw [commonPrefixFrom, PaymentRollup.commonPrefixFrom]
      split_ifs with hne
      · have hzeros := (byte_part hne).1
        rw [mul_of_lt (by omega), ok_bind, add_of_lt (by omega)]
      · exact ih (by omega)

theorem commonPrefixLen_eq (husize : 2 ^ 16 ≤ usize) (a b : Address) :
    (commonPrefixLen usize a b : Guarded ε ℕ) = .ok (PaymentRollup.commonPrefixLen a b) := by
  apply commonPrefixFrom_eq
  rw [a.size]
  omega

theorem checkNeighbor_eq (husize : 2 ^ 16 ≤ usize) (address neighbor : Address) (depth : ℕ) :
    (checkNeighbor usize address neighbor depth : Guarded ε _) =
      .ok (PaymentRollup.checkNeighbor address neighbor depth) := by
  rw [checkNeighbor, PaymentRollup.checkNeighbor, commonPrefixLen_eq husize, ok_bind]
  by_cases hne : neighbor ≠ address
  · rw [if_pos hne]
    simp only [hne, ne_eq, not_false_eq_true, true_and]
  · rw [if_neg hne, if_neg fun h => hne h.1]

theorem ne_of_checkNeighbor {address neighbor : Address} {depth : ℕ} {u : Unit}
    (h : PaymentRollup.checkNeighbor address neighbor depth = some u) : address ≠ neighbor := by
  rw [PaymentRollup.checkNeighbor] at h
  split_ifs at h with hcheck
  exact hcheck.1.symm

end Paths

section Merkle
variable [Crypto] {usize : ℕ} {ε : Type}

theorem leafHash_eq (husize : 2 ^ 16 ≤ usize) (address : Address) (account : Account) :
    (leafHash usize address account : Guarded ε Word) =
      .ok (PaymentRollup.leafHash address account) := by
  rw [leafHash, encodeAccount_eq husize, ok_bind]
  rfl

/-- Two different addresses part before the last level, so no bit is read below it. -/
theorem subtreeWithBoth_eq (husize : 2 ^ 16 ≤ usize) {depth : ℕ} {own other : Address × Account}
    (hne : own.1 ≠ other.1) : (subtreeWithBoth usize depth own other : Guarded ε Word) =
      .ok (PaymentRollup.subtreeWithBoth depth own other) := by
  have hsplit := commonPrefixLen_lt hne
  simp only [subtreeWithBoth, commonPrefixLen_eq husize, leafHash_eq husize, bitAt_eq _ hsplit, ok_bind]
  refine foldlM_eq_ok _ fun current level hlevel => ?_
  have hlt : level < maxDepth := by
    have := List.mem_range'_1.mp (List.mem_reverse.mp hlevel)
    omega
  rw [bitAt_eq _ hlt, ok_bind]

theorem rootFromProof_eq (husize : 2 ^ 16 ≤ usize) (address : Address) (account : Option Account)
    (proof : MerkleProof) : (rootFromProof usize address account proof : Guarded ε _) =
      .ok (PaymentRollup.rootFromProof address account proof) := by
  rw [rootFromProof, PaymentRollup.rootFromProof]
  split_ifs with hdeep
  · rfl
  · have hfold : ∀ current : Word, ((List.range proof.siblings.length).reverse.foldlM
        (fun current level => do
          let bit ← bitAt address level
          let sibling ← index proof.siblings level
          .ok (if bit = 0 then nodeHash current sibling else nodeHash sibling current))
        current : Guarded ε Word) = .ok ((List.range proof.siblings.length).reverse.foldl
          (fun current level =>
            let sibling := proof.siblings.getD level emptySubtree
            if PaymentRollup.bitAt address level = 0 then nodeHash current sibling
            else nodeHash sibling current) current) := by
      intro current
      refine foldlM_eq_ok _ fun current level hlevel => ?_
      have hlt : level < proof.siblings.length := List.mem_range.mp (List.mem_reverse.mp hlevel)
      rw [bitAt_eq _ (by omega), ok_bind, index_of_lt hlt, ok_bind, List.getD_eq_getElem _ _ hlt]
    cases hslot : proof.slot with
    | own =>
      cases account with
      | none => simp only [pathStart, hslot, ok_bind, hfold]; rfl
      | some account => simp only [pathStart, hslot, leafHash_eq husize, ok_bind, hfold]; rfl
    | neighbor neighbor held =>
      cases hcheck : PaymentRollup.checkNeighbor address neighbor proof.siblings.length with
      | none =>
        cases account <;>
          simp only [pathStart, hslot, checkNeighbor_eq husize, hcheck, ok_bind] <;> rfl
      | some u =>
        have hne := ne_of_checkNeighbor hcheck
        cases account with
        | none =>
          simp only [pathStart, hslot, checkNeighbor_eq husize, hcheck, leafHash_eq husize, ok_bind,
            hfold]
          rfl
        | some account =>
          have hboth := @subtreeWithBoth_eq _ usize ε husize proof.siblings.length
            (address, account) (neighbor, held) hne
          simp only [pathStart, hslot, checkNeighbor_eq husize, hcheck, hboth, ok_bind, hfold]
          rfl

end Merkle

section Replay
variable [Crypto] {usize : ℕ}

/-- The lengths are checked before the key and the signature are cut. -/
theorem verifySignature_eq (scheme : Scheme) (pubKey sig message : Bytes) :
    verifySignature scheme pubKey sig message =
      ofResult (scheme.verify pubKey sig message) := by
  cases scheme with
  | managed => rfl
  | ed25519 => exact bind_eq rfl fun key _ => rfl
  | falcon1024HybridEd25519 =>
    simp only [verifySignature, Scheme.verify]
    split_ifs with hkey hsig
    · rfl
    · rfl
    · have hkeySplit : ed25519PublicKeySize ≤ pubKey.length := by
        rw [not_not.mp hkey, hybridPublicKeySize]
        exact Nat.le_add_right _ _
      have hsigSplit : ed25519SignatureSize ≤ sig.length := by
        unfold minHybridSignatureSize at hsig
        omega
      rw [splitAt_of_le hkeySplit, ok_bind, splitAt_of_le hsigSplit, ok_bind]
      refine bind_eq rfl fun key _ => bind_eq rfl fun _ _ => bind_eq rfl fun falconKey _ => ?_
      split_ifs <;> rfl

theorem rootWith_eq (husize : 2 ^ 16 ≤ usize) (address : Address) (account : Option Account)
    (proof : MerkleProof) : rootWith usize address account proof =
      ofResult (PaymentRollup.rootWith address account proof) := by
  rw [rootWith, rootFromProof_eq husize, ok_bind]
  rfl

theorem expectPreState_eq (husize : 2 ^ 16 ≤ usize) (address : Address) (witness : LeafWitness)
    (root : Word) : expectPreState usize address witness root =
      ofResult (PaymentRollup.expectPreState address witness root) := by
  exact bind_eq (rootWith_eq husize _ _ _) fun implied _ => rfl

theorem debit_eq (husize : 2 ^ 16 ≤ usize) {sender : Address} {witness : LeafWitness}
    {sig : Signature} {amount fee : UInt64} {root : Word}
    {message' : UInt64 → Guarded VerificationError Bytes} {message : UInt64 → Bytes}
    (hmessage : ∀ nonce, message' nonce = .ok (message nonce)) :
    debit usize sender witness sig amount fee root message' =
      ofResult (PaymentRollup.debit sender witness sig amount fee root message) := by
  unfold debit PaymentRollup.debit Signature.verify
  refine bind_eq (expectPreState_eq husize _ _ _) fun _ _ => ?_
  refine bind_eq rfl fun held _ => bind_eq rfl fun account _ => ?_
  rw [hmessage, ok_bind, bind_assoc]
  refine bind_eq rfl fun _ _ => bind_eq (verifySignature_eq _ _ _ _) fun _ _ => ?_
  exact bind_eq rfl fun balance _ => rootWith_eq husize _ _ _

theorem credit_eq (husize : 2 ^ 16 ≤ usize) (receiver : Address) (witness : LeafWitness)
    (amount : UInt64) (root : Word) : credit usize receiver witness amount root =
      ofResult (PaymentRollup.credit receiver witness amount root) := by
  unfold credit PaymentRollup.credit
  refine bind_eq (expectPreState_eq husize _ _ _) fun _ _ => ?_
  exact bind_eq rfl fun balance _ => rootWith_eq husize _ _ _

theorem creditFee_eq (husize : 2 ^ 16 ≤ usize) (fee : UInt64) (witness : Option LeafWitness)
    (root : Word) :
    creditFee usize fee witness root = ofResult (PaymentRollup.creditFee fee witness root) := by
  cases witness with
  | none =>
    simp only [creditFee, PaymentRollup.creditFee]
    split_ifs <;> rfl
  | some witness =>
    simp only [creditFee, PaymentRollup.creditFee]
    split_ifs with hfee
    · exact credit_eq husize _ _ _ _
    · rfl

theorem verifyTxn_eq (husize : 2 ^ 16 ≤ usize) (domain : DeploymentDomain) (r : Replaying)
    (pair : Transaction × TxnSidecar) :
    verifyTxn usize domain r pair = ofResult (PaymentRollup.verifyTxn domain r pair) := by
  obtain ⟨txn, entry⟩ := pair
  cases txn with
  | payment payment =>
    cases entry with
    | payment entry =>
      have hmessage := fun nonce => @bytesToSign_eq usize VerificationError husize domain
        signTagPayment rfl payment.header.sender nonce payment.header.fee payment.receiver
        payment.amount
      refine bind_eq (debit_eq husize hmessage) fun root _ => ?_
      refine bind_eq (credit_eq husize _ _ _ _) fun root _ => ?_
      exact bind_eq (creditFee_eq husize _ _ _) fun root _ => rfl
    | _ => rfl
  | deposit deposit =>
    cases entry with
    | deposit entry => exact bind_eq (credit_eq husize _ _ _ _) fun root _ => rfl
    | _ => rfl
  | withdrawal withdrawal =>
    cases entry with
    | withdrawal entry =>
      have hmessage := fun nonce => @bytesToSign_eq usize VerificationError husize domain
        signTagWithdrawal rfl withdrawal.header.sender nonce withdrawal.header.fee
        withdrawal.recipient withdrawal.amount
      refine bind_eq rfl fun _ _ => ?_
      refine bind_eq (debit_eq husize hmessage) fun root _ => ?_
      exact bind_eq (creditFee_eq husize _ _ _) fun root _ => rfl
    | _ => rfl
  | forcedWithdrawal forced =>
    cases entry with
    | forcedWithdrawal entry =>
      refine bind_eq (expectPreState_eq husize _ _ _) fun _ _ => ?_
      dsimp only
      split_ifs with hpaid
      · refine bind_eq rfl fun held _ => bind_eq rfl fun account _ => ?_
        exact bind_eq (rootWith_eq husize _ _ _) fun root _ => rfl
      · rfl
    | _ => rfl

theorem verifyBatch_eq (husize : 2 ^ 16 ≤ usize) (domain : DeploymentDomain)
    (oldRoot inboxAnchor : Word) (batch : Batch) (sidecar : Sidecar) :
    verifyBatch usize domain oldRoot inboxAnchor batch sidecar =
      ofResult (PaymentRollup.verifyBatch domain oldRoot inboxAnchor batch sidecar) := by
  refine bind_eq rfl fun _ _ => ?_
  have hloop := foldlM_eq ⟨oldRoot, inboxAnchor, []⟩ fun r pair
    (_ : pair ∈ batch.txns.zip sidecar.entries) => verifyTxn_eq husize domain r pair
  exact bind_eq hloop fun r _ => rfl

end Replay

section Commitments
variable [Crypto] {ε : Type}

/-- Every chunk fits in one settlement transaction. -/
theorem chunkDigest_eq {batchBytes chunk : Bytes} (h : chunk ∈ chunks batchBytes) :
    (chunkDigest chunk : Guarded ε Word) = .ok (PaymentRollup.chunkDigest chunk) := by
  obtain ⟨i, -, rfl⟩ := List.mem_map.mp h
  rw [chunkDigest, assert_of (List.length_take_le _ _), ok_bind]

theorem batchCommitment_eq (domain : DeploymentDomain) (batchBytes : Bytes) :
    (batchCommitment domain batchBytes : Guarded ε Word) =
      .ok (PaymentRollup.batchCommitment domain batchBytes) := by
  rw [batchCommitment, assert_of (by decide), ok_bind]
  refine foldlM_eq_ok _ fun accumulator chunk hchunk => ?_
  rw [chunkDigest_eq hchunk, ok_bind]

omit [Crypto] in
theorem copyWord {front : Bytes} {start : ℕ} (hfront : front.length = start) (rest : ℕ)
    (word : Word) : (copyFromSlice (front ++ List.replicate (rest + 32) 0) start (start + 32)
      word.bytes : Guarded ε Bytes) = .ok (front ++ word.bytes ++ List.replicate rest 0) := by
  have hcopy := @copyFromSlice_append ε _ front (List.replicate 32 0) (List.replicate rest 0)
    word.bytes (by rw [word.size, List.length_replicate])
  rwa [List.length_replicate, List.append_assoc front, List.replicate_append_replicate,
    Nat.add_comm 32, hfront] at hcopy

theorem publicValues_eq (domain : DeploymentDomain) (oldRoot newRoot : Word) (batchBytes : Bytes)
    (oldInboxChain newInboxChain withdrawalChain : Word) :
    (publicValues domain oldRoot newRoot batchBytes oldInboxChain newInboxChain withdrawalChain :
      Guarded ε Bytes) = .ok (PaymentRollup.publicValues domain oldRoot newRoot batchBytes
        oldInboxChain newInboxChain withdrawalChain) := by
  have hstart : (List.replicate 192 0 : Bytes) = [] ++ List.replicate (160 + 32) 0 := rfl
  simp only [publicValues, batchCommitment_eq, ok_bind]
  rw [hstart, copyWord List.length_nil 160, ok_bind, copyWord (by simp [Word.size]) 128, ok_bind,
    copyWord (by simp [Word.size]) 96, ok_bind, copyWord (by simp [Word.size]) 64, ok_bind,
    copyWord (by simp [Word.size]) 32, ok_bind, copyWord (by simp [Word.size]) 0]
  simp [PaymentRollup.publicValues]

end Commitments

end Guest

end PaymentRollup
