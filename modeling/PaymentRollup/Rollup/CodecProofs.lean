import PaymentRollup.Rollup.Grammar

/-! # Reading back what was written

What the encoder writes is a derivation of the batch, and each reader of a sidecar undoes its
writer in front of any further bytes. The one thing that travels between transactions is the
dictionary, whose two sides are kept in step.
-/
namespace PaymentRollup
namespace Reader

section Dictionary

/-- The encoder's positions are the decoder's indices, one-based. -/
def Matches (positions : Dictionary) (seen : List Address) : Prop :=
  positions.length = seen.length ∧ ∀ address position,
    positions.lookup address = some position →
      ∃ i, seen[i]? = some address ∧ position = UInt64.ofNat i + 1

theorem matches_nil : Matches [] [] := ⟨rfl, fun _ _ h => nomatch h⟩

theorem Matches.push {positions : Dictionary} {seen : List Address}
    (h : Matches positions seen) (address : Address) :
    Matches (positions ++ [(address, UInt64.ofNat positions.length + 1)]) (seen ++ [address]) := by
  refine ⟨by simp [h.1], ?_⟩
  intro a position hlookup
  rw [List.lookup_append, Option.or_eq_some_iff] at hlookup
  rcases hlookup with hold | ⟨-, hnew⟩
  · obtain ⟨i, hi, hposition⟩ := h.2 a position hold
    have hlt := (List.getElem?_eq_some_iff.mp hi).1
    exact ⟨i, (List.getElem?_append_left hlt).trans hi, hposition⟩
  · by_cases ha : a = address
    · subst ha
      simp only [List.lookup_cons_self, Option.some.injEq] at hnew
      exact ⟨seen.length, by simp, by rw [← hnew, h.1]⟩
    · have hne : (a == address) = false := beq_eq_false_iff_ne.mpr ha
      simp [List.lookup_cons, hne] at hnew

theorem Matches.put {positions : Dictionary} {seen : List Address} (h : Matches positions seen)
    (hfit : seen.length < 2 ^ 64) (a : Address) :
    ∃ seen', AddressRef seen (positions.put a).1 a seen' ∧ Matches (positions.put a).2 seen' := by
  unfold Dictionary.put
  cases hlookup : positions.lookup a with
  | none => exact ⟨seen ++ [a], .literal (putVarint_varint 0), h.push a⟩
  | some position =>
    obtain ⟨i, hi, rfl⟩ := h.2 a position hlookup
    have hlt : i < seen.length := (List.getElem?_eq_some_iff.mp hi).1
    have hsucc : (UInt64.ofNat i + 1).toNat = i + 1 := by
      have hto : (UInt64.ofNat i).toNat = i := by
        rw [UInt64.toNat_ofNat']
        exact Nat.mod_eq_of_lt (by omega)
      rw [UInt64.toNat_add, hto]
      exact Nat.mod_eq_of_lt (by simp; omega)
    refine ⟨seen, .nth (putVarint_varint _) (by omega) ?_, h⟩
    rw [hsucc]
    exact hi

end Dictionary

section Transactions

theorem Matches.putTxn {positions : Dictionary} {seen : List Address} (h : Matches positions seen)
    (t : Transaction) (hfit : seen.length + (putTxn positions t).1.length ≤ 2 ^ 64) :
    ∃ seen', TxnDerives seen (putTxn positions t).1 t seen' ∧
      Matches (putTxn positions t).2 seen' := by
  cases t with
  | payment p =>
    simp only [PaymentRollup.putTxn, List.length_cons, List.length_append] at hfit ⊢
    obtain ⟨seen₁, hsender, h₁⟩ := h.put (by omega) p.header.sender
    have hseen := hsender.length.2
    obtain ⟨seen₂, hreceiver, h₂⟩ := h₁.put (by omega) p.receiver
    refine ⟨seen₂, ?_, h₂⟩
    rw [List.append_assoc, List.append_assoc]
    exact .payment hsender (putVarint_varint p.header.fee) hreceiver (putVarint_varint p.amount)
  | deposit d =>
    simp only [PaymentRollup.putTxn, List.length_cons, List.length_append] at hfit ⊢
    obtain ⟨seen₁, hreceiver, h₁⟩ := h.put (by omega) d.receiver
    exact ⟨seen₁, .deposit hreceiver (putVarint_varint d.amount), h₁⟩
  | withdrawal w =>
    simp only [PaymentRollup.putTxn, List.length_cons, List.length_append] at hfit ⊢
    obtain ⟨seen₁, hsender, h₁⟩ := h.put (by omega) w.header.sender
    refine ⟨seen₁, ?_, h₁⟩
    rw [List.append_assoc, List.append_assoc]
    exact .withdrawal hsender (putVarint_varint w.header.fee) (putVarint_varint w.amount)
  | forcedWithdrawal f =>
    simp only [PaymentRollup.putTxn, List.length_cons, List.length_append] at hfit ⊢
    obtain ⟨seen₁, haddress, h₁⟩ := h.put (by omega) f.address
    exact ⟨seen₁, .forcedWithdrawal haddress, h₁⟩

theorem Matches.putTxns {positions : Dictionary} {seen : List Address} (h : Matches positions seen)
    (ts : List Transaction) (hfit : seen.length + (putTxns positions ts).length ≤ 2 ^ 64) :
    TxnsDerive seen (putTxns positions ts) ts := by
  induction ts generalizing positions seen with
  | nil => exact .nil
  | cons t ts ih =>
    simp only [PaymentRollup.putTxns, List.length_append] at hfit ⊢
    obtain ⟨seen', hfirst, h'⟩ := h.putTxn t (by omega)
    have hseen := hfirst.length.2
    exact .cons hfirst (ih h' (by omega))

theorem encode_derives (batch : Batch) (hfit : batch.encode.length ≤ 2 ^ 64) :
    Batch.Derives batch.encode batch := by
  simp only [Batch.encode, List.length_cons, List.length_append] at hfit ⊢
  have htxns := matches_nil.putTxns batch.txns (by simp only [List.length_nil]; omega)
  have hlength := htxns.length
  have hcounted : batch.txns.length ≤ batch.txns.length * minEncodedTxnSize :=
    Nat.le_mul_of_pos_right _ (by decide)
  refine .batch (putVarint_varint _) ?_ htxns
  rw [UInt64.toNat_ofNat']
  exact Nat.mod_eq_of_lt (by omega)

end Transactions

section Entries

/-- An entry in the shape its transaction calls for, with proofs the format can carry. -/
def Aligned : Transaction → TxnSidecar → Prop
  | .payment p, .payment e =>
    (e.feeSinkWitness.isSome ↔ p.header.fee ≠ 0) ∧
      e.senderWitness.proof.siblings.length ≤ maxDepth ∧
      e.receiverWitness.proof.siblings.length ≤ maxDepth ∧
      ∀ w ∈ e.feeSinkWitness, w.proof.siblings.length ≤ maxDepth
  | .deposit _, .deposit e => e.receiverWitness.proof.siblings.length ≤ maxDepth
  | .withdrawal w, .withdrawal e =>
    (e.feeSinkWitness.isSome ↔ w.header.fee ≠ 0) ∧
      e.senderWitness.proof.siblings.length ≤ maxDepth ∧
      ∀ w ∈ e.feeSinkWitness, w.proof.siblings.length ≤ maxDepth
  | .forcedWithdrawal _, .forcedWithdrawal e =>
    e.senderWitness.proof.siblings.length ≤ maxDepth
  | _, _ => False

@[simp] theorem run_optionalAccount (account : Option Account) (rest : Bytes) :
    optionalAccount.run (putOptionalAccount account ++ rest) = .ok (account, rest) := by
  cases account with
  | none => rfl
  | some a =>
    have htag : ¬present = absent := by decide
    simp only [optionalAccount, putOptionalAccount, List.cons_append, StateT.run_bind, run_byte,
      ok_bind, htag, ↓reduceIte, run_account]
    rfl

@[simp] theorem run_slot (s : Slot) (rest : Bytes) : slot.run (putSlot s ++ rest) = .ok (s, rest) := by
  cases s with
  | own => rfl
  | neighbor address account =>
    have hkind : ¬slotNeighbor = slotOwn := by decide
    simp only [slot, putSlot, List.cons_append, List.append_assoc, StateT.run_bind, run_byte,
      ok_bind, hkind, ↓reduceIte, run_word, run_account]
    rfl

@[simp] theorem run_words (ws : List Word) (rest : Bytes) :
    (words ws.length).run (ws.flatMap Word.bytes ++ rest) = .ok (ws, rest) := by
  induction ws with
  | nil => rfl
  | cons w ws ih =>
    simp only [words, List.length_cons, List.flatMap_cons, List.append_assoc, StateT.run_bind,
      run_word, ok_bind, ih]
    rfl

theorem flatMap_bytes_length (ws : List Word) : (ws.flatMap Word.bytes).length = ws.length * 32 := by
  induction ws with
  | nil => rfl
  | cons w ws ih =>
    simp only [List.flatMap_cons, List.length_append, ih, w.size, List.length_cons, Nat.succ_mul]
    omega

theorem run_witness {usize : ℕ} (husize : usize ≤ 2 ^ 64) (w : LeafWitness)
    (hdepth : w.proof.siblings.length ≤ maxDepth) (rest : Bytes)
    (hfit : (putWitness w ++ rest).length < usize) :
    (witness usize).run (putWitness w ++ rest) = .ok (w, rest) := by
  have hlen := flatMap_bytes_length w.proof.siblings
  simp only [putWitness, List.append_assoc, List.length_append] at hfit
  have hback : w.proof.siblings.length * 32 ≤
      (w.proof.siblings.flatMap Word.bytes ++ (putSlot w.proof.slot ++ rest)).length := by
    rw [List.length_append, hlen]
    omega
  have hcount := run_count husize (by omega) hback (by simp only [List.length_append]; omega)
  simp only [witness, putWitness, List.append_assoc, StateT.run_bind, run_optionalAccount, ok_bind,
    hcount, not_lt.mpr hdepth, ↓reduceIte, run_words, run_slot]
  rfl

theorem run_signature {usize : ℕ} (husize : usize ≤ 2 ^ 64) (s : Signature) (rest : Bytes)
    (hfit : (putSignature s ++ rest).length < usize) :
    (signature usize).run (putSignature s ++ rest) = .ok (s, rest) := by
  simp only [putSignature, putBytes, List.append_assoc, List.length_append] at hfit
  have hkey := @run_bytes usize s.pubKey (putBytes s.sig ++ rest) husize
    (by simp only [putBytes, List.length_append]; omega)
  have hsig := @run_bytes usize s.sig rest husize (by simp only [List.length_append]; omega)
  simp only [signature, putSignature, List.append_assoc, StateT.run_bind,
    run_take s.scheme.identifier s.scheme.identifier_length, ok_bind,
    Scheme.fromIdentifier_identifier, hkey, hsig]
  rfl

theorem run_feeSinkWitness {usize : ℕ} (husize : usize ≤ 2 ^ 64) {fee : UInt64}
    {w : Option LeafWitness} (hfee : w.isSome ↔ fee ≠ 0)
    (hdepth : ∀ x ∈ w, x.proof.siblings.length ≤ maxDepth) (rest : Bytes)
    (hfit : (putOptionalWitness w ++ rest).length < usize) :
    (feeSinkWitness usize fee).run (putOptionalWitness w ++ rest) = .ok (w, rest) := by
  cases w with
  | none =>
    have hzero : ¬fee ≠ 0 := fun h => by simpa using hfee.mpr h
    simp only [feeSinkWitness, hzero, ↓reduceIte]
    rfl
  | some w =>
    have hne : fee ≠ 0 := hfee.mp rfl
    have hrun := run_witness husize w (hdepth w rfl) rest hfit
    simp only [feeSinkWitness, if_pos hne, putOptionalWitness, StateT.run_bind, hrun, ok_bind]
    rfl

theorem run_entry {usize : ℕ} (husize : usize ≤ 2 ^ 64) {t : Transaction} {e : TxnSidecar}
    (h : Aligned t e) (rest : Bytes) (hfit : (putEntry e ++ rest).length < usize) :
    (entry usize t).run (putEntry e ++ rest) = .ok (e, rest) := by
  cases t with
  | payment p =>
    cases e with
    | payment e =>
      obtain ⟨hfee, hsender, hreceiver, hsink⟩ := h
      simp only [putEntry, List.append_assoc, List.length_append] at hfit
      have h₁ := run_signature husize e.sig (putWitness e.senderWitness ++
        (putWitness e.receiverWitness ++ (putOptionalWitness e.feeSinkWitness ++ rest)))
        (by simp only [List.length_append]; omega)
      have h₂ := run_witness husize e.senderWitness hsender (putWitness e.receiverWitness ++
        (putOptionalWitness e.feeSinkWitness ++ rest)) (by simp only [List.length_append]; omega)
      have h₃ := run_witness husize e.receiverWitness hreceiver
        (putOptionalWitness e.feeSinkWitness ++ rest) (by simp only [List.length_append]; omega)
      have h₄ := run_feeSinkWitness husize hfee hsink rest
        (by simp only [List.length_append]; omega)
      simp only [entry, putEntry, List.append_assoc, StateT.run_bind, h₁, h₂, h₃, h₄, ok_bind]
      rfl
    | deposit e => exact h.elim
    | withdrawal e => exact h.elim
    | forcedWithdrawal e => exact h.elim
  | deposit d =>
    cases e with
    | deposit e =>
      have h₁ := run_witness husize e.receiverWitness h rest hfit
      simp only [entry, putEntry, StateT.run_bind, h₁, ok_bind]
      rfl
    | payment e => exact h.elim
    | withdrawal e => exact h.elim
    | forcedWithdrawal e => exact h.elim
  | withdrawal w =>
    cases e with
    | withdrawal e =>
      obtain ⟨hfee, hsender, hsink⟩ := h
      simp only [putEntry, List.append_assoc, List.length_append] at hfit
      have h₁ := run_signature husize e.sig (putWitness e.senderWitness ++
        (putOptionalWitness e.feeSinkWitness ++ rest)) (by simp only [List.length_append]; omega)
      have h₂ := run_witness husize e.senderWitness hsender
        (putOptionalWitness e.feeSinkWitness ++ rest) (by simp only [List.length_append]; omega)
      have h₃ := run_feeSinkWitness husize hfee hsink rest
        (by simp only [List.length_append]; omega)
      simp only [entry, putEntry, List.append_assoc, StateT.run_bind, h₁, h₂, h₃, ok_bind]
      rfl
    | payment e => exact h.elim
    | deposit e => exact h.elim
    | forcedWithdrawal e => exact h.elim
  | forcedWithdrawal f =>
    cases e with
    | forcedWithdrawal e =>
      have h₁ := run_witness husize e.senderWitness h rest hfit
      simp only [entry, putEntry, StateT.run_bind, h₁, ok_bind]
      rfl
    | payment e => exact h.elim
    | deposit e => exact h.elim
    | withdrawal e => exact h.elim

theorem run_entries {usize : ℕ} (husize : usize ≤ 2 ^ 64) {ts : List Transaction}
    {es : List TxnSidecar} (h : List.Forall₂ Aligned ts es) (rest : Bytes)
    (hfit : (es.flatMap putEntry ++ rest).length < usize) :
    (entries usize ts).run (es.flatMap putEntry ++ rest) = .ok (es, rest) := by
  induction h with
  | nil => rfl
  | @cons t e ts es h _ ih =>
    simp only [List.flatMap_cons, List.append_assoc, List.length_append] at hfit
    have hfirst := run_entry husize h (es.flatMap putEntry ++ rest)
      (by simpa only [List.length_append] using hfit)
    have hlater := ih (by simp only [List.length_append]; omega)
    simp only [entries, List.flatMap_cons, List.append_assoc, StateT.run_bind, hfirst, hlater,
      ok_bind]
    rfl

theorem putWitness_length (w : LeafWitness) : minEncodedWitnessSize ≤ (putWitness w).length := by
  have hcount := putVarint_length_pos (UInt64.ofNat w.proof.siblings.length)
  have haccount : 0 < (putOptionalAccount w.oldAccount).length := by
    cases w.oldAccount <;> simp [putOptionalAccount]
  have hslot : 0 < (putSlot w.proof.slot).length := by
    cases w.proof.slot <;> simp [putSlot]
  simp only [putWitness, List.length_append, minEncodedWitnessSize]
  omega

theorem putEntries_length (es : List TxnSidecar) :
    es.length * minEncodedEntrySize ≤ (es.flatMap putEntry).length := by
  have hentry : ∀ e, minEncodedEntrySize ≤ (putEntry e).length := by
    intro e
    unfold minEncodedEntrySize
    cases e with
    | payment e =>
      have := putWitness_length e.senderWitness
      simp only [putEntry, List.length_append]
      omega
    | deposit e => exact putWitness_length e.receiverWitness
    | withdrawal e =>
      have := putWitness_length e.senderWitness
      simp only [putEntry, List.length_append]
      omega
    | forcedWithdrawal e => exact putWitness_length e.senderWitness
  induction es with
  | nil => simp
  | cons e es ih =>
    have := hentry e
    simp only [List.flatMap_cons, List.length_append, List.length_cons, Nat.succ_mul]
    omega

end Entries

end Reader

section RoundTrips

theorem Batch.decode_encode {usize : ℕ} (husize : usize ≤ 2 ^ 64) (batch : Batch)
    (hfit : batch.encode.length < usize) : Batch.decode usize batch.encode = .ok batch :=
  (Reader.encode_derives batch (by omega)).decode hfit

theorem Sidecar.decode_encode {usize : ℕ} (husize : usize ≤ 2 ^ 64) {batch : Batch}
    {sidecar : Sidecar} (h : List.Forall₂ Reader.Aligned batch.txns sidecar.entries)
    (hfit : sidecar.encode.length < usize) :
    Sidecar.decode usize sidecar.encode batch = .ok sidecar := by
  simp only [Sidecar.encode, List.length_cons, List.length_append] at hfit
  have hcount := Reader.putEntries_length sidecar.entries
  have hrun₁ := Reader.run_count husize (by decide) hcount (by omega)
  have hrun₂ := Reader.run_entries husize h [] (by simp only [List.append_nil]; omega)
  rw [List.append_nil] at hrun₂
  have hlen : ¬sidecar.entries.length ≠ batch.txns.length := not_not.mpr h.length_eq.symm
  have hrun : StateT.run (do
      Reader.expectVersion sidecarVersion
      let found ← Reader.count usize minEncodedEntrySize
      if found ≠ batch.txns.length then
        Reader.fail (.sidecarLengthMismatch batch.txns.length found)
      else
        let entries ← Reader.entries usize batch.txns
        Reader.finish
        pure (⟨entries⟩ : Sidecar)) sidecar.encode = Except.ok (sidecar, []) := by
    simp only [Sidecar.encode, StateT.run_bind, Reader.run_expectVersion, ok_bind, hrun₁, hlen,
      ↓reduceIte, hrun₂, Reader.run_finish]
    rfl
  unfold Sidecar.decode
  change (StateT.run _ _ >>= _) = _
  rw [hrun]
  rfl

end RoundTrips

end PaymentRollup
