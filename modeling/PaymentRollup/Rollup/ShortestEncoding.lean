import PaymentRollup.Rollup.CodecProofs

/-! # Nothing encodes a batch in fewer bytes

An accepted input may write an address out again, and then its dictionary has more entries than
the encoder's. So the encoder has every address at a position no later than the input does, and
the references it writes are no wider. Only where no address was written out twice do the two
number alike, and there the input is as short only if it is the encoder's own.
-/
namespace PaymentRollup

section Dictionaries
variable {positions positions' : Dictionary} {seen seen' : List Address}

/-- The encoder's dictionary has the addresses of the other, none of them later. -/
structure Ahead (positions : Dictionary) (seen : List Address) : Prop where
  length : positions.length ≤ seen.length
  bounded : ∀ a position, positions.lookup a = some position → position.toNat ≤ positions.length
  early : ∀ i a, seen[i]? = some a → ∃ position, positions.lookup a = some position ∧
    position.toNat ≤ i + 1

/-- The two dictionaries number alike. -/
def InStep (positions : Dictionary) (seen : List Address) : Prop :=
  positions.length = seen.length ∧ ∀ i a, seen[i]? = some a →
    positions.lookup a = some (UInt64.ofNat i + 1)

theorem ahead_nil : Ahead [] [] where
  length := Nat.le_refl 0
  bounded _ _ h := by cases h
  early _ _ h := by cases h

theorem inStep_nil : InStep [] [] := ⟨rfl, fun _ _ h => by cases h⟩

theorem succ_toNat_le (n : ℕ) : (UInt64.ofNat n + 1).toNat ≤ n + 1 := by
  rw [UInt64.toNat_add, UInt64.toNat_ofNat']
  exact (Nat.mod_le _ _).trans (Nat.succ_le_succ (Nat.mod_le _ _))

theorem lookup_push {a : Address} (hnew : positions.lookup a = none) (position : UInt64)
    (other : Address) : (positions ++ [(a, position)]).lookup other =
      if other = a then some position else positions.lookup other := by
  rw [List.lookup_append]
  split_ifs with heq
  · rw [heq, hnew, List.lookup_cons_self]
    rfl
  · rw [List.lookup_cons, beq_eq_false_iff_ne.mpr heq, List.lookup_nil, Option.or_none]

theorem seen_push {a other : Address} {i : ℕ} (h : (seen ++ [a])[i]? = some other) :
    seen[i]? = some other ∨ (i = seen.length ∧ other = a) := by
  rcases Nat.lt_trichotomy i seen.length with hlt | rfl | hgt
  · left
    rwa [List.getElem?_append_left hlt] at h
  · right
    rw [List.getElem?_concat_length, Option.some.injEq] at h
    exact ⟨rfl, h.symm⟩
  · have hlength := (List.getElem?_eq_some_iff.mp h).1
    rw [List.length_append, List.length_singleton] at hlength
    omega

theorem Ahead.push (h : Ahead positions seen) {a : Address} (hnew : positions.lookup a = none) :
    Ahead (positions ++ [(a, UInt64.ofNat positions.length + 1)]) (seen ++ [a]) where
  length := by
    have := h.length
    simp only [List.length_append, List.length_singleton]
    omega
  bounded other position hlookup := by
    rw [lookup_push hnew] at hlookup
    rw [List.length_append, List.length_singleton]
    split_ifs at hlookup with heq
    · cases hlookup
      exact succ_toNat_le _
    · exact (h.bounded other position hlookup).trans (Nat.le_succ _)
  early i other hi := by
    rw [lookup_push hnew]
    rcases seen_push hi with hold | ⟨rfl, rfl⟩
    · obtain ⟨position, hlookup, hle⟩ := h.early i other hold
      have hne : ¬other = a := by
        rintro rfl
        cases hnew.symm.trans hlookup
      exact ⟨position, by rw [if_neg hne, hlookup], hle⟩
    · exact ⟨_, if_pos rfl, (succ_toNat_le _).trans (Nat.succ_le_succ h.length)⟩

theorem Ahead.repeat (h : Ahead positions seen) {a : Address} {position : UInt64}
    (hold : positions.lookup a = some position) : Ahead positions (seen ++ [a]) where
  length := by
    have := h.length
    rw [List.length_append]
    omega
  bounded := h.bounded
  early i other hi := by
    rcases seen_push hi with hseen | ⟨rfl, rfl⟩
    · exact h.early i other hseen
    · have hbound := (h.bounded _ position hold).trans h.length
      exact ⟨position, hold, hbound.trans (Nat.le_succ _)⟩

theorem InStep.push (h : InStep positions seen) {a : Address} (hnew : positions.lookup a = none) :
    InStep (positions ++ [(a, UInt64.ofNat positions.length + 1)]) (seen ++ [a]) := by
  constructor
  · rw [List.length_append, List.length_append, h.1]
    rfl
  · intro i other hi
    rw [lookup_push hnew]
    rcases seen_push hi with hold | ⟨rfl, rfl⟩
    · have hlookup := h.2 i other hold
      have hne : ¬other = a := by
        rintro rfl
        cases hnew.symm.trans hlookup
      rw [if_neg hne, hlookup]
    · rw [if_pos rfl, h.1]

end Dictionaries

section Savings
variable {positions positions' positions'' : Dictionary} {seen seen' seen'' : List Address}
  {e e' w w' : Bytes}

/-- What the encoder writes in the place of `w`, as the dictionaries take a step each: it is no
longer, and dictionaries in step stay so if it is as long, which makes it `w`. -/
structure Saves (positions : Dictionary) (seen : List Address) (e w : Bytes)
    (positions' : Dictionary) (seen' : List Address) : Prop where
  ahead : Ahead positions' seen'
  le : e.length ≤ w.length
  eq : InStep positions seen → e.length = w.length → e = w ∧ InStep positions' seen'

theorem Saves.append (h : Saves positions seen e w positions' seen')
    (h' : Saves positions' seen' e' w' positions'' seen'') :
    Saves positions seen (e ++ e') (w ++ w') positions'' seen'' where
  ahead := h'.ahead
  le := by
    have := h.le
    have := h'.le
    simp only [List.length_append]
    omega
  eq hstep hlength := by
    have := h.le
    have := h'.le
    simp only [List.length_append] at hlength
    obtain ⟨rfl, hstep'⟩ := h.eq hstep (by omega)
    obtain ⟨rfl, hstep''⟩ := h'.eq hstep' (by omega)
    exact ⟨rfl, hstep''⟩

theorem Ahead.literal (h : Ahead positions seen) (w : Bytes) :
    Saves positions seen w w positions seen := ⟨h, Nat.le_refl _, fun hstep _ => ⟨rfl, hstep⟩⟩

theorem Ahead.varint (h : Ahead positions seen) {v : UInt64} (hw : Varint w v) :
    Saves positions seen (putVarint v) w positions seen where
  ahead := h
  le := (Reader.putVarint_minimal v).length_le hw.2 (Nat.le_refl _)
  eq hstep hlength :=
    ⟨((Reader.putVarint_minimal v).eq_of_length hw.2 hlength.symm).symm, hstep⟩

theorem Ahead.put (h : Ahead positions seen) {a : Address} (hw : AddressRef seen w a seen') :
    Saves positions seen (positions.put a).1 w (positions.put a).2 seen' := by
  unfold Dictionary.put
  cases hw with
  | @literal z _ hzero =>
    have hpos := hzero.length_pos
    have hsize := a.size
    cases hlookup : positions.lookup a with
    | none =>
      constructor
      · exact h.push hlookup
      · rw [List.length_cons, List.length_append]
        omega
      · intro hstep hlength
        rw [List.length_cons, List.length_append] at hlength
        have hz : z = [0] := (Reader.putVarint_minimal 0).eq_of_length hzero.2 (by
          change z.length = 1
          omega)
        rw [hz]
        exact ⟨rfl, hstep.push hlookup⟩
    | some position =>
      have hshort : (putVarint position).length < (z ++ a.bytes).length := by
        have := (Reader.putVarint_varint position).1
        rw [List.length_append]
        omega
      exact ⟨h.repeat hlookup, hshort.le, fun _ hlength => absurd hlength hshort.ne⟩
  | @nth _ n _ hn hpos hseen =>
    obtain ⟨position, hlookup, hle⟩ := h.early _ a hseen
    rw [hlookup]
    have hminimal := Reader.putVarint_minimal position
    constructor
    · exact h
    · exact hminimal.length_le hn.2 (by omega)
    · intro hstep hlength
      have hsame : position = n := by
        rw [hstep.2 _ a hseen, Option.some.injEq] at hlookup
        rw [← hlookup, ← UInt64.toNat_inj, UInt64.toNat_add, UInt64.toNat_ofNat']
        have := n.toNat_lt
        simp
        omega
      rw [hsame] at hlength hminimal ⊢
      exact ⟨(hminimal.eq_of_length hn.2 hlength.symm).symm, hstep⟩

theorem Ahead.putTxn (h : Ahead positions seen) {t : Transaction} (hw : TxnDerives seen w t seen') :
    Saves positions seen (putTxn positions t).1 w (putTxn positions t).2 seen' := by
  cases hw with
  | payment hsender hfee hreceiver hamount =>
    have h₁ := h.put hsender
    have h₂ := h₁.ahead.varint hfee
    have h₃ := h₂.ahead.put hreceiver
    have h₄ := h₃.ahead.varint hamount
    simp only [PaymentRollup.putTxn, List.append_assoc]
    exact (h.literal [0]).append (h₁.append (h₂.append (h₃.append h₄)))
  | deposit hreceiver hamount =>
    have h₁ := h.put hreceiver
    exact (h.literal [1]).append (h₁.append (h₁.ahead.varint hamount))
  | @withdrawal _ _ _ _ recipient _ _ _ hsender hfee hamount =>
    have h₁ := h.put hsender
    have h₂ := h₁.ahead.varint hfee
    have h₃ := h₂.ahead.literal recipient.bytes
    simp only [PaymentRollup.putTxn, List.append_assoc]
    exact (h.literal [2]).append (h₁.append (h₂.append (h₃.append (h₃.ahead.varint hamount))))
  | @forcedWithdrawal _ _ recipient _ haddress =>
    have h₁ := h.put haddress
    exact (h.literal [3]).append (h₁.append (h₁.ahead.literal recipient.bytes))

theorem Ahead.putTxns (h : Ahead positions seen) {ts : List Transaction}
    (hw : TxnsDerive seen w ts) :
    ∃ positions' seen', Saves positions seen (putTxns positions ts) w positions' seen' := by
  induction hw generalizing positions with
  | nil => exact ⟨positions, _, h.literal []⟩
  | cons hfirst _ ih =>
    have hsaves := h.putTxn hfirst
    obtain ⟨positions', seen', hrest⟩ := ih hsaves.ahead
    exact ⟨positions', seen', hsaves.append hrest⟩

end Savings

/-- Whatever bytes a batch was accepted from, its encoding is no longer, and bytes that are as
short are its encoding. -/
theorem encode_is_shortest {usize : ℕ} {x : Bytes} {b : Batch} (h : Batch.decode usize x = .ok b) :
    b.encode.length ≤ x.length ∧ (b.encode.length = x.length → x = b.encode) := by
  obtain @⟨c, ws, count, txns, hcount, hlength, htxns⟩ := Batch.derives_of_decode h
  obtain ⟨positions, seen, hsaves⟩ := ahead_nil.putTxns htxns
  have hnumber : UInt64.ofNat txns.length = count := by
    rw [← hlength, UInt64.ofNat_toNat]
  have hall := ((ahead_nil.literal [1]).append (ahead_nil.varint hcount)).append hsaves
  rw [← hnumber, List.append_assoc] at hall
  constructor
  · exact hall.le
  · intro hsame
    exact ((hall.eq inStep_nil hsame).1).symm

section Sample

/-- The zero address is written out twice and referred to as the second. -/
def sampleWasteful : Bytes :=
  [1, 3, 1, 0] ++ zeroAddress.bytes ++ [5, 1, 0] ++ zeroAddress.bytes ++ [6, 1, 2, 7]

theorem sampleWasteful_longer :
    let b : Batch := ⟨[.deposit ⟨zeroAddress, 5⟩, .deposit ⟨zeroAddress, 6⟩, .deposit ⟨zeroAddress, 7⟩]⟩
    b.encode.length ≤ sampleWasteful.length ∧
      (b.encode.length = sampleWasteful.length → sampleWasteful = b.encode) := by
  intro b
  have hdecode : Batch.decode (2 ^ 32) sampleWasteful = .ok b := by decide +kernel
  exact encode_is_shortest hdecode

end Sample

end PaymentRollup
