import PaymentRollup.Rollup.Readers

/-! # The grammar of a batch

What the bytes of a batch may be, as derivations, and that the decoder reads exactly these.
The screens it makes before it reads reject nothing that could have been read, on a machine
whose word holds the length of the input.
-/
namespace PaymentRollup

section Derivations

/-- `address reference`, with the dictionary before and after. -/
inductive AddressRef (seen : List Address) : Bytes → Address → List Address → Prop
  | literal {w : Bytes} {address : Address} (hzero : Varint w 0) :
      AddressRef seen (w ++ address.bytes) address (seen ++ [address])
  | nth {w : Bytes} {n : UInt64} {address : Address} (hn : Varint w n) (hpos : 0 < n.toNat)
      (hseen : seen[n.toNat - 1]? = some address) : AddressRef seen w address seen

inductive TxnDerives (seen : List Address) : Bytes → Transaction → List Address → Prop
  | payment {s f r a : Bytes} {sender receiver : Address} {fee amount : UInt64}
      {seen₁ seen₂ : List Address} (hsender : AddressRef seen s sender seen₁) (hfee : Varint f fee)
      (hreceiver : AddressRef seen₁ r receiver seen₂) (hamount : Varint a amount) :
      TxnDerives seen (0 :: (s ++ (f ++ (r ++ a)))) (.payment ⟨⟨sender, fee⟩, receiver, amount⟩) seen₂
  | deposit {r a : Bytes} {receiver : Address} {amount : UInt64} {seen₁ : List Address}
      (hreceiver : AddressRef seen r receiver seen₁) (hamount : Varint a amount) :
      TxnDerives seen (1 :: (r ++ a)) (.deposit ⟨receiver, amount⟩) seen₁
  | withdrawal {s f a : Bytes} {sender : Address} {recipient : L1Address} {fee amount : UInt64}
      {seen₁ : List Address} (hsender : AddressRef seen s sender seen₁) (hfee : Varint f fee)
      (hamount : Varint a amount) :
      TxnDerives seen (2 :: (s ++ (f ++ (recipient.bytes ++ a))))
        (.withdrawal (.new sender recipient amount fee)) seen₁
  | forcedWithdrawal {s : Bytes} {address : Address} {recipient : L1Address}
      {seen₁ : List Address} (haddress : AddressRef seen s address seen₁) :
      TxnDerives seen (3 :: (s ++ recipient.bytes)) (.forcedWithdrawal ⟨address, recipient⟩) seen₁

inductive TxnsDerive : List Address → Bytes → List Transaction → Prop
  | nil {seen : List Address} : TxnsDerive seen [] []
  | cons {seen seen' : List Address} {w ws : Bytes} {txn : Transaction} {txns : List Transaction}
      (hfirst : TxnDerives seen w txn seen') (hrest : TxnsDerive seen' ws txns) :
      TxnsDerive seen (w ++ ws) (txn :: txns)

/-- The grammar of `Batch::encode`. -/
inductive Batch.Derives : Bytes → Batch → Prop
  | batch {c ws : Bytes} {count : UInt64} {txns : List Transaction} (hcount : Varint c count)
      (hlength : count.toNat = txns.length) (htxns : TxnsDerive [] ws txns) :
      Derives (1 :: (c ++ ws)) ⟨txns⟩

end Derivations

section Lengths

theorem AddressRef.length {seen seen' : List Address} {w : Bytes} {address : Address}
    (h : AddressRef seen w address seen') :
    0 < w.length ∧ seen'.length < seen.length + w.length := by
  cases h with
  | literal hzero =>
    have := address.size
    simp only [List.length_append, List.length_singleton]
    omega
  | nth hn =>
    have := hn.length_pos
    omega

/-- Three bytes a transaction is a true lower bound, whatever the kind and the dictionary. -/
theorem TxnDerives.length {seen seen' : List Address} {w : Bytes} {txn : Transaction}
    (h : TxnDerives seen w txn seen') :
    minEncodedTxnSize ≤ w.length ∧ seen'.length ≤ seen.length + w.length := by
  unfold minEncodedTxnSize
  cases h with
  | payment hsender hfee hreceiver hamount =>
    have := hsender.length
    have := hreceiver.length
    have := hfee.length_pos
    have := hamount.length_pos
    simp only [List.length_cons, List.length_append]
    omega
  | deposit hreceiver hamount =>
    have := hreceiver.length
    have := hamount.length_pos
    simp only [List.length_cons, List.length_append]
    omega
  | withdrawal hsender hfee hamount =>
    have := hsender.length
    have := hfee.length_pos
    have := hamount.length_pos
    simp only [List.length_cons, List.length_append]
    omega
  | @forcedWithdrawal _ _ recipient _ haddress =>
    have := haddress.length
    have := recipient.size
    simp only [List.length_cons, List.length_append]
    omega

theorem TxnsDerive.length {seen : List Address} {w : Bytes} {txns : List Transaction}
    (h : TxnsDerive seen w txns) : txns.length * minEncodedTxnSize ≤ w.length := by
  induction h with
  | nil => simp
  | cons hfirst _ ih =>
    have := hfirst.length.1
    rw [List.length_cons, List.length_append, Nat.succ_mul]
    omega

end Lengths

namespace Reader
variable {α β : Type} {x rest : Bytes}

section Soundness
variable {usize : ℕ} {seen seen' : List Address}

theorem sub_one_toNat {n : UInt64} (h : ¬n = 0) : 0 < n.toNat ∧ (n - 1).toNat = n.toNat - 1 := by
  have hpos : 0 < n.toNat := Nat.pos_of_ne_zero fun hzero => h (UInt64.toNat_inj.mp hzero)
  exact ⟨hpos, UInt64.toNat_sub_of_le _ _ (UInt64.le_iff_toNat_le.mpr hpos)⟩

theorem address_derives {a : Address} (h : (address usize seen).run x = .ok ((a, seen'), rest)) :
    ∃ w, x = w ++ rest ∧ AddressRef seen w a seen' := by
  simp only [address, bind_run_eq_ok, varint_eq_ok] at h
  obtain ⟨n, mid, ⟨w, rfl, hw⟩, h⟩ := h
  split_ifs at h with hzero hindex
  · simp only [bind_run_eq_ok, word_eq_ok, pure_run_eq_ok, Prod.mk.injEq] at h
    obtain ⟨address, tail, rfl, ⟨rfl, rfl⟩, rfl⟩ := h
    refine ⟨w ++ address.bytes, (List.append_assoc ..).symm, .literal ?_⟩
    exact hzero ▸ hw
  · obtain ⟨hpos, hpred⟩ := sub_one_toNat hzero
    rw [hpred] at h
    cases hseen : seen[n.toNat - 1]? with
    | none =>
      rw [hseen] at h
      exact (fail_run_eq_ok.mp h).elim
    | some found =>
      rw [hseen] at h
      obtain ⟨hpair, rfl⟩ := pure_run_eq_ok.mp h
      obtain ⟨rfl, rfl⟩ := Prod.mk.inj hpair
      exact ⟨w, rfl, .nth hw hpos hseen⟩
  · exact (fail_run_eq_ok.mp h).elim

theorem txn_derives {t : Transaction} (h : (txn usize seen).run x = .ok ((t, seen'), rest)) :
    ∃ w, x = w ++ rest ∧ TxnDerives seen w t seen' := by
  simp only [txn, bind_run_eq_ok, byte_eq_ok] at h
  obtain ⟨kind, mid, rfl, h⟩ := h
  split_ifs at h with hpayment hdeposit hwithdrawal hforced
  · simp only [bind_run_eq_ok, Prod.exists, varint_eq_ok, pure_run_eq_ok, Prod.mk.injEq] at h
    obtain ⟨sender, seen₁, _, hread, fee, _, ⟨f, rfl, hfee⟩, receiver, seen₂, _, hread', amount, _,
      ⟨a, rfl, hamount⟩, ⟨rfl, rfl⟩, rfl⟩ := h
    obtain ⟨s, rfl, hsender⟩ := address_derives hread
    obtain ⟨r, rfl, hreceiver⟩ := address_derives hread'
    refine ⟨0 :: (s ++ (f ++ (r ++ a))), ?_, .payment hsender hfee hreceiver hamount⟩
    simp only [hpayment, List.cons_append, List.append_assoc]
    rfl
  · simp only [bind_run_eq_ok, Prod.exists, varint_eq_ok, pure_run_eq_ok, Prod.mk.injEq] at h
    obtain ⟨receiver, seen₁, _, hread, amount, _, ⟨a, rfl, hamount⟩, ⟨rfl, rfl⟩, rfl⟩ := h
    obtain ⟨r, rfl, hreceiver⟩ := address_derives hread
    refine ⟨1 :: (r ++ a), ?_, .deposit hreceiver hamount⟩
    simp only [hdeposit, List.cons_append, List.append_assoc]
    rfl
  · simp only [bind_run_eq_ok, Prod.exists, varint_eq_ok, word_eq_ok, pure_run_eq_ok,
      Prod.mk.injEq] at h
    obtain ⟨sender, seen₁, _, hread, fee, _, ⟨f, rfl, hfee⟩, recipient, _, rfl, amount, _,
      ⟨a, rfl, hamount⟩, ⟨rfl, rfl⟩, rfl⟩ := h
    obtain ⟨s, rfl, hsender⟩ := address_derives hread
    refine ⟨2 :: (s ++ (f ++ (recipient.bytes ++ a))), ?_, .withdrawal hsender hfee hamount⟩
    simp only [hwithdrawal, List.cons_append, List.append_assoc]
    rfl
  · simp only [bind_run_eq_ok, Prod.exists, word_eq_ok, pure_run_eq_ok, Prod.mk.injEq] at h
    obtain ⟨address, seen₁, _, hread, recipient, _, rfl, ⟨rfl, rfl⟩, rfl⟩ := h
    obtain ⟨s, rfl, haddress⟩ := address_derives hread
    refine ⟨3 :: (s ++ recipient.bytes), ?_, .forcedWithdrawal haddress⟩
    simp only [hforced, List.cons_append, List.append_assoc]
    rfl
  · exact (fail_run_eq_ok.mp h).elim

theorem txns_derive {n : ℕ} {ts : List Transaction}
    (h : (txns usize n seen).run x = .ok (ts, rest)) :
    ∃ w, x = w ++ rest ∧ TxnsDerive seen w ts ∧ ts.length = n := by
  induction n generalizing seen x ts with
  | zero =>
    obtain ⟨rfl, rfl⟩ := pure_run_eq_ok.mp h
    exact ⟨[], rfl, .nil, rfl⟩
  | succ n ih =>
    simp only [txns, bind_run_eq_ok, Prod.exists, pure_run_eq_ok] at h
    obtain ⟨t, seen', mid, hfirst, ts, _, hrest, rfl, rfl⟩ := h
    obtain ⟨w, rfl, hderive⟩ := txn_derives hfirst
    obtain ⟨ws, rfl, hderives, rfl⟩ := ih hrest
    exact ⟨w ++ ws, (List.append_assoc ..).symm, .cons hderive hderives, rfl⟩

end Soundness

section Completeness
variable {usize : ℕ} {seen seen' : List Address}

/-- Where the word holds every index there is, the conversion of a reference rejects nothing. -/
theorem index_lookup (hfit : seen.length ≤ usize) (index : ℕ) :
    (if index < usize then seen[index]? else none) = seen[index]? := by
  split_ifs with hindex
  · rfl
  · exact (List.getElem?_eq_none (by omega)).symm

theorem address_run (hfit : seen.length ≤ usize) {w : Bytes} {a : Address}
    (h : AddressRef seen w a seen') (rest : Bytes) :
    (address usize seen).run (w ++ rest) = .ok ((a, seen'), rest) := by
  cases h with
  | literal hzero =>
    simp only [address, List.append_assoc, StateT.run_bind, varint_run hzero, ok_bind, ↓reduceIte,
      run_word]
    rfl
  | @nth _ n _ hn hpos hseen =>
    have hzero : ¬n = 0 := fun h => by simp [h] at hpos
    simp only [address, index_lookup hfit, StateT.run_bind, varint_run hn, ok_bind, hzero,
      ↓reduceIte, (sub_one_toNat hzero).2, hseen]
    rfl

theorem txn_run {w : Bytes} {t : Transaction} (h : TxnDerives seen w t seen')
    (hfit : seen.length + w.length ≤ usize) (rest : Bytes) :
    (txn usize seen).run (w ++ rest) = .ok ((t, seen'), rest) := by
  have hkinds : kindDeposit ≠ kindPayment ∧ kindWithdrawal ≠ kindPayment ∧
      kindWithdrawal ≠ kindDeposit ∧ kindForcedWithdrawal ≠ kindPayment ∧
      kindForcedWithdrawal ≠ kindDeposit ∧ kindForcedWithdrawal ≠ kindWithdrawal := by decide
  cases h with
  | payment hsender hfee hreceiver hamount =>
    have hseen := hsender.length.2
    simp only [List.length_cons, List.length_append] at hfit
    change (txn usize seen).run (kindPayment :: _) = _
    simp only [txn, List.append_eq, List.append_assoc, StateT.run_bind, run_byte, ok_bind,
      ↓reduceIte, address_run (show _ ≤ usize by omega) hsender, varint_run hfee,
      address_run (show _ ≤ usize by omega) hreceiver, varint_run hamount]
    rfl
  | deposit hreceiver hamount =>
    change (txn usize seen).run (kindDeposit :: _) = _
    simp only [txn, List.append_eq, List.append_assoc, StateT.run_bind, run_byte, ok_bind, hkinds,
      ↓reduceIte, address_run (show _ ≤ usize by omega) hreceiver, varint_run hamount]
    rfl
  | withdrawal hsender hfee hamount =>
    change (txn usize seen).run (kindWithdrawal :: _) = _
    simp only [txn, List.append_eq, List.append_assoc, StateT.run_bind, run_byte, ok_bind, hkinds,
      ↓reduceIte, address_run (show _ ≤ usize by omega) hsender, varint_run hfee, run_word,
      varint_run hamount]
    rfl
  | forcedWithdrawal haddress =>
    change (txn usize seen).run (kindForcedWithdrawal :: _) = _
    simp only [txn, List.append_eq, List.append_assoc, StateT.run_bind, run_byte, ok_bind, hkinds,
      ↓reduceIte, address_run (show _ ≤ usize by omega) haddress, run_word]
    rfl

theorem txns_run {w : Bytes} {ts : List Transaction} (h : TxnsDerive seen w ts)
    (hfit : seen.length + w.length ≤ usize) (rest : Bytes) :
    (txns usize ts.length seen).run (w ++ rest) = .ok (ts, rest) := by
  induction h with
  | nil => rfl
  | cons hfirst _ ih =>
    have hseen := hfirst.length.2
    rw [List.length_append] at hfit
    simp only [txns, List.length_cons, List.append_assoc, StateT.run_bind,
      txn_run hfirst (show _ ≤ usize by omega), ok_bind, ih (by omega)]
    rfl

end Completeness

section WordSizes
variable {usize usize' : ℕ} {seen : List Address}

theorem bind_run_congr {r r' : Reader α} {f f' : α → Reader β} (h : r.run x = r'.run x)
    (hnext : ∀ a rest, r.run x = .ok (a, rest) → (f a).run rest = (f' a).run rest) :
    (r >>= f).run x = (r' >>= f').run x := by
  rw [StateT.run_bind, StateT.run_bind, ← h]
  cases hrun : r.run x with
  | error e => rfl
  | ok p => exact hnext p.1 p.2 hrun

/-- A count the word cannot hold is one the input could not back. -/
theorem count_congr {stride : ℕ} (hstride : 0 < stride) (hx : x.length < usize)
    (hx' : x.length < usize') : (count usize stride).run x = (count usize' stride).run x := by
  refine bind_run_congr rfl fun n rest hn => ?_
  obtain ⟨w, rfl, -⟩ := varint_eq_ok.mp hn
  rw [List.length_append] at hx hx'
  have hle : n.toNat ≤ n.toNat * stride := Nat.le_mul_of_pos_right _ hstride
  by_cases hback : rest.length < n.toNat * stride
  · have hfails : ∀ usize : ℕ, StateT.run (if usize ≤ n.toNat then (fail .implausibleLength : Reader ℕ)
        else do
          let remaining ← remaining
          if usize ≤ n.toNat * stride ∨ remaining < n.toNat * stride then fail .implausibleLength
          else pure n.toNat) rest = .error .implausibleLength := by
      intro usize
      split_ifs
      · rfl
      · simp only [StateT.run_bind, run_remaining, ok_bind, hback, or_true, ↓reduceIte]
        rfl
    exact (hfails usize).trans (hfails usize').symm
  · have hword : ¬usize ≤ n.toNat ∧ ¬usize ≤ n.toNat * stride := by omega
    have hword' : ¬usize' ≤ n.toNat ∧ ¬usize' ≤ n.toNat * stride := by omega
    simp only [hword, hword', ↓reduceIte]

theorem address_congr (hfit : seen.length ≤ usize) (hfit' : seen.length ≤ usize') :
    address usize seen = address usize' seen := by
  simp only [address, index_lookup hfit, index_lookup hfit']

theorem txn_congr (hfit : seen.length + x.length ≤ usize) (hfit' : seen.length + x.length ≤ usize') :
    (txn usize seen).run x = (txn usize' seen).run x := by
  refine bind_run_congr rfl fun kind mid hkind => ?_
  obtain rfl := byte_eq_ok.mp hkind
  rw [List.length_cons] at hfit hfit'
  rw [address_congr (by omega : seen.length ≤ usize) (by omega : seen.length ≤ usize')]
  split_ifs with hpayment
  · refine bind_run_congr rfl fun p rest hp => bind_run_congr rfl fun fee tail hfee => ?_
    obtain ⟨w, rfl, hw⟩ := address_derives hp
    obtain ⟨f, rfl, -⟩ := varint_eq_ok.mp hfee
    have hseen := hw.length.2
    simp only [List.length_append] at hfit hfit'
    rw [address_congr (by omega : p.2.length ≤ usize) (by omega : p.2.length ≤ usize')]
  all_goals rfl

theorem txns_congr {n : ℕ} (hfit : seen.length + x.length ≤ usize)
    (hfit' : seen.length + x.length ≤ usize') :
    (txns usize n seen).run x = (txns usize' n seen).run x := by
  induction n generalizing seen x with
  | zero => rfl
  | succ n ih =>
    refine bind_run_congr (txn_congr hfit hfit') fun p rest hp => ?_
    obtain ⟨w, rfl, hw⟩ := txn_derives hp
    have hseen := hw.length.2
    rw [List.length_append] at hfit hfit'
    exact bind_run_congr (ih (by omega) (by omega)) fun _ _ _ => rfl

end WordSizes

end Reader

section Decoding
variable {usize usize' : ℕ} {x : Bytes}

theorem Batch.decode_eq_ok_iff {b : Batch} : Batch.decode usize x = .ok b ↔ ∃ rest,
    StateT.run (do
      Reader.expectVersion batchVersion
      let count ← Reader.count usize minEncodedTxnSize
      let txns ← Reader.txns usize count []
      Reader.finish
      pure (⟨txns⟩ : Batch)) x = .ok (b, rest) := by
  unfold Batch.decode
  change (StateT.run _ _ >>= _) = _ ↔ _
  simp only [bind_eq_ok, Prod.exists, Except.ok.injEq]
  constructor
  · rintro ⟨b, rest, hrun, rfl⟩
    exact ⟨rest, hrun⟩
  · rintro ⟨rest, hrun⟩
    exact ⟨b, rest, hrun, rfl⟩

/-- Whatever the word size, what is accepted derives what it is accepted as. -/
theorem Batch.derives_of_decode {b : Batch} (h : Batch.decode usize x = .ok b) :
    Batch.Derives x b := by
  rw [Batch.decode_eq_ok_iff] at h
  simp only [Reader.bind_run_eq_ok, Reader.expectVersion_eq_ok, Reader.count_eq_ok,
    Reader.finish_eq_ok, Reader.pure_run_eq_ok] at h
  obtain ⟨rest, _, _, rfl, n, _, ⟨c, count, rfl, hcount, rfl, -⟩, txns, _, hread, _, _, ⟨rfl, rfl⟩,
    rfl, rfl⟩ := h
  obtain ⟨w, rfl, hderive, hlength⟩ := Reader.txns_derive hread
  rw [List.append_nil]
  exact .batch hcount hlength.symm hderive

/-- On a machine whose word holds the length of a derivation it is accepted. -/
theorem Batch.Derives.decode {b : Batch} (h : Batch.Derives x b) (hfit : x.length < usize) :
    Batch.decode usize x = .ok b := by
  rw [Batch.decode_eq_ok_iff]
  simp only [Reader.bind_run_eq_ok, Reader.expectVersion_eq_ok, Reader.count_eq_ok,
    Reader.finish_eq_ok, Reader.pure_run_eq_ok]
  cases h with
  | @batch c ws count txns hcount hlength htxns =>
    have hback := htxns.length
    have hcounted : txns.length ≤ txns.length * minEncodedTxnSize :=
      Nat.le_mul_of_pos_right _ (by decide)
    simp only [List.length_cons, List.length_append] at hfit
    have hread := Reader.txns_run htxns (show _ ≤ usize by simp; omega) []
    rw [List.append_nil] at hread
    refine ⟨[], (), c ++ ws, rfl, txns.length, ws, ⟨c, count, rfl, hcount, hlength, ?_, ?_, hback⟩,
      txns, [], hread, (), [], ⟨rfl, rfl⟩, rfl, rfl⟩
    · omega
    · omega

/-- Machines whose words hold the length of the input decode it alike, errors included. -/
theorem Batch.decode_congr (hx : x.length < usize) (hx' : x.length < usize') :
    Batch.decode usize x = Batch.decode usize' x := by
  unfold Batch.decode
  change (StateT.run _ _ >>= _) = (StateT.run _ _ >>= _)
  refine congrArg (· >>= _) ?_
  refine Reader.bind_run_congr rfl fun _ rest hversion => ?_
  obtain rfl := Reader.expectVersion_eq_ok.mp hversion
  rw [List.length_cons] at hx hx'
  refine Reader.bind_run_congr (Reader.count_congr (by decide) (by omega) (by omega)) fun n tail hn => ?_
  obtain ⟨w, v, rfl, -⟩ := Reader.count_eq_ok.mp hn
  rw [List.length_append] at hx hx'
  exact Reader.bind_run_congr (Reader.txns_congr (by simp; omega) (by simp; omega)) fun _ _ _ => rfl

end Decoding

/-- A 32-bit guest and a 64-bit node read from a string of less than four gigabytes what its
derivation in the grammar says, and refuse it with the same error if it has none. -/
theorem decoder_is_the_grammar {x : Bytes} (hx : x.length < 2 ^ 32) :
    (∀ b, Batch.decode (2 ^ 32) x = .ok b ↔ Batch.Derives x b) ∧
    (∀ b, Batch.decode (2 ^ 64) x = .ok b ↔ Batch.Derives x b) ∧
    Batch.decode (2 ^ 32) x = Batch.decode (2 ^ 64) x := by
  have hx' : x.length < 2 ^ 64 := hx.trans (by decide)
  refine ⟨?_, ?_, ?_⟩
  · intro b
    exact ⟨Batch.derives_of_decode, fun h => h.decode hx⟩
  · intro b
    exact ⟨Batch.derives_of_decode, fun h => h.decode hx'⟩
  · exact Batch.decode_congr hx hx'

section Sample

/-- One deposit to the zero address, its count and the amount padded. -/
theorem sample_derives : Batch.Derives
      ([1, 0x81, 0, 1, 0] ++ zeroAddress.bytes ++ [0x85, 0x80, 0]) ⟨[.deposit ⟨zeroAddress, 5⟩]⟩ ∧
    Batch.decode (2 ^ 32) ([1, 0x81, 0, 1, 0] ++ zeroAddress.bytes ++ [0x85, 0x80, 0]) =
      Batch.decode (2 ^ 64) ([1, 0x81, 0, 1, 0] ++ zeroAddress.bytes ++ [0x85, 0x80, 0]) := by
  obtain ⟨hguest, -, hsame⟩ := @decoder_is_the_grammar
    ([1, 0x81, 0, 1, 0] ++ zeroAddress.bytes ++ [0x85, 0x80, 0]) (by decide)
  exact ⟨(hguest _).mp (by decide +kernel), hsame⟩

end Sample

end PaymentRollup
