import PaymentRollup.Rollup.GuestReplay
import PaymentRollup.Rollup.Readers

/-! # The decoder in the guest never panics

Reader by reader, on whatever bytes are left. What is reserved for is counted first, and a count
passes only if the bytes left could hold that many items.
-/
namespace PaymentRollup
namespace Guest
open Guarded

namespace Reader

theorem lift_ok_bind {α β : Type} (a : α) (f : α → Reader β) : (lift (.ok a) >>= f) = f a := rfl

section Leaves
variable (s : Bytes)

theorem take_run (len : ℕ) :
    (take len).run s = ofResult (((PaymentRollup.Reader.take len).run s).map (Prod.map Subtype.val id)) := by
  by_cases hshort : s.length < len
  · have hpure : (PaymentRollup.Reader.take len).run s = .error .unexpectedEnd := dif_pos hshort
    rw [hpure]
    exact if_pos hshort
  · have hpure : (PaymentRollup.Reader.take len).run s =
        .ok (⟨s.take len, by simp; omega⟩, s.drop len) := dif_neg hshort
    rw [hpure]
    exact (if_neg hshort).trans (splitAt_of_le (not_lt.mp hshort))

theorem take_agrees (len : ℕ) :
    Agrees (take len) (PaymentRollup.Reader.take len >>= fun b => pure b.1) s := by
  unfold Agrees
  rw [take_run, StateT.run_bind]
  cases (PaymentRollup.Reader.take len).run s <;> rfl

theorem array_agrees (size : ℕ) : Agrees (array size) (PaymentRollup.Reader.take size) s := by
  unfold Agrees array
  rw [StateT.run_bind, take_run]
  cases (PaymentRollup.Reader.take size).run s with
  | error e => rfl
  | ok p =>
    obtain ⟨⟨b, hsize⟩, rest⟩ := p
    have harray := @toArray_of_length DecodeError _ b size hsize
    change (toArray size b >>= _) = _
    rw [harray]
    rfl

theorem byte_agrees : Agrees byte PaymentRollup.Reader.byte s := by
  cases s with
  | nil => rfl
  | cons b rest => rfl

theorem word_agrees : Agrees word PaymentRollup.Reader.word s :=
  (array_agrees s 32).bind fun _ t _ => .pure _ t

theorem fail_agrees {α : Type} (e : DecodeError) :
    Agrees (fail e : Reader α) (PaymentRollup.Reader.fail e) s := rfl

theorem expectVersion_agrees (version : UInt8) :
    Agrees (expectVersion version) (PaymentRollup.Reader.expectVersion version) s := by
  refine (byte_agrees s).bind fun found t _ => ?_
  split_ifs
  · exact .pure _ t
  · exact fail_agrees t _

theorem finish_agrees : Agrees finish PaymentRollup.Reader.finish s := by
  cases s with
  | nil => rfl
  | cons b rest => rfl

end Leaves

section Numbers
variable (s : Bytes)

/-- One turn, on a byte. The shifts come after the check that bounds them. -/
theorem varintLoop_turn (turns : ℕ) (value : UInt64) (shift : ℕ) (b : UInt8) :
    (varintLoop (turns + 1) value shift).run (b :: s) =
      let payload := (b &&& 0x7f).toUInt64
      if 64 ≤ shift ∨ 0xffffffffffffffff >>> UInt64.ofNat shift < payload then
        .error (.error .malformedVarint)
      else
        let value := value ||| payload <<< UInt64.ofNat shift
        if b &&& 0x80 = 0 then .ok (value, s) else (varintLoop turns value (shift + 7)).run s := by
  have hbyte : byte.run (b :: s) = .ok (b, s) := rfl
  rw [varintLoop, StateT.run_bind, hbyte, ok_bind]
  by_cases hfar : 64 ≤ shift
  · simp only [hfar, ↓reduceIte, true_or]
    rfl
  · have hmost := @shr64_of_lt DecodeError shift 0xffffffffffffffff (not_le.mp hfar)
    have hbits := @shl64_of_lt DecodeError shift (b &&& 0x7f).toUInt64 (not_le.mp hfar)
    have hshift := @add_of_lt DecodeError (2 ^ 32) shift 7 (by omega)
    simp only [hfar, ↓reduceIte, false_or, hmost, hbits, hshift, lift_ok_bind]
    split_ifs <;> rfl

/-- Every turn but the last either ends or moves the shift, so there is no turn too many. -/
theorem varintLoop_agrees {turns shift : ℕ} (value : UInt64) (h : 64 ≤ shift + 7 * turns) :
    Agrees (varintLoop (turns + 1) value shift) (PaymentRollup.Reader.varintLoop value shift) s := by
  unfold Agrees
  induction turns generalizing shift value s with
  | zero =>
    cases s with
    | nil => rfl
    | cons b rest =>
      have hfar : 64 ≤ shift := by omega
      rw [varintLoop_turn, if_pos (.inl hfar)]
      change _ = ofResult (PaymentRollup.Reader.varintLoop value shift (b :: rest))
      rw [PaymentRollup.Reader.varintLoop]
      dsimp only
      rw [if_pos (.inl hfar), ofResult_error]
  | succ turns ih =>
    cases s with
    | nil => rfl
    | cons b rest =>
      rw [varintLoop_turn]
      change _ = ofResult (PaymentRollup.Reader.varintLoop value shift (b :: rest))
      rw [PaymentRollup.Reader.varintLoop]
      dsimp only
      split_ifs
      · rfl
      · rfl
      · exact ih rest _ (by omega)

theorem varint_agrees : Agrees varint PaymentRollup.Reader.varint s :=
  varintLoop_agrees s 0 (by decide)

theorem count_agrees {usize : ℕ} (stride : ℕ) :
    Agrees (count usize stride) (PaymentRollup.Reader.count usize stride) s := by
  refine (varint_agrees s).bind fun n t _ => ?_
  split_ifs with hword
  · exact fail_agrees t _
  · refine Agrees.bind rfl fun left t _ => ?_
    split_ifs
    · exact fail_agrees t _
    · exact .pure _ t

variable {s}

theorem withCapacity_agrees {α : Type} {usize n stride : ℕ} {x : Bytes} {f' : Unit → Reader α}
    {f : PaymentRollup.Reader α} (hn : (PaymentRollup.Reader.count usize stride).run x = .ok (n, s))
    (hnext : Agrees (f' ()) f s) : Agrees (withCapacity n stride >>= f') f s := by
  obtain ⟨w, v, -, -, -, -, -, hback⟩ := PaymentRollup.Reader.count_eq_ok.mp hn
  have hcapacity : (withCapacity n stride).run s = .ok ((), s) := if_pos hback
  unfold Agrees
  rw [StateT.run_bind, hcapacity, ok_bind]
  exact hnext

end Numbers

section Records
variable {usize : ℕ} (s : Bytes)

theorem bytes_agrees : Agrees (bytes usize) (PaymentRollup.Reader.bytes usize) s :=
  (count_agrees s 1).bind fun len t _ => take_agrees t len

theorem account_agrees (husize : 2 ^ 16 ≤ usize) :
    Agrees (account usize) PaymentRollup.Reader.account s := by
  refine (array_agrees s Account.encodedSize).bind fun b t _ => ?_
  rw [decodeAccount_eq husize]
  rfl

theorem address_agrees (seen : List Address) :
    Agrees (address usize seen) (PaymentRollup.Reader.address usize seen) s := by
  refine (varint_agrees s).bind fun reference t _ => ?_
  split_ifs with hnew
  · exact (word_agrees t).bind fun address t _ => .pure _ t
  · -- A reference other than zero is at least one.
    have hone : (1 : UInt64) ≤ reference := by
      rw [UInt64.le_iff_toNat_le]
      have hne : reference.toNat ≠ 0 := fun h => hnew (UInt64.toNat_inj.mp h)
      exact Nat.one_le_iff_ne_zero.mpr hne
    rw [sub64_of_le hone, lift_ok_bind]
    dsimp only
    cases if (reference - 1).toNat < usize then seen[(reference - 1).toNat]? else none with
    | none => exact fail_agrees t _
    | some address => exact .pure _ t

theorem txn_agrees (seen : List Address) :
    Agrees (txn usize seen) (PaymentRollup.Reader.txn usize seen) s := by
  refine (byte_agrees s).bind fun kind t _ => ?_
  split_ifs
  · refine (address_agrees t seen).bind fun sender t _ => (varint_agrees t).bind fun fee t _ => ?_
    refine (address_agrees t sender.2).bind fun receiver t _ => ?_
    exact (varint_agrees t).bind fun amount t _ => .pure _ t
  · refine (address_agrees t seen).bind fun receiver t _ => ?_
    exact (varint_agrees t).bind fun amount t _ => .pure _ t
  · refine (address_agrees t seen).bind fun sender t _ => (varint_agrees t).bind fun fee t _ => ?_
    refine (word_agrees t).bind fun recipient t _ => ?_
    exact (varint_agrees t).bind fun amount t _ => .pure _ t
  · refine (address_agrees t seen).bind fun address t _ => ?_
    exact (word_agrees t).bind fun recipient t _ => .pure _ t
  · exact fail_agrees t _

theorem txns_agrees (n : ℕ) (seen : List Address) :
    Agrees (txns usize n seen) (PaymentRollup.Reader.txns usize n seen) s := by
  induction n generalizing seen s with
  | zero => exact .pure _ s
  | succ n ih =>
    refine (txn_agrees s seen).bind fun first t _ => ?_
    exact (ih t first.2).bind fun rest t _ => .pure _ t

theorem optionalAccount_agrees (husize : 2 ^ 16 ≤ usize) :
    Agrees (optionalAccount usize) PaymentRollup.Reader.optionalAccount s := by
  refine (byte_agrees s).bind fun tag t _ => ?_
  split_ifs
  · exact .pure _ t
  · exact (account_agrees t husize).bind fun account t _ => .pure _ t
  · exact fail_agrees t _

theorem signature_agrees : Agrees (signature usize) (PaymentRollup.Reader.signature usize) s := by
  refine (array_agrees s 3).bind fun identifier t _ => ?_
  cases Scheme.fromIdentifier identifier.1 with
  | none => exact fail_agrees t _
  | some scheme =>
    refine (bytes_agrees t).bind fun pubKey t _ => ?_
    exact (bytes_agrees t).bind fun sig t _ => .pure _ t

theorem words_agrees (n : ℕ) : Agrees (words n) (PaymentRollup.Reader.words n) s := by
  induction n generalizing s with
  | zero => exact .pure _ s
  | succ n ih => exact (word_agrees s).bind fun first t _ => (ih t).bind fun rest t _ => .pure _ t

theorem slot_agrees (husize : 2 ^ 16 ≤ usize) :
    Agrees (slot usize) PaymentRollup.Reader.slot s := by
  refine (byte_agrees s).bind fun kind t _ => ?_
  split_ifs
  · exact .pure _ t
  · refine (word_agrees t).bind fun address t _ => ?_
    exact (account_agrees t husize).bind fun account t _ => .pure _ t
  · exact fail_agrees t _

theorem witness_agrees (husize : 2 ^ 16 ≤ usize) :
    Agrees (witness usize) (PaymentRollup.Reader.witness usize) s := by
  refine (optionalAccount_agrees s husize).bind fun old t _ => ?_
  refine (count_agrees t 32).bind fun depth t hdepth => ?_
  split_ifs
  · exact fail_agrees t _
  · refine withCapacity_agrees hdepth ((words_agrees t depth).bind fun siblings t _ => ?_)
    exact (slot_agrees t husize).bind fun slot t _ => .pure _ t

theorem feeSinkWitness_agrees (husize : 2 ^ 16 ≤ usize) (fee : UInt64) :
    Agrees (feeSinkWitness usize fee) (PaymentRollup.Reader.feeSinkWitness usize fee) s := by
  unfold feeSinkWitness PaymentRollup.Reader.feeSinkWitness
  split_ifs
  · exact (witness_agrees s husize).bind fun witness t _ => .pure _ t
  · exact .pure _ s

theorem entry_agrees (husize : 2 ^ 16 ≤ usize) (txn : Transaction) :
    Agrees (entry usize txn) (PaymentRollup.Reader.entry usize txn) s := by
  cases txn with
  | payment payment =>
    refine (signature_agrees s).bind fun sig t _ => ?_
    refine (witness_agrees t husize).bind fun sender t _ => ?_
    refine (witness_agrees t husize).bind fun receiver t _ => ?_
    exact (feeSinkWitness_agrees t husize _).bind fun sink t _ => .pure _ t
  | deposit deposit => exact (witness_agrees s husize).bind fun receiver t _ => .pure _ t
  | withdrawal withdrawal =>
    refine (signature_agrees s).bind fun sig t _ => ?_
    refine (witness_agrees t husize).bind fun sender t _ => ?_
    exact (feeSinkWitness_agrees t husize _).bind fun sink t _ => .pure _ t
  | forcedWithdrawal forced => exact (witness_agrees s husize).bind fun sender t _ => .pure _ t

theorem entries_agrees (husize : 2 ^ 16 ≤ usize) (txns : List Transaction) :
    Agrees (entries usize txns) (PaymentRollup.Reader.entries usize txns) s := by
  induction txns generalizing s with
  | nil => exact .pure _ s
  | cons txn txns ih =>
    exact (entry_agrees s husize txn).bind fun first t _ => (ih t).bind fun later t _ => .pure _ t

end Records

end Reader

theorem decodeBatch_eq (usize : ℕ) (bytes : Bytes) :
    decodeBatch usize bytes = ofResult (Batch.decode usize bytes) := by
  refine bind_eq ?_ fun _ _ => rfl
  refine (Reader.expectVersion_agrees bytes _).bind fun _ t _ => ?_
  refine (Reader.count_agrees t _).bind fun n t hn => ?_
  refine Reader.withCapacity_agrees hn ((Reader.txns_agrees t n []).bind fun txns t _ => ?_)
  exact (Reader.finish_agrees t).bind fun _ t _ => .pure _ t

theorem decodeSidecar_eq {usize : ℕ} (husize : 2 ^ 16 ≤ usize) (bytes : Bytes) (batch : Batch) :
    decodeSidecar usize bytes batch = ofResult (Sidecar.decode usize bytes batch) := by
  refine bind_eq ?_ fun _ _ => rfl
  refine (Reader.expectVersion_agrees bytes _).bind fun _ t _ => ?_
  refine (Reader.count_agrees t _).bind fun n t hn => ?_
  split_ifs
  · exact Reader.fail_agrees t _
  · refine Reader.withCapacity_agrees hn ((Reader.entries_agrees t husize _).bind fun es t _ => ?_)
    exact (Reader.finish_agrees t).bind fun _ t _ => .pure _ t

end Guest

end PaymentRollup
