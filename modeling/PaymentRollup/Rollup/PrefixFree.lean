import PaymentRollup.Lib.Locality
import PaymentRollup.Rollup.Readers

/-! # The wire formats are prefix-free

Every reader up to the test for the end of the input is local: the counts compare what they
announce with what is left, and more may be left. So nothing can be put behind the bytes of a
batch, and nothing cut off them.
-/
namespace PaymentRollup
open Locality

namespace Reader
variable (usize : ℕ)

section Primitives

theorem local_fail {α : Type} (e : DecodeError) : Local (fail e : Reader α) :=
  Local.of_fails fun _ => ⟨e, rfl⟩

theorem local_take (len : ℕ) : Local (take len) := by
  intro x b rest h y
  rw [take_eq_ok] at h ⊢
  rw [h, List.append_assoc]

theorem local_byte : Local byte :=
  (local_take 1).bind fun _ => .pure _

theorem local_word : Local word := by
  intro x w rest h y
  rw [word_eq_ok] at h ⊢
  rw [h, List.append_assoc]

theorem local_account : Local account :=
  (local_take _).bind fun _ => .pure _

theorem local_varint : Local varint := by
  intro x v rest h y
  obtain ⟨w, rfl, hw⟩ := varint_eq_ok.mp h
  rw [List.append_assoc]
  exact varint_run hw (rest ++ y)

/-- What is left backs the count, and with more behind it still does. -/
theorem local_count (stride : ℕ) : Local (count usize stride) := by
  intro x n rest h y
  obtain ⟨w, v, rfl, hw, hv, hword, hproduct, hback⟩ := count_eq_ok.mp h
  rw [List.append_assoc]
  have hback' : n * stride ≤ (rest ++ y).length := by
    rw [List.length_append]
    omega
  exact count_eq_ok.mpr ⟨w, v, rfl, hw, hv, hword, hproduct, hback'⟩

theorem local_bytes : Local (bytes usize) :=
  (local_count usize 1).bind fun len => (local_take len).bind fun _ => .pure _

theorem local_expectVersion (version : UInt8) : Local (expectVersion version) :=
  local_byte.bind fun _ => .ite (.pure _) (local_fail _)

theorem closed_finish : Closed DecodeError.trailingBytes finish := by
  intro x u rest h y hy
  obtain ⟨rfl, rfl⟩ := finish_eq_ok.mp h
  simp only [finish, StateT.run, List.nil_append, hy, ↓reduceIte]

end Primitives

section Batches

theorem local_address (seen : List Address) : Local (address usize seen) := by
  apply local_varint.bind
  intro reference
  apply Local.ite
  · exact local_word.bind fun _ => .pure _
  · dsimp only
    split
    · exact .pure _
    · exact local_fail _

theorem local_txn (seen : List Address) : Local (txn usize seen) := by
  apply local_byte.bind
  intro kind
  apply Local.ite
  · apply (local_address usize seen).bind
    rintro ⟨sender, seen⟩
    apply local_varint.bind
    intro fee
    apply (local_address usize seen).bind
    rintro ⟨receiver, seen⟩
    exact local_varint.bind fun _ => .pure _
  apply Local.ite
  · apply (local_address usize seen).bind
    rintro ⟨receiver, seen⟩
    exact local_varint.bind fun _ => .pure _
  apply Local.ite
  · apply (local_address usize seen).bind
    rintro ⟨sender, seen⟩
    apply local_varint.bind
    intro fee
    apply local_word.bind
    intro recipient
    exact local_varint.bind fun _ => .pure _
  apply Local.ite
  · apply (local_address usize seen).bind
    rintro ⟨address, seen⟩
    exact local_word.bind fun _ => .pure _
  · exact local_fail _

/-- By induction on the number of transactions, each from the dictionary the one before left. -/
theorem local_txns (count : ℕ) (seen : List Address) : Local (txns usize count seen) := by
  induction count generalizing seen with
  | zero => exact .pure _
  | succ count ih =>
    apply (local_txn usize seen).bind
    rintro ⟨txn, seen⟩
    exact (ih seen).bind fun _ => .pure _

end Batches

section Sidecars

theorem local_optionalAccount : Local optionalAccount :=
  local_byte.bind fun _ =>
    .ite (.pure _) (.ite (local_account.bind fun _ => .pure _) (local_fail _))

theorem local_signature : Local (signature usize) := by
  apply (local_take 3).bind
  intro identifier
  split
  · exact local_fail _
  · exact (local_bytes usize).bind fun _ => (local_bytes usize).bind fun _ => .pure _

theorem local_words (count : ℕ) : Local (words count) := by
  induction count with
  | zero => exact .pure _
  | succ count ih => exact local_word.bind fun _ => ih.bind fun _ => .pure _

theorem local_slot : Local slot :=
  local_byte.bind fun _ => .ite (.pure _) <|
    .ite (local_word.bind fun _ => local_account.bind fun _ => .pure _) (local_fail _)

theorem local_witness : Local (witness usize) := by
  apply local_optionalAccount.bind
  intro oldAccount
  apply (local_count usize 32).bind
  intro depth
  apply Local.ite
  · exact local_fail _
  · exact (local_words depth).bind fun _ => local_slot.bind fun _ => .pure _

theorem local_feeSinkWitness (fee : UInt64) : Local (feeSinkWitness usize fee) :=
  .ite ((local_witness usize).bind fun _ => .pure _) (.pure _)

theorem local_entry (txn : Transaction) : Local (entry usize txn) := by
  have hwitness := local_witness usize
  cases txn with
  | payment payment =>
    apply (local_signature usize).bind
    intro sig
    apply hwitness.bind
    intro senderWitness
    apply hwitness.bind
    intro receiverWitness
    exact (local_feeSinkWitness usize payment.header.fee).bind fun _ => .pure _
  | deposit deposit => exact hwitness.bind fun _ => .pure _
  | withdrawal withdrawal =>
    apply (local_signature usize).bind
    intro sig
    apply hwitness.bind
    intro senderWitness
    exact (local_feeSinkWitness usize withdrawal.header.fee).bind fun _ => .pure _
  | forcedWithdrawal forced => exact hwitness.bind fun _ => .pure _

theorem local_entries (txns : List Transaction) : Local (entries usize txns) := by
  induction txns with
  | nil => exact .pure _
  | cons txn rest ih => exact (local_entry usize txn).bind fun _ => ih.bind fun _ => .pure _

end Sidecars

end Reader

section Decoders
open Reader
variable (usize : ℕ)

theorem Batch.decode_prefixFree : PrefixFree DecodeError.trailingBytes (Batch.decode usize) := by
  have hread : Closed DecodeError.trailingBytes (do
      expectVersion batchVersion
      let count ← count usize minEncodedTxnSize
      let txns ← Reader.txns usize count []
      finish
      pure (⟨txns⟩ : Batch)) := by
    apply (local_expectVersion batchVersion).bind_closed
    intro _
    apply (local_count usize minEncodedTxnSize).bind_closed
    intro n
    apply (local_txns usize n []).bind_closed
    intro txns
    exact closed_finish.bind
  apply @Closed.prefixFree _ _ _ _ _ _ _ id hread
  intro x
  rfl

theorem Sidecar.decode_prefixFree (batch : Batch) :
    PrefixFree DecodeError.trailingBytes fun x => Sidecar.decode usize x batch := by
  have hread : Closed DecodeError.trailingBytes (do
      expectVersion sidecarVersion
      let found ← count usize minEncodedEntrySize
      if found ≠ batch.txns.length then
        fail (.sidecarLengthMismatch batch.txns.length found)
      else
        let entries ← Reader.entries usize batch.txns
        finish
        pure (⟨entries⟩ : Sidecar)) := by
    apply (local_expectVersion sidecarVersion).bind_closed
    intro _
    apply (local_count usize minEncodedEntrySize).bind_closed
    intro n
    apply Closed.ite
    · exact .of_fails fun _ => ⟨_, rfl⟩
    · apply (local_entries usize batch.txns).bind_closed
      intro entries
      exact closed_finish.bind
  apply @Closed.prefixFree _ _ _ _ _ _ _ id hread
  intro x
  rfl

end Decoders

/-- Nothing that is accepted is the front of anything else that is, and any byte behind it is
refused as trailing: for a batch, and for a sidecar against any one batch. -/
theorem wire_formats_prefixFree (usize : ℕ) :
    PrefixFree DecodeError.trailingBytes (Batch.decode usize) ∧
    ∀ batch, PrefixFree DecodeError.trailingBytes fun x => Sidecar.decode usize x batch :=
  ⟨Batch.decode_prefixFree usize, Sidecar.decode_prefixFree usize⟩

end PaymentRollup
