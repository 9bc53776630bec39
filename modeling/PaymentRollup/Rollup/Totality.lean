import PaymentRollup.Rollup.Errors
import PaymentRollup.Rollup.GuestDecoder
import PaymentRollup.Rollup.RoundTrips

/-! # The guest is total

Whatever bytes it is handed, the guest returns what `execute` does. What it then says of a block
that does not verify is something the wire can express: the shapes of the two halves are settled
where the sidecar is decoded.
-/
namespace PaymentRollup
open Guarded

section Errors
variable [Crypto]

/-- What a block from the wire can be refused for. -/
def wireErrors : List VerificationError := .withdrawalTooSmall :: (debitErrors ++ creditErrors)

theorem verifyTxn_errors (domain : DeploymentDomain) (r : Replaying) {txn : Transaction}
    {entry : TxnSidecar} (h : Reader.Aligned txn entry) :
    FailsWith (· ∈ wireErrors) (verifyTxn domain r (txn, entry)) := by
  cases txn with
  | payment payment =>
    cases entry with
    | payment entry =>
      refine ((debit_errors _ _ _ _ _ _ _).mono (by decide)).bind fun root _ => ?_
      refine ((credit_errors _ _ _ _).mono (by decide)).bind fun root _ => ?_
      exact ((creditFee_errors h.1 root).mono (by decide)).bind fun root _ => .ok _
    | _ => exact h.elim
  | deposit deposit =>
    cases entry with
    | deposit entry =>
      exact ((credit_errors _ _ _ _).mono (by decide)).bind fun root _ => .ok _
    | _ => exact h.elim
  | withdrawal withdrawal =>
    cases entry with
    | withdrawal entry =>
      refine (FailsWith.require (by decide)).bind fun _ _ => ?_
      refine ((debit_errors _ _ _ _ _ _ _).mono (by decide)).bind fun root _ => ?_
      exact ((creditFee_errors h.1 root).mono (by decide)).bind fun root _ => .ok _
    | _ => exact h.elim
  | forcedWithdrawal forced =>
    cases entry with
    | forcedWithdrawal entry =>
      refine ((expectPreState_errors _ _ _).mono (by decide)).bind fun _ _ => ?_
      dsimp only
      split_ifs
      · refine (FailsWith.demand (by decide)).bind fun held _ => ?_
        refine ((Account.bumpNonce_errors _).mono (by decide)).bind fun account _ => ?_
        exact ((rootWith_errors _ _ _).mono (by decide)).bind fun root _ => .ok _
      · exact .ok _
    | _ => exact h.elim

theorem verifyBatch_errors (domain : DeploymentDomain) (oldRoot inboxAnchor : Word)
    {batch : Batch} {sidecar : Sidecar} (h : List.Forall₂ Reader.Aligned batch.txns sidecar.entries) :
    FailsWith (· ∈ wireErrors) (verifyBatch domain oldRoot inboxAnchor batch sidecar) := by
  have hlength : require (batch.txns.length = sidecar.entries.length)
      VerificationError.sidecarLengthMismatch = .ok () := require_eq_ok.mpr h.length_eq
  rw [verifyBatch, hlength, ok_bind]
  refine (FailsWith.foldlM _ fun r pair hpair => ?_).bind fun r _ => .ok _
  exact verifyTxn_errors domain r ((List.forall₂_iff_zip.mp h).2 hpair)

/-- A sidecar that decodes fits its batch, so what it is refused for is something in its bytes. -/
theorem execute_errors (usize : ℕ) (domain : DeploymentDomain) (oldRoot inboxAnchor : Word)
    (batchBytes sidecarBytes : Bytes) :
    FailsWith (fun error => ∀ e, error = .verification e → e ∈ wireErrors)
      (execute usize domain oldRoot inboxAnchor batchBytes sidecarBytes) := by
  have hdecode : ∀ e : DecodeError, ∀ e', ExecutionError.decode e = .verification e' →
      e' ∈ wireErrors := by
    rintro e e' ⟨⟩
  refine (FailsWith.mapError fun e _ => hdecode e).bind fun batch _ => ?_
  refine (FailsWith.mapError fun e _ => hdecode e).bind fun sidecar hsidecar => ?_
  have haligned := Sidecar.aligned_of_decode (mapError_eq_ok.mp hsidecar)
  refine (FailsWith.mapError fun e he => ?_).bind fun outcome _ => .ok _
  rintro _ ⟨⟩
  exact verifyBatch_errors domain oldRoot inboxAnchor haligned e he

end Errors

section Runs
variable [Crypto]

theorem Guest.execute_eq {usize : ℕ} (husize : 2 ^ 16 ≤ usize) (domain : DeploymentDomain)
    (oldRoot inboxAnchor : Word) (batchBytes sidecarBytes : Bytes) :
    Guest.execute usize domain oldRoot inboxAnchor batchBytes sidecarBytes =
      ofResult (PaymentRollup.execute usize domain oldRoot inboxAnchor batchBytes sidecarBytes) := by
  have hbatch := Guest.decodeBatch_eq usize batchBytes
  refine bind_eq (mapError_eq hbatch) fun batch _ => ?_
  have hsidecar := Guest.decodeSidecar_eq husize sidecarBytes batch
  refine bind_eq (mapError_eq hsidecar) fun sidecar _ => ?_
  have hverify := Guest.verifyBatch_eq husize domain oldRoot inboxAnchor batch sidecar
  refine bind_eq (mapError_eq hverify) fun outcome _ => ?_
  exact Guest.publicValues_eq _ _ _ _ _ _ _

/-- Whatever the bytes, nothing panics, and a block that is refused is refused for something they
can express. No machine that Rust runs on has a word of fewer than 16 bits. -/
theorem guest_is_total {usize : ℕ} (husize : 2 ^ 16 ≤ usize) (domain : DeploymentDomain)
    (oldRoot inboxAnchor : Word) (batchBytes sidecarBytes : Bytes) :
    Guest.execute usize domain oldRoot inboxAnchor batchBytes sidecarBytes =
      ofResult (execute usize domain oldRoot inboxAnchor batchBytes sidecarBytes) ∧
    (∀ p, Guest.execute usize domain oldRoot inboxAnchor batchBytes sidecarBytes ≠
      .error (.panic p)) ∧
    ∀ e, Guest.execute usize domain oldRoot inboxAnchor batchBytes sidecarBytes =
        .error (.error (.verification e)) →
      e ≠ .sidecarLengthMismatch ∧ e ≠ .sidecarKindMismatch ∧ e ≠ .rootMismatch := by
  have heq := Guest.execute_eq husize domain oldRoot inboxAnchor batchBytes sidecarBytes
  refine ⟨heq, fun p => ?_, fun e he => ?_⟩
  · rw [heq]
    exact ofResult_ne_panic
  · rw [heq, ofResult_eq_error] at he
    have hwire : e ∈ wireErrors := execute_errors _ _ _ _ _ _ _ he e rfl
    have hnone : ∀ e ∈ wireErrors,
        e ≠ .sidecarLengthMismatch ∧ e ≠ .sidecarKindMismatch ∧ e ≠ .rootMismatch := by decide
    exact hnone e hwire

end Runs

section Sample
attribute [local instance] Crypto.unsigned

def sampleHostileBatch : Batch := ⟨[.forcedWithdrawal ⟨feeSink, zeroAddress⟩]⟩

/-- The neighbor is the address itself: all of its 256 bits are shared. -/
def sampleHostileSidecar : Sidecar :=
  ⟨[.forcedWithdrawal ⟨some ⟨1, 2, feeSink⟩, [], .neighbor feeSink ⟨1, 2, feeSink⟩⟩]⟩

theorem sampleHostile_refused :
    Guest.execute (2 ^ 32) zeroAddress zeroAddress zeroAddress
        sampleHostileBatch.encode sampleHostileSidecar.encode =
      .error (.error (.verification .malformedProof)) ∧
    ∀ p, Guest.execute (2 ^ 32) zeroAddress zeroAddress zeroAddress
      sampleHostileBatch.encode sampleHostileSidecar.encode ≠ .error (.panic p) := by
  obtain ⟨heq, hpanic, -⟩ := guest_is_total (show 2 ^ 16 ≤ 2 ^ 32 by decide)
    zeroAddress zeroAddress zeroAddress sampleHostileBatch.encode
    sampleHostileSidecar.encode
  refine ⟨?_, hpanic⟩
  decide +kernel

end Sample

end PaymentRollup
