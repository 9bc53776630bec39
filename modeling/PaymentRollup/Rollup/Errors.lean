import PaymentRollup.Rollup.Verify

/-! # What a write of the replay can be refused for

One list of errors for each kind of write. Whatever is not on its list, no witness, signature or
amount brings about.
-/
namespace PaymentRollup

def signatureErrors : List VerificationError :=
  [.malformedKey, .malformedSignature, .invalidSignature]

def witnessErrors : List VerificationError := [.malformedProof, .staleWitness]

def debitErrors : List VerificationError :=
  [.unknownSender, .invalidNonce, .invalidAuthAddress, .insufficientFunds] ++ signatureErrors ++
    witnessErrors

def creditErrors : List VerificationError := .amountOverflow :: witnessErrors

theorem Account.bumpNonce_errors (a : Account) :
    FailsWith (· ∈ [VerificationError.invalidNonce]) a.bumpNonce := by
  unfold Account.bumpNonce
  split
  · exact .ok _
  · exact .error (by decide)

theorem asKey_errors (size : ℕ) (pubKey : Bytes) :
    FailsWith (· ∈ signatureErrors) (asKey size pubKey) := by
  unfold asKey
  split_ifs
  · exact .ok pubKey
  · exact .error (by decide)

section Writes
variable [Crypto]

theorem verifyEd25519_errors (pubKey sig message : Bytes) :
    FailsWith (· ∈ signatureErrors) (verifyEd25519 pubKey sig message) := by
  unfold verifyEd25519
  split_ifs
  · exact .error (by decide)
  · exact .error (by decide)
  · exact .ok ()
  · exact .error (by decide)

theorem Scheme.verify_errors (scheme : Scheme) (pubKey sig message : Bytes) :
    FailsWith (· ∈ signatureErrors) (scheme.verify pubKey sig message) := by
  cases scheme with
  | managed => exact .ok ()
  | ed25519 =>
    apply (asKey_errors _ _).bind
    intro key _
    exact verifyEd25519_errors _ _ _
  | falcon1024HybridEd25519 =>
    simp only [Scheme.verify]
    split_ifs
    · exact .error (by decide)
    · exact .error (by decide)
    · refine (asKey_errors _ _).bind fun key _ => ?_
      refine (verifyEd25519_errors _ _ _).bind fun _ _ => ?_
      refine (asKey_errors _ _).bind fun falconKey _ => ?_
      split_ifs
      · exact .ok ()
      · exact .error (by decide)

theorem Signature.verify_errors (sig : Signature) (account : Account) (message : Bytes) :
    FailsWith (· ∈ .invalidAuthAddress :: signatureErrors) (sig.verify account message) := by
  have hauth : FailsWith (· ∈ .invalidAuthAddress :: signatureErrors) (sig.verifyAuth account) := by
    unfold Signature.verifyAuth
    split_ifs
    · exact .ok ()
    · exact .error (by decide)
  apply hauth.bind
  intro _ _
  exact (sig.scheme.verify_errors _ _ _).mono (by decide)

theorem rootWith_errors (address : Address) (account : Option Account) (proof : MerkleProof) :
    FailsWith (· ∈ [VerificationError.malformedProof]) (rootWith address account proof) :=
  .demand (by decide)

theorem expectPreState_errors (address : Address) (witness : LeafWitness) (root : Word) :
    FailsWith (· ∈ witnessErrors) (expectPreState address witness root) := by
  refine ((rootWith_errors _ _ _).mono (by decide)).bind fun implied _ => ?_
  exact .require (by decide)

theorem debit_errors (sender : Address) (witness : LeafWitness) (sig : Signature)
    (amount fee : UInt64) (root : Word) (bytesToSign : UInt64 → Bytes) :
    FailsWith (· ∈ debitErrors) (debit sender witness sig amount fee root bytesToSign) := by
  refine ((expectPreState_errors _ _ _).mono (by decide)).bind fun _ _ => ?_
  refine (FailsWith.demand (by decide)).bind fun held _ => ?_
  refine (held.bumpNonce_errors.mono (by decide)).bind fun account _ => ?_
  refine ((sig.verify_errors _ _).mono (by decide)).bind fun _ _ => ?_
  refine (FailsWith.demand (by decide)).bind fun balance _ => ?_
  exact (rootWith_errors _ _ _).mono (by decide)

theorem credit_errors (receiver : Address) (witness : LeafWitness) (amount : UInt64)
    (root : Word) : FailsWith (· ∈ creditErrors) (credit receiver witness amount root) := by
  refine ((expectPreState_errors _ _ _).mono (by decide)).bind fun _ _ => ?_
  refine (FailsWith.demand (by decide)).bind fun balance _ => ?_
  exact (rootWith_errors _ _ _).mono (by decide)

/-- With the witness present exactly when there is a fee, there is nothing but a credit. -/
theorem creditFee_errors {fee : UInt64} {witness : Option LeafWitness}
    (h : witness.isSome ↔ fee ≠ 0) (root : Word) :
    FailsWith (· ∈ creditErrors) (creditFee fee witness root) := by
  cases witness with
  | none =>
    have hfee : fee = 0 := by simpa using h
    rw [creditFee, if_pos hfee]
    exact .ok root
  | some witness =>
    have hfee : fee ≠ 0 := h.mp rfl
    rw [creditFee, if_pos hfee]
    exact credit_errors _ _ _ _

end Writes

end PaymentRollup
