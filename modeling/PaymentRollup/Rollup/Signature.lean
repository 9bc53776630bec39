import PaymentRollup.Rollup.Transaction

/-! # Keys, addresses and the signature schemes -/
namespace PaymentRollup

variable [Crypto]

/-- The string an address is the hash of. -/
def addressString (scheme : Scheme) (pubKey : Bytes) : Bytes :=
  ascii ['A', 'D', 'D', 'R'] ++ scheme.identifier ++ pubKey

def addressFromPublicKey (scheme : Scheme) (pubKey : Bytes) : Address :=
  sha256 (addressString scheme pubKey)

def Account.fromPublicKey (scheme : Scheme) (pubKey : Bytes) : Address × Account :=
  let address := addressFromPublicKey scheme pubKey
  (address, Account.empty address)

section Schemes

def ed25519PublicKeySize : ℕ := 32
def ed25519SignatureSize : ℕ := 64
def falconPublicKeySize : ℕ := 1793
def falconMinSignatureSize : ℕ := 2
def falconMaxSignatureSize : ℕ := 1423
def hybridPublicKeySize : ℕ := ed25519PublicKeySize + falconPublicKeySize
def minHybridSignatureSize : ℕ := ed25519SignatureSize + falconMinSignatureSize
def maxHybridSignatureSize : ℕ := ed25519SignatureSize + falconMaxSignatureSize

/-- Reinterpret an untrusted key as the fixed-size key a scheme's verifier takes. -/
def asKey (size : ℕ) (pubKey : Bytes) : Except VerificationError Bytes :=
  if pubKey.length = size then .ok pubKey else .error .malformedKey

def verifyEd25519 (pubKey sig message : Bytes) : Except VerificationError Unit :=
  if sig.length ≠ ed25519SignatureSize then .error .malformedSignature
  else if !Crypto.ed25519Key pubKey then .error .malformedKey
  else if Crypto.ed25519VerifyStrict pubKey sig message then .ok ()
  else .error .invalidSignature

/-- `crypto::verify`. -/
def Scheme.verify (scheme : Scheme) (pubKey sig message : Bytes) :
    Except VerificationError Unit := do
  match scheme with
  | .managed => .ok ()
  | .ed25519 => verifyEd25519 (← asKey ed25519PublicKeySize pubKey) sig message
  | .falcon1024HybridEd25519 =>
    if pubKey.length ≠ hybridPublicKeySize then .error .malformedKey
    else if sig.length < minHybridSignatureSize ∨ maxHybridSignatureSize < sig.length then
      .error .malformedSignature
    else
      let ed25519Key := pubKey.take ed25519PublicKeySize
      let falconKey := pubKey.drop ed25519PublicKeySize
      let ed25519Sig := sig.take ed25519SignatureSize
      let falconSig := sig.drop ed25519SignatureSize
      verifyEd25519 (← asKey ed25519PublicKeySize ed25519Key) ed25519Sig message
      if Crypto.falconVerifyCompressed falconSig (← asKey falconPublicKeySize falconKey) message
      then .ok () else .error .invalidSignature

end Schemes

namespace Signature

def address (s : Signature) : Address := addressFromPublicKey s.scheme s.pubKey

def verifyAuth (s : Signature) (account : Account) : Except VerificationError Unit :=
  if s.address = account.authAddress then .ok () else .error .invalidAuthAddress

/-- The key may spend from the account, and it signed the message; asked in that order. -/
def verify (s : Signature) (account : Account) (message : Bytes) :
    Except VerificationError Unit := do
  s.verifyAuth account
  s.scheme.verify s.pubKey s.sig message

end Signature

end PaymentRollup
