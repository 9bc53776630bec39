import PaymentRollup.Lib.MachineInt

/-! # SHA-256

The crates and the AVM share this hash, and with it a run can be evaluated. The eight words
of the state and the sixteen of the message schedule are each packed into one number, most
significant word first, because the kernel computes with numbers and not with words.
-/
namespace PaymentRollup.Sha256

/-- `k n`, once `n` has been computed. -/
def force {α : Type} : ℕ → (ℕ → α) → α
  | 0, k => k 0
  | n + 1, k => k (n + 1)

theorem force_eq {α : Type} (n : ℕ) (k : ℕ → α) : force n k = k n := by
  cases n <;> rfl

/-- The 32-bit word that starts at bit `i`. -/
def wordAt (packed i : ℕ) : ℕ := (packed >>> i) % 2 ^ 32

section Compression

/-- Rotations are shifts of the word written twice. -/
def bigSigma (i j k x : ℕ) : ℕ :=
  let twice := x * (2 ^ 32 + 1)
  ((twice >>> i) ^^^ (twice >>> j) ^^^ (twice >>> k)) % 2 ^ 32

def smallSigma (i j k x : ℕ) : ℕ :=
  let twice := x * (2 ^ 32 + 1)
  (((twice >>> i) ^^^ (twice >>> j)) % 2 ^ 32) ^^^ (x >>> k)

def choose (x y z : ℕ) : ℕ := (x &&& y) ^^^ ((2 ^ 32 - 1 - x) &&& z)

def majority (x y z : ℕ) : ℕ := (x &&& y) ^^^ (x &&& z) ^^^ (y &&& z)

def roundConstants : List ℕ := [
  0x428a2f98, 0x71374491, 0xb5c0fbcf, 0xe9b5dba5, 0x3956c25b, 0x59f111f1, 0x923f82a4, 0xab1c5ed5,
  0xd807aa98, 0x12835b01, 0x243185be, 0x550c7dc3, 0x72be5d74, 0x80deb1fe, 0x9bdc06a7, 0xc19bf174,
  0xe49b69c1, 0xefbe4786, 0x0fc19dc6, 0x240ca1cc, 0x2de92c6f, 0x4a7484aa, 0x5cb0a9dc, 0x76f988da,
  0x983e5152, 0xa831c66d, 0xb00327c8, 0xbf597fc7, 0xc6e00bf3, 0xd5a79147, 0x06ca6351, 0x14292967,
  0x27b70a85, 0x2e1b2138, 0x4d2c6dfc, 0x53380d13, 0x650a7354, 0x766a0abb, 0x81c2c92e, 0x92722c85,
  0xa2bfe8a1, 0xa81a664b, 0xc24b8b70, 0xc76c51a3, 0xd192e819, 0xd6990624, 0xf40e3585, 0x106aa070,
  0x19a4c116, 0x1e376c08, 0x2748774c, 0x34b0bcb5, 0x391c0cb3, 0x4ed8aa4a, 0x5b9cca4f, 0x682e6ff3,
  0x748f82ee, 0x78a5636f, 0x84c87814, 0x8cc70208, 0x90befffa, 0xa4506ceb, 0xbef9a3f7, 0xc67178f2]

/-- One round for each constant left; `schedule` holds the next sixteen words. -/
def rounds : List ℕ → ℕ → ℕ → ℕ → ℕ → ℕ → ℕ → ℕ → ℕ → ℕ → (ℕ → ℕ → ℕ → ℕ → ℕ → ℕ → ℕ → ℕ → ℕ) → ℕ
  | [], _, a, b, c, d, e, f, g, h, finish => finish a b c d e f g h
  | constant :: rest, schedule, a, b, c, d, e, f, g, h, finish =>
    force (h + bigSigma 6 11 25 e + choose e f g + constant + wordAt schedule 480) fun t =>
    force ((t + bigSigma 2 13 22 a + majority a b c) % 2 ^ 32) fun a' =>
    force ((d + t) % 2 ^ 32) fun e' =>
    force ((wordAt schedule 480 + smallSigma 7 18 3 (wordAt schedule 448) + wordAt schedule 192 +
      smallSigma 17 19 10 (wordAt schedule 32)) % 2 ^ 32) fun word =>
    force (schedule % 2 ^ 480 * 2 ^ 32 + word) fun schedule =>
    rounds rest schedule a' a b c e' e f g finish

def compress (state block : ℕ) : ℕ :=
  rounds roundConstants block (wordAt state 224) (wordAt state 192) (wordAt state 160)
    (wordAt state 128) (wordAt state 96) (wordAt state 64) (wordAt state 32) (wordAt state 0)
    fun a b c d e f g h =>
      [(a, 224), (b, 192), (c, 160), (d, 128), (e, 96), (f, 64), (g, 32), (h, 0)].foldl
        (fun packed (word, i) => packed * 2 ^ 32 + (word + wordAt state i) % 2 ^ 32) 0

end Compression

def initialState : ℕ := 0x6a09e667bb67ae853c6ef372a54ff53a510e527f9b05688c1f83d9ab5be0cd19

/-- A one bit, zeros up to eight bytes short of a whole block, and the length in bits. -/
def pad (message : Bytes) : Bytes :=
  message ++ 0x80 :: List.replicate ((119 - message.length % 64) % 64) 0 ++
    beBytes 8 (8 * message.length)

def blocks (message : Bytes) : List ℕ :=
  let padded := pad message
  (List.range (padded.length / 64)).map fun i =>
    ((padded.drop (64 * i)).take 64).foldl (fun packed byte => packed * 256 + byte.toNat) 0

def digest (message : Bytes) : Bytes :=
  force ((blocks message).foldl (fun state block => force block (compress state)) initialState)
    (beBytes 32)

@[simp] theorem digest_length (message : Bytes) : (digest message).length = 32 := by
  rw [digest, force_eq, beBytes_length]

end PaymentRollup.Sha256
