import Mathlib.Data.List.Basic
import PaymentRollup.Lib.Outcome

/-! # Code that may panic

A function returns, fails with an error of its own, or panics. Each operation that panics on
some operands is an operation here that says which; code written with them agrees with code
that cannot panic exactly if no step of it ever meets such operands.
-/
namespace PaymentRollup

universe u
variable {ε : Type u} {σ α β : Type u}

/-- What stops a program for good. -/
inductive Panic where
  | indexOutOfRange
  | sliceOutOfRange
  | lengthMismatch
  | overflow
  | shiftTooFar
  | unwrapped
  | assertion
  | reservation
  | diverged
deriving DecidableEq, Repr

/-- Why there is no value: an error the caller is handed, or a panic. -/
inductive Fault (ε : Type u) where
  | error (e : ε)
  | panic (p : Panic)
deriving DecidableEq, Repr

abbrev Guarded (ε α : Type u) := Except (Fault ε) α

namespace Guarded

def ofResult (x : Except ε α) : Guarded ε α := x.mapError .error

/-- `?` from one error type to another. -/
def mapError {ε' : Type u} (f : ε → ε') : Guarded ε α → Guarded ε' α
  | .ok a => .ok a
  | .error (.error e) => .error (.error (f e))
  | .error (.panic p) => .error (.panic p)

section Operations

def index (xs : List α) (i : ℕ) : Guarded ε α := demand xs[i]? (.panic .indexOutOfRange)

/-- `xs[start..stop]`. -/
def slice (xs : List α) (start stop : ℕ) : Guarded ε (List α) :=
  if start ≤ stop ∧ stop ≤ xs.length then .ok ((xs.drop start).take (stop - start))
  else .error (.panic .sliceOutOfRange)

def splitAt (xs : List α) (mid : ℕ) : Guarded ε (List α × List α) :=
  if mid ≤ xs.length then .ok (xs.take mid, xs.drop mid) else .error (.panic .sliceOutOfRange)

/-- `xs[start..stop].copy_from_slice(source)`. -/
def copyFromSlice (xs : List α) (start stop : ℕ) (source : List α) : Guarded ε (List α) :=
  if start ≤ stop ∧ stop ≤ xs.length then
    if source.length = stop - start then .ok (xs.take start ++ source ++ xs.drop stop)
    else .error (.panic .lengthMismatch)
  else .error (.panic .sliceOutOfRange)

/-- `xs.try_into().unwrap()`, to an array. -/
def toArray (size : ℕ) (xs : List α) : Guarded ε { ys : List α // ys.length = size } :=
  if h : xs.length = size then .ok ⟨xs, h⟩ else .error (.panic .unwrapped)

variable {ε : Type}

/-- A sum of numbers below `bound`. -/
def add (bound a b : ℕ) : Guarded ε ℕ :=
  if a + b < bound then .ok (a + b) else .error (.panic .overflow)

def mul (bound a b : ℕ) : Guarded ε ℕ :=
  if a * b < bound then .ok (a * b) else .error (.panic .overflow)

def sub (a b : ℕ) : Guarded ε ℕ := if b ≤ a then .ok (a - b) else .error (.panic .overflow)

def sub64 (a b : UInt64) : Guarded ε UInt64 := if b ≤ a then .ok (a - b) else .error (.panic .overflow)

def shl64 (a : UInt64) (shift : ℕ) : Guarded ε UInt64 :=
  if shift < 64 then .ok (a <<< UInt64.ofNat shift) else .error (.panic .shiftTooFar)

def shr64 (a : UInt64) (shift : ℕ) : Guarded ε UInt64 :=
  if shift < 64 then .ok (a >>> UInt64.ofNat shift) else .error (.panic .shiftTooFar)

def shr8 (a : UInt8) (shift : ℕ) : Guarded ε UInt8 :=
  if shift < 8 then .ok (a >>> UInt8.ofNat shift) else .error (.panic .shiftTooFar)

def assert (p : Prop) [Decidable p] : Guarded ε Unit := require p (.panic .assertion)

end Operations

section Operands

theorem index_of_lt {xs : List α} {i : ℕ} (h : i < xs.length) :
    (index xs i : Guarded ε α) = .ok xs[i] := by
  rw [index, List.getElem?_eq_getElem h]
  rfl

theorem slice_of_le {xs : List α} {start stop : ℕ} (h : start ≤ stop) (hstop : stop ≤ xs.length) :
    (slice xs start stop : Guarded ε _) = .ok ((xs.drop start).take (stop - start)) :=
  if_pos ⟨h, hstop⟩

theorem splitAt_of_le {xs : List α} {mid : ℕ} (h : mid ≤ xs.length) :
    (splitAt xs mid : Guarded ε _) = .ok (xs.take mid, xs.drop mid) := if_pos h

theorem copyFromSlice_append {front hole rest source : List α} (h : source.length = hole.length) :
    (copyFromSlice (front ++ hole ++ rest) front.length (front.length + hole.length) source :
      Guarded ε (List α)) = .ok (front ++ source ++ rest) := by
  have hrange : front.length ≤ front.length + hole.length ∧
      front.length + hole.length ≤ (front ++ hole ++ rest).length := by
    simp only [List.length_append]
    omega
  have hlength : source.length = front.length + hole.length - front.length := by omega
  have htake : (front ++ hole ++ rest).take front.length = front := by
    rw [List.append_assoc, List.take_left]
  have hdrop : (front ++ hole ++ rest).drop (front.length + hole.length) = rest := by
    rw [← List.length_append, List.drop_left]
  rw [copyFromSlice, if_pos hrange, if_pos hlength, htake, hdrop]

theorem toArray_of_length {xs : List α} {size : ℕ} (h : xs.length = size) :
    (toArray size xs : Guarded ε _) = .ok ⟨xs, h⟩ := dif_pos h

variable {ε : Type} {bound a b shift : ℕ}

theorem add_of_lt (h : a + b < bound) : (add bound a b : Guarded ε ℕ) = .ok (a + b) := if_pos h

theorem mul_of_lt (h : a * b < bound) : (mul bound a b : Guarded ε ℕ) = .ok (a * b) := if_pos h

theorem sub_of_le (h : b ≤ a) : (sub a b : Guarded ε ℕ) = .ok (a - b) := if_pos h

theorem sub64_of_le {a b : UInt64} (h : b ≤ a) : (sub64 a b : Guarded ε UInt64) = .ok (a - b) :=
  if_pos h

theorem shl64_of_lt {a : UInt64} (h : shift < 64) :
    (shl64 a shift : Guarded ε UInt64) = .ok (a <<< UInt64.ofNat shift) := if_pos h

theorem shr64_of_lt {a : UInt64} (h : shift < 64) :
    (shr64 a shift : Guarded ε UInt64) = .ok (a >>> UInt64.ofNat shift) := if_pos h

theorem shr8_of_lt {a : UInt8} (h : shift < 8) :
    (shr8 a shift : Guarded ε UInt8) = .ok (a >>> UInt8.ofNat shift) := if_pos h

theorem assert_of {p : Prop} [Decidable p] (h : p) : (assert p : Guarded ε Unit) = .ok () := if_pos h

end Operands

section Agreement

@[simp] theorem ofResult_ok (a : α) : ofResult (.ok a : Except ε α) = .ok a := rfl

@[simp] theorem ofResult_error (e : ε) : ofResult (.error e : Except ε α) = .error (.error e) := rfl

theorem mapError_eq {ε' : Type u} {f : ε → ε'} {x' : Guarded ε α} {x : Except ε α}
    (h : x' = ofResult x) : mapError f x' = ofResult (x.mapError f) := by
  subst h
  cases x <;> rfl

theorem ofResult_ne_panic {x : Except ε α} {p : Panic} : ofResult x ≠ .error (.panic p) := by
  cases x with
  | ok a => rintro ⟨⟩
  | error e => rintro ⟨⟩

theorem ofResult_eq_error {x : Except ε α} {e : ε} :
    ofResult x = .error (.error e) ↔ x = .error e := by
  cases x with
  | ok a => exact iff_of_false (by rintro ⟨⟩) (by rintro ⟨⟩)
  | error e' => rw [ofResult_error, Except.error.injEq, Fault.error.injEq, Except.error.injEq]

theorem bind_eq {x' : Guarded ε α} {x : Except ε α} {f' : α → Guarded ε β} {f : α → Except ε β}
    (h : x' = ofResult x) (hnext : ∀ a, x = .ok a → f' a = ofResult (f a)) :
    (x' >>= f') = ofResult (x >>= f) := by
  subst h
  cases x with
  | ok a => exact hnext a rfl
  | error e => rfl

theorem foldlM_eq_ok {f' : β → α → Guarded ε β} {f : β → α → β} {xs : List α} (b : β)
    (h : ∀ b, ∀ a ∈ xs, f' b a = .ok (f b a)) : xs.foldlM f' b = .ok (xs.foldl f b) := by
  induction xs generalizing b with
  | nil => rfl
  | cons a xs ih =>
    rw [List.foldlM_cons, h b a (by simp), ok_bind, List.foldl_cons]
    exact ih _ fun b a ha => h b a (List.mem_cons_of_mem _ ha)

theorem foldlM_eq {f' : β → α → Guarded ε β} {f : β → α → Except ε β} {xs : List α} (b : β)
    (h : ∀ b, ∀ a ∈ xs, f' b a = ofResult (f b a)) : xs.foldlM f' b = ofResult (xs.foldlM f b) := by
  induction xs generalizing b with
  | nil => rfl
  | cons a xs ih =>
    rw [List.foldlM_cons, List.foldlM_cons]
    refine bind_eq (h b a (by simp)) fun b' _ => ?_
    exact ih b' fun b a ha => h b a (List.mem_cons_of_mem _ ha)

end Agreement

section States

/-- From the state `s` on, a stateful program does what one does that cannot panic. -/
def Agrees (r' : StateT σ (Except (Fault ε)) α) (r : StateT σ (Except ε) α) (s : σ) : Prop :=
  r'.run s = ofResult (r.run s)

theorem Agrees.pure (a : α) (s : σ) :
    Agrees (Pure.pure a : StateT σ (Except (Fault ε)) α) (Pure.pure a) s := rfl

theorem Agrees.bind {r' : StateT σ (Except (Fault ε)) α} {r : StateT σ (Except ε) α}
    {f' : α → StateT σ (Except (Fault ε)) β} {f : α → StateT σ (Except ε) β} {s : σ}
    (h : Agrees r' r s) (hnext : ∀ a t, r.run s = .ok (a, t) → Agrees (f' a) (f a) t) :
    Agrees (r' >>= f') (r >>= f) s := by
  unfold Agrees
  rw [StateT.run_bind, StateT.run_bind]
  exact bind_eq h fun p hp => hnext p.1 p.2 hp

end States

end Guarded

end PaymentRollup
