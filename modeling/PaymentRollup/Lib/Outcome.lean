import Mathlib.Tactic.Basic

/-! # Reading a run backwards

What it takes for a computation that may fail to have succeeded, one step at a time, and which
errors it can have failed with.
-/
namespace PaymentRollup

universe u
variable {ε : Type*} {α β : Type u}

/-- Go on if `p` holds, and fail with `e` if it does not. -/
def require (p : Prop) [Decidable p] (e : ε) : Except ε Unit := if p then .ok () else .error e

/-- The value an optional field holds, or failure with `e` where it holds none. -/
def demand (x : Option α) (e : ε) : Except ε α :=
  match x with
  | some a => .ok a
  | none => .error e

@[simp] theorem bind_eq_ok {x : Except ε α} {next : α → Except ε β} {result : β} :
    (x >>= next) = .ok result ↔ ∃ a, x = .ok a ∧ next a = .ok result := by
  cases x <;> simp [bind, Except.bind]

theorem bind_eq_error {x : Except ε α} {next : α → Except ε β} {e : ε} :
    (x >>= next) = .error e ↔ x = .error e ∨ ∃ a, x = .ok a ∧ next a = .error e := by
  cases x <;> simp [bind, Except.bind]

@[simp] theorem ok_bind (a : α) (f : α → Except ε β) : (Except.ok a >>= f) = f a := rfl

@[simp] theorem error_bind (e : ε) (f : α → Except ε β) :
    (Except.error e >>= f) = .error e := rfl

@[simp] theorem require_eq_ok {p : Prop} [Decidable p] {e : ε} {u : Unit} :
    require p e = .ok u ↔ p := by
  unfold require
  split <;> simp_all

@[simp] theorem require_eq_error {p : Prop} [Decidable p] {e e' : ε} :
    require p e = .error e' ↔ ¬p ∧ e = e' := by
  unfold require
  split <;> simp_all

@[simp] theorem demand_eq_ok {x : Option α} {e : ε} {a : α} :
    demand x e = .ok a ↔ x = some a := by
  cases x <;> simp [demand]

@[simp] theorem demand_eq_error {x : Option α} {e e' : ε} :
    demand x e = .error e' ↔ x = none ∧ e = e' := by
  cases x <;> simp [demand]

theorem mapError_eq_ok {ε' : Type*} {f : ε → ε'} {x : Except ε α} {a : α} :
    x.mapError f = .ok a ↔ x = .ok a := by
  constructor
  · intro h
    cases x with
    | ok _ => exact congrArg Except.ok (Except.ok.inj h)
    | error _ => cases h
  · rintro rfl
    rfl

section Maps
variable {γ : Type u} {g : α → β}

theorem map_bind {x : Except ε α} {f : α → Except ε β} {g : β → γ} :
    (x >>= f).map g = x >>= fun a => (f a).map g := by
  cases x <;> rfl

theorem bind_map_congr {x : Except ε α} {y : Except ε β} {f : β → Except ε γ} {f' : α → Except ε γ}
    (hx : y = x.map g) (hf : ∀ a, f (g a) = f' a) : (y >>= f) = x >>= f' := by
  subst hx
  cases x with
  | error e => rfl
  | ok a => exact hf a

theorem bind_congr_ok {x : Except ε α} {f f' : α → Except ε β} (h : ∀ a, x = .ok a → f a = f' a) :
    (x >>= f) = x >>= f' := by
  cases x with
  | error e => rfl
  | ok a => exact h a rfl

theorem bind_map_congr_ok {x : Except ε α} {y : Except ε β} {f : β → Except ε γ}
    {f' : α → Except ε γ} (hx : y = x.map g) (hf : ∀ a, x = .ok a → f (g a) = f' a) :
    (y >>= f) = x >>= f' := by
  calc (y >>= f) = x >>= fun a => f (g a) := bind_map_congr hx fun _ => rfl
    _ = x >>= f' := bind_congr_ok hf

end Maps

section Errors
variable {P : ε → Prop}

/-- `x` fails with no error outside of `P`. -/
def FailsWith (P : ε → Prop) (x : Except ε α) : Prop := ∀ e, x = .error e → P e

theorem FailsWith.ok (a : α) : FailsWith P (.ok a : Except ε α) := by
  rintro e ⟨⟩

theorem FailsWith.error {e : ε} (h : P e) : FailsWith P (.error e : Except ε α) := by
  rintro _ ⟨⟩
  exact h

theorem FailsWith.mono {Q : ε → Prop} {x : Except ε α} (h : FailsWith P x) (hmore : ∀ e, P e → Q e) :
    FailsWith Q x := fun e he => hmore e (h e he)

theorem FailsWith.bind {x : Except ε α} {f : α → Except ε β} (h : FailsWith P x)
    (hnext : ∀ a, x = .ok a → FailsWith P (f a)) : FailsWith P (x >>= f) := by
  intro e he
  obtain hfirst | ⟨a, ha, hlater⟩ := bind_eq_error.mp he
  · exact h e hfirst
  · exact hnext a ha e hlater

theorem FailsWith.require {p : Prop} [Decidable p] {e : ε} (h : P e) : FailsWith P (require p e) := by
  intro _ he
  obtain ⟨-, rfl⟩ := require_eq_error.mp he
  exact h

theorem FailsWith.demand {x : Option α} {e : ε} (h : P e) : FailsWith P (demand x e) := by
  intro _ he
  obtain ⟨-, rfl⟩ := demand_eq_error.mp he
  exact h

theorem FailsWith.foldlM {f : β → α → Except ε β} {xs : List α} (b : β)
    (h : ∀ b, ∀ a ∈ xs, FailsWith P (f b a)) : FailsWith P (xs.foldlM f b) := by
  induction xs generalizing b with
  | nil => exact .ok b
  | cons a xs ih =>
    rw [List.foldlM_cons]
    refine (h b a (by simp)).bind fun b' _ => ?_
    exact ih b' fun b a ha => h b a (List.mem_cons_of_mem _ ha)

theorem FailsWith.mapError {ε' : Type*} {f : ε' → ε} {x : Except ε' α}
    (h : FailsWith (fun e => P (f e)) x) : FailsWith P (x.mapError f) := by
  cases x with
  | ok a => exact .ok a
  | error e => exact .error (h e rfl)

end Errors

theorem eq_ok_getD {x : Except ε α} {a : α} (h : x.isOk = true) : x = .ok (x.toOption.getD a) := by
  cases x with
  | ok _ => rfl
  | error _ => cases h

end PaymentRollup
