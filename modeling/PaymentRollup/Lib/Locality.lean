import PaymentRollup.Lib.Outcome

/-! # Readers that do not look behind what they read

A reader is local if what follows the tokens it takes does not change what it makes of them, a
test that there is enough left included. With a test that nothing is left at the end of it, the
strings a local reader accepts are prefix-free.
-/
namespace PaymentRollup.Locality

variable {τ ε : Type} {α β : Type}

/-- A reader of tokens: a state over those not yet read. -/
abbrev TokenReader (τ ε α : Type) := StateT (List τ) (Except ε) α

/-- What is read off a string is read off every longer one, and the rest is left. -/
def Local (r : TokenReader τ ε α) : Prop :=
  ∀ ⦃x a rest⦄, r.run x = .ok (a, rest) → ∀ y, r.run (x ++ y) = .ok (a, rest ++ y)

/-- What is read in full is refused with `e` when anything follows. -/
def Closed (e : ε) (r : TokenReader τ ε α) : Prop :=
  ∀ ⦃x a rest⦄, r.run x = .ok (a, rest) → ∀ y, y ≠ [] → r.run (x ++ y) = .error e

/-- No string that is accepted is the front of another, and what follows one is refused as `e`. -/
def PrefixFree (e : ε) (decode : List τ → Except ε α) : Prop :=
  ∀ x a, decode x = .ok a →
    (∀ y, y ≠ [] → decode (x ++ y) = .error e) ∧
    ∀ front, front <+: x → front ≠ x → ∃ e', decode front = .error e'

theorem run_bind_eq_ok {r : TokenReader τ ε α} {f : α → TokenReader τ ε β} {x rest : List τ} {b : β} :
    (r >>= f).run x = .ok (b, rest) ↔
      ∃ a mid, r.run x = .ok (a, mid) ∧ (f a).run mid = .ok (b, rest) := by
  simp only [StateT.run_bind, bind_eq_ok, Prod.exists]

section Local
variable {r r' : TokenReader τ ε α} {f : α → TokenReader τ ε β}

theorem Local.pure (a : α) : Local (pure a : TokenReader τ ε α) := by
  intro x a' rest h y
  obtain ⟨rfl, rfl⟩ := Prod.mk.inj (Except.ok.inj h)
  rfl

theorem Local.bind (hr : Local r) (hf : ∀ a, Local (f a)) : Local (r >>= f) := by
  intro x b rest h y
  obtain ⟨a, mid, hfirst, hlater⟩ := run_bind_eq_ok.mp h
  exact run_bind_eq_ok.mpr ⟨a, mid ++ y, hr hfirst y, hf a hlater y⟩

theorem Local.ite {p : Prop} [Decidable p] (hr : Local r) (hr' : Local r') :
    Local (if p then r else r') := by
  split
  · exact hr
  · exact hr'

theorem Local.of_fails (h : ∀ x, ∃ e, r.run x = .error e) : Local r := by
  intro x a rest hx
  obtain ⟨e, he⟩ := h x
  rw [he] at hx
  cases hx

end Local

section Closed
variable {r r' : TokenReader τ ε α} {f : α → TokenReader τ ε β} {e : ε}

theorem Closed.bind (hr : Closed e r) : Closed e (r >>= f) := by
  intro x b rest h y hy
  obtain ⟨a, mid, hfirst, -⟩ := run_bind_eq_ok.mp h
  rw [StateT.run_bind, hr hfirst y hy, error_bind]

theorem Local.bind_closed (hr : Local r) (hf : ∀ a, Closed e (f a)) : Closed e (r >>= f) := by
  intro x b rest h y hy
  obtain ⟨a, mid, hfirst, hlater⟩ := run_bind_eq_ok.mp h
  rw [StateT.run_bind, hr hfirst y, ok_bind]
  exact hf a hlater y hy

theorem Closed.ite {p : Prop} [Decidable p] (hr : Closed e r) (hr' : Closed e r') :
    Closed e (if p then r else r') := by
  split
  · exact hr
  · exact hr'

theorem Closed.of_fails (h : ∀ x, ∃ e', r.run x = .error e') : Closed e r := by
  intro x a rest hx
  obtain ⟨e', he'⟩ := h x
  rw [he'] at hx
  cases hx

end Closed

/-- The front of an accepted string is not accepted, or the string would be refused. -/
theorem PrefixFree.of_trailing {e : ε} {decode : List τ → Except ε α}
    (h : ∀ x a, decode x = .ok a → ∀ y, y ≠ [] → decode (x ++ y) = .error e) :
    PrefixFree e decode := by
  intro x a hx
  constructor
  · exact h x a hx
  · rintro front ⟨y, rfl⟩ hne
    cases hfront : decode front with
    | error e' => exact ⟨e', rfl⟩
    | ok a' =>
      have hy : y ≠ [] := by
        rintro rfl
        exact hne (List.append_nil front).symm
      rw [h front a' hfront y hy] at hx
      cases hx

theorem Closed.prefixFree {e : ε} {r : TokenReader τ ε α} {decode : List τ → Except ε β} {g : α → β}
    (hr : Closed e r) (hdecode : ∀ x, decode x = r.run x >>= fun p => .ok (g p.1)) :
    PrefixFree e decode := by
  apply PrefixFree.of_trailing
  intro x b hx y hy
  rw [hdecode] at hx ⊢
  obtain ⟨⟨a, rest⟩, hrun, -⟩ := bind_eq_ok.mp hx
  rw [hr hrun y hy, error_bind]

end PaymentRollup.Locality
