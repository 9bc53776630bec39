import Mathlib.Data.List.Basic

/-! # Values behind a delay

A value is scheduled and can be applied once a delay has run out; a later schedule replaces it,
and it may be withdrawn. So what is applied is what was scheduled last, and is gone after that.
-/
namespace PaymentRollup.Timelock

variable {ε α : Type*}

/-- What an event does to the value that waits. -/
inductive Action (α : Type*) where
  | schedule (value : α)
  | apply (value : α)
  | cancel
  | other

/-- The value that waits, and the round from which on it can be applied. -/
abbrev Waiting (α : Type*) := Option (α × ℕ)

/-- The actions that respect the delay. -/
inductive Allows (delay round : ℕ) : Waiting α → Action α → Waiting α → Prop
  | schedule (w : Waiting α) (a : α) : Allows delay round w (.schedule a) (some (a, round + delay))
  | apply {a : α} {due : ℕ} (hdue : due ≤ round) : Allows delay round (some (a, due)) (.apply a) none
  | cancel (w : Waiting α) : Allows delay round w .cancel none
  | other (w : Waiting α) : Allows delay round w .other w

section Locked
variable (action : ε → Action α) (round : ε → ℕ) (delay : ℕ)

/-- What waits after a log, newest event first, all of whose actions respected the delay. -/
inductive Locked : Waiting α → List ε → Prop
  | start : Locked none []
  | step {w w' : Waiting α} {log : List ε} (h : Locked w log) (e : ε)
      (haction : Allows delay (round e) w (action e) w') : Locked w' (e :: log)

/-- `e` scheduled `a`, and nothing since has replaced, applied or withdrawn it. -/
def Last (a : α) (e : ε) (log : List ε) : Prop :=
  ∃ since before, log = since ++ e :: before ∧ action e = .schedule a ∧ ∀ x ∈ since, action x = .other

variable {action round delay} {a : α} {e : ε} {log later earlier : List ε} {w : Waiting α}

theorem Last.mem (h : Last action a e log) : e ∈ log := by
  obtain ⟨since, before, rfl, -⟩ := h
  simp

theorem Last.scheduled (h : Last action a e log) : action e = .schedule a := by
  obtain ⟨since, before, -, haction, -⟩ := h
  exact haction

theorem Last.other (h : Last action a e log) {x : ε} (hx : action x = .other) :
    Last action a e (x :: log) := by
  obtain ⟨since, before, rfl, haction, hsince⟩ := h
  refine ⟨x :: since, before, rfl, haction, ?_⟩
  intro y hy
  rcases List.mem_cons.mp hy with rfl | hy
  · exact hx
  · exact hsince y hy

theorem Last.after_apply {b : α} {x : ε} {mid : List ε}
    (h : Last action a e (mid ++ x :: earlier)) (hx : action x = .apply b) : e ∈ mid := by
  obtain ⟨since, before, hlog, haction, hsince⟩ := h
  rcases List.append_eq_append_iff.mp hlog with ⟨rest, rfl, hrest⟩ | ⟨rest, rfl, hrest⟩
  · cases rest with
    | nil =>
      obtain ⟨rfl, -⟩ := List.cons.inj hrest
      cases hx.symm.trans haction
    | cons y rest =>
      obtain ⟨rfl, -⟩ := List.cons.inj hrest
      cases hx.symm.trans (hsince x (by simp))
  · cases rest with
    | nil =>
      obtain ⟨rfl, -⟩ := List.cons.inj hrest
      cases hx.symm.trans haction
    | cons y rest =>
      obtain ⟨rfl, -⟩ := List.cons.inj hrest
      simp

/-- What waits was scheduled last, and becomes due a delay after that. -/
theorem Locked.waiting {due : ℕ} (h : Locked action round delay (some (a, due)) log) :
    ∃ e, Last action a e log ∧ due = round e + delay := by
  generalize hw : some (a, due) = w at h
  induction h with
  | start => cases hw
  | @step w w' log h x haction ih =>
    generalize hx : action x = m at haction
    cases haction with
    | schedule =>
      cases hw
      exact ⟨x, ⟨[], log, rfl, hx, fun _ hy => nomatch hy⟩, rfl⟩
    | apply => cases hw
    | cancel => cases hw
    | other =>
      obtain ⟨e, hlast, hdue⟩ := ih hw
      exact ⟨e, hlast.other hx, hdue⟩

/-- What is applied was scheduled last, at least a delay before. -/
theorem Locked.applied (h : Locked action round delay w (later ++ e :: earlier))
    (he : action e = .apply a) : ∃ sched, Last action a sched earlier ∧ round sched + delay ≤ round e := by
  generalize hlog : later ++ e :: earlier = log at h
  induction h generalizing later with
  | start => simp at hlog
  | @step w w' log h x haction ih =>
    cases later with
    | nil =>
      obtain ⟨rfl, rfl⟩ := List.cons.inj hlog
      rw [he] at haction
      cases haction with
      | apply hdue =>
        obtain ⟨sched, hlast, rfl⟩ := h.waiting
        exact ⟨sched, hlast, hdue⟩
    | cons newest rest => exact ih (List.cons.inj hlog).2

end Locked

end PaymentRollup.Timelock
