import Mathlib.Data.List.Nodup

/-! # Tokens that are used at most once

A guard kept in the state says of each token whether it is used up. If a token is only
accepted while it is not, is used up from then on, and stays so, then no token is accepted
twice.
-/
namespace PaymentRollup

variable {σ α : Type*}

/-- Everything accepted so far was accepted once and is used up in `s`. -/
structure OneUse (used : σ → α → Prop) (s : σ) (accepted : List α) : Prop where
  nodup : accepted.Nodup
  used : ∀ a ∈ accepted, used s a

namespace OneUse
variable {used : σ → α → Prop} {s s' : σ} {accepted : List α}

theorem nil : OneUse used s [] := ⟨List.nodup_nil, fun _ h => nomatch h⟩

theorem single {a : α} (ha : used s a) : OneUse used s [a] := by
  refine ⟨List.nodup_singleton a, ?_⟩
  intro b hb
  rw [List.mem_singleton.mp hb]
  exact ha

theorem append (h : OneUse used s accepted) {fresh : List α} (hfresh : ∀ a ∈ fresh, ¬used s a)
    (hmono : ∀ a, used s a → used s' a) (hnew : OneUse used s' fresh) :
    OneUse used s' (accepted ++ fresh) := by
  constructor
  · refine h.nodup.append hnew.nodup ?_
    intro a hold hin
    exact hfresh a hin (h.used a hold)
  · intro a ha
    rcases List.mem_append.mp ha with hold | hin
    · exact hmono a (h.used a hold)
    · exact hnew.used a hin

theorem accept (h : OneUse used s accepted) {a : α} (hfresh : ¬used s a)
    (hmono : ∀ b, used s b → used s' b) (ha : used s' a) : OneUse used s' (accepted ++ [a]) := by
  refine h.append ?_ hmono (single ha)
  intro b hb
  rw [List.mem_singleton.mp hb]
  exact hfresh

end OneUse

end PaymentRollup
