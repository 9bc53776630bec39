import Mathlib.Data.List.Pairwise
import Mathlib.Data.List.Perm.Basic
import PaymentRollup.Lib.Outcome

/-! # Actions in any order

Of actions that do not get in each other's way each is still there after the others. So what
can be done on its own can be done after all of them, and the order they are taken in does not
show in where they lead.
-/
namespace PaymentRollup.Independence

universe u
variable {σ : Type u} {ι ε : Type*} (step : σ → ι → Except ε σ) (Inv : σ → Prop)

/-- Where both actions can be taken, each can be taken after the other, to the same end. -/
def Independent (a b : ι) : Prop :=
  ∀ s sa sb, Inv s → step s a = .ok sa → step s b = .ok sb →
    ∃ t, step sa b = .ok t ∧ step sb a = .ok t

/-- The action keeps what the others need. -/
def Keeps (a : ι) : Prop := ∀ s s', Inv s → step s a = .ok s' → Inv s'

/-- Any of the actions could be taken now. -/
def Ready (s : σ) (actions : List ι) : Prop := ∀ a ∈ actions, ∃ s', step s a = .ok s'

variable {step Inv} {s s' : σ} {a b : ι} {actions others : List ι}

theorem Independent.symm (h : Independent step Inv a b) : Independent step Inv b a := by
  intro s sb sa hs hb ha
  obtain ⟨t, hba, hab⟩ := h s sa sb hs ha hb
  exact ⟨t, hab, hba⟩

theorem Ready.after (h : Ready step s actions) (hs : Inv s) (ha : step s a = .ok s')
    (hind : ∀ b ∈ actions, Independent step Inv a b) : Ready step s' actions := by
  intro b hb
  obtain ⟨sb, hsb⟩ := h b hb
  obtain ⟨t, hab, -⟩ := hind b hb s s' sb hs ha hsb
  exact ⟨t, hab⟩

theorem foldlM_ok (hs : Inv s) (hkeeps : ∀ a ∈ actions, Keeps step Inv a)
    (hind : actions.Pairwise (Independent step Inv)) (hready : Ready step s actions) :
    ∃ t, actions.foldlM step s = .ok t := by
  induction actions generalizing s with
  | nil => exact ⟨s, rfl⟩
  | cons a rest ih =>
    obtain ⟨hfirst, hrest⟩ := List.pairwise_cons.mp hind
    obtain ⟨ha, hready⟩ := List.forall_mem_cons.mp hready
    obtain ⟨s', hs'⟩ := ha
    obtain ⟨hkeep, hkeeps⟩ := List.forall_mem_cons.mp hkeeps
    have hready : Ready step s' rest := Ready.after hready hs hs' hfirst
    obtain ⟨t, ht⟩ := ih (hkeep s s' hs hs') hkeeps hrest hready
    refine ⟨t, ?_⟩
    rw [List.foldlM_cons, hs', ok_bind]
    exact ht

/-- The order does not matter. The induction is on how the two orders differ: on a swap it is the
independence of the two that gives the same state. -/
theorem foldlM_perm (hperm : actions.Perm others) (hs : Inv s)
    (hkeeps : ∀ a ∈ actions, Keeps step Inv a) (hind : actions.Pairwise (Independent step Inv))
    (hready : Ready step s actions) : actions.foldlM step s = others.foldlM step s := by
  induction hperm generalizing s with
  | nil => rfl
  | cons a _ ih =>
    obtain ⟨hfirst, hrest⟩ := List.pairwise_cons.mp hind
    obtain ⟨ha, hready⟩ := List.forall_mem_cons.mp hready
    obtain ⟨s', hs'⟩ := ha
    obtain ⟨hkeep, hkeeps⟩ := List.forall_mem_cons.mp hkeeps
    rw [List.foldlM_cons, List.foldlM_cons, hs', ok_bind, ok_bind]
    exact ih (hkeep s s' hs hs') hkeeps hrest (Ready.after hready hs hs' hfirst)
  | swap a b rest =>
    obtain ⟨hb, hready⟩ := List.forall_mem_cons.mp hready
    obtain ⟨ha, -⟩ := List.forall_mem_cons.mp hready
    obtain ⟨sb, hsb⟩ := hb
    obtain ⟨sa, hsa⟩ := ha
    have hswap := (List.pairwise_cons.mp hind).1 a (List.mem_cons_self ..)
    obtain ⟨t, hba, hab⟩ := hswap s sb sa hs hsb hsa
    simp only [List.foldlM_cons, hsa, hsb, ok_bind, hba, hab]
  | trans hfirst _ ih ih' =>
    rw [ih hs hkeeps hind hready]
    apply ih' hs
    · exact fun a ha => hkeeps a (hfirst.mem_iff.mpr ha)
    · exact (hfirst.pairwise_iff fun h => h.symm).mp hind
    · exact fun a ha => hready a (hfirst.mem_iff.mpr ha)

end PaymentRollup.Independence
