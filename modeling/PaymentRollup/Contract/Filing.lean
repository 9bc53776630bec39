import PaymentRollup.Contract.Bookkeeping

/-! # The inbox as it was filed

A box is written once, when its entry arrives, and is only ever deleted. What a box holds is
therefore the record as filed, and records are filed in the order of their rounds.
-/
namespace PaymentRollup.Contract

variable [Crypto]

/-- The records of all entries that arrived, in arrival order. -/
def filed (app : App) : Log → List InboxRecord
  | [] => []
  | e :: log =>
    match e.call with
    | .deposit payment recipient =>
      let amount := payment.amount - e.before.boxCost app e.before.inboxCursor
      filed app log ++ [⟨.deposit, recipient, Word.zero, amount, payment.sender, e.env.round,
        sha256 (depositString e.before.inboxChain recipient amount)⟩]
    | .requestWithdrawal payment _ address recipient _ _ _ =>
      filed app log ++ [⟨.request, address, recipient, 0, payment.sender, e.env.round,
        sha256 (requestString e.before.inboxChain address recipient)⟩]
    | _ => filed app log

theorem filed_quiet (app : App) {e : Step} (h : e.call.IsQuiet) (log : Log) :
    filed app (e :: log) = filed app log := by
  rcases e with ⟨before, env, call, after⟩
  cases call <;> first | exact h.elim | rfl

theorem filed_items (app : App) (log : Log) :
    (filed app log).map InboxRecord.item = arrivals app log := by
  induction log with
  | nil => rfl
  | cons e log ih =>
    rcases e with ⟨before, env, call, after⟩
    cases call <;> simp only [filed, arrivals, List.map_append, ih] <;> rfl

theorem filed_length (app : App) (log : Log) :
    (filed app log).length = (arrivals app log).length := by
  rw [← filed_items, List.length_map]

/-- Boxes hold what was filed, and what was filed is in order and affordable. -/
structure Filed (app : App) (round : UInt64) (s : State) (log : Log) : Prop where
  boxes : ∀ i record, s.inbox i = some record → (filed app log)[i.toNat]? = some record
  ordered : (filed app log).Pairwise fun a b => a.round ≤ b.round
  past : ∀ record ∈ filed app log, record.round ≤ round
  fits : ∀ record ∈ filed app log, record.kind = .deposit →
    0 < record.amount.toNat ∧ record.amount.toNat + app.inboxMbr.toNat < 2 ^ 64

section Steps
variable {app : App} {env : Env} {s s' : State} {call : Call} {log : Log} {round : UInt64}

theorem Filed.push (h : Filed app round s log)
    (hkept : s.inboxKeys.Represents (arrivals app log)) (hround : round ≤ env.round)
    {record : InboxRecord} {e : Step} (hfiled : filed app (e :: log) = filed app log ++ [record])
    (hrecord : record.round = env.round)
    (hfits : record.kind = .deposit →
      0 < record.amount.toNat ∧ record.amount.toNat + app.inboxMbr.toNat < 2 ^ 64)
    (hbox : s'.inbox = Function.update s.inbox s.inboxCursor (some record)) :
    Filed app env.round s' (e :: log) := by
  have hcursor : (filed app log).length = s.inboxCursor.toNat :=
    (filed_length app log).trans hkept.length
  refine ⟨?_, ?_, ?_, ?_⟩
  · intro i found hfound
    rw [hbox, Function.update_apply] at hfound
    rw [hfiled]
    split_ifs at hfound with hi
    · cases hfound
      rw [hi, ← hcursor, List.getElem?_append_right le_rfl, Nat.sub_self]
      rfl
    · have hold := h.boxes i found hfound
      rw [List.getElem?_append_left (List.getElem?_eq_some_iff.mp hold).1, hold]
  · rw [hfiled]
    refine List.pairwise_append.mpr ⟨h.ordered, List.pairwise_singleton _ _, ?_⟩
    intro a ha b hb
    rw [List.mem_singleton.mp hb, hrecord]
    exact UInt64.le_trans (h.past a ha) hround
  · rw [hfiled]
    intro a ha
    rcases List.mem_append.mp ha with hold | hnew
    · exact UInt64.le_trans (h.past a hold) hround
    · rw [List.mem_singleton.mp hnew, hrecord]
      exact UInt64.le_refl _
  · rw [hfiled]
    intro a ha
    rcases List.mem_append.mp ha with hold | hnew
    · exact h.fits a hold
    · rw [List.mem_singleton.mp hnew]
      exact hfits

theorem Filed.quiet (h : Filed app round s log) (hround : round ≤ env.round) {e : Step}
    (hquiet : filed app (e :: log) = filed app log)
    (hbox : ∀ i record, s'.inbox i = some record → s.inbox i = some record) :
    Filed app env.round s' (e :: log) := by
  refine ⟨?_, ?_, ?_, ?_⟩
  · rw [hquiet]
    exact fun i record hrecord => h.boxes i record (hbox i record hrecord)
  · rw [hquiet]
    exact h.ordered
  · rw [hquiet]
    exact fun record hrecord => UInt64.le_trans (h.past record hrecord) hround
  · rw [hquiet]
    exact h.fits

omit [Crypto] in
theorem inbox_delete {index i : UInt64} {record : InboxRecord}
    (h : Function.update s.inbox index none i = some record) : s.inbox i = some record := by
  rw [Function.update_apply] at h
  split_ifs at h
  exact h

theorem Filed.step (h : Filed app round s log) (hkept : Kept app s (arrivals app log) (posted log))
    (hround : round ≤ env.round) (heffect : Effect app env s call s') :
    Filed app env.round s' (⟨s, env, call, s'⟩ :: log) := by
  cases heffect with
  | inert hcall hbalance => exact h.quiet hround (filed_quiet app hcall.isQuiet log) fun _ _ => id
  | @deposit payment recipient amount next hlive hpos hamount hnext =>
    have hfresh : s.inbox s.inboxCursor = none := hkept.inbox.fresh
    have hsum := hamount
    rw [State.boxCost, hfresh] at hsum
    refine h.push hkept.inbox hround ?_ rfl (fun _ => ⟨hpos, ?_⟩) rfl
    · simp only [filed, sub_eq_of_toNat hamount]
    · have hbound := toNat_lt payment.amount
      simp only [Option.isNone_none, ↓reduceIte] at hsum ⊢
      omega
  | request => exact h.push hkept.inbox hround rfl rfl (fun hkind => nomatch hkind) rfl
  | @prune call index record hbox hcall hfunds =>
    have hquiet : call.IsQuiet := by
      rcases hcall with ⟨rfl, -⟩ | ⟨rfl, -⟩ <;> exact True.intro
    exact h.quiet hround (filed_quiet app hquiet log) fun _ _ => inbox_delete
  | reclaim => exact h.quiet hround rfl fun _ _ => inbox_delete
  | @escape call dropped hdropped hlive hcall =>
    have hquiet : call.IsQuiet := by
      rcases hcall with ⟨rfl, -⟩ | ⟨rfl, -⟩ <;> exact True.intro
    refine h.quiet hround (filed_quiet app hquiet log) ?_
    subst hdropped
    split_ifs <;> exact fun _ _ => id
  | _ => exact h.quiet hround rfl fun _ _ => id

theorem Run.filed {funds : ℕ} (h : Run app funds round s log) : Filed app round s log := by
  induction h with
  | create =>
    exact ⟨fun _ _ h => (nomatch h), List.Pairwise.nil, fun _ h => (nomatch h),
      fun _ h => (nomatch h)⟩
  | call hrun env call hround hok ih => exact ih.step hrun.kept hround (exec_effect hok)

end Steps

end PaymentRollup.Contract
