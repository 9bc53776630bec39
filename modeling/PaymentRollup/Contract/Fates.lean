import PaymentRollup.Contract.Frozen
import PaymentRollup.Contract.Watchdog

/-! # Every inbox entry has exactly one fate

A settlement consumes the entries its cursor passes; a box is closed once, by the one call
that its kind and its place before or after the settled cursor allow.
-/
namespace PaymentRollup.Contract

section Counting

/-- The inbox box a call closes. -/
def Call.closes? : Call → Option UInt64
  | .pruneRequest index => some index
  | .pruneDeposit index => some index
  | .reclaimDeposit index => some index
  | _ => none

def closed (log : Log) : List UInt64 := log.filterMap fun e => e.call.closes?

/-- The settled cursor passed an entry in this call. -/
def Step.consumes (i : UInt64) (e : Step) : Bool :=
  decide (e.before.settledInboxCursor ≤ i ∧ i < e.after.settledInboxCursor)

theorem closed_none {e : Step} (h : e.call.closes? = none) (log : Log) :
    closed (e :: log) = closed log :=
  List.filterMap_cons_none h

theorem closed_some {e : Step} {i : UInt64} (h : e.call.closes? = some i) (log : Log) :
    closed (e :: log) = i :: closed log :=
  List.filterMap_cons_some h

end Counting

section Closing
variable [Crypto] {app : App} {env : Env} {s s' : State} {call : Call} {log : Log}

/-- What a call that closes the box of `record` had to meet, and whom it paid. -/
inductive Closing (app : App) (e : Step) (i : UInt64) (record : InboxRecord) : Prop
  | pruneRequest (hcall : e.call = .pruneRequest i) (hkind : record.kind = .request)
      (hanswered : i < e.before.settledInboxCursor ∨ e.before.escaped = true)
      (hpaid : (e.before.deleteInboxBox app i).pay app e.env record.payer app.inboxMbr =
        .ok e.after)
  | pruneDeposit (hcall : e.call = .pruneDeposit i) (hkind : record.kind = .deposit)
      (hsettled : i < e.before.settledInboxCursor)
      (hpaid : (e.before.deleteInboxBox app i).pay app e.env record.payer app.inboxMbr =
        .ok e.after)
  | reclaimDeposit (hcall : e.call = .reclaimDeposit i) (hkind : record.kind = .deposit)
      (hescaped : e.before.escaped = true) (hpending : e.before.settledInboxCursor ≤ i)
      {amount : UInt64} (hamount : amount.toNat = record.amount.toNat + app.inboxMbr.toNat)
      (hpaid : (e.before.deleteInboxBox app i).pay app e.env record.payer amount = .ok e.after)

theorem closing_of_ok {i : UInt64} (hok : exec app env s call = .ok s')
    (hcloses : call.closes? = some i) :
    ∃ record, s.inbox i = some record ∧ Closing app ⟨s, env, call, s'⟩ i record := by
  cases call with
  | pruneRequest index =>
    cases hcloses
    simp only [exec, pruneRequest, bind_eq_ok, assert_eq_ok, demand_eq_ok] at hok
    obtain ⟨record, hbox, -, hkind, -, hanswered, hpaid⟩ := hok
    exact ⟨record, hbox, .pruneRequest rfl hkind hanswered hpaid⟩
  | pruneDeposit index =>
    cases hcloses
    simp only [exec, pruneDeposit, bind_eq_ok, assert_eq_ok, demand_eq_ok] at hok
    obtain ⟨record, hbox, -, hkind, -, hsettled, hpaid⟩ := hok
    exact ⟨record, hbox, .pruneDeposit rfl hkind hsettled hpaid⟩
  | reclaimDeposit index =>
    cases hcloses
    simp only [exec, reclaimDeposit, bind_eq_ok, assert_eq_ok, demand_eq_ok, add_eq_ok] at hok
    obtain ⟨-, hescaped, -, hpending, -, -, record, hbox, -, hkind, amount, hamount, hpaid⟩ := hok
    exact ⟨record, hbox, .reclaimDeposit rfl hkind hescaped hpending hamount hpaid⟩
  | _ => cases hcloses

omit [Crypto] in
theorem Closing.gone {e : Step} {i : UInt64} {record : InboxRecord}
    (h : Closing app e i record) : e.after.inbox i = none := by
  have hpay : ∀ {amount : UInt64},
      (e.before.deleteInboxBox app i).pay app e.env record.payer amount = .ok e.after →
        e.after.inbox i = none := by
    intro amount hpaid
    obtain ⟨-, -, -, hafter⟩ := State.pay_eq_ok.mp hpaid
    rw [← hafter]
    exact Function.update_self ..
  cases h with
  | pruneRequest _ _ _ hpaid => exact hpay hpaid
  | pruneDeposit _ _ _ hpaid => exact hpay hpaid
  | reclaimDeposit _ _ _ _ _ hpaid => exact hpay hpaid

theorem Effect.arrived_le (h : Effect app env s call s') : s.inboxCursor ≤ s'.inboxCursor := by
  cases h with
  | deposit _ _ _ hnext =>
    rw [UInt64.le_iff_toNat_le]
    exact hnext ▸ Nat.le_succ _
  | request _ _ _ _ _ hnext =>
    rw [UInt64.le_iff_toNat_le]
    exact hnext ▸ Nat.le_succ _
  | escape dropped hdropped =>
    subst hdropped
    split_ifs <;> exact UInt64.le_refl _
  | _ => exact UInt64.le_refl _

/-- Boxes are only created at the cursor, so one that was deleted never comes back. -/
theorem Effect.inbox_none (h : Effect app env s call s') {i : UInt64} (hi : i < s.inboxCursor)
    (hnone : s.inbox i = none) : s'.inbox i = none := by
  have hne : i ≠ s.inboxCursor := UInt64.ne_of_lt hi
  cases h with
  | deposit => exact (Function.update_of_ne hne _ _).trans hnone
  | request => exact (Function.update_of_ne hne _ _).trans hnone
  | prune | reclaim =>
    simp only [Function.update_apply]
    split_ifs
    · rfl
    · exact hnone
  | escape dropped hdropped =>
    subst hdropped
    split_ifs <;> exact hnone
  | _ => exact hnone

end Closing

section Runs
variable [Crypto] {app : App} {env : Env} {s s' : State} {call : Call} {log : Log} {funds : ℕ}
  {round : UInt64}

theorem filed_cons (e : Step) {i : ℕ} {record : InboxRecord}
    (h : (filed app log)[i]? = some record) : (filed app (e :: log))[i]? = some record := by
  have hmore : filed app log <+: filed app (e :: log) := by
    rcases e with ⟨before, env, call, after⟩
    cases call <;> first | exact List.prefix_append _ _ | exact List.prefix_refl _
  obtain ⟨later, hlater⟩ := hmore
  rw [← hlater, List.getElem?_append_left (List.getElem?_eq_some_iff.mp h).1]
  exact h

/-- What is known of the boxes closed so far. -/
structure Closings (app : App) (s : State) (log : Log) : Prop where
  nodup : (closed log).Nodup
  gone : ∀ i ∈ closed log, i < s.inboxCursor ∧ s.inbox i = none
  each : ∀ e ∈ log, ∀ i, e.call.closes? = some i →
    ∃ record, (filed app log)[i.toNat]? = some record ∧ Closing app e i record
  frozen : ∀ e ∈ log, ∀ i, e.call = .reclaimDeposit i →
    s.escaped = true ∧ s.settledInboxCursor ≤ i

theorem Closings.step (h : Closings app s log) (hrun : Run app funds round s log)
    (hok : exec app env s call = .ok s') : Closings app s' (⟨s, env, call, s'⟩ :: log) := by
  have heffect := exec_effect hok
  have hold : ∀ i ∈ closed log, i < s'.inboxCursor ∧ s'.inbox i = none := by
    intro i hi
    obtain ⟨harrived, hnone⟩ := h.gone i hi
    exact ⟨UInt64.lt_of_lt_of_le harrived heffect.arrived_le, heffect.inbox_none harrived hnone⟩
  have hclosing : ∀ i, call.closes? = some i → ∃ record, s.inbox i = some record ∧
      Closing app ⟨s, env, call, s'⟩ i record := fun i hi => closing_of_ok hok hi
  have heach : ∀ e ∈ (⟨s, env, call, s'⟩ :: log : Log), ∀ i, e.call.closes? = some i →
      ∃ record, (filed app (⟨s, env, call, s'⟩ :: log))[i.toNat]? = some record ∧
        Closing app e i record := by
    intro e he i hi
    rcases List.mem_cons.mp he with rfl | hmem
    · obtain ⟨record, hbox, hclosing⟩ := hclosing i hi
      exact ⟨record, filed_cons _ (hrun.filed.boxes i record hbox), hclosing⟩
    · obtain ⟨record, hrecord, hclosing⟩ := h.each e hmem i hi
      exact ⟨record, filed_cons _ hrecord, hclosing⟩
  have hfrozen : ∀ e ∈ (⟨s, env, call, s'⟩ :: log : Log), ∀ i, e.call = .reclaimDeposit i →
      s'.escaped = true ∧ s'.settledInboxCursor ≤ i := by
    intro e he i hcall
    rcases List.mem_cons.mp he with rfl | hmem
    · obtain rfl : call = .reclaimDeposit i := hcall
      cases heffect with
      | inert hcall => exact hcall.elim
      | prune _ hcall => simp at hcall
      | escape _ _ _ hcall => simp at hcall
      | reclaim hescaped hpending => exact ⟨hescaped, hpending⟩
    · obtain ⟨hescaped, hpending⟩ := h.frozen e hmem i hcall
      rw [heffect.settled_frozen hescaped]
      exact ⟨heffect.escaped_stays hescaped, hpending⟩
  cases hcloses : call.closes? with
  | none =>
    have hsame : closed (⟨s, env, call, s'⟩ :: log) = closed log := closed_none hcloses log
    exact ⟨hsame ▸ h.nodup, hsame ▸ hold, heach, hfrozen⟩
  | some i =>
    have hmore : closed (⟨s, env, call, s'⟩ :: log) = i :: closed log := closed_some hcloses log
    obtain ⟨record, hbox, hclosing⟩ := hclosing i hcloses
    have harrived : i < s.inboxCursor := by
      have hrecords := hrun.kept.inbox.box i record hbox
      have hlt := (List.getElem?_eq_some_iff.mp hrecords.item).1
      rw [hrun.kept.inbox.length] at hlt
      exact UInt64.lt_iff_toNat_lt.mpr hlt
    refine ⟨?_, ?_, heach, hfrozen⟩
    · rw [hmore]
      refine List.nodup_cons.mpr ⟨?_, h.nodup⟩
      intro hmem
      exact absurd (hbox.symm.trans (h.gone i hmem).2) (Option.some_ne_none _)
    · rw [hmore]
      intro j hj
      rcases List.mem_cons.mp hj with rfl | hmem
      · exact ⟨UInt64.lt_of_lt_of_le harrived heffect.arrived_le, hclosing.gone⟩
      · exact hold j hmem

theorem Run.closings (hrun : Run app funds round s log) : Closings app s log := by
  induction hrun with
  | create =>
    refine ⟨List.nodup_nil, ?_, ?_, ?_⟩ <;> intro _ h <;> cases h
  | call hrun env call hround hok ih => exact ih.step hrun hok

/-- Each entry below the settled cursor was passed by it in exactly one call. -/
theorem Run.consumed (hrun : Run app funds round s log) (i : UInt64) :
    log.countP (Step.consumes i) = if i < s.settledInboxCursor then 1 else 0 := by
  induction hrun with
  | create => simp [createApplication]
  | @call round s s' log hrun env call hround hok ih =>
    have hle := (exec_effect hok).settled_le hrun.kept
    have hstep : Step.consumes i ⟨s, env, call, s'⟩ =
        decide (s.settledInboxCursor ≤ i ∧ i < s'.settledInboxCursor) := rfl
    rw [List.countP_cons, ih, hstep]
    simp only [UInt64.lt_iff_toNat_lt, UInt64.le_iff_toNat_le, decide_eq_true_eq] at hle ⊢
    split_ifs <;> omega

end Runs

section Results
variable [Crypto] {app : App} {s : State} {log : Log} {funds : ℕ} {round : UInt64}

/-- Which call a deposit's box is still good for once the rollup has escaped: the outcome of the
one is that of its inner payment, and the other is refused. -/
inductive Refundable (app : App) (s : State) (i : UInt64) (record : InboxRecord) : Prop
  | prune (hsettled : i < s.settledInboxCursor)
      (hprune : ∀ env, exec app env s (.pruneDeposit i) =
        (s.deleteInboxBox app i).pay app env record.payer app.inboxMbr)
      (hreclaim : ∀ env s', exec app env s (.reclaimDeposit i) ≠ .ok s')
  | reclaim (hpending : s.settledInboxCursor ≤ i) {amount : UInt64}
      (hamount : amount.toNat = record.amount.toNat + app.inboxMbr.toNat)
      (hreclaim : ∀ env, exec app env s (.reclaimDeposit i) =
        (s.deleteInboxBox app i).pay app env record.payer amount)
      (hprune : ∀ env s', exec app env s (.pruneDeposit i) ≠ .ok s')

theorem Run.refundable (hrun : Run app funds round s log) (hescaped : s.escaped = true)
    {i : UInt64} {record : InboxRecord} (hbox : s.inbox i = some record)
    (hkind : record.kind = .deposit) : Refundable app s i record := by
  by_cases hsettled : i < s.settledInboxCursor
  · refine .prune hsettled ?_ ?_
    · intro env
      simp [exec, pruneDeposit, hbox, demand, assert, require, hkind, hsettled]
    · intro env s' hok
      obtain ⟨found, -, hclosing⟩ := closing_of_ok hok rfl
      cases hclosing with
      | pruneRequest hcall => cases hcall
      | pruneDeposit hcall => cases hcall
      | reclaimDeposit _ _ _ hpending =>
        exact absurd hsettled (UInt64.not_lt.mpr hpending)
  · have hpending := UInt64.not_lt.mp hsettled
    have hrecords := hrun.kept.inbox.box i record hbox
    have harrived : i < s.inboxCursor := by
      have hlt := (List.getElem?_eq_some_iff.mp hrecords.item).1
      rw [hrun.kept.inbox.length] at hlt
      exact UInt64.lt_iff_toNat_lt.mpr hlt
    have hmem := List.mem_of_getElem? (hrun.filed.boxes i record hbox)
    obtain ⟨amount, hadd⟩ := exists_add (hrun.filed.fits record hmem hkind).2
    refine .reclaim hpending (add_eq_ok.mp hadd) ?_ ?_
    · intro env
      simp [exec, reclaimDeposit, hbox, demand, assert, require, hkind, hescaped, hpending, harrived,
        hadd]
    · intro env s' hok
      obtain ⟨found, -, hclosing⟩ := closing_of_ok hok rfl
      cases hclosing with
      | pruneRequest hcall => cases hcall
      | pruneDeposit _ _ hbelow => exact hsettled hbelow
      | reclaimDeposit hcall => cases hcall

structure Fates (app : App) (s : State) (log : Log) : Prop where
  /-- Every entry below the settled cursor was consumed by exactly one call, a settlement. -/
  consumed : ∀ i, log.countP (Step.consumes i) = if i < s.settledInboxCursor then 1 else 0
  settled : ∀ e ∈ log, ∀ i, e.consumes i = true →
    ∃ verifier signals p, e.call = .verifyBatch verifier signals p
  /-- No box is closed twice, and each was closed as its kind and place allow, to the payer that
  was filed. -/
  once : (closed log).Nodup
  each : ∀ e ∈ log, ∀ i, e.call.closes? = some i →
    ∃ record, (filed app log)[i.toNat]? = some record ∧ Closing app e i record
  /-- What was refunded was never consumed. -/
  apart : ∀ e ∈ log, ∀ i, e.call = .reclaimDeposit i → s.settledInboxCursor ≤ i
  remaining : s.escaped = true → ∀ i record, s.inbox i = some record → record.kind = .deposit →
    Refundable app s i record

theorem Effect.settles_of_consumes {env : Env} {s' : State} {call : Call}
    (h : Effect app env s call s') {i : UInt64}
    (hconsumes : Step.consumes i ⟨s, env, call, s'⟩ = true) :
    ∃ verifier signals p, call = .verifyBatch verifier signals p := by
  have hmoved : s.settledInboxCursor ≠ s'.settledInboxCursor := by
    intro hsame
    obtain ⟨hfrom, hto⟩ := of_decide_eq_true hconsumes
    simp only at hfrom hto
    rw [hsame] at hfrom
    exact absurd hto (UInt64.not_lt.mpr hfrom)
  cases h with
  | settle => exact ⟨_, _, _, rfl⟩
  | escape dropped hdropped =>
    subst hdropped
    exact absurd (by split_ifs <;> rfl) hmoved
  | _ => exact absurd rfl hmoved

theorem Run.settles (hrun : Run app funds round s log) : ∀ e ∈ log, ∀ i, e.consumes i = true →
    ∃ verifier signals p, e.call = .verifyBatch verifier signals p := by
  induction hrun with
  | create =>
    intro e he
    cases he
  | call hrun env call hround hok ih =>
    intro e he i hconsumes
    rcases List.mem_cons.mp he with rfl | hmem
    · exact (exec_effect hok).settles_of_consumes hconsumes
    · exact ih e hmem i hconsumes

/-- Every inbox entry is consumed once or refunded once, never both, and its box is closed
once, by the call meant for it. -/
theorem deposits_have_one_fate (hrun : Run app funds round s log) : Fates app s log where
  consumed := hrun.consumed
  settled := hrun.settles
  once := hrun.closings.nodup
  each := hrun.closings.each
  apart := fun e he i hcall => (hrun.closings.frozen e he i hcall).2
  remaining := fun hescaped _ _ hbox hkind => hrun.refundable hescaped hbox hkind

end Results

section Sample
attribute [local instance] Crypto.unsigned

/-- Two deposits, an escape, and one of them taken back. -/
def sampleReclaimed : List (Env × Call) :=
  sampleDeposit :: sampleEscape ++ [(sampleEnv (sampleAccount 8) 1300, .reclaimDeposit 1)]

theorem sampleReclaimed_run : Run sampleApp 100000 1300 (samplePlayed 100000 sampleReclaimed).1
    (samplePlayed 100000 sampleReclaimed).2 :=
  samplePlayed_run 100000 sampleReclaimed (by decide +kernel) (by decide)

theorem sampleReclaimed_fates : Fates sampleApp (samplePlayed 100000 sampleReclaimed).1
    (samplePlayed 100000 sampleReclaimed).2 :=
  deposits_have_one_fate sampleReclaimed_run

end Sample

end PaymentRollup.Contract
