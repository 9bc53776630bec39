import PaymentRollup.Contract.Drains

/-! # What an escape can be postponed by

Work moves the deadline, and there is only so much of it: the entries pending at the signal,
the payouts that were outstanding then, and those of the batches settled since. The last of
these the sequencer makes for itself.
-/
namespace PaymentRollup.Contract

section Obligations
variable (usize : ℕ)

/-- How many payouts the settled batches have committed to. -/
def promised (log : Log) : ℕ :=
  match (settledBatches log).mapM (Batch.decode usize) with
  | .error _ => 0
  | .ok batches => (replayBatches emptyLedger batches).elim 0 fun r => (r.2.map List.length).sum

def outstanding (log : Log) : ℕ := promised usize log - (paid log).length

/-- The obligations that can answer the signal `e`: the entries pending then, the payouts
outstanding then, and the payouts committed to since. -/
def answerable (e : Step) (before log : Log) : ℕ :=
  (e.before.inboxCursor.toNat - e.before.settledInboxCursor.toNat) + outstanding usize before +
    (promised usize log - promised usize before)

/-- How far that can move the deadline of `e`, in full tranches. -/
def lastRoundFor (e : Step) (grace : UInt64) (before log : Log) : ℕ :=
  e.env.round.toNat + grace.toNat *
    (1 + answerable usize e before log / escapeProgressTranche.toNat)

end Obligations

section Signals
variable [Crypto] {app : App} {funds : ℕ} {round : UInt64} {s : State} {e : Step}
  {after before log : Log}

theorem Run.earlier (hrun : Run app funds round s (after ++ e :: before)) :
    ∃ round₀, Run app funds round₀ e.before before ∧ round₀ ≤ e.env.round ∧
      exec app e.env e.before e.call = .ok e.after := by
  generalize hlog : after ++ e :: before = log at hrun
  induction hrun generalizing after with
  | create => simp at hlog
  | @call round₁ s₁ s' log₁ hrun env call hround hok ih =>
    cases after with
    | nil =>
      cases hlog
      exact ⟨round₁, hrun, hround, hok⟩
    | cons newest rest =>
      obtain ⟨-, hrest⟩ := List.cons.inj hlog
      exact ih hrest

omit [Crypto] in
theorem raised_append (before : Log) (hsignal : e.call = .signalEscape)
    (hnone : ∀ x ∈ after, x.call ≠ .signalEscape) :
    raised (after ++ e :: before) = some e ∧ since (after ++ e :: before) = after := by
  induction after with
  | nil =>
    rcases e with ⟨s, env, call, s'⟩
    dsimp only at hsignal
    subst hsignal
    exact ⟨rfl, rfl⟩
  | cons newest rest ih =>
    obtain ⟨hnewest, hrest⟩ := List.forall_mem_cons.mp hnone
    obtain ⟨hraised, hsince⟩ := since_cons hnewest (rest ++ e :: before)
    obtain ⟨ihraised, ihsince⟩ := ih hrest
    exact ⟨hraised.trans ihraised, hsince.trans (congrArg (newest :: ·) ihsince)⟩

omit [Crypto] in
theorem ownPayouts_le (app : App) (log : Log) : ownPayouts app log ≤ (paid log).length := by
  induction log with
  | nil => exact Nat.le_refl 0
  | cons e log ih =>
    rw [ownPayouts_cons]
    rcases e with ⟨s, env, call, s'⟩
    cases call with
    | payWithdrawal recipient amount tail =>
      rw [paid, List.length_append, List.length_singleton]
      exact Nat.add_le_add ih (Bool.toNat_le _)
    | _ => exact ih

omit [Crypto] in
theorem paid_append (after before : Log) : (paid (after ++ before)).length =
    (paid after).length + (paid before).length := by
  induction after with
  | nil => exact (Nat.zero_add _).symm
  | cons e rest ih =>
    rcases e with ⟨s, env, call, s'⟩
    cases call with
    | payWithdrawal recipient amount tail =>
      simp only [List.cons_append, paid, List.length_append, List.length_singleton, ih]
      omega
    | _ => exact ih

theorem Ledgered.promised_eq {usize : ℕ} {Q : Set Bytes} {S : AccountMap} {batches : List Batch}
    {lists : List (List Payout)} {owed : List Payout}
    (h : Ledgered app usize Q s log S batches lists owed) :
    promised usize log = (Contract.paid log).length + owed.length := by
  have hlinks := congrArg List.length h.paid
  rw [List.length_append, withdrawalLinks_length, List.length_flatMap] at hlinks
  simp only [withdrawalLinks_length] at hlinks
  simp only [promised, h.decoded, h.replayed, Option.elim]
  exact hlinks

/-- A signal has been answered, or has ended in an escape, or is still live. -/
theorem Run.faced (hrun : Run app funds round s (after ++ e :: before))
    (hsignal : e.call = .signalEscape) :
    e.before.inboxCursor ≤ s.settledInboxCursor ∨ s.escaped = true ∨
      (s.escapeDeadline ≠ none ∧ ∀ x ∈ after, x.call ≠ .signalEscape) := by
  generalize hlog : after ++ e :: before = log at hrun
  induction hrun generalizing after with
  | create => simp at hlog
  | @call round₁ s₁ s' log₁ hrun env call hround hok ih =>
    have heffect := exec_effect hok
    cases after with
    | nil =>
      cases hlog
      dsimp only at hsignal
      subst hsignal
      right
      right
      refine ⟨?_, ?_⟩
      · cases heffect with
        | inert hcall => exact hcall.elim
        | prune _ hcall => simp at hcall
        | escape _ _ _ hcall => simp at hcall
        | signal => exact Option.some_ne_none _
      · intro x hx
        cases hx
    | cons newest rest =>
      obtain ⟨rfl, hrest⟩ := List.cons.inj hlog
      rcases ih hrest with hsettled | hescaped | ⟨hlive, hnone⟩
      · exact .inl (UInt64.le_trans hsettled (heffect.settled_le hrun.kept))
      · exact .inr (.inl (heffect.escaped_stays hescaped))
      · obtain ⟨deadline, hdeadline⟩ := Option.ne_none_iff_exists'.mp hlive
        by_cases hgone : s'.escapeDeadline = none
        · rcases heffect.signal_ends hlive hgone with ⟨-, htarget⟩ | ⟨-, hescaped⟩
          · obtain ⟨e', he'⟩ := hrun.counted hdeadline
            rw [← hrest] at he'
            cases (raised_append before hsignal hnone).1.symm.trans he'.raised
            exact .inl (htarget _ he'.target)
          · exact .inr (.inl hescaped)
        · refine .inr (.inr ⟨hgone, ?_⟩)
          refine List.forall_mem_cons.mpr ⟨?_, hnone⟩
          rintro rfl
          cases heffect with
          | inert hcall => exact hcall.elim
          | prune _ hcall => simp at hcall
          | escape _ _ _ hcall => simp at hcall
          | signal _ hquiet => exact hlive hquiet

end Signals

section Results
variable [Crypto] {app : App} {usize : ℕ} {guest : PublicValues → Execution} {Q : Set Bytes}
  {funds : ℕ} {round : UInt64} {s : State} {e : Step} {after before : Log}

theorem Run.deadline_le (hQ : Ideal Q) (hrun : Run app funds round s (after ++ e :: before))
    (hlog : ∀ x ∈ after ++ e :: before, x.Sound app usize guest Q)
    (hsignal : e.call = .signalEscape) (hnone : ∀ x ∈ after, x.call ≠ .signalEscape)
    {deadline : UInt64} (hlive : s.escapeDeadline = some deadline) :
    deadline.toNat ≤ lastRoundFor usize e s.escapeGrace before (after ++ e :: before) := by
  obtain ⟨e', he'⟩ := hrun.counted hlive
  obtain ⟨hraised, hsince⟩ := raised_append before hsignal hnone
  cases hraised.symm.trans he'.raised
  obtain ⟨progress, -, hcount⟩ := he'.progress
  rw [hsince] at hcount
  obtain ⟨S, batches, lists, owed, h⟩ := hrun.ledgered hQ hlog
  obtain ⟨round₀, hrun₀, -⟩ := hrun.earlier
  have hlog₀ : ∀ x ∈ before, x.Sound app usize guest Q := fun x hx =>
    hlog x (List.mem_append_right _ (List.mem_cons_of_mem _ hx))
  obtain ⟨S₀, batches₀, lists₀, owed₀, h₀⟩ := hrun₀.ledgered hQ hlog₀
  have hpromised := h.promised_eq
  have hpromised₀ := h₀.promised_eq
  have hpaid := paid_append after (e :: before)
  have hquiet : paid (e :: before) = paid before :=
    (projections_quiet app e (by rw [hsignal]; exact True.intro) before).2.2.2.1
  have hown := ownPayouts_le app after
  have hpending := UInt64.lt_iff_toNat_lt.mp (hrun.targetPending _ he'.target).1
  rw [hquiet] at hpaid
  have htotal : escapeProgressTranche.toNat * crossings app after ≤
      answerable usize e before (after ++ e :: before) := by
    simp only [answerable, outstanding]
    omega
  have htranches := (Nat.le_div_iff_mul_le (by decide : 0 < escapeProgressTranche.toNat)).mpr
    ((Nat.mul_comm ..).trans_le htotal)
  rw [he'.deadline, hsince, lastRoundFor]
  exact Nat.add_le_add_left (Nat.mul_le_mul_left _ (Nat.add_le_add_left htranches 1)) _

/-- While a signal is live its deadline is no later than the entries pending when it was raised,
the payouts outstanding then and the payouts committed to since can take it; and once that
round has passed, whatever was pending is settled, or the rollup has escaped, or anyone can
escape it. -/
theorem escape_postponed_by_work (hQ : Ideal Q)
    (hrun : Run app funds round s (after ++ e :: before))
    (hlog : ∀ x ∈ after ++ e :: before, x.Sound app usize guest Q)
    (hsignal : e.call = .signalEscape) :
    (∀ deadline, s.escapeDeadline = some deadline → (∀ x ∈ after, x.call ≠ .signalEscape) →
      deadline.toNat ≤ lastRoundFor usize e s.escapeGrace before (after ++ e :: before)) ∧
    ∀ env : Env, lastRoundFor usize e s.escapeGrace before (after ++ e :: before) <
        env.round.toNat →
      e.before.inboxCursor ≤ s.settledInboxCursor ∨ s.escaped = true ∨
        ∃ s', exec app env s .executeEscape = .ok s' ∧ s'.escaped = true := by
  constructor
  · intro deadline hlive hnone
    exact hrun.deadline_le hQ hlog hsignal hnone hlive
  · intro env hpast
    rcases hrun.faced hsignal with hsettled | hescaped | ⟨hlive, hnone⟩
    · exact .inl hsettled
    · exact .inr (.inl hescaped)
    · right
      cases hescaped : s.escaped with
      | true => exact .inl rfl
      | false =>
        right
        obtain ⟨deadline, hdeadline⟩ := Option.ne_none_iff_exists'.mp hlive
        have hbound := hrun.deadline_le hQ hlog hsignal hnone hdeadline
        exact executeEscape_ok hescaped hdeadline
          (UInt64.lt_iff_toNat_lt.mpr (Nat.lt_of_le_of_lt hbound hpast))

end Results

section Sample
attribute [local instance] Crypto.unsigned

def sampleWatchedStrings : List Bytes :=
  [depositString Word.zero sampleAddress 300000, seedString sampleApp 10]

/-- The deposit is one entry, so the first deadline stands. -/
theorem sampleWatched_postponed : ∃ e after before, sampleWatched.2 = after ++ e :: before ∧
    (∀ deadline, sampleWatched.1.escapeDeadline = some deadline →
      (∀ x ∈ after, x.call ≠ .signalEscape) →
      deadline.toNat ≤ lastRoundFor (2 ^ 32) e sampleWatched.1.escapeGrace before sampleWatched.2) ∧
    ∀ env : Env, lastRoundFor (2 ^ 32) e sampleWatched.1.escapeGrace before sampleWatched.2 <
        env.round.toNat →
      e.before.inboxCursor ≤ sampleWatched.1.settledInboxCursor ∨ sampleWatched.1.escaped = true ∨
        ∃ s', exec sampleApp env sampleWatched.1 .executeEscape = .ok s' ∧ s'.escaped = true := by
  have hcall : (sampleWatched.2.map Step.call)[1]? = some .signalEscape := by decide +kernel
  have hideal : Ideal {string | string ∈ sampleWatchedStrings} := .of_list (by decide +kernel)
  have hsound : ∀ x ∈ sampleWatched.2, x.Sound sampleApp (2 ^ 32) sampleGuest
      {string | string ∈ sampleWatchedStrings} := by decide +kernel
  have hrun := sampleWatched_run
  obtain ⟨first, e, before, hlog⟩ : ∃ first e before, sampleWatched.2 = [first] ++ e :: before := by
    generalize sampleWatched.2 = log at hcall
    match log with
    | first :: e :: before => exact ⟨first, e, before, rfl⟩
  rw [hlog] at hcall hsound hrun ⊢
  refine ⟨e, [first], before, rfl, ?_⟩
  exact escape_postponed_by_work hideal hrun hsound (Option.some.inj hcall)

/-- The payouts of a batch settled after the accusation postpone it for another grace period. -/
theorem drained_postponed : ∃ (s : State) (e : Step) (after before : Log) (deadline : UInt64),
    Run sampleApp 100000 200 s (after ++ e :: before) ∧
    (∀ x ∈ after ++ e :: before, x.Genuine (2 ^ 32)) ∧ e.call = .signalEscape ∧
    (∀ x ∈ after, x.call ≠ .signalEscape) ∧ s.escapeDeadline = some deadline ∧
    outstanding (2 ^ 32) before = 0 ∧
    e.env.round.toNat + s.escapeGrace.toNat *
        (1 + (e.before.inboxCursor.toNat - e.before.settledInboxCursor.toNat +
          outstanding (2 ^ 32) before) / escapeProgressTranche.toNat) < deadline.toNat := by
  obtain ⟨e, before, block, l, x, p, s, log, h⟩ :=
    exists_drained 1000 sampleKey (by decide) (by decide) sample_unlooped
  obtain ⟨s', deadline, hok, hdeadline, howing⟩ :=
    h.extend (by decide) (sampleEnv (sampleAccount 1) 200) rfl rfl
  obtain ⟨-, made, rfl, -⟩ := h.follows.made
  let last : Step := ⟨s, sampleEnv (sampleAccount 1) 200, .payWithdrawal drainPayout.1
    drainPayout.2 (withdrawalTerminal sampleApp), s'⟩
  have hrun : Run sampleApp 100000 200 s' ((last :: made) ++ e :: before) :=
    h.run.call (sampleEnv (sampleAccount 1) 200) _ (UInt64.le_refl _) hok
  have hfilled := h.accused.filled
  have hnone : outstanding (2 ^ 32) before = 0 := by
    rw [outstanding, promised, hfilled.settled]
    exact Nat.zero_sub _
  have hnewest : ∀ x ∈ last :: made, x.call ≠ .signalEscape := by
    rcases hrun.faced h.accused.signal with hreached | hescaped | ⟨-, hnone⟩
    · rw [UInt64.le_iff_toNat_le, hfilled.cursor, howing.cursor] at hreached
      exact absurd hreached (by decide)
    · exact absurd (howing.live.symm.trans hescaped) (by decide)
    · exact hnone
  have hgenuine : ∀ x ∈ (last :: made) ++ e :: before, x.Genuine (2 ^ 32) := by
    refine List.forall_mem_cons.mpr ⟨⟨id, ?_⟩, h.genuine⟩
    rintro _ _ _ ⟨⟩
  refine ⟨s', e, last :: made, before, deadline, hrun, hgenuine, h.accused.signal, hnewest,
    howing.deadline, hnone, ?_⟩
  rw [hnone, hfilled.cursor, hfilled.fresh.cursor, h.accused.round, howing.grace, hdeadline]
  decide

end Sample

end PaymentRollup.Contract
