import PaymentRollup.Contract.Filing
import PaymentRollup.Contract.Playing
import PaymentRollup.Contract.Progress

/-! # The invariant of the contract's state

Whatever anyone calls, the keys that are deleted together exist together, the chains are
folds of what arrived, the boxes a settlement may still need are there as filed, and a batch
can be opened whenever the last one has been paid out.
-/
namespace PaymentRollup.Contract

section Invariant
variable [Crypto] {app : App} {env : Env} {s s' : State} {call : Call}

/-- The target of a live signal has been filed and has not been settled. -/
def State.TargetPending (s : State) : Prop :=
  ∀ target ∈ s.escapeInboxTarget,
    s.settledInboxCursor < target ∧ target ≤ s.inboxCursor

omit [Crypto] in
theorem Answered.target_eq {grace old cursor : UInt64}
    {deadline target progress deadline' target' progress' : Option UInt64}
    (h : Answered grace old cursor deadline target progress deadline' target' progress') :
    ∀ t ∈ target', target = some t ∧ cursor < t := by
  cases h with
  | quiet => exact fun t ht => nomatch ht
  | reached => exact fun t ht => nomatch ht
  | credited hlt =>
    rintro t ⟨⟩
    exact ⟨rfl, hlt⟩

theorem Effect.targetPending (h : Effect app env s call s') (hs : s.TargetPending) :
    s'.TargetPending := by
  cases h with
  | deposit _ _ _ hnext =>
    intro target ht
    refine ⟨(hs target ht).1, UInt64.le_trans (hs target ht).2 ?_⟩
    exact UInt64.le_iff_toNat_le.mpr (hnext ▸ Nat.le_succ _)
  | request _ _ _ _ _ hnext =>
    intro target ht
    refine ⟨(hs target ht).1, UInt64.le_trans (hs target ht).2 ?_⟩
    exact UInt64.le_iff_toNat_le.mpr (hnext ▸ Nat.le_succ _)
  | signal _ _ hpending =>
    rintro target ⟨⟩
    exact ⟨hpending, UInt64.le_refl _⟩
  | escape => exact fun target ht => nomatch ht
  | settle _ _ _ _ _ _ _ _ _ _ _ hanswer =>
    intro target ht
    obtain ⟨htarget, hlt⟩ := hanswer.target_eq target ht
    exact ⟨hlt, (hs target htarget).2⟩
  | _ => exact hs

theorem Run.targetPending {funds : ℕ} {round : UInt64} {log : Log}
    (h : Run app funds round s log) : s.TargetPending := by
  induction h with
  | create => exact fun target ht => nomatch ht
  | call hrun env call hround hok ih => exact (exec_effect hok).targetPending ih

structure Invariant (app : App) (s : State) (log : Log) : Prop where
  batch : (s.batchLength = none ∧ s.postedLength = none ∧ s.chunkAccumulator = none ∧
      s.sealedInboxChain = none ∧ s.sealedInboxCursor = none) ∨
    ∃ length posted accumulator cursor, s.batchLength = some length ∧
      s.postedLength = some posted ∧ s.chunkAccumulator = some accumulator ∧
      s.sealedInboxChain = some (checkpointAt (arrivals app log) cursor.toNat) ∧
      s.sealedInboxCursor = some cursor ∧ posted ≤ length ∧ s.settledInboxCursor ≤ cursor ∧
      cursor ≤ s.inboxCursor ∧ s.pendingWithdrawals = none
  arrived : (arrivals app log).length = s.inboxCursor.toNat
  chain : s.inboxChain = checkpointAt (arrivals app log) s.inboxCursor.toNat
  settledChain : s.settledInboxChain = checkpointAt (arrivals app log) s.settledInboxCursor.toNat
  settled : s.settledInboxCursor ≤ s.inboxCursor
  signal : (s.escapeDeadline = none ∧ s.escapeInboxTarget = none ∧ s.escapeProgress = none) ∨
    ∃ deadline target progress, s.escapeDeadline = some deadline ∧
      s.escapeInboxTarget = some target ∧ s.escapeProgress = some progress ∧
      s.settledInboxCursor < target ∧ target ≤ s.inboxCursor ∧ progress < 256
  boxes : s.escaped = false → ∀ i, s.settledInboxCursor ≤ i → i < s.inboxCursor →
    ∃ record, s.inbox i = some record ∧ (filed app log)[i.toNat]? = some record ∧
      (arrivals app log)[i.toNat]? = some record.item ∧
      record.chainAfter = checkpointAt (arrivals app log) (i.toNat + 1)
  /-- The creator can open a batch for any target that has arrived. -/
  opens : s.escaped = false → s.batchLength = none → s.pendingWithdrawals = none →
    ∀ env length target, env.sender = app.creator → s.settledInboxCursor ≤ target →
      target ≤ s.inboxCursor → ∃ s', exec app env s (.openBatch length target) = .ok s' ∧
        s'.sealedInboxChain = some (checkpointAt (arrivals app log) target.toNat)

/-- The keys of a batch exist together, and so do those of a signal; each chain is the fold of
its entries; every entry not yet settled has its box as filed; and once the last batch has been
paid out another can be opened. -/
theorem contract_invariant {funds : ℕ} {round : UInt64} {log : Log}
    (hrun : Run app funds round s log) : Invariant app s log := by
  have hkept := hrun.kept
  have hlength : (arrivals app log).length = s.inboxCursor.toNat := hkept.inbox.length
  have hsettled : s.settledInboxCursor.toNat ≤ (arrivals app log).length := hkept.inbox.settled
  refine ⟨?batch, hlength, ?chain, hkept.inbox.settledChain, ?cursor, ?signal, ?boxes, ?opens⟩
  case batch =>
    rcases hkept.batch with ⟨haccumulator, hbatch, hposted, hchain, hcursor⟩ | ⟨n, c, hposting⟩
    · exact .inl ⟨hbatch, hposted, haccumulator, hchain, hcursor⟩
    · obtain ⟨posted, hposted, -, hle⟩ := hposting.posted
      refine .inr ⟨n, posted, _, c, hposting.length, hposted, hposting.accumulator,
        hposting.sealedChain, hposting.sealedCursor, hle, ?_, ?_, hposting.unpaid⟩
      · exact UInt64.le_iff_toNat_le.mpr hposting.sealedFrom
      · exact UInt64.le_iff_toNat_le.mpr (hlength ▸ hposting.sealedTo)
  case chain =>
    have hchain : s.inboxChain = foldInbox inboxChainGenesis (arrivals app log) :=
      hkept.inbox.chain
    rw [hchain, checkpointAt, List.take_of_length_le hlength.le]
  case cursor => exact UInt64.le_iff_toNat_le.mpr (hlength ▸ hsettled)
  case signal =>
    have hsignal := hkept.signal
    have hshort := hrun.progressShort
    have hpending := hrun.targetPending
    unfold State.TargetPending at hpending
    generalize s.escapeDeadline = deadline at hsignal ⊢
    generalize s.escapeInboxTarget = target at hsignal hpending ⊢
    generalize s.escapeProgress = progress at hsignal hshort ⊢
    cases hsignal with
    | quiet => exact .inl ⟨rfl, rfl, rfl⟩
    | live deadline target progress =>
      obtain ⟨hahead, harrived⟩ := hpending target rfl
      exact .inr ⟨deadline, target, progress, rfl, rfl, rfl, hahead, harrived, hshort progress rfl⟩
  case boxes =>
    intro hlive i hfrom hto
    rw [UInt64.le_iff_toNat_le] at hfrom
    rw [UInt64.lt_iff_toNat_lt, ← hlength] at hto
    obtain ⟨record, hrecord⟩ := Option.ne_none_iff_exists'.mp (hkept.inbox.kept hlive i hfrom hto)
    have hbox : s.inbox i = some record := hrecord
    have hrecords := hkept.inbox.box i record hrecord
    exact ⟨record, hbox, hrun.filed.boxes i record hbox, hrecords.item, hrecords.chain⟩
  case opens =>
    intro hlive hclosed hunpaid env length target hcreator hfrom hto
    obtain ⟨s', hok⟩ := openBatch_ok (n := length) hcreator hlive hclosed hunpaid hkept.inbox
      hfrom hto
    refine ⟨s', hok, ?_⟩
    cases openBatch_effect hok with
    | inert hcall => exact hcall.elim
    | prune _ hcall => simp at hcall
    | escape _ _ _ hcall => simp at hcall
    | openBatch _ _ _ _ _ _ hchain =>
      exact congrArg some (checkpoint_eq_ok hkept.inbox hchain)

end Invariant

section Sample
attribute [local instance] Crypto.unsigned

theorem sampleWatched_invariant : Invariant sampleApp sampleWatched.1 sampleWatched.2 :=
  contract_invariant sampleWatched_run

end Sample

end PaymentRollup.Contract
