import PaymentRollup.Contract.Progress
import PaymentRollup.Contract.Traceless

/-! # Settling is atomic

A batch is posted call by call while everybody else goes on calling. Posting works on keys of
its own and commutes with the calls of others, so every run has a serial one beside it: the
same calls in the same order, in which a batch is opened, posted and settled in one go by the
call that settled it, and batches that never settled are not posted at all.
-/
namespace PaymentRollup.Contract

section Statements
variable [Crypto]

def filing (n target : UInt64) (chunks : List Bytes) : List Call :=
  .openBatch n target :: chunks.map .accumulateChunk

/-- Logs in which a batch is only ever posted by whoever settles it, right before. -/
inductive Serial : Log → Prop
  | nil : Serial []
  | other {e : Step} {log : Log} (h : Serial log) (hposting : e.call.isPosting = false)
      (hsettles : e.call.settles? = none) : Serial (e :: log)
  | settlement {e : Step} {unit log : Log} {n target : UInt64} {chunks : List Bytes}
      (h : Serial log) (hsettles : e.call.settles?.isSome = true)
      (hunit : unit.map Step.made = (filing n target chunks).reverse.map (Prod.mk e.env)) :
      Serial (e :: (unit ++ log))

omit [Crypto] in
/-- The state `t`, with the batch that is being posted in `s`. -/
def State.withBatch (t s : State) : State :=
  { t with
    chunkAccumulator := s.chunkAccumulator
    batchLength := s.batchLength
    postedLength := s.postedLength
    sealedInboxChain := s.sealedInboxChain
    sealedInboxCursor := s.sealedInboxCursor }

structure Opens (t : State) (target : UInt64) (chain : Word) : Prop where
  live : t.escaped = false
  closed : t.batchLength = none
  unpaid : t.pendingWithdrawals = none
  hfrom : t.settledInboxCursor ≤ target
  hto : target ≤ t.inboxCursor
  checkpoint : t.checkpoint target = .ok chain

end Statements

section Posting
variable [Crypto] {app : App} {env env' : Env} {s s' t : State} {call : Call} {log : Log}
  {n target : UInt64} {chain : Word}

omit [Crypto] in
theorem withBatch_self (s : State) : s.dropBatch.withBatch s = s := rfl

/-- Calls that neither post nor settle nor drop a batch leave the one that is open alone. -/
theorem Effect.withBatch (h : Effect app env s call s') (hposting : call.isPosting = false)
    (hends : ¬call.EndsBatch) : t.withBatch s' = t.withBatch s := by
  cases h with
  | escape _ _ _ hcall =>
    rcases hcall with ⟨rfl, -⟩ | ⟨rfl, -⟩ <;> exact absurd True.intro hends
  | abandon => cases hposting
  | openBatch => cases hposting
  | chunk => cases hposting
  | settle => exact absurd True.intro hends
  | _ => rfl

theorem openBatch_elsewhere {n' target' : UInt64} (hcreator : env.sender = app.creator)
    (hopens : Opens t target chain) (h : Effect app env' s (.openBatch n' target') s')
    (hopen : s'.batchLength = some n) (hsealed : s'.sealedInboxCursor = some target)
    (hchain : s'.sealedInboxChain = some chain) :
    n' = n ∧ target' = target ∧
      exec app env t (.openBatch n' target') = .ok (t.withBatch s') := by
  cases h with
  | inert hcall => exact hcall.elim
  | prune _ hcall => simp at hcall
  | escape _ _ _ hcall => simp at hcall
  | openBatch =>
    cases hopen
    cases hsealed
    cases hchain
    refine ⟨rfl, rfl, ?_⟩
    simp only [exec, openBatch, bind_eq_ok, assert_eq_ok, Except.ok.injEq]
    exact ⟨(), hcreator, (), by simp [hopens.live], (), hopens.closed, (), hopens.unpaid, (),
      hopens.hfrom, (), hopens.hto, chain, hopens.checkpoint, rfl⟩

theorem accumulateChunk_elsewhere {chunk : Bytes} (hcreator : env.sender = app.creator)
    (hok : exec app env' s (.accumulateChunk chunk) = .ok s') :
    exec app env (t.withBatch s) (.accumulateChunk chunk) = .ok (t.withBatch s') := by
  simp only [exec, accumulateChunk, bind_eq_ok, assert_eq_ok, demand_eq_ok, Except.ok.injEq]
    at hok ⊢
  obtain ⟨-, -, -, hopen, length, hlength, posted, hposted, -, hmore, remaining, hremaining, -,
    hchunk, accumulator, haccumulator, total, htotal, rfl⟩ := hok
  exact ⟨(), hcreator, (), hopen, length, hlength, posted, hposted, (), hmore, remaining,
    hremaining, (), hchunk, accumulator, haccumulator, total, htotal, rfl⟩

theorem Effect.ended (h : Effect app env s call s') (hends : call.EndsBatch) :
    s'.batchLength = none := by
  cases h with
  | escape dropped hdropped =>
    subst hdropped
    split_ifs with hopen
    · rfl
    · exact Option.not_isSome_iff_eq_none.mp hopen
  | abandon => rfl
  | settle => rfl
  | inert hcall => cases call <;> first | exact hcall.elim | exact hends.elim
  | prune _ hcall => rcases hcall with ⟨rfl, -⟩ | ⟨rfl, -⟩ <;> exact hends.elim
  | _ => exact hends.elim

omit [Crypto] in
theorem posted_other {e : Step} (h : e.call.isPosting = false) :
    posted (e :: log) = posted log := by
  rcases e with ⟨before, env, call, after⟩
  cases call <;> first | rfl | cases h

/-- Whatever else was called since a batch was opened: its calls, made in one go by any `env` of
the creator's in any state that takes the batch, give that state the batch. -/
theorem Run.refiled {funds : ℕ} {round : UInt64} (h : Run app funds round s log)
    (hopen : s.batchLength = some n) (hsealed : s.sealedInboxCursor = some target)
    (hchain : s.sealedInboxChain = some chain) (hcreator : env.sender = app.creator)
    (hopens : Opens t target chain) :
    ∃ unit, Later app (fun _ e _ => e = env) env.round t [] env.round (t.withBatch s) unit ∧
      unit.map Step.made = (filing n target (posted log)).reverse.map (Prod.mk env) := by
  induction h with
  | create => cases hopen
  | @call round s s' log hrun env' call hround hok ih =>
    have heffect := exec_effect hok
    have hends : ¬call.EndsBatch := by
      intro hends
      cases (heffect.ended hends).symm.trans hopen
    cases hposting : call.isPosting with
    | false =>
      have hsame := heffect.withBatch (t := s) hposting hends
      obtain ⟨unit, hlater, hmade⟩ := ih ((congrArg State.batchLength hsame).symm.trans hopen)
        ((congrArg State.sealedInboxCursor hsame).symm.trans hsealed)
        ((congrArg State.sealedInboxChain hsame).symm.trans hchain)
      rw [heffect.withBatch hposting hends, posted_other hposting]
      exact ⟨unit, hlater, hmade⟩
    | true =>
      cases call with
      | openBatch n' target' =>
        obtain ⟨rfl, rfl, hfiled⟩ :=
          openBatch_elsewhere hcreator hopens heffect hopen hsealed hchain
        exact ⟨_, Later.start.call env _ rfl (UInt64.le_refl _) hfiled, rfl⟩
      | accumulateChunk chunk =>
        have hchunk := accumulateChunk_elsewhere (t := t) hcreator hok
        have hkept : s'.batchLength = s.batchLength ∧ s'.sealedInboxCursor = s.sealedInboxCursor ∧
            s'.sealedInboxChain = s.sealedInboxChain := by
          cases heffect with
          | inert hcall => exact hcall.elim
          | prune _ hcall => simp at hcall
          | escape _ _ _ hcall => simp at hcall
          | chunk => exact ⟨rfl, rfl, rfl⟩
        obtain ⟨unit, hlater, hmade⟩ := ih (hkept.1.symm.trans hopen)
          (hkept.2.1.symm.trans hsealed) (hkept.2.2.symm.trans hchain)
        refine ⟨_, hlater.call env _ rfl (UInt64.le_refl _) hchunk, ?_⟩
        rw [List.map_cons, hmade, posted, filing, filing, List.map_append, ← List.cons_append,
          List.reverse_append, List.map_append]
        rfl
      | abandonBatch => exact absurd True.intro hends
      | _ => cases hposting

end Posting

section Units
variable [Crypto] {app : App} {unit log : Log} {n target : UInt64} {chunks : List Bytes} {env : Env}

omit [Crypto] in
theorem unit_projections (hunit : unit.map Step.made =
      (filing n target chunks).reverse.map (Prod.mk env)) :
    posted (unit ++ log) = chunks ∧ settledBatches (unit ++ log) = settledBatches log ∧
      arrivals app (unit ++ log) = arrivals app log ∧
      otherCalls (unit ++ log) = otherCalls log := by
  induction chunks using List.reverseRecOn generalizing unit with
  | nil =>
    obtain ⟨e, rest, rfl, he, hrest⟩ := List.map_eq_cons_iff.mp hunit
    cases List.map_eq_nil_iff.mp hrest
    rcases e with ⟨before, env', call, after⟩
    cases he
    exact ⟨rfl, rfl, rfl, rfl⟩
  | append_singleton chunks chunk ih =>
    rw [filing, List.map_append, ← List.cons_append, List.reverse_append, List.map_append] at hunit
    obtain ⟨e, rest, rfl, he, hrest⟩ := List.map_eq_cons_iff.mp hunit
    rcases e with ⟨before, env', call, after⟩
    cases he
    obtain ⟨hposted, hsettled, harrived, hothers⟩ := ih hrest
    refine ⟨?_, hsettled, harrived, hothers⟩
    rw [List.cons_append, posted, hposted]

end Units

section Runs
variable [Crypto] {app : App} {funds : ℕ} {round : UInt64} {s s' : State} {log : Log}

/-- A serial run that is as good as this one, up to a batch that has not settled yet. -/
structure Serializes (app : App) (funds : ℕ) (round : UInt64) (s : State) (log : Log) (r : UInt64)
    (log' : Log) : Prop where
  run : Run app funds r s.dropBatch log'
  early : r ≤ round
  serial : Serial log'
  others : otherCalls log' = otherCalls log
  settled : settledBatches log' = settledBatches log
  arrived : arrivals app log' = arrivals app log

theorem Serializes.posting {r : UInt64} {log' : Log} {env : Env} {call : Call}
    (h : Serializes app funds round s log r log') (hround : round ≤ env.round)
    (hposting : call.isPosting = true) (hsame : s'.dropBatch = s.dropBatch) :
    Serializes app funds env.round s' (⟨s, env, call, s'⟩ :: log) r log' := by
  refine ⟨hsame ▸ h.run, UInt64.le_trans h.early hround, h.serial, ?_, ?_, ?_⟩
  · rw [otherCalls_posting hposting]
    exact h.others
  · cases call <;> first | exact h.settled | cases hposting
  · cases call <;> first | exact h.arrived | cases hposting

theorem Serializes.other {r : UInt64} {log' : Log} {env : Env} {call : Call}
    (h : Serializes app funds round s log r log') (hround : round ≤ env.round)
    (hposting : call.isPosting = false) (hsettles : call.settles? = none)
    (hok : exec app env s call = .ok s') :
    Serializes app funds env.round s' (⟨s, env, call, s'⟩ :: log) env.round
      (⟨s.dropBatch, env, call, s'.dropBatch⟩ :: log') := by
  refine ⟨h.run.call env call (UInt64.le_trans h.early hround) (exec_dropped hok hposting hsettles),
    UInt64.le_refl _, .other h.serial hposting hsettles, ?_, ?_, ?_⟩
  · rw [otherCalls_other hposting, otherCalls_other hposting, h.others]
    rfl
  · cases call <;> first | exact h.settled | cases hsettles
  · cases call with
    | deposit payment recipient => exact congrArg (· ++ [_]) h.arrived
    | requestWithdrawal payment n a r scheme key sig => exact congrArg (· ++ [_]) h.arrived
    | _ => exact h.arrived

theorem Run.opens (hrun : Run app funds round s log) {n target : UInt64} {chain : Word}
    (hopen : s.batchLength = some n) (hsealed : s.sealedInboxCursor = some target)
    (hchain : s.sealedInboxChain = some chain) : Opens s.dropBatch target chain := by
  have hkept := hrun.kept
  obtain ⟨c, hposting⟩ := hkept.batch.posting hopen
  cases hsealed.symm.trans hposting.sealedCursor
  have hfrom := UInt64.le_iff_toNat_le.mpr hposting.sealedFrom
  have hto : target ≤ s.inboxCursor :=
    UInt64.le_iff_toNat_le.mpr (hposting.sealedTo.trans_eq hkept.inbox.length)
  obtain ⟨checkpoint, hcheckpoint⟩ := checkpoint_ok hkept.inbox hposting.live hfrom hto
  have heq := checkpoint_eq_ok hkept.inbox hcheckpoint
  cases heq.trans (Option.some.inj (hposting.sealedChain.symm.trans hchain))
  exact ⟨hposting.live, rfl, hposting.unpaid, hfrom, hto, hcheckpoint⟩

theorem Serializes.settle {r : UInt64} {log' : Log} {env : Env} {verifier : PaymentTxn}
    {signals : List Word} {p : PublicValues} (h : Serializes app funds round s log r log')
    (hrun : Run app funds round s log) (hround : round ≤ env.round)
    (hok : exec app env s (.verifyBatch verifier signals p) = .ok s') :
    ∃ log'', Serializes app funds env.round s'
      (⟨s, env, .verifyBatch verifier signals p, s'⟩ :: log) env.round log'' := by
  obtain ⟨n, target, hopen, hsealed, hchain, hcreator, hdropped⟩ : ∃ n target,
      s.batchLength = some n ∧ s.sealedInboxCursor = some target ∧
        s.sealedInboxChain = some p.newInboxChain ∧ env.sender = app.creator ∧
        s'.dropBatch = s' := by
    cases exec_effect hok with
    | inert hcall => exact hcall.elim
    | prune _ hcall => simp at hcall
    | escape _ _ _ hcall => simp at hcall
    | settle hcreator _ _ hlength _ _ _ _ _ hto hcursor =>
      exact ⟨_, _, hlength, hcursor, hto, hcreator, rfl⟩
  have hopens := hrun.opens hopen hsealed hchain
  obtain ⟨unit, hlater, hmade⟩ := hrun.refiled hopen hsealed hchain hcreator hopens
  rw [withBatch_self] at hlater
  obtain ⟨r', hrun', hr'⟩ := hlater.again h.run (UInt64.le_trans h.early hround)
  obtain ⟨hposted, hsettled, harrived, hothers⟩ :
      Contract.posted (unit ++ log') = Contract.posted log ∧
        settledBatches (unit ++ log') = settledBatches log' ∧
        arrivals app (unit ++ log') = arrivals app log' ∧
        otherCalls (unit ++ log') = otherCalls log' :=
    unit_projections hmade
  refine ⟨⟨s, env, .verifyBatch verifier signals p, s'⟩ :: (unit ++ log'), ?_, UInt64.le_refl _,
    .settlement h.serial rfl hmade, ?_, ?_, harrived.trans h.arrived⟩
  · rw [hdropped]
    exact hrun'.call env _ hr' hok
  · rw [otherCalls_other rfl, otherCalls_other rfl, hothers, h.others]
  · rw [settledBatches, settledBatches, hsettled, hposted, h.settled]

theorem Run.serializes (h : Run app funds round s log) :
    ∃ r log', Serializes app funds round s log r log' := by
  induction h with
  | create round => exact ⟨round, [], .create .., UInt64.le_refl _, .nil, rfl, rfl, rfl⟩
  | @call round s s' log hrun env call hround hok ih =>
    obtain ⟨r, log', hserial⟩ := ih
    cases hposting : call.isPosting with
    | true =>
      have hsame : s'.dropBatch = s.dropBatch := by
        cases call with
        | openBatch n target => exact (openBatch_opens hok).2.2
        | accumulateChunk chunk => exact accumulateChunk_dropped hok
        | abandonBatch =>
          cases exec_effect hok with
          | inert hcall => exact hcall.elim
          | prune _ hcall => simp at hcall
          | escape _ _ _ hcall => simp at hcall
          | abandon => rfl
        | _ => cases hposting
      exact ⟨r, log', hserial.posting hround hposting hsame⟩
    | false =>
      cases hsettles : call.settles? with
      | none => exact ⟨_, _, hserial.other hround hposting hsettles hok⟩
      | some p =>
        cases call with
        | verifyBatch verifier signals p => exact ⟨_, hserial.settle hrun hround hok⟩
        | _ => cases hsettles

/-- Whatever is called while batches are being posted: the calls that are not about posting
also go through, in the order they were made, when every batch that settled is opened, posted
and settled in one go and no other batch is posted. That leads to the same state but for a batch
still in flight, and L1 records the same inbox and the same settled batches. -/
theorem settling_is_atomic (h : Run app funds round s log) :
    ∃ r log', Run app funds r s.dropBatch log' ∧ r ≤ round ∧ Serial log' ∧
      otherCalls log' = otherCalls log ∧ settledBatches log' = settledBatches log ∧
      arrivals app log' = arrivals app log := by
  obtain ⟨r, log', hrun, hearly, hserial, hothers, hsettled, harrived⟩ := h.serializes
  exact ⟨r, log', hrun, hearly, hserial, hothers, hsettled, harrived⟩

end Runs

section Sample
attribute [local instance] Crypto.unsigned

/-- A deposit arrives between a batch's chunk and its settlement. -/
def sampleInterleaved : State × Log :=
  samplePlayed 100000 (sampleDeposit :: sampleSettlement.take 2 ++
    (sampleEnv (sampleAccount 9) 7, sampleDeposit.2) :: sampleSettlement.drop 2)

theorem sampleInterleaved_serial : ∃ r log',
    Run sampleApp 100000 r sampleInterleaved.1.dropBatch log' ∧ r ≤ 9 ∧ Serial log' ∧
      otherCalls log' = otherCalls sampleInterleaved.2 ∧
      settledBatches log' = settledBatches sampleInterleaved.2 ∧
      arrivals sampleApp log' = arrivals sampleApp sampleInterleaved.2 := by
  have hrun := samplePlayed_run 100000 (sampleDeposit :: sampleSettlement.take 2 ++
    (sampleEnv (sampleAccount 9) 7, sampleDeposit.2) :: sampleSettlement.drop 2)
    (by decide +kernel) (by decide)
  exact settling_is_atomic hrun

end Sample

end PaymentRollup.Contract
