import PaymentRollup.Contract.Posting

/-! # An unsettled batch leaves no trace

Forgetting the five keys of the batch commutes with every method that does not work on the
batch itself, rejections included. So a run in which a batch is dropped ends where it ends
when the batch is never opened.
-/
namespace PaymentRollup.Contract

section Commute
variable {app : App} {env : Env} {s t : State}

theorem checkMinBalance_dropped (h : t = s.dropBatch) :
    t.checkMinBalance = s.checkMinBalance.map State.dropBatch := by
  subst h
  rw [State.checkMinBalance, State.checkMinBalance, map_bind]
  rfl

theorem receive_dropped {payment : PaymentTxn} :
    s.dropBatch.receive app payment = (s.receive app payment).map State.dropBatch := by
  rw [State.receive, State.receive, map_bind]
  apply bind_congr
  intro _
  split_ifs
  · exact checkMinBalance_dropped rfl
  · rfl

theorem pay_dropped {receiver : L1Address} {amount : UInt64} (h : t = s.dropBatch) :
    t.pay app env receiver amount = (s.pay app env receiver amount).map State.dropBatch := by
  subst h
  simp only [State.pay, map_bind]
  apply bind_congr
  intro _
  apply bind_congr
  intro _
  split_ifs <;> exact checkMinBalance_dropped rfl

theorem creditEscapeProgress_dropped {discharged : UInt64} (h : t = s.dropBatch) :
    t.creditEscapeProgress discharged =
      (s.creditEscapeProgress discharged).map State.dropBatch := by
  subst h
  have hdeadline : s.dropBatch.escapeDeadline = s.escapeDeadline := rfl
  rw [State.creditEscapeProgress, State.creditEscapeProgress, hdeadline]
  cases s.escapeDeadline with
  | none => rfl
  | some deadline =>
    simp only [map_bind]
    apply bind_congr
    intro progress
    apply bind_congr
    intro progress
    split_ifs
    · rw [map_bind]
      rfl
    · rfl

theorem securityCouncilEscape_dropped : securityCouncilEscape env s.dropBatch =
    (securityCouncilEscape env s).map State.dropBatch := by
  simp only [securityCouncilEscape, map_bind]
  repeat (apply bind_congr; intro _)
  split_ifs <;> rfl

/-- Scheduling a rotation is refused while a batch is open, and goes through when there is none. -/
theorem scheduleVerifierUpdate_dropped {v : L1Address} {p r : Word} {s' : State}
    (h : scheduleVerifierUpdate env v p r s = .ok s') :
    scheduleVerifierUpdate env v p r s.dropBatch = .ok s'.dropBatch := by
  simp only [scheduleVerifierUpdate, bind_eq_ok, assert_eq_ok, Except.ok.injEq] at h ⊢
  obtain ⟨_, hcouncil, -, hlive, -, -, after, hafter, rfl⟩ := h
  exact ⟨_, hcouncil, (), hlive, (), rfl, after, hafter, rfl⟩

theorem executeVerifierUpdate_dropped : executeVerifierUpdate env s.dropBatch =
    (executeVerifierUpdate env s).map State.dropBatch := by
  simp only [executeVerifierUpdate, map_bind]
  rfl

theorem scheduleApplicationUpdate_dropped {hash : Word} :
    scheduleApplicationUpdate env hash s.dropBatch =
      (scheduleApplicationUpdate env hash s).map State.dropBatch := by
  simp only [scheduleApplicationUpdate, map_bind]
  rfl

theorem pruneRequest_dropped {index : UInt64} : pruneRequest app env index s.dropBatch =
    (pruneRequest app env index s).map State.dropBatch := by
  simp only [pruneRequest, map_bind]
  repeat (apply bind_congr; intro _)
  exact pay_dropped rfl

theorem pruneDeposit_dropped {index : UInt64} : pruneDeposit app env index s.dropBatch =
    (pruneDeposit app env index s).map State.dropBatch := by
  simp only [pruneDeposit, map_bind]
  repeat (apply bind_congr; intro _)
  exact pay_dropped rfl

theorem reclaimDeposit_dropped {index : UInt64} : reclaimDeposit app env index s.dropBatch =
    (reclaimDeposit app env index s).map State.dropBatch := by
  simp only [reclaimDeposit, map_bind]
  repeat (apply bind_congr; intro _)
  exact pay_dropped rfl

theorem signalEscape_dropped : signalEscape env s.dropBatch =
    (signalEscape env s).map State.dropBatch := by
  simp only [signalEscape, map_bind]
  rfl

theorem executeEscape_dropped : executeEscape env s.dropBatch =
    (executeEscape env s).map State.dropBatch := by
  simp only [executeEscape, map_bind]
  repeat (apply bind_congr; intro _)
  split_ifs <;> rfl

variable [Crypto]

theorem updateApplication_dropped {pages : List Bytes} {clear : Bytes} :
    updateApplication env pages clear s.dropBatch =
      (updateApplication env pages clear s).map State.dropBatch := by
  simp only [updateApplication, map_bind]
  rfl

theorem deposit_dropped {payment : PaymentTxn} {recipient : Address} :
    deposit app env payment recipient s.dropBatch =
      (deposit app env payment recipient s).map State.dropBatch := by
  simp only [deposit, map_bind]
  apply bind_map_congr receive_dropped
  intro _
  repeat (apply bind_congr; intro _)
  exact checkMinBalance_dropped rfl

theorem requestWithdrawal_dropped {payment : PaymentTxn} {nonce : UInt64} {address : Address}
    {recipient : L1Address} {scheme : Bytes} {pubKey : Word} {signature : Bytes} :
    requestWithdrawal app env payment nonce address recipient scheme pubKey signature s.dropBatch =
      (requestWithdrawal app env payment nonce address recipient scheme pubKey signature s).map
        State.dropBatch := by
  simp only [requestWithdrawal, map_bind]
  apply bind_map_congr receive_dropped
  intro _
  repeat (apply bind_congr; intro _)
  exact checkMinBalance_dropped rfl

theorem payWithdrawal_dropped {recipient : L1Address} {amount : UInt64} {tail : Word} :
    payWithdrawal app env recipient amount tail s.dropBatch =
      (payWithdrawal app env recipient amount tail s).map State.dropBatch := by
  simp only [payWithdrawal, map_bind]
  repeat (apply bind_congr; intro _)
  split_ifs
  all_goals
    first
    | exact pay_dropped rfl
    | exact bind_map_congr (creditEscapeProgress_dropped rfl) fun _ => pay_dropped rfl

theorem forceExit_dropped {address : Address} {nonce amount : UInt64} {authAddress : Address}
    {scheme : Bytes} {pubKey : Word} {signature : Bytes} {recipient : L1Address}
    {siblings : Bytes} : forceExit app env address nonce amount authAddress scheme pubKey
      signature recipient siblings s.dropBatch = (forceExit app env address nonce amount
        authAddress scheme pubKey signature recipient siblings s).map State.dropBatch := by
  simp only [forceExit, map_bind]
  repeat (apply bind_congr; intro _)
  exact pay_dropped rfl

end Commute

section Calls
variable [Crypto] {app : App} {env : Env} {s s' : State} {call : Call} {n : UInt64}

/-- The sequencer's calls for a batch, up to the one that gives it up. -/
def Call.isPosting : Call → Bool
  | .openBatch _ _ => true
  | .accumulateChunk _ => true
  | .abandonBatch => true
  | _ => false

/-- What does not work on the batch does not see it. -/
theorem exec_dropped (hok : exec app env s call = .ok s') (hposting : call.isPosting = false)
    (hsettles : call.settles? = none) : exec app env s.dropBatch call = .ok s'.dropBatch := by
  have hmap : exec app env s.dropBatch call = (exec app env s call).map State.dropBatch →
      exec app env s.dropBatch call = .ok s'.dropBatch := by
    intro h
    rw [h, hok]
    rfl
  cases call with
  | fund payment => exact hmap receive_dropped
  | securityCouncilEscape => exact hmap securityCouncilEscape_dropped
  | scheduleVerifierUpdate v p r => exact scheduleVerifierUpdate_dropped hok
  | executeVerifierUpdate => exact hmap executeVerifierUpdate_dropped
  | scheduleApplicationUpdate hash => exact hmap scheduleApplicationUpdate_dropped
  | updateApplication pages clear => exact hmap updateApplication_dropped
  | deposit payment recipient => exact hmap deposit_dropped
  | requestWithdrawal payment n a r scheme key sig => exact hmap requestWithdrawal_dropped
  | pruneRequest index => exact hmap pruneRequest_dropped
  | pruneDeposit index => exact hmap pruneDeposit_dropped
  | reclaimDeposit index => exact hmap reclaimDeposit_dropped
  | payWithdrawal recipient amount tail => exact hmap payWithdrawal_dropped
  | forceExit a n x auth scheme key sig r siblings => exact hmap forceExit_dropped
  | opUp nonce => exact hmap rfl
  | signalEscape => exact hmap signalEscape_dropped
  | executeEscape => exact hmap executeEscape_dropped
  | abandonBatch => cases hposting
  | openBatch batchLength target => cases hposting
  | accumulateChunk chunk => cases hposting
  | verifyBatch verifier signals p => cases hsettles

omit [Crypto] in
theorem dropBatch_of_closed (h : s.batchKeys.Closed) : s.dropBatch = s := by
  obtain ⟨haccumulator, hlength, hposted, hchain, hcursor⟩ := h
  rcases s with ⟨⟩
  cases haccumulator
  cases hlength
  cases hposted
  cases hchain
  cases hcursor
  rfl

theorem accumulateChunk_dropped {chunk : Bytes}
    (hok : exec app env s (.accumulateChunk chunk) = .ok s') : s'.dropBatch = s.dropBatch := by
  cases exec_effect hok with
  | inert hcall => exact hcall.elim
  | prune _ hcall => simp at hcall
  | escape _ _ _ hcall => simp at hcall
  | chunk => rfl

def Call.Drops : Call → Prop
  | .abandonBatch => True
  | .executeEscape => True
  | .securityCouncilEscape => True
  | _ => False

theorem drops_dropped (hok : exec app env s call = .ok s') (hopen : s.batchLength = some n)
    (hdrops : call.Drops) : s'.dropBatch = s' ∧ (call = .abandonBatch → s' = s.dropBatch) := by
  have hsome : s.batchLength.isSome = true := by
    rw [hopen]
    rfl
  cases exec_effect hok with
  | escape dropped hdropped _ hcall =>
    rw [if_pos hsome] at hdropped
    subst hdropped
    constructor
    · rfl
    · rintro rfl
      simp at hcall
  | abandon => exact ⟨rfl, fun _ => rfl⟩
  | inert hcall => cases call <;> first | exact hcall.elim | exact hdrops.elim
  | prune _ hcall => rcases hcall with ⟨rfl, -⟩ | ⟨rfl, -⟩ <;> exact hdrops.elim
  | _ => exact hdrops.elim

end Calls

section Runs
variable [Crypto] {app : App} {funds : ℕ} {round round' r : UInt64} {s s' : State}
  {log seg : Log} {n : UInt64}

def Step.made (e : Step) : Env × Call := (e.env, e.call)

/-- The calls that stay when a batch is never opened. -/
def otherCalls (log : Log) : List (Env × Call) :=
  (log.filter fun e => !e.call.isPosting).map Step.made

omit [Crypto] in
theorem otherCalls_posting {e : Step} (h : e.call.isPosting = true) :
    otherCalls (e :: log) = otherCalls log := by
  unfold otherCalls
  rw [List.filter_cons_of_neg]
  rw [h]
  exact Bool.false_ne_true

omit [Crypto] in
theorem otherCalls_other {e : Step} (h : e.call.isPosting = false) :
    otherCalls (e :: log) = e.made :: otherCalls log := by
  unfold otherCalls
  rw [List.filter_cons_of_pos, List.map_cons]
  rw [h]
  rfl

omit [Crypto] in
theorem otherCalls_append (log log' : Log) :
    otherCalls (log ++ log') = otherCalls log ++ otherCalls log' := by
  unfold otherCalls
  rw [List.filter_append, List.map_append]

theorem Later.again {may : State → Env → Call → Prop} (h : Later app may round s [] round' s' seg)
    (hrun : Run app funds r s log) (hr : r ≤ round) :
    ∃ r', Run app funds r' s' (seg ++ log) ∧ r' ≤ round' := by
  induction h with
  | start => exact ⟨r, hrun, hr⟩
  | call _ env call _ hround hok ih =>
    obtain ⟨r', hrun', hr'⟩ := ih
    exact ⟨env.round, hrun'.call env call (UInt64.le_trans hr' hround) hok, UInt64.le_refl _⟩

/-- While a batch is open every other call can be made without it, and does the same. -/
theorem Later.without (h : Later app (fun _ _ call => ¬call.EndsBatch) round s [] round' s' seg)
    (hopen : s.batchLength = some n) (hrun : Run app funds r s.dropBatch log) (hr : r ≤ round) :
    ∃ r' log', Run app funds r' s'.dropBatch log' ∧ r' ≤ round' ∧
      log'.map Step.made = otherCalls seg ++ log.map Step.made := by
  induction h with
  | start => exact ⟨r, log, hrun, hr, rfl⟩
  | @call round' s' s'' seg h env call hmay hround hok ih =>
    obtain ⟨r', log', hrun', hr', hmade⟩ := ih
    have hlater := UInt64.le_trans hr' hround
    cases hposting : call.isPosting with
    | true =>
      have hkept : otherCalls (⟨s', env, call, s''⟩ :: seg) = otherCalls seg :=
        otherCalls_posting hposting
      have hsame : s''.dropBatch = s'.dropBatch := by
        cases call with
        | openBatch m target =>
          have hnone := (openBatch_opens hok).1
          cases hnone.symm.trans (h.batchLength_kept hopen)
        | accumulateChunk chunk => exact accumulateChunk_dropped hok
        | abandonBatch => exact absurd True.intro hmay
        | _ => cases hposting
      rw [hkept, hsame]
      exact ⟨r', log', hrun', hlater, hmade⟩
    | false =>
      have hsettles : call.settles? = none := by
        cases call <;> first | rfl | exact absurd True.intro hmay
      have hmade' : otherCalls (⟨s', env, call, s''⟩ :: seg) = (env, call) :: otherCalls seg :=
        otherCalls_other hposting
      refine ⟨env.round, _, hrun'.call env call hlater (exec_dropped hok hposting hsettles),
        UInt64.le_refl _, ?_⟩
      rw [hmade', List.map_cons, hmade]
      rfl

/-- A batch is opened, chunks of it are posted, it is dropped, and whatever else is called
before, in between and after: without the sequencer's calls for it the other calls go through
as well, and lead to the same state. -/
theorem dropped_batch_leaves_no_trace {s₀ s₁ s₂ s₃ s₄ : State} {round₂ round₄ target : UInt64}
    {log₀ after : Log} {env env' : Env} {drop : Call} (hrun : Run app funds round s₀ log₀)
    (hround : round ≤ env.round) (hopen : exec app env s₀ (.openBatch n target) = .ok s₁)
    (hposting : Later app (fun _ _ call => ¬call.EndsBatch) env.round s₁ [] round₂ s₂ seg)
    (hround' : round₂ ≤ env'.round) (hdrops : drop.Drops) (hdrop : exec app env' s₂ drop = .ok s₃)
    (hafter : Later app (fun _ _ _ => True) env'.round s₃ [] round₄ s₄ after) :
    ∃ r log, Run app funds r s₄ log ∧ r ≤ round₄ ∧
      log.map Step.made = after.map Step.made ++ (otherCalls (⟨s₂, env', drop, s₃⟩ :: seg ++
        [⟨s₀, env, .openBatch n target, s₁⟩]) ++ log₀.map Step.made) := by
  obtain ⟨hclosed, hopened, hsame⟩ := openBatch_opens hopen
  have hstart : s₁.dropBatch = s₀ := hsame.trans (dropBatch_of_closed (hrun.kept.batch.closed hclosed))
  obtain ⟨r₂, log₂, hrun₂, hr₂, hmade₂⟩ := hposting.without hopened (hstart ▸ hrun) hround
  have hr₂' := UInt64.le_trans hr₂ hround'
  obtain ⟨hgone, habandoned⟩ := drops_dropped hdrop (hposting.batchLength_kept hopened) hdrops
  have hdropped : ∃ r₃ log₃, Run app funds r₃ s₃ log₃ ∧ r₃ ≤ env'.round ∧
      log₃.map Step.made = otherCalls (⟨s₂, env', drop, s₃⟩ :: seg ++
        [⟨s₀, env, .openBatch n target, s₁⟩]) ++ log₀.map Step.made := by
    have hopening : otherCalls [⟨s₀, env, .openBatch n target, s₁⟩] = [] := otherCalls_posting rfl
    have hkept : otherCalls (seg ++ [⟨s₀, env, .openBatch n target, s₁⟩]) = otherCalls seg := by
      rw [otherCalls_append, hopening, List.append_nil]
    rw [List.cons_append]
    cases hcall : drop.isPosting with
    | true =>
      have habandon : drop = .abandonBatch := by
        cases drop <;> first | rfl | exact hdrops.elim | cases hcall
      refine ⟨r₂, log₂, (habandoned habandon).symm ▸ hrun₂, hr₂', ?_⟩
      rw [hmade₂, otherCalls_posting hcall, hkept]
    | false =>
      have hsettles : drop.settles? = none := by
        cases drop <;> first | rfl | exact hdrops.elim
      have hok := exec_dropped hdrop hcall hsettles
      rw [hgone] at hok
      refine ⟨env'.round, _, hrun₂.call env' drop hr₂' hok, UInt64.le_refl _, ?_⟩
      rw [List.map_cons, hmade₂, otherCalls_other hcall, hkept]
      rfl
  obtain ⟨r₃, log₃, hrun₃, hr₃, hmade₃⟩ := hdropped
  obtain ⟨r₄, hrun₄, hr₄⟩ := hafter.again hrun₃ hr₃
  exact ⟨r₄, _, hrun₄, hr₄, by rw [List.map_append, hmade₃]⟩

end Runs

section Sample
attribute [local instance] Crypto.unsigned

/-- A deposit that arrives while the batch is being posted. -/
def sampleInterrupted : State :=
  (exec sampleApp (sampleEnv (sampleAccount 9) 8) samplePosted sampleDeposit.2).toOption.getD
    sampleFiled.1

def sampleDropped : State :=
  (exec sampleApp (sampleEnv (sampleAccount 1) 9) sampleInterrupted .abandonBatch).toOption.getD
    sampleFiled.1

/-- Two deposits are all that is left of it. -/
theorem sampleDropped_traceless : ∃ r log, Run sampleApp 100000 r sampleDropped log ∧ r ≤ 9 ∧
    log.map Step.made =
      (sampleEnv (sampleAccount 9) 8, sampleDeposit.2) :: sampleFiled.2.map Step.made := by
  have harrive := eq_ok_getD (x := exec sampleApp (sampleEnv (sampleAccount 9) 8) samplePosted
    sampleDeposit.2) (a := sampleFiled.1) (by decide +kernel)
  have habandon := eq_ok_getD (x := exec sampleApp (sampleEnv (sampleAccount 1) 9) sampleInterrupted
    .abandonBatch) (a := sampleFiled.1) (by decide +kernel)
  have hstart := @Later.start _ sampleApp (fun _ _ call => ¬call.EndsBatch) 6 sampleOpened []
  have hposting := (hstart.call (sampleEnv (sampleAccount 1) 7) (.accumulateChunk [1, 0, 0, 0, 0])
    id (by decide) samplePosted_ok).call (sampleEnv (sampleAccount 9) 8) sampleDeposit.2 id (by decide) harrive
  have hdrops : Call.Drops .abandonBatch := True.intro
  exact dropped_batch_leaves_no_trace sampleFiled_run (by decide) sampleOpened_ok hposting (by decide) hdrops
    habandon .start

end Sample

end PaymentRollup.Contract
