import PaymentRollup.Contract.Run

/-! # What one call can do

`Effect` lists, once for all later invariants, every way a successful call changes the
state, with the guards it passed. Calls that only touch keys, programs or add to the
balance are one case.
-/
namespace PaymentRollup.Contract

variable [Crypto]

/-- Calls that leave the ledger, the inbox, the payouts, the exits and the signal alone. -/
def Call.IsInert : Call → Prop
  | .fund _ => True
  | .scheduleVerifierUpdate _ _ _ => True
  | .executeVerifierUpdate => True
  | .scheduleApplicationUpdate _ => True
  | .updateApplication _ _ => True
  | .opUp _ => True
  | _ => False

/-- What discharging obligations does to a deadline and the progress towards the next one. -/
inductive Credited (grace discharged : UInt64) :
    Option UInt64 → Option UInt64 → Option UInt64 → Option UInt64 → Prop
  | quiet {progress : Option UInt64} : Credited grace discharged none progress none progress
  | counted {deadline progress progress' : UInt64}
      (hsum : progress'.toNat = progress.toNat + discharged.toNat)
      (hshort : progress' < escapeProgressTranche) :
      Credited grace discharged (some deadline) (some progress) (some deadline) (some progress')
  | extended {deadline progress progress' deadline' : UInt64}
      (hsum : progress'.toNat = progress.toNat + discharged.toNat)
      (htranche : escapeProgressTranche ≤ progress')
      (hdeadline : deadline'.toNat = deadline.toNat + grace.toNat) :
      Credited grace discharged (some deadline) (some progress) (some deadline') (some 0)

/-- What a settlement that moves the cursor from `old` to `cursor` does to the signal. -/
inductive Answered (grace old cursor : UInt64) :
    Option UInt64 → Option UInt64 → Option UInt64 →
      Option UInt64 → Option UInt64 → Option UInt64 → Prop
  | quiet {deadline progress : Option UInt64} :
      Answered grace old cursor deadline none progress deadline none progress
  | reached {target : UInt64} {deadline progress : Option UInt64}
      (hle : target.toNat ≤ cursor.toNat) :
      Answered grace old cursor deadline (some target) progress none none none
  | credited {target consumed : UInt64} {deadline progress deadline' progress' : Option UInt64}
      (hlt : cursor < target) (hconsumed : cursor.toNat = consumed.toNat + old.toNat)
      (hcredit : Credited grace consumed deadline progress deadline' progress') :
      Answered grace old cursor deadline (some target) progress deadline' (some target) progress'

/-- Every way a call can succeed, with what it checked and the state it leaves. -/
inductive Effect (app : App) (env : Env) (s : State) : Call → State → Prop
  | inert {call : Call} (hcall : call.IsInert) {verifierAddress : L1Address}
      {programVkeyHash recursionVkeyRoot : Word} {pendingVerifierAddress : Option L1Address}
      {pendingProgramVkeyHash pendingRecursionVkeyRoot : Option Word}
      {verifierUpdateAfter applicationUpdateAfter : Option UInt64}
      {pendingApprovalProgramHash : Option Word} {approvalProgram : List Bytes}
      {clearStateProgram : Bytes} {balance : ℕ} (hbalance : s.balance ≤ balance) :
      Effect app env s call { s with
        verifierAddress, programVkeyHash, recursionVkeyRoot, pendingVerifierAddress,
        pendingProgramVkeyHash, pendingRecursionVkeyRoot, verifierUpdateAfter,
        applicationUpdateAfter, pendingApprovalProgramHash, approvalProgram, clearStateProgram,
        balance }
  | deposit {payment : PaymentTxn} {recipient : Address} {amount next : UInt64}
      (hlive : s.escaped = false) (hpos : 0 < amount.toNat)
      (hamount : payment.amount.toNat = amount.toNat + (s.boxCost app s.inboxCursor).toNat)
      (hnext : next.toNat = s.inboxCursor.toNat + 1) :
      Effect app env s (.deposit payment recipient) { s with
        balance := s.balance + payment.amount.toNat
        minBalance := s.minBalance + (s.boxCost app s.inboxCursor).toNat
        inbox := Function.update s.inbox s.inboxCursor (some ⟨.deposit, recipient, Word.zero,
          amount, payment.sender, env.round, sha256 (depositString s.inboxChain recipient amount)⟩)
        inboxChain := sha256 (depositString s.inboxChain recipient amount)
        inboxCursor := next }
  | request {payment : PaymentTxn} {nonce : UInt64} {address : Address} {recipient : L1Address}
      {pubKey : Word} {signature : Bytes} {next nextNonce : UInt64}
      (hlive : s.escaped = false) (hamount : payment.amount = s.boxCost app s.inboxCursor)
      (hnonce : s.requestCursor = nonce)
      (hkey : sha256 (keyString schemeEd25519 pubKey) = address)
      (hsig : Crypto.ed25519VerifyBare (requestMessage app nonce address recipient) signature
        pubKey.bytes = true)
      (hnext : next.toNat = s.inboxCursor.toNat + 1)
      (hnextNonce : nextNonce.toNat = nonce.toNat + 1) :
      Effect app env s
        (.requestWithdrawal payment nonce address recipient schemeEd25519 pubKey signature)
        { s with
          balance := s.balance + payment.amount.toNat
          minBalance := s.minBalance + (s.boxCost app s.inboxCursor).toNat
          inbox := Function.update s.inbox s.inboxCursor (some ⟨.request, address, recipient, 0,
            payment.sender, env.round, sha256 (requestString s.inboxChain address recipient)⟩)
          inboxChain := sha256 (requestString s.inboxChain address recipient)
          inboxCursor := next
          requestCursor := nextNonce }
  | prune {call : Call} {index : UInt64} {record : InboxRecord}
      (hbox : s.inbox index = some record)
      (hcall : (call = .pruneRequest index ∧ record.kind = .request ∧
          (index < s.settledInboxCursor ∨ s.escaped = true)) ∨
        (call = .pruneDeposit index ∧ record.kind = .deposit ∧ index < s.settledInboxCursor))
      (hfunds : app.inboxMbr.toNat ≤ s.balance) :
      Effect app env s call { s with
        inbox := Function.update s.inbox index none
        minBalance := s.minBalance - app.inboxMbr.toNat
        balance := balanceAfter app s.balance record.payer app.inboxMbr }
  | reclaim {index : UInt64} {record : InboxRecord} {amount : UInt64}
      (hescaped : s.escaped = true) (hpending : s.settledInboxCursor ≤ index)
      (harrived : index < s.inboxCursor) (hbox : s.inbox index = some record)
      (hkind : record.kind = .deposit)
      (hamount : amount.toNat = record.amount.toNat + app.inboxMbr.toNat)
      (hfunds : amount.toNat ≤ s.balance) :
      Effect app env s (.reclaimDeposit index) { s with
        inbox := Function.update s.inbox index none
        minBalance := s.minBalance - app.inboxMbr.toNat
        balance := balanceAfter app s.balance record.payer amount }
  | pay {recipient : L1Address} {amount : UInt64} {tail : Word}
      {deadline progress : Option UInt64}
      (hhead : s.pendingWithdrawals = some (sha256 (payoutString tail recipient amount)))
      (hcredit : if env.sender = app.creator then
        Credited s.escapeGrace 1 s.escapeDeadline s.escapeProgress deadline progress
        else deadline = s.escapeDeadline ∧ progress = s.escapeProgress)
      (hfunds : amount.toNat ≤ s.balance) :
      Effect app env s (.payWithdrawal recipient amount tail) { s with
        pendingWithdrawals := if tail = withdrawalTerminal app then none else some tail
        escapeDeadline := deadline
        escapeProgress := progress
        balance := balanceAfter app s.balance recipient amount }
  | exit {address : Address} {nonce amount : UInt64} {authAddress : Address} {pubKey : Word}
      {signature : Bytes} {recipient : L1Address} {siblings : Bytes} {paid : UInt64}
      (hescaped : s.escaped = true) (hfresh : s.exits address = none)
      (hkey : sha256 (keyString schemeEd25519 pubKey) = authAddress)
      (hsig : Crypto.ed25519VerifyBare (exitMessage app address recipient) signature
        pubKey.bytes = true)
      (hwhole : siblings.length % 32 = 0) (hdepth : siblings.length / 32 ≤ maxProofDepth)
      (hroot : exitRoot address nonce amount authAddress siblings = s.stateRoot)
      (hpos : 0 < paid.toNat) (hpaid : amount.toNat = paid.toNat + app.exitMbr.toNat)
      (hfunds : paid.toNat ≤ s.balance) :
      Effect app env s
        (.forceExit address nonce amount authAddress schemeEd25519 pubKey signature recipient
          siblings)
        { s with
          exits := Function.update s.exits address (some amount)
          minBalance := s.minBalance + app.exitMbr.toNat
          balance := balanceAfter app s.balance recipient paid }
  | signal {record : InboxRecord} {deadline : UInt64}
      (hlive : s.escaped = false) (hquiet : s.escapeDeadline = none)
      (hpending : s.settledInboxCursor < s.inboxCursor)
      (hbox : s.inbox s.settledInboxCursor = some record)
      (hstale : record.round.toNat + s.inboxTimeout.toNat < env.round.toNat)
      (hdeadline : deadline.toNat = env.round.toNat + s.escapeGrace.toNat) :
      Effect app env s .signalEscape { s with
        escapeInboxTarget := some s.inboxCursor
        escapeProgress := some 0
        escapeDeadline := some deadline }
  | escape {call : Call} (dropped : State)
      (hdropped : dropped = if s.batchLength.isSome then s.dropBatch else s)
      (hlive : s.escaped = false)
      (hcall : (call = .securityCouncilEscape ∧ env.sender = s.securityCouncil) ∨
        (call = .executeEscape ∧ ∃ deadline, s.escapeDeadline = some deadline ∧
          deadline < env.round))
      {pendingVerifierAddress : Option L1Address}
      {pendingProgramVkeyHash pendingRecursionVkeyRoot : Option Word}
      {verifierUpdateAfter applicationUpdateAfter : Option UInt64}
      {pendingApprovalProgramHash : Option Word} :
      Effect app env s call
        { dropped.clearSignal with
          escaped := true, pendingVerifierAddress, pendingProgramVkeyHash,
          pendingRecursionVkeyRoot, verifierUpdateAfter, applicationUpdateAfter,
          pendingApprovalProgramHash }
  | abandon (hcreator : env.sender = app.creator) (hopen : s.batchLength.isSome) :
      Effect app env s .abandonBatch s.dropBatch
  | openBatch {batchLength target : UInt64} {chain : Word}
      (hcreator : env.sender = app.creator) (hlive : s.escaped = false)
      (hclosed : s.batchLength = none) (hpaid : s.pendingWithdrawals = none)
      (hfrom : s.settledInboxCursor ≤ target) (hto : target ≤ s.inboxCursor)
      (hchain : s.checkpoint target = .ok chain) :
      Effect app env s (.openBatch batchLength target) { s with
        chunkAccumulator := some (sha256 (seedString app batchLength))
        batchLength := some batchLength
        postedLength := some 0
        sealedInboxChain := some chain
        sealedInboxCursor := some target }
  | chunk {chunk : Bytes} {batchLength postedLength posted : UInt64} {accumulator : Word}
      (hcreator : env.sender = app.creator) (hlength : s.batchLength = some batchLength)
      (hposted : s.postedLength = some postedLength) (hmore : postedLength < batchLength)
      (hchunk : chunk.length =
        min chunkSize.toNat (batchLength.toNat - postedLength.toNat))
      (haccumulator : s.chunkAccumulator = some accumulator)
      (hsum : posted.toNat = postedLength.toNat + chunk.length) :
      Effect app env s (.accumulateChunk chunk) { s with
        chunkAccumulator := some (sha256 (chunkString accumulator chunk))
        postedLength := some posted }
  | settle {verifier : PaymentTxn} {signals : List Word} {p : PublicValues} {balance : ℕ}
      {length cursor : UInt64} {deadline target progress : Option UInt64}
      (hcreator : env.sender = app.creator) (hlive : s.escaped = false)
      (hround : ∀ deadline ∈ s.escapeDeadline, env.round ≤ deadline)
      (hlength : s.batchLength = some length) (hposted : s.postedLength = some length)
      (hproof : checkProof verifier signals p s = .ok ())
      (hroot : p.oldRoot = s.stateRoot)
      (haccumulator : s.chunkAccumulator = some p.batchCommitment)
      (hfrom : p.oldInboxChain = s.settledInboxChain)
      (hto : s.sealedInboxChain = some p.newInboxChain)
      (hcursor : s.sealedInboxCursor = some cursor)
      (hanswer : Answered s.escapeGrace s.settledInboxCursor cursor s.escapeDeadline
        s.escapeInboxTarget s.escapeProgress deadline target progress)
      (hbalance : s.balance ≤ balance) :
      Effect app env s (.verifyBatch verifier signals p) { s.dropBatch with
        stateRoot := p.newRoot
        settledInboxChain := p.newInboxChain
        settledInboxCursor := cursor
        pendingWithdrawals :=
          if p.withdrawalChain ≠ withdrawalTerminal app then some p.withdrawalChain
          else s.pendingWithdrawals
        escapeDeadline := deadline
        escapeInboxTarget := target
        escapeProgress := progress
        balance }

section Methods
variable {app : App} {env : Env} {s s' : State}

theorem Effect.inert_self {call : Call} (hcall : call.IsInert) : Effect app env s call s :=
  .inert hcall le_rfl

theorem fund_effect {payment : PaymentTxn} (h : s.receive app payment = .ok s') :
    Effect app env s (.fund payment) s' := by
  obtain ⟨-, ⟨-, -, rfl⟩ | ⟨-, rfl⟩⟩ := State.receive_eq_ok.mp h
  · exact .inert (by trivial) (Nat.le_add_right ..)
  · exact .inert_self (by trivial)

theorem scheduleVerifierUpdate_effect {v : L1Address} {p r : Word}
    (h : scheduleVerifierUpdate env v p r s = .ok s') :
    Effect app env s (.scheduleVerifierUpdate v p r) s' := by
  simp only [scheduleVerifierUpdate, bind_eq_ok, Except.ok.injEq] at h
  obtain ⟨-, -, -, -, -, -, after, -, rfl⟩ := h
  exact .inert (by trivial) le_rfl

theorem executeVerifierUpdate_effect (h : executeVerifierUpdate env s = .ok s') :
    Effect app env s .executeVerifierUpdate s' := by
  simp only [executeVerifierUpdate, bind_eq_ok, Except.ok.injEq] at h
  obtain ⟨-, -, -, -, after, -, -, -, v, -, p, -, r, -, rfl⟩ := h
  exact .inert (by trivial) le_rfl

theorem scheduleApplicationUpdate_effect {hash : Word}
    (h : scheduleApplicationUpdate env hash s = .ok s') :
    Effect app env s (.scheduleApplicationUpdate hash) s' := by
  simp only [scheduleApplicationUpdate, bind_eq_ok, Except.ok.injEq] at h
  obtain ⟨-, -, -, -, after, -, rfl⟩ := h
  exact .inert (by trivial) le_rfl

theorem updateApplication_effect {pages : List Bytes} {clear : Bytes}
    (h : updateApplication env pages clear s = .ok s') :
    Effect app env s (.updateApplication pages clear) s' := by
  simp only [updateApplication, bind_eq_ok, Except.ok.injEq] at h
  obtain ⟨-, -, -, -, after, -, -, -, hash, -, -, -, rfl⟩ := h
  exact .inert (by trivial) le_rfl

theorem deposit_effect {payment : PaymentTxn} {recipient : Address}
    (h : deposit app env payment recipient s = .ok s') :
    Effect app env s (.deposit payment recipient) s' := by
  simp only [deposit, State.createInboxBox, bind_eq_ok, assert_eq_ok, add_eq_ok, sub_eq_ok,
    State.checkMinBalance_eq_ok, State.receive_eq_ok] at h
  obtain ⟨_, ⟨-, ⟨-, -, rfl⟩ | ⟨hother, -⟩⟩, -, hlive, -, ⟨hself, hpos⟩, amount, hamount, next,
    hnext, -, rfl⟩ := h
  · rw [UInt64.lt_iff_toNat_lt] at hpos
    exact .deposit (by simpa using hlive) (by omega) hamount hnext
  · exact absurd hself hother

theorem requestWithdrawal_effect {payment : PaymentTxn} {nonce : UInt64} {address : Address}
    {recipient : L1Address} {scheme : Bytes} {pubKey : Word} {signature : Bytes}
    (h : requestWithdrawal app env payment nonce address recipient scheme pubKey signature s =
      .ok s') :
    Effect app env s
      (.requestWithdrawal payment nonce address recipient scheme pubKey signature) s' := by
  simp only [requestWithdrawal, State.createInboxBox, bind_eq_ok, assert_eq_ok, add_eq_ok,
    State.checkMinBalance_eq_ok, State.receive_eq_ok] at h
  obtain ⟨_, ⟨-, ⟨-, -, rfl⟩ | ⟨hother, -⟩⟩, -, hlive, -, ⟨hself, hamount⟩, _, hnonce, -, hscheme, -,
    hkey, _, hsig, next, hnext, nextNonce, hnextNonce, -, rfl⟩ := h
  · have hnonce : s.requestCursor = nonce := assert_eq_ok.mp hnonce
    subst hscheme hnonce
    exact .request (by simpa using hlive) hamount rfl hkey (assert_eq_ok.mp hsig) hnext hnextNonce
  · exact absurd hself hother

theorem pruneRequest_effect {index : UInt64} (h : pruneRequest app env index s = .ok s') :
    Effect app env s (.pruneRequest index) s' := by
  simp only [pruneRequest, State.deleteInboxBox, bind_eq_ok, assert_eq_ok, demand_eq_ok,
    State.pay_eq_ok] at h
  obtain ⟨record, hbox, -, hkind, -, hanswered, hfunds, -, -, rfl⟩ := h
  exact .prune hbox (.inl ⟨rfl, hkind, hanswered⟩) hfunds

theorem pruneDeposit_effect {index : UInt64} (h : pruneDeposit app env index s = .ok s') :
    Effect app env s (.pruneDeposit index) s' := by
  simp only [pruneDeposit, State.deleteInboxBox, bind_eq_ok, assert_eq_ok, demand_eq_ok,
    State.pay_eq_ok] at h
  obtain ⟨record, hbox, -, hkind, -, hsettled, hfunds, -, -, rfl⟩ := h
  exact .prune hbox (.inr ⟨rfl, hkind, hsettled⟩) hfunds

theorem reclaimDeposit_effect {index : UInt64} (h : reclaimDeposit app env index s = .ok s') :
    Effect app env s (.reclaimDeposit index) s' := by
  simp only [reclaimDeposit, State.deleteInboxBox, bind_eq_ok, assert_eq_ok, demand_eq_ok,
    add_eq_ok, State.pay_eq_ok] at h
  obtain ⟨-, hescaped, -, hpending, -, harrived, record, hbox, -, hkind, amount, hamount, hfunds,
    -, -, rfl⟩ := h
  exact .reclaim hescaped hpending harrived hbox hkind hamount hfunds

omit [Crypto] in
theorem creditEscapeProgress_eq_ok {discharged : UInt64}
    (h : s.creditEscapeProgress discharged = .ok s') : ∃ deadline progress,
      Credited s.escapeGrace discharged s.escapeDeadline s.escapeProgress deadline progress ∧
        s' = { s with escapeDeadline := deadline, escapeProgress := progress } := by
  unfold State.creditEscapeProgress at h
  cases hdeadline : s.escapeDeadline with
  | none =>
    simp only [hdeadline, Except.ok.injEq] at h
    exact ⟨none, s.escapeProgress, .quiet, by rw [← h, ← hdeadline]⟩
  | some deadline =>
    simp only [hdeadline, bind_eq_ok, demand_eq_ok, add_eq_ok] at h
    obtain ⟨progress, hprogress, progress', hsum, h⟩ := h
    rw [hprogress]
    split_ifs at h with htranche
    · simp only [bind_eq_ok, add_eq_ok, Except.ok.injEq] at h
      obtain ⟨deadline', hdeadline', rfl⟩ := h
      exact ⟨_, _, .extended hsum htranche hdeadline', rfl⟩
    · cases h
      refine ⟨_, _, .counted hsum (UInt64.not_le.mp htranche), ?_⟩
      rw [← hdeadline]

theorem payWithdrawal_effect {recipient : L1Address} {amount : UInt64} {tail : Word}
    (h : payWithdrawal app env recipient amount tail s = .ok s') :
    Effect app env s (.payWithdrawal recipient amount tail) s' := by
  simp only [payWithdrawal, bind_eq_ok, assert_eq_ok, demand_eq_ok, State.pay_eq_ok] at h
  obtain ⟨-, -, head, hhead, -, hhash, s₁, hcredit, hfunds, -, -, rfl⟩ := h
  subst hhash
  by_cases hcreator : env.sender = app.creator
  · rw [if_pos hcreator] at hcredit
    obtain ⟨deadline, progress, hcredited, rfl⟩ := creditEscapeProgress_eq_ok hcredit
    exact .pay hhead (by rwa [if_pos hcreator]) hfunds
  · rw [if_neg hcreator] at hcredit
    cases hcredit
    exact .pay hhead (by rw [if_neg hcreator]; exact ⟨rfl, rfl⟩) hfunds

theorem forceExit_effect {address : Address} {nonce amount : UInt64} {authAddress : Address}
    {scheme : Bytes} {pubKey : Word} {signature : Bytes} {recipient : L1Address}
    {siblings : Bytes} (h : forceExit app env address nonce amount authAddress scheme pubKey
      signature recipient siblings s = .ok s') :
    Effect app env s (.forceExit address nonce amount authAddress scheme pubKey signature
      recipient siblings) s' := by
  simp only [forceExit, bind_eq_ok, assert_eq_ok, sub_eq_ok, State.pay_eq_ok] at h
  obtain ⟨-, hescaped, -, hfresh, -, rfl, -, hkey, -, hsig, -, hwhole, -, hdepth, -, hroot, -,
    hcovers, paid, hpaid, hfunds, -, -, rfl⟩ := h
  rw [UInt64.lt_iff_toNat_lt] at hcovers
  exact .exit hescaped hfresh hkey hsig hwhole hdepth hroot (by omega) hpaid hfunds

theorem signalEscape_effect (h : signalEscape env s = .ok s') :
    Effect app env s .signalEscape s' := by
  simp only [signalEscape, bind_eq_ok, assert_eq_ok, demand_eq_ok, add_eq_ok,
    Except.ok.injEq] at h
  obtain ⟨-, hlive, -, hquiet, -, hpending, record, hbox, stale, hsum, -, hstale, deadline,
    hdeadline, rfl⟩ := h
  rw [UInt64.lt_iff_toNat_lt] at hstale
  exact .signal (by simpa using hlive) hquiet hpending hbox (by omega) hdeadline

theorem securityCouncilEscape_effect (h : securityCouncilEscape env s = .ok s') :
    Effect app env s .securityCouncilEscape s' := by
  simp only [securityCouncilEscape, State.assertSecurityCouncil, bind_eq_ok, assert_eq_ok,
    Except.ok.injEq] at h
  obtain ⟨-, hcouncil, -, hlive, rfl⟩ := h
  have hlive : s.escaped = false := by simpa using hlive
  split_ifs with hopen
  · exact .escape s.dropBatch (if_pos hopen).symm hlive (.inl ⟨rfl, hcouncil⟩)
  · exact .escape s (if_neg hopen).symm hlive (.inl ⟨rfl, hcouncil⟩)

theorem executeEscape_effect (h : executeEscape env s = .ok s') :
    Effect app env s .executeEscape s' := by
  simp only [executeEscape, bind_eq_ok, assert_eq_ok, demand_eq_ok, Except.ok.injEq] at h
  obtain ⟨-, hlive, -, -, deadline, hdeadline, -, hlapsed, rfl⟩ := h
  have hlive : s.escaped = false := by simpa using hlive
  split_ifs with hopen
  · exact .escape s.dropBatch (if_pos hopen).symm hlive (.inr ⟨rfl, deadline, hdeadline, hlapsed⟩)
  · exact .escape s (if_neg hopen).symm hlive (.inr ⟨rfl, deadline, hdeadline, hlapsed⟩)

theorem abandonBatch_effect (h : abandonBatch app env s = .ok s') :
    Effect app env s .abandonBatch s' := by
  simp only [abandonBatch, bind_eq_ok, assert_eq_ok, Except.ok.injEq] at h
  obtain ⟨-, hcreator, -, hopen, rfl⟩ := h
  exact .abandon hcreator hopen

theorem openBatch_effect {batchLength target : UInt64}
    (h : openBatch app env batchLength target s = .ok s') :
    Effect app env s (.openBatch batchLength target) s' := by
  simp only [openBatch, bind_eq_ok, assert_eq_ok, Except.ok.injEq] at h
  obtain ⟨-, hcreator, -, hlive, -, hclosed, -, hpaid, -, hfrom, -, hto, chain, hchain, rfl⟩ := h
  exact .openBatch hcreator (by simpa using hlive) hclosed hpaid hfrom hto hchain

theorem accumulateChunk_effect {chunk : Bytes}
    (h : accumulateChunk app env chunk s = .ok s') :
    Effect app env s (.accumulateChunk chunk) s' := by
  simp only [accumulateChunk, bind_eq_ok, assert_eq_ok, demand_eq_ok, add_eq_ok, sub_eq_ok,
    Except.ok.injEq] at h
  obtain ⟨-, hcreator, -, -, batchLength, hlength, postedLength, hposted, -, hmore, remaining,
    hremaining, -, hchunk, accumulator, haccumulator, posted, hsum, rfl⟩ := h
  have hexpected : (if remaining < chunkSize then remaining else chunkSize).toNat =
      min chunkSize.toNat (batchLength.toNat - postedLength.toNat) := by
    split_ifs with hlast
    · rw [UInt64.lt_iff_toNat_lt] at hlast
      omega
    · rw [UInt64.not_lt, UInt64.le_iff_toNat_le] at hlast
      omega
  exact .chunk hcreator hlength hposted hmore (hchunk.trans hexpected) haccumulator
    (by rw [hsum, hchunk])

omit [Crypto] in
theorem answerSignal_eq_ok {old : UInt64} (h : s.answerSignal old = .ok s') :
    ∃ deadline target progress, s' = { s with
      escapeDeadline := deadline, escapeInboxTarget := target, escapeProgress := progress } ∧
      Answered s.escapeGrace old s.settledInboxCursor s.escapeDeadline s.escapeInboxTarget
        s.escapeProgress deadline target progress := by
  unfold State.answerSignal at h
  cases htarget : s.escapeInboxTarget with
  | none =>
    simp only [htarget, Except.ok.injEq] at h
    exact ⟨_, none, _, by rw [← h, ← htarget], .quiet⟩
  | some target =>
    simp only [htarget] at h
    split_ifs at h with hreached
    · cases h
      exact ⟨none, none, none, rfl, .reached (UInt64.le_iff_toNat_le.mp hreached)⟩
    · simp only [bind_eq_ok, sub_eq_ok] at h
      obtain ⟨consumed, hconsumed, hcredit⟩ := h
      obtain ⟨deadline, progress, hcredited, rfl⟩ := creditEscapeProgress_eq_ok hcredit
      rw [UInt64.not_le] at hreached
      exact ⟨_, _, _, by rw [← htarget], .credited hreached hconsumed hcredited⟩

theorem verifyBatch_effect {verifier : PaymentTxn} {signals : List Word} {p : PublicValues}
    (h : verifyBatch app env verifier signals p s = .ok s') :
    Effect app env s (.verifyBatch verifier signals p) s' := by
  simp only [verifyBatch, bind_eq_ok, assert_eq_ok, demand_eq_ok] at h
  obtain ⟨s₁, hreceive, -, hcreator, -, hlive, -, hround, -, -, length, hlength, posted, hposted,
    -, rfl, _, hproof, -, hroot, accumulator, haccumulator, -, rfl, -, hfrom, chain, hto, -, rfl,
    cursor, hcursor, hsettled⟩ := h
  obtain ⟨deadline, target, progress, rfl, hanswer⟩ := answerSignal_eq_ok hsettled
  obtain ⟨-, ⟨-, -, rfl⟩ | ⟨-, rfl⟩⟩ := State.receive_eq_ok.mp hreceive
  · exact .settle hcreator (by simpa using hlive) hround hlength hposted hproof hroot haccumulator
      hfrom hto hcursor hanswer (Nat.le_add_right ..)
  · exact .settle hcreator (by simpa using hlive) hround hlength hposted hproof hroot haccumulator
      hfrom hto hcursor hanswer le_rfl

/-- Every call that goes through has one of the listed effects. -/
theorem exec_effect {call : Call} (h : exec app env s call = .ok s') :
    Effect app env s call s' := by
  cases call with
  | fund payment => exact fund_effect h
  | securityCouncilEscape => exact securityCouncilEscape_effect h
  | scheduleVerifierUpdate v p r => exact scheduleVerifierUpdate_effect h
  | executeVerifierUpdate => exact executeVerifierUpdate_effect h
  | scheduleApplicationUpdate hash => exact scheduleApplicationUpdate_effect h
  | updateApplication pages clear => exact updateApplication_effect h
  | deposit payment recipient => exact deposit_effect h
  | requestWithdrawal payment n a r scheme key sig => exact requestWithdrawal_effect h
  | pruneRequest index => exact pruneRequest_effect h
  | pruneDeposit index => exact pruneDeposit_effect h
  | reclaimDeposit index => exact reclaimDeposit_effect h
  | payWithdrawal recipient amount tail => exact payWithdrawal_effect h
  | forceExit a n x auth scheme key sig r siblings => exact forceExit_effect h
  | opUp nonce =>
    cases h
    exact .inert_self (by trivial)
  | signalEscape => exact signalEscape_effect h
  | executeEscape => exact executeEscape_effect h
  | abandonBatch => exact abandonBatch_effect h
  | openBatch batchLength target => exact openBatch_effect h
  | accumulateChunk chunk => exact accumulateChunk_effect h
  | verifyBatch verifier signals p => exact verifyBatch_effect h

end Methods

end PaymentRollup.Contract
