import PaymentRollup.Contract.Takeover
import PaymentRollup.Rollup.Answers

/-! # Any state can be handed over

A sequencer may stop with a batch half posted or with payouts outstanding. The creator drops the
batch, anybody makes the payouts, and a ledger that was never the old sequencer's stands in step
with the contract, with a block to build over everything that waits in the inbox.
-/
namespace PaymentRollup.Contract

section Payouts
variable [Crypto] {app : App} {usize : ℕ} {guest : PublicValues → Execution} {Q : Set Bytes}
  {funds : ℕ} {round : UInt64} {env : Env} {s s' : State} {log : Log} {S : AccountMap}
  {batches : List Batch} {lists : List (List Payout)} {owed : List Payout}

omit [Crypto] in
theorem replayBatches_large {S S' : AccountMap} {batches : List Batch} {lists : List (List Payout)}
    (h : replayBatches S batches = some (S', lists)) :
    ∀ payouts ∈ lists, ∀ payout ∈ payouts, minWithdrawal ≤ payout.2 := by
  induction batches generalizing S lists with
  | nil =>
    cases h
    exact List.forall_mem_nil _
  | cons batch rest ih =>
    obtain ⟨S₁, payouts, later, hfirst, hrest, rfl⟩ := replayBatches_cons_eq_some.mp h
    exact List.forall_mem_cons.mpr ⟨(replay_total hfirst).2, ih hrest⟩

theorem Ledgered.large (h : Ledgered app usize Q s log S batches lists owed) :
    ∀ payout ∈ owed, minWithdrawal ≤ payout.2 := by
  intro payout hpayout
  have hlast := h.last.subset hpayout
  rcases List.eq_nil_or_concat lists with rfl | ⟨before, last, rfl⟩
  · cases hlast
  · rw [List.concat_eq_append, List.getLastD_concat] at hlast
    exact replayBatches_large h.replayed last (by simp) payout hlast

theorem payWithdrawal_by_other (hsender : env.sender ≠ app.creator) {recipient : L1Address}
    {amount : UInt64} {tail : Word}
    (hhead : s.pendingWithdrawals = some (sha256 (payoutString tail recipient amount)))
    (haccepts : env.accepts recipient amount = true)
    (hfunds : s.minBalance + amount.toNat ≤ s.balance) :
    payWithdrawal app env recipient amount tail s = .ok { s with
      pendingWithdrawals := if tail = withdrawalTerminal app then none else some tail
      balance := balanceAfter app s.balance recipient amount } := by
  simp only [payWithdrawal, bind_eq_ok, assert_eq_ok, demand_eq_ok, if_neg hsender,
    Except.ok.injEq, State.pay_eq_ok]
  refine ⟨(), by simp [hhead], _, hhead, (), rfl, _, rfl, ?_, haccepts, ?_, rfl⟩
  · exact (Nat.le_add_left _ _).trans hfunds
  · simp only [balanceAfter]
    split_ifs <;> omega

def payouts (env : Env) (domain : DeploymentDomain) (owed : List Payout) : List (Env × Call) :=
  (withdrawalLinks domain owed).map fun link =>
    (env, .payWithdrawal link.recipient link.amount link.tail)

theorem payouts_cons (env : Env) (domain : DeploymentDomain) (payout : Payout)
    (rest : List Payout) : payouts env domain (payout :: rest) =
      (env, .payWithdrawal payout.1 payout.2 (withdrawalChain domain rest)) ::
        payouts env domain rest := by
  rw [payouts, withdrawalLinks_cons, List.map_cons, ← payouts]

theorem Ledgered.payable {payout : Payout} {rest : List Payout}
    (h : Ledgered app usize Q s log S batches lists (payout :: rest))
    (hsolvent : Solvent app s S (payout :: rest) (arrivals app log) (reclaimed log))
    (hsender : env.sender ≠ app.creator)
    (haccepts : ∀ account amount, minWithdrawal ≤ amount → env.accepts account amount = true) :
    let tail := withdrawalChain (deploymentDomain app) rest
    exec app env s (.payWithdrawal payout.1 payout.2 tail) = .ok { s with
        pendingWithdrawals := if tail = withdrawalTerminal app then none else some tail
        balance := balanceAfter app s.balance payout.1 payout.2 } ∧
      (Call.payWithdrawal payout.1 payout.2 tail).Sound app usize guest Q s := by
  have hstrings := h.owedStrings (List.cons_ne_nil _ _)
  obtain ⟨hrest, hlink⟩ := payoutStrings_cons_subset.mp hstrings
  have hpending := h.pending
  rw [pendingOf, if_neg (List.cons_ne_nil _ _), withdrawalChain_cons] at hpending
  have hcovers := hsolvent.covers
  simp only [liabilities, payoutTotal, List.map_cons, List.sum_cons] at hcovers
  constructor
  · have hlarge := h.large payout (List.mem_cons_self ..)
    exact payWithdrawal_by_other hsender hpending (haccepts _ _ hlarge) (by omega)
  · refine ⟨id, ?_, ?_⟩
    · refine Set.insert_subset hlink (Set.singleton_subset_iff.mpr ?_)
      exact (payoutStrings_subset.mp hrest).1
    · rintro _ _ _ ⟨⟩

/-- All that is owed can be paid, one payout after another, and nothing else changes. -/
theorem Ledgered.drainable (hQ : Ideal Q) (hrun : Run app funds round s log)
    (hlog : ∀ e ∈ log, e.Sound app usize guest Q)
    (h : Ledgered app usize Q s log S batches lists owed)
    (hsolvent : Solvent app s S owed (arrivals app log) (reclaimed log))
    (hsender : env.sender ≠ app.creator) (hround : round ≤ env.round)
    (haccepts : ∀ account amount, minWithdrawal ≤ amount → env.accepts account amount = true) :
    ∃ balance log', play app s log (payouts env (deploymentDomain app) owed) =
        .ok ({ s with pendingWithdrawals := none, balance }, log') ∧
      InOrder round (payouts env (deploymentDomain app) owed) ∧
      (∀ e ∈ log', e.Sound app usize guest Q) ∧ arrivals app log' = arrivals app log := by
  induction owed generalizing s log round batches lists with
  | nil =>
    have hnone : s.pendingWithdrawals = none := h.pending
    refine ⟨s.balance, log, ?_, True.intro, hlog, rfl⟩
    rw [← hnone]
    rfl
  | cons payout rest ih =>
    obtain ⟨hok, hsound⟩ := h.payable hsolvent hsender haccepts
    have heffect := exec_effect hok
    obtain ⟨S', batches', lists', owed', hstep, hmoves⟩ := h.step hQ hrun.kept heffect hsound
    have hsolvent' := hsolvent.step hQ hrun.kept h heffect hsound hmoves
    cases hmoves with
    | stay _ hpay => exact absurd rfl (hpay _ _ _)
    | pay =>
      obtain ⟨balance, log', hplay, horder, hsounds, harrived⟩ :=
        ih (hrun.call env _ hround hok) (List.forall_mem_cons.mpr ⟨hsound, hlog⟩) hstep hsolvent'
          (UInt64.le_refl _)
      rw [payouts_cons]
      refine ⟨balance, log', ?_, ⟨hround, horder⟩, hsounds, harrived⟩
      rw [play, hok, ok_bind]
      exact hplay

end Payouts

section Backlog
variable [Crypto] {app : App} {s : State} {log : Log} {l : Ledger}

/-- The inbox entries that no settled batch has answered. -/
def backlog (app : App) (s : State) (log : Log) : List InboxItem :=
  (arrivals app log).drop s.settledInboxCursor.toNat

theorem Idle.due (hidle : Idle s) (hkept : s.inboxKeys.Represents (arrivals app log))
    (hreached : Ledger.Reached (deploymentDomain app) l) (hstep : InStep app l s)
    (hroom : Room l.accounts (backlog app s log)) :
    ∃ l' block, Due app s log l l' block s.inboxCursor := by
  have hconsistent := hreached.consistent.1
  have hbuilding : Ledger.Consistent (Ledger.Building.mk l [] [] []).ledger := hconsistent
  obtain ⟨b, hb⟩ := Ledger.Building.answers hbuilding hroom
  obtain ⟨block, hblock⟩ : ∃ block, l.getBlock ((backlog app s log).map InboxItem.signed) =
      some (block, b.ledger) := by
    simp only [Ledger.getBlock, hb, Option.bind_eq_bind, Option.bind_some, Option.some.injEq,
      Prod.mk.injEq, and_true, exists_eq']
  have hlength : (arrivals app log).length = s.inboxCursor.toNat := hkept.length
  have hsettled : s.settledInboxCursor.toNat ≤ (arrivals app log).length := hkept.settled
  refine ⟨b.ledger, block, hidle, hreached, hstep, ⟨_, hblock, ?_⟩, ?_, UInt64.le_refl _⟩
  · have htxns : ((backlog app s log).map InboxItem.signed).map SignedTransaction.txn =
        (backlog app s log).map InboxItem.txn := by
      rw [List.map_map]
      exact List.map_congr_left fun item _ => item.signed_txn
    rw [htxns, inboxItems_map_txn, ← hlength, List.take_length, backlog]
  · rw [UInt64.le_iff_toNat_le, ← hlength]
    exact hsettled

end Backlog

section Results
variable [Crypto] {app : App} {usize : ℕ} {guest : PublicValues → Execution} {Q : Set Bytes}
  {funds : ℕ} {round : UInt64} {s : State} {log : Log}

omit [Crypto] in
/-- What is credited and deposited is held by the app, so it fits beside itself. -/
theorem Solvent.room {S : AccountMap} {owed : List Payout} {items : List InboxItem}
    (h : Solvent app s S owed items (reclaimed log)) (hlive : s.escaped = false)
    (hbalance : s.balance < 2 ^ 64)
    (hnonces : ∀ address account, S address = some account →
      account.nonce.toNat + requestCount (items.drop s.settledInboxCursor.toNat) < 2 ^ 64) :
    Room S (items.drop s.settledInboxCursor.toNat) := by
  have hcovers := h.covers
  rw [liabilities, unexited_none (h.unexited hlive), h.unreclaimed hlive, unclaimed_nil] at hcovers
  refine ⟨by omega, ?_⟩
  intro address
  cases haccount : S address with
  | none =>
    right
    rw [nonceOf, haccount, Option.elim_none]
    omega
  | some account =>
    left
    rw [nonceOf, haccount, Option.elim_some]
    exact hnonces address account haccount

/-- What clears up after a sequencer: its batch is dropped, or its payouts are made. -/
inductive ClearsUp (app : App) (creator payer : Env) : List (Env × Call) → Prop
  | abandon : ClearsUp app creator payer [(creator, .abandonBatch)]
  | drain (owed : List Payout) :
      ClearsUp app creator payer (payouts payer (deploymentDomain app) owed)

/-- Only one of the two is ever left to do, and it changes nothing else. -/
theorem Run.cleared (hrun : Run app funds round s log) (hQ : Ideal Q)
    (hlog : ∀ e ∈ log, e.Sound app usize guest Q) {S : AccountMap} {batches : List Batch}
    {lists : List (List Payout)} {owed : List Payout}
    (hledgered : Ledgered app usize Q s log S batches lists owed)
    (hsolvent : Solvent app s S owed (arrivals app log) (reclaimed log)) {creator payer : Env}
    (hcreator : creator.sender = app.creator) (hpayer : payer.sender ≠ app.creator)
    (hround : round ≤ creator.round) (hround' : round ≤ payer.round)
    (haccepts : ∀ account amount, minWithdrawal ≤ amount → payer.accepts account amount = true) :
    ∃ calls balance log', ClearsUp app creator payer calls ∧ InOrder round calls ∧
      play app s log calls =
        .ok ({ s.dropBatch with pendingWithdrawals := none, balance }, log') ∧
      arrivals app log' = arrivals app log := by
  rcases hrun.kept.batch with ⟨haccumulator, hlength, hposted, hchain, hcursor⟩ |
    ⟨n, c, hposting⟩
  · obtain ⟨balance, log', hplay, horder, -, harrived⟩ :=
      hledgered.drainable hQ hrun hlog hsolvent hpayer hround' haccepts
    have hclosed : { s with pendingWithdrawals := none, balance } =
        { s.dropBatch with pendingWithdrawals := none, balance } := by
      dsimp only [State.batchKeys] at haccumulator hlength hposted hchain hcursor
      simp only [State.dropBatch, haccumulator, hlength, hposted, hchain, hcursor]
    rw [hclosed] at hplay
    exact ⟨_, balance, log', .drain owed, horder, hplay, harrived⟩
  · have hopen : s.batchLength.isSome := by
      have hlength : s.batchLength = some n := hposting.length
      rw [hlength]
      rfl
    have hunpaid : s.pendingWithdrawals = none := hposting.unpaid
    have hok : exec app creator s .abandonBatch =
        .ok { s.dropBatch with pendingWithdrawals := none, balance := s.balance } := by
      simp only [exec, abandonBatch, bind_eq_ok, assert_eq_ok, Except.ok.injEq]
      refine ⟨(), hcreator, (), hopen, ?_⟩
      rw [← hunpaid]
      rfl
    let dropped : State := { s.dropBatch with pendingWithdrawals := none, balance := s.balance }
    refine ⟨_, s.balance, ⟨s, creator, .abandonBatch, dropped⟩ :: log, .abandon,
      ⟨hround, True.intro⟩, ?_, rfl⟩
    rw [play, hok, ok_bind]
    rfl

/-- Wherever a sequencer stopped: the creator dropping its batch, or anybody making its payouts,
brings the contract to rest with nothing else changed. A ledger stands in step there that owes the
old sequencer nothing, and it has a block to build over the whole backlog. -/
theorem any_state_can_be_handed_over (hrun : Run app funds round s log)
    (hfunds : app.baseMinBalance ≤ funds) (hQ : Ideal Q)
    (hlog : ∀ e ∈ log, e.Sound app usize guest Q) (hlive : s.escaped = false)
    (hbalance : s.balance < 2 ^ 64) {creator payer : Env} (hcreator : creator.sender = app.creator)
    (hpayer : payer.sender ≠ app.creator) (hround : round ≤ creator.round)
    (hround' : round ≤ payer.round)
    (haccepts : ∀ account amount, minWithdrawal ≤ amount → payer.accepts account amount = true) :
    ∃ calls s' log' l, ClearsUp app creator payer calls ∧ InOrder round calls ∧
      play app s log calls = .ok (s', log') ∧ Idle s' ∧
      (∃ balance, s' = { s.dropBatch with pendingWithdrawals := none, balance }) ∧
      Ledger.Reached (deploymentDomain app) l ∧ InStep app l s' ∧
      backlog app s' log' = backlog app s log ∧
      ((∀ address account, l.accounts address = some account →
        account.nonce.toNat + requestCount (backlog app s log) < 2 ^ 64) →
        ∃ l' block, Due app s' log' l l' block s'.inboxCursor) := by
  obtain ⟨S, batches, lists, owed, hledgered, hsolvent⟩ := hrun.solvent hQ hfunds hlog
  obtain ⟨blocks, l, hmirrors⟩ := hrun.mirrored hQ hlog
  have hreached := hmirrors.grown.reached
  have haccounts : l.accounts = S := by
    have hconsistent := hreached.consistent.1
    have htree := hmirrors.tree
    rw [hconsistent] at htree
    apply accounts_of_root hQ htree hledgered.tree
    rw [← hledgered.root, ← hmirrors.inStep.root, Ledger.stateRoot, hconsistent]
  obtain ⟨calls, balance, log', hclears, horder, hplay, harrived⟩ :=
    hrun.cleared hQ hlog hledgered hsolvent hcreator hpayer hround hround' haccepts
  have hidle : Idle { s.dropBatch with pendingWithdrawals := none, balance } := ⟨hlive, rfl, rfl⟩
  have hstep : InStep app l { s.dropBatch with pendingWithdrawals := none, balance } :=
    ⟨hmirrors.inStep.domain, hmirrors.inStep.root, hmirrors.inStep.chain⟩
  have hbacklog : backlog app { s.dropBatch with pendingWithdrawals := none, balance } log' =
      backlog app s log := by
    rw [backlog, harrived]
    rfl
  refine ⟨calls, _, log', l, hclears, horder, hplay, hidle, ⟨balance, rfl⟩, hreached, hstep,
    hbacklog, ?_⟩
  intro hnonces
  apply hidle.due (play_run hrun horder hplay).kept.inbox hreached hstep
  rw [hbacklog, haccounts]
  exact hsolvent.room hlive hbalance fun address account haccount =>
    hnonces address account (haccounts ▸ haccount)

end Results

section Sample
attribute [local instance] Crypto.unsigned

/-- The sequencer stops before anybody is paid. -/
def sampleStopped : State × Log := samplePlayed 100000 (sampleDeposit :: sampleSettlement.take 3)

theorem sampleStopped_handed_over : ∃ calls s' log' l,
    ClearsUp sampleApp (sampleEnv (sampleAccount 1) 9) (sampleEnv (sampleAccount 8) 9) calls ∧
      InOrder 8 calls ∧ play sampleApp sampleStopped.1 sampleStopped.2 calls = .ok (s', log') ∧
      Idle s' ∧
      (∃ balance, s' = { sampleStopped.1.dropBatch with pendingWithdrawals := none, balance }) ∧
      Ledger.Reached (deploymentDomain sampleApp) l ∧ InStep sampleApp l s' ∧
      backlog sampleApp s' log' = backlog sampleApp sampleStopped.1 sampleStopped.2 ∧
      ((∀ address account, l.accounts address = some account →
        account.nonce.toNat +
          requestCount (backlog sampleApp sampleStopped.1 sampleStopped.2) < 2 ^ 64) →
        ∃ l' block, Due sampleApp s' log' l l' block s'.inboxCursor) := by
  have hevaluated :
      ((play sampleApp (sampleStart 100000) [] (sampleDeposit :: sampleSettlement.take 3)).isOk =
          true ∧ InOrder 0 (sampleDeposit :: sampleSettlement.take 3)) ∧
      (∀ e ∈ sampleStopped.2,
        e.Sound sampleApp (2 ^ 32) sampleGuest {string | string ∈ sampleStrings}) ∧
      sampleStopped.1.escaped = false ∧ sampleStopped.1.balance < 2 ^ 64 := by
    decide +kernel
  obtain ⟨⟨hplays, horder⟩, hlog, hlive, hbalance⟩ := hevaluated
  have hrun : Run sampleApp 100000 8 sampleStopped.1 sampleStopped.2 :=
    samplePlayed_run 100000 (sampleDeposit :: sampleSettlement.take 3) hplays horder
  exact any_state_can_be_handed_over hrun le_rfl sample_ideal hlog hlive hbalance rfl (by decide)
    (by decide) (by decide) fun _ _ _ => rfl

end Sample

end PaymentRollup.Contract
