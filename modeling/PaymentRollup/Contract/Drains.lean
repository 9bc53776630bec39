import PaymentRollup.Contract.Hatch
import PaymentRollup.Contract.Honest
import PaymentRollup.Contract.Playing
import PaymentRollup.Rollup.Drain
import PaymentRollup.Rollup.Sizes

/-! # A drain under accusation

The sequencer is accused over more entries than it settles, and makes its way towards the next
tranche through the payouts of the batch it settled since. One payout short of the tranche
there is nothing left but that payout, and it may wait.
-/
namespace PaymentRollup.Contract

section Genuineness
variable [Crypto]

/-- The program stays what it is, and every proof settled on is of an execution of the guest. -/
def Step.Genuine (usize : ℕ) (e : Step) : Prop :=
  ¬e.call.IsUpdate ∧ ∀ verifier signals p, e.call = .verifyBatch verifier signals p →
    ∃ x : Execution, x.Commits usize p.bytes

end Genuineness

section Filling
variable [Crypto] {grace : UInt64} {owner : Address} {n : ℕ} {s : State} {log : Log}

def drainStart (grace : UInt64) : State :=
  createApplication sampleApp (sampleAccount 10) (sampleAccount 11) (sampleAccount 12) 100 grace
    (sampleAccount 13) 10 [] [] 100000

/-- Nothing has settled or been signalled, and the app holds what was deposited. -/
structure Fresh (grace : UInt64) (n : ℕ) (s : State) : Prop where
  idle : Idle s
  root : s.stateRoot = Word.zero
  chain : s.settledInboxChain = Word.zero
  cursor : s.settledInboxCursor = 0
  quiet : s.escapeDeadline = none
  timeout : s.inboxTimeout = 100
  grace : s.escapeGrace = grace
  verifier : s.verifierAddress = sampleAccount 10
  funds : s.minBalance + 300000 * n = s.balance

/-- So many deposits to one account have arrived, and nothing else has happened. -/
structure Filled (grace : UInt64) (owner : Address) (n : ℕ) (s : State) (log : Log) : Prop where
  run : Run sampleApp 100000 5 s log
  arrived : arrivals sampleApp log = List.replicate n (.deposit owner 300000)
  settled : settledBatches log = []
  genuine : ∀ e ∈ log, e.Genuine (2 ^ 32)
  fresh : Fresh grace n s

theorem Filled.start : Filled grace owner 0 (drainStart grace) [] :=
  ⟨.create 5 .., rfl, rfl, List.forall_mem_nil _,
    ⟨⟨rfl, rfl, rfl⟩, rfl, rfl, rfl, rfl, rfl, rfl, rfl, rfl⟩⟩

theorem Filled.cursor (h : Filled grace owner n s log) : s.inboxCursor.toNat = n := by
  have hlength : (arrivals sampleApp log).length = s.inboxCursor.toNat := h.run.kept.inbox.length
  rw [← hlength, h.arrived, List.length_replicate]

theorem Filled.next (h : Filled grace owner n s log) (hn : n + 1 < 2 ^ 64) :
    ∃ s' log', Filled grace owner (n + 1) s' log' := by
  have hcursor := h.cursor
  have hcost : s.boxCost sampleApp s.inboxCursor = 60000 := by
    have hfresh : s.inbox s.inboxCursor = none := h.run.kept.inbox.fresh
    rw [State.boxCost, hfresh]
    rfl
  obtain ⟨s', hok⟩ : ∃ s', exec sampleApp (sampleEnv (sampleAccount 9) 5) s
      (.deposit ⟨sampleAccount 9, sampleAccount 2, 360000⟩ owner) = .ok s' :=
    deposit_ok (by decide) rfl h.fresh.idle.live (by rw [hcost]; decide) (by omega)
      (h.fresh.funds ▸ Nat.le_add_right _ _)
  refine ⟨s', _, h.run.call _ _ (by decide) hok, ?_, h.settled, ?_, ?_⟩
  · simp only [arrivals, h.arrived, hcost]
    exact (List.replicate_succ' ..).symm
  · refine List.forall_mem_cons.mpr ⟨⟨id, ?_⟩, h.genuine⟩
    rintro _ _ _ ⟨⟩
  · cases exec_effect hok with
    | inert hcall => exact hcall.elim
    | prune _ hcall => simp at hcall
    | escape _ _ _ hcall => simp at hcall
    | deposit =>
      rcases h.fresh with ⟨⟨hlive, hclosed, hunpaid⟩, hroot, hchain, hsettled, hquiet, htimeout, hgrace,
        hverifier, hfunds⟩
      refine ⟨⟨hlive, hclosed, hunpaid⟩, hroot, hchain, hsettled, hquiet, htimeout, hgrace, hverifier,
        ?_⟩
      have hpaid : (360000 : UInt64).toNat = 360000 := rfl
      have hbox : (60000 : UInt64).toNat = 60000 := rfl
      rw [hcost]
      simp only [hpaid, hbox]
      omega

theorem exists_filled (grace : UInt64) (owner : Address) (n : ℕ) (hn : n < 2 ^ 64) :
    ∃ s log, Filled grace owner n s log := by
  induction n with
  | zero => exact ⟨_, _, .start⟩
  | succ n ih =>
    obtain ⟨s, log, h⟩ := ih (by omega)
    exact h.next hn

end Filling

section Accusing
variable [Crypto] {grace : UInt64} {owner : Address} {s : State} {log : Log}

structure Accused (grace : UInt64) (owner : Address) (e : Step) (before : Log) : Prop where
  filled : Filled grace owner 255 e.before before
  signal : e.call = .signalEscape
  round : e.env.round = 200
  run : Run sampleApp 100000 200 e.after (e :: before)
  after : ∃ deadline : UInt64, deadline.toNat = 200 + grace.toNat ∧ e.after = { e.before with
    escapeInboxTarget := some e.before.inboxCursor
    escapeProgress := some 0
    escapeDeadline := some deadline }

theorem Filled.accuse (h : Filled grace owner 255 s log) (hgrace : 200 + grace.toNat < 2 ^ 64) :
    ∃ e, Accused grace owner e log := by
  have hcursor := h.cursor
  have hpending : s.settledInboxCursor < s.inboxCursor := by
    rw [UInt64.lt_iff_toNat_lt, h.fresh.cursor, hcursor]
    decide
  obtain ⟨head, hbox, hfiled⟩ := h.run.head h.fresh.idle.live hpending
  have hround := UInt64.le_iff_toNat_le.mp (h.run.filed.past head (List.mem_of_getElem? hfiled))
  have hstale : head.round.toNat + s.inboxTimeout.toNat <
      (sampleEnv (sampleAccount 8) 200).round.toNat := by
    rw [h.fresh.timeout]
    exact Nat.lt_of_le_of_lt (Nat.add_le_add_right hround _) (by decide)
  have hfits : (sampleEnv (sampleAccount 8) 200).round.toNat + s.escapeGrace.toNat < 2 ^ 64 := by
    rw [h.fresh.grace]
    exact hgrace
  obtain ⟨s', deadline, hok, hdeadline, hsum, -⟩ :=
    signalEscape_ok h.fresh.idle.live h.fresh.quiet hpending hbox hstale hfits
  have hexec : exec sampleApp (sampleEnv (sampleAccount 8) 200) s .signalEscape = .ok s' := hok
  refine ⟨⟨s, sampleEnv (sampleAccount 8) 200, .signalEscape, s'⟩, h, rfl, rfl,
    h.run.call _ .signalEscape (by decide) hexec, deadline, ?_, ?_⟩
  · rw [hsum, h.fresh.grace]
    rfl
  · cases exec_effect hexec with
    | inert hcall => exact hcall.elim
    | prune _ hcall => simp at hcall
    | escape _ _ _ hcall => simp at hcall
    | signal =>
      cases hdeadline
      rfl

end Accusing

section Owing
variable [Crypto] {grace deadline progress : UInt64} {owed rest : List Payout} {recipient : L1Address}
  {amount : UInt64} {l : Ledger} {round : UInt64} {s : State} {log : Log}

/-- A signal is live and these payouts are left to be made. -/
structure Owing (grace deadline progress : UInt64) (owed : List Payout) (l : Ledger) (s : State) :
    Prop where
  live : s.escaped = false
  closed : s.batchLength = none
  step : InStep sampleApp l s
  cursor : s.settledInboxCursor = 254
  pending : s.pendingWithdrawals = pendingOf (deploymentDomain sampleApp) owed
  deadline : s.escapeDeadline = some deadline
  progress : s.escapeProgress = some progress
  grace : s.escapeGrace = grace
  verifier : s.verifierAddress = sampleAccount 10
  funds : s.minBalance + payoutTotal owed ≤ s.balance

/-- The chain of these payouts is not the chain of none, nor is any end of it. -/
def Unlooped (owed : List Payout) : Prop :=
  ∀ left, left <:+ owed → (withdrawalChain (deploymentDomain sampleApp) left =
    withdrawalTerminal sampleApp ↔ left = [])

theorem Owing.pay (h : Owing grace deadline progress ((recipient, amount) :: rest) l s)
    (hrun : Run sampleApp 100000 round s log) (hlinks : Unlooped rest) (env : Env)
    (hcreator : env.sender = sampleApp.creator) (haccepts : env.accepts recipient amount = true)
    (hfits : s.CreditFits 1) :
    ∃ s' deadline' progress', exec sampleApp env s (.payWithdrawal recipient amount
        (withdrawalChain (deploymentDomain sampleApp) rest)) = .ok s' ∧
      Credited grace 1 (some deadline) (some progress) (some deadline') (some progress') ∧
      Owing grace deadline' progress' rest l s' := by
  have hpending := h.pending
  rw [pendingOf, if_neg (List.cons_ne_nil _ _), withdrawalChain_cons] at hpending
  have hfunds := h.funds
  simp only [payoutTotal, List.map_cons, List.sum_cons] at hfunds
  obtain ⟨s', hok⟩ : ∃ s', exec sampleApp env s (.payWithdrawal recipient amount
      (withdrawalChain (deploymentDomain sampleApp) rest)) = .ok s' :=
    payWithdrawal_ok hcreator hrun.kept.signal hfits hpending haccepts (by omega)
  cases exec_effect hok with
  | inert hcall => exact hcall.elim
  | prune _ hcall => simp at hcall
  | escape _ _ _ hcall => simp at hcall
  | @pay _ _ _ deadline' progress' hhead hcredit =>
    rw [if_pos hcreator, h.grace, h.deadline, h.progress] at hcredit
    have howing : ∀ d p, deadline' = some d → progress' = some p → Owing grace d p rest l { s with
        pendingWithdrawals :=
          if withdrawalChain (deploymentDomain sampleApp) rest = withdrawalTerminal sampleApp then none
          else some (withdrawalChain (deploymentDomain sampleApp) rest)
        escapeDeadline := deadline'
        escapeProgress := progress'
        balance := balanceAfter sampleApp s.balance recipient amount } := by
      intro d p hd hp
      refine ⟨h.live, h.closed, ⟨h.step.domain, h.step.root, h.step.chain⟩, h.cursor, ?_, hd, hp,
        h.grace, h.verifier, ?_⟩
      · simp only [pendingOf, hlinks rest (List.suffix_refl _)]
      · simp only [balanceAfter, payoutTotal]
        split_ifs <;> omega
    cases hcredit with
    | counted hsum hshort => exact ⟨_, _, _, hok, .counted hsum hshort, howing _ _ rfl rfl⟩
    | extended hsum htranche hd => exact ⟨_, _, _, hok, .extended hsum htranche hd, howing _ _ rfl rfl⟩

end Owing

section Draining
variable [Crypto] {grace : UInt64} {key : Bytes}

def drainPayout : Payout := (sampleAccount 5, 250000)

/-- Deposits to an account under a managed key, and two withdrawals. -/
def drainedTxns (key : Bytes) (n m : ℕ) : List SignedTransaction :=
  Ledger.drainTxns (addressFromPublicKey .managed key) key drainPayout.1 300000 drainPayout.2 n m

theorem Accused.inStep {e : Step} {before : Log} {owner : Address} (h : Accused grace owner e before) :
    InStep sampleApp (.withDomain (deploymentDomain sampleApp)) e.after := by
  obtain ⟨deadline, -, hafter⟩ := h.after
  rw [hafter]
  exact ⟨rfl, h.filled.fresh.root.symm, h.filled.fresh.chain.symm⟩

theorem Accused.arrived {e : Step} {before : Log} {owner : Address} (h : Accused grace owner e before) :
    arrivals sampleApp (e :: before) = List.replicate 255 (.deposit owner 300000) := by
  have hquiet : e.call.IsQuiet := by
    rw [h.signal]
    exact True.intro
  rw [(projections_quiet sampleApp e hquiet before).1, h.filled.arrived]

/-- The next block of deposits and withdrawals, as far as the contract needs to know it. -/
structure NextBlock (key : Bytes) (n m : ℕ) (target : UInt64) (s : State) (log : Log) (l l' : Ledger)
    (block : Block) (x : Settlement) (p : PublicValues) : Prop where
  due : Due sampleApp s log l l' block target
  hosted : Settlement.forBlock (2 ^ 32) block = .ok x
  bytes : p.bytes = x.publicValues
  commits : block.execution.Commits (2 ^ 32) p.bytes
  planned : Planned sampleApp (2 ^ 32) Set.univ s (arrivals sampleApp log) x target p
  withdrawals : x.withdrawals = List.replicate m drainPayout
  reached : Ledger.Reached (deploymentDomain sampleApp) l'
  root : l'.stateRoot = p.newRoot
  chain : l'.inboxChain = p.newInboxChain
  accounts : ∃ nonce left, nonce.toNat =
      (l.held (addressFromPublicKey .managed key)).nonce.toNat + m ∧
    left.toNat + m * drainPayout.2.toNat =
      (l.held (addressFromPublicKey .managed key)).amount.toNat + n * (300000 : UInt64).toNat ∧
    l'.accounts = Function.update l.accounts (addressFromPublicKey .managed key)
      (some ⟨nonce, left, addressFromPublicKey .managed key⟩)

theorem exists_nextBlock {round : UInt64} {s : State} {log : Log} {l : Ledger} (n m : ℕ)
    (target : UInt64) (hrun : Run sampleApp 100000 round s log) (hidle : Idle s)
    (hl : Ledger.Reached (deploymentDomain sampleApp) l) (hstep : InStep sampleApp l s)
    (hkey : key.length ≤ 100)
    (harrived : arrivals sampleApp log =
      List.replicate 255 (.deposit (addressFromPublicKey .managed key) 300000))
    (hheld : (l.held (addressFromPublicKey .managed key)).authAddress =
      addressFromPublicKey .managed key)
    (htarget : s.settledInboxCursor.toNat + (n + 1) = target.toNat) (hto : target.toNat ≤ 255)
    (hm : m ≤ n + 1) (hnonce : (l.held (addressFromPublicKey .managed key)).nonce.toNat ≤ 255)
    (hamount : (l.held (addressFromPublicKey .managed key)).amount.toNat ≤ 300000 * 255) :
    ∃ l' block x p, NextBlock key (n + 1) m target s log l l' block x p := by
  have hunit : (300000 : UInt64).toNat = 300000 := rfl
  have hpayout : drainPayout.2.toNat = 250000 := rfl
  obtain ⟨block, l', nonce, left, hblock, hnonce', hleft, haccounts, hpayouts⟩ :=
    Ledger.getBlock_drains hl.consistent.1 (addressFromPublicKey .managed key) key drainPayout.1 300000
      drainPayout.2 n m hheld.symm (by rw [hunit]; omega) (by decide)
      (by rw [hunit, hpayout]; omega) (by omega)
  have hshort : ∀ stxn ∈ drainedTxns key (n + 1) m, ∀ sig ∈ stxn.signature?,
      (putSignature sig).length ≤ 123 := by
    intro stxn hstxn sig hsig
    rcases List.mem_append.mp hstxn with hdeposit | hwithdrawal
    · rw [List.eq_of_mem_replicate hdeposit] at hsig
      cases hsig
    · rw [List.eq_of_mem_replicate hwithdrawal] at hsig
      cases hsig
      have hkeyCount := putVarint_length_le (UInt64.ofNat key.length)
      have hsigCount := putVarint_length_le (UInt64.ofNat 0)
      simp only [putSignature, putBytes, List.length_append, List.length_nil,
        Scheme.identifier_length]
      omega
  obtain ⟨hbatch, hsidecar⟩ := Ledger.getBlock_sizes hl.consistent.1 hblock hshort
  have hcount : (drainedTxns key (n + 1) m).length = n + 1 + m := by
    rw [drainedTxns, Ledger.drainTxns, List.length_append, List.length_replicate,
      List.length_replicate]
  have hcursor : s.inboxCursor.toNat = 255 := by
    have hlength : (arrivals sampleApp log).length = s.inboxCursor.toNat := hrun.kept.inbox.length
    rw [← hlength, harrived, List.length_replicate]
  have hinbox : inboxItems ((drainedTxns key (n + 1) m).map SignedTransaction.txn) =
      ((arrivals sampleApp log).take target.toNat).drop s.settledInboxCursor.toNat := by
    rw [drainedTxns, Ledger.drainTxns_inbox, harrived, List.take_replicate, List.drop_replicate,
      Nat.min_eq_left hto, ← htarget, Nat.add_sub_cancel_left]
  have hdue : Due sampleApp s log l l' block target :=
    ⟨hidle, hl, hstep, ⟨_, hblock, hinbox⟩, UInt64.le_iff_toNat_le.mpr (by omega),
      UInt64.le_iff_toNat_le.mpr (by omega)⟩
  have hproves := hdue.proves
  rw [← drainedTxns, hcount] at hbatch hsidecar
  obtain ⟨x, hx, hhosts⟩ := Settlement.forBlock_hosts hproves (by decide)
    (by omega : block.batch.encode.length < 2 ^ 32) (by omega)
  have hsize : x.publicValues.length = 192 := by
    rw [hhosts.publicValues]
    simp only [publicValues, List.length_append, Word.size]
  let p : PublicValues := ⟨x.publicValues, hsize⟩
  have hplan : Planned sampleApp (2 ^ 32) Set.univ s (arrivals sampleApp log) x target p :=
    hdue.planned hrun.kept hhosts (by omega) (Set.subset_univ _) rfl
  obtain ⟨-, hnewRoot, -, -, hnewChain, -⟩ :=
    PublicValues.words (p := p) hhosts.publicValues
  rw [hheld] at haccounts
  exact ⟨l', block, x, p, hdue, hx, rfl, hhosts.commits, hplan, hhosts.withdrawals.trans hpayouts,
    hl.getBlock _ hblock, hproves.newRoot.symm.trans hnewRoot.symm,
    hproves.newInboxChain.symm.trans hnewChain.symm, nonce, left, hnonce', hleft, haccounts⟩

theorem Accused.owes {e : Step} {before : Log} {owner : Address} (h : Accused grace owner e before)
    {p : PublicValues} {l : Ledger} {s : State} (hsettled : SettledOn sampleApp 254 p e.after s)
    (hdomain : l.domain = deploymentDomain sampleApp) (hroot : l.stateRoot = p.newRoot)
    (hchain : l.inboxChain = p.newInboxChain) {owed : List Payout} (hsome : owed ≠ [])
    (hlinks : Unlooped owed)
    (howed : p.withdrawalChain = withdrawalChain (deploymentDomain sampleApp) owed)
    (htotal : payoutTotal owed ≤ 300000 * 255) :
    ∃ deadline : UInt64, deadline.toNat = 200 + grace.toNat ∧ Owing grace deadline 254 owed l s := by
  obtain ⟨deadline, hdeadline, hafter⟩ := h.after
  have hfresh := h.filled.fresh
  have hcursor := h.filled.cursor
  obtain ⟨deadline', target', progress', balance, rfl, hbalance, hanswer⟩ := hsettled
  refine ⟨deadline, hdeadline, ?_⟩
  rw [hafter] at hanswer
  simp only [hfresh.cursor, hfresh.grace] at hanswer
  have hsame : deadline' = some deadline ∧ progress' = some 254 := by
    cases hanswer with
    | reached hle =>
      rw [hcursor] at hle
      exact absurd hle (by decide)
    | credited hlt hconsumed hcredit =>
      cases hcredit with
      | counted hsum hshort =>
        refine ⟨rfl, congrArg some (UInt64.toNat_inj.mp ?_)⟩
        rw [hsum, hconsumed, Nat.add_comm]
      | extended hsum htranche hd =>
        rw [UInt64.le_iff_toNat_le, hsum, Nat.add_comm, ← hconsumed] at htranche
        exact absurd htranche (by decide)
  refine ⟨?_, rfl, ⟨hdomain, hroot, hchain⟩, rfl, ?_, hsame.1, hsame.2, ?_, ?_, ?_⟩
  · rw [hafter]
    exact hfresh.idle.live
  · rw [hafter]
    simp only [howed, pendingOf, ne_eq, hlinks owed (List.suffix_refl _), hsome,
      not_false_eq_true, if_true, if_false]
  · rw [hafter]
    exact hfresh.grace
  · rw [hafter]
    exact hfresh.verifier
  · rw [hafter] at hbalance ⊢
    have hfunds := hfresh.funds
    have hminimum : e.before.minBalance + payoutTotal owed ≤ balance := by
      simp only at hbalance
      omega
    exact hminimum

/-- All but one of the deposits are settled, and all but one of the withdrawals are paid. -/
structure Drained (grace : UInt64) (key : Bytes) (e : Step) (before : Log) (block : Block)
    (l : Ledger) (x : Settlement) (p : PublicValues) (s : State) (log : Log) : Prop where
  accused : Accused grace (addressFromPublicKey .managed key) e before
  next : NextBlock key 254 2 254 e.after (e :: before) (.withDomain (deploymentDomain sampleApp)) l
    block x p
  follows : Follows sampleApp Set.univ 200 e.after (e :: before) (moves x 254 p) 200 s log
    [.payWithdrawal ⟨drainPayout.1, drainPayout.2, withdrawalTerminal sampleApp⟩]
  arrived : arrivals sampleApp log =
    List.replicate 255 (.deposit (addressFromPublicKey .managed key) 300000)
  owing : ∃ deadline : UInt64, deadline.toNat = 200 + grace.toNat ∧
    Owing grace deadline 255 [drainPayout] l s

theorem Accused.idle {e : Step} {before : Log} {owner : Address} (h : Accused grace owner e before) :
    Idle e.after := by
  obtain ⟨_, -, hafter⟩ := h.after
  have hidle := h.filled.fresh.idle
  rw [hafter]
  exact ⟨hidle.live, hidle.closed, hidle.unpaid⟩

/-- The sequencer settles all deposits but one, with two withdrawals to pay out. -/
theorem Accused.settle {e : Step} {before : Log}
    (h : Accused grace (addressFromPublicKey .managed key) e before) (hkey : key.length ≤ 100)
    (hlinks : Unlooped [drainPayout, drainPayout]) :
    ∃ block l x p s log, NextBlock key 254 2 254 e.after (e :: before)
        (.withDomain (deploymentDomain sampleApp)) l block x p ∧
      Follows sampleApp Set.univ 200 e.after (e :: before) (moves x 254 p) 200 s log
        [.payWithdrawal ⟨drainPayout.1, drainPayout.2,
            withdrawalChain (deploymentDomain sampleApp) [drainPayout]⟩,
          .payWithdrawal ⟨drainPayout.1, drainPayout.2, withdrawalTerminal sampleApp⟩] ∧
      arrivals sampleApp log = arrivals sampleApp (e :: before) ∧
      ∃ deadline : UInt64, deadline.toNat = 200 + grace.toNat ∧
        Owing grace deadline 254 [drainPayout, drainPayout] l s := by
  have hfresh := h.filled.fresh
  obtain ⟨deadline, hdeadline, hafter⟩ := h.after
  have hsettled : e.after.settledInboxCursor = 0 := by
    rw [hafter]
    exact hfresh.cursor
  obtain ⟨l, block, x, p, hnext⟩ := exists_nextBlock 253 2 254 h.run h.idle .new h.inStep hkey
    h.arrived rfl (by rw [hsettled]; decide) (by decide) (by decide) (Nat.zero_le 255)
    (Nat.zero_le (300000 * 255))
  have htimely : ∀ d ∈ e.after.escapeDeadline, (sampleEnv (sampleAccount 1) 200).round ≤ d := by
    rw [hafter]
    rintro d ⟨⟩
    rw [UInt64.le_iff_toNat_le, hdeadline]
    exact Nat.le_add_right _ _
  have hverifier : e.after.verifierAddress ≠ sampleApp.address := by
    rw [hafter]
    exact hfresh.verifier ▸ (by decide)
  have hfits : Move.Fits 254 e.after (.verifyBatch p) := by
    intro _
    have hprogress : e.after.escapeProgress = some 0 := by rw [hafter]
    rw [hsettled]
    exact State.creditFits_of_short hprogress (by decide)
  obtain ⟨s, log, hfollows, hdone, harrived⟩ :=
    Follows.batch h.run h.idle hnext.planned hnext.due.hto (UInt64.le_refl _) htimely rfl hverifier
      hfits
  have hwithdrawals : x.withdrawals = [drainPayout, drainPayout] := hnext.withdrawals
  have hmoves : x.withdrawalLinks.map Move.payWithdrawal =
      [.payWithdrawal ⟨drainPayout.1, drainPayout.2,
          withdrawalChain (deploymentDomain sampleApp) [drainPayout]⟩,
        .payWithdrawal ⟨drainPayout.1, drainPayout.2, withdrawalTerminal sampleApp⟩] := by
    rw [Settlement.withdrawalLinks, hnext.planned.domain, hwithdrawals, withdrawalLinks_cons,
      withdrawalLinks_cons]
    rfl
  rw [hmoves] at hfollows
  exact ⟨block, l, x, p, s, log, hnext, hfollows, harrived,
    h.owes hdone hnext.reached.consistent.2 hnext.root hnext.chain (List.cons_ne_nil _ _) hlinks
      (hwithdrawals ▸ hnext.planned.payouts) (by decide)⟩

theorem Accused.drain {e : Step} {before : Log}
    (h : Accused grace (addressFromPublicKey .managed key) e before) (hkey : key.length ≤ 100)
    (hlinks : Unlooped [drainPayout, drainPayout]) :
    ∃ block l x p s log, Drained grace key e before block l x p s log := by
  obtain ⟨block, l, x, p, s', log, hnext, hfollows, harrived, deadline, hdeadline, howing⟩ :=
    h.settle hkey hlinks
  have hrest : Unlooped [drainPayout] :=
    fun left hleft => hlinks left (hleft.trans (List.suffix_cons _ _))
  have hfits : s'.CreditFits 1 := State.creditFits_of_short howing.progress (by decide)
  obtain ⟨s, deadline', progress, hok, hcredit, howing'⟩ :=
    howing.pay (hfollows.run h.run) hrest (sampleEnv (sampleAccount 1) 200) rfl rfl hfits
  have hdrained := hfollows.own (sampleEnv (sampleAccount 1) 200) _ (UInt64.le_refl _) rfl
    .payWithdrawal (Set.subset_univ _) hok
  refine ⟨block, l, x, p, s, _, h, hnext, hdrained, harrived.trans h.arrived, deadline, hdeadline,
    ?_⟩
  cases hcredit with
  | counted hsum hshort =>
    have hprogress : progress = 255 := UInt64.toNat_inj.mp (hsum.trans (by decide))
    exact hprogress ▸ howing'
  | extended hsum htranche hd =>
    rw [UInt64.le_iff_toNat_le, hsum] at htranche
    exact absurd htranche (by decide)

theorem exists_drained (grace : UInt64) (key : Bytes) (hgrace : 200 + grace.toNat < 2 ^ 64)
    (hkey : key.length ≤ 100) (hlinks : Unlooped [drainPayout, drainPayout]) :
    ∃ e before block l x p s log, Drained grace key e before block l x p s log := by
  obtain ⟨s, before, hfilled⟩ :=
    exists_filled grace (addressFromPublicKey .managed key) 255 (by decide)
  obtain ⟨e, haccused⟩ := hfilled.accuse hgrace
  obtain ⟨block, l, x, p, s, log, hdrained⟩ := haccused.drain hkey hlinks
  exact ⟨e, before, block, l, x, p, s, log, hdrained⟩

end Draining

section Resuming
variable [Crypto] {grace : UInt64} {key : Bytes} {e : Step} {before log : Log} {block : Block} {l : Ledger}
  {x : Settlement} {p : PublicValues} {s : State}

theorem Follows.genuine {app : App} {usize : ℕ} {Q : Set Bytes} {round round' : UInt64}
    {s s' : State} {log log' : Log} {x : Settlement} {target : UInt64} {p : PublicValues}
    {left : List Move} {execution : Execution}
    (h : Follows app Q round s log (moves x target p) round' s' log' left)
    (hcommits : execution.Commits usize p.bytes) (hlog : ∀ e ∈ log, e.Genuine usize) :
    ∀ e ∈ log', e.Genuine usize := by
  obtain ⟨-, made, rfl, hmade⟩ := h.made
  intro e he
  rcases List.mem_append.mp he with hnew | hold
  · obtain ⟨hprogram, -, hsettles⟩ := hmade e hnew
    refine ⟨hprogram, ?_⟩
    intro verifier signals q hcall
    cases hsettles verifier signals q hcall
    exact ⟨execution, hcommits⟩
  · exact hlog e hold

theorem Follows.later {app : App} {Q : Set Bytes} {round₀ round round' : UInt64}
    {s₀ s s' : State} {log₀ log log' : Log} {plan left : List Move}
    (h : Follows app Q round s log plan round' s' log' left)
    (hlater : Later app (fun _ _ _ => True) round₀ s₀ log₀ round s log) :
    Later app (fun _ _ _ => True) round₀ s₀ log₀ round' s' log' := by
  induction h with
  | start => exact hlater
  | other h env call hround hcall hstrings hok ih => exact ih.call env call True.intro hround hok
  | own h env call hround hcreator hmakes hstrings hok ih =>
    exact ih.call env call True.intro hround hok

theorem Drained.run (h : Drained grace key e before block l x p s log) :
    Run sampleApp 100000 200 s log :=
  h.follows.run h.accused.run

theorem Drained.genuine (h : Drained grace key e before block l x p s log) :
    ∀ e ∈ log, e.Genuine (2 ^ 32) := by
  refine h.follows.genuine h.next.commits (List.forall_mem_cons.mpr ⟨?_, h.accused.filled.genuine⟩)
  rw [Step.Genuine, h.accused.signal]
  refine ⟨id, ?_⟩
  rintro _ _ _ ⟨⟩

/-- The payout kept back fills the tranche whenever it is made, in time or not. -/
theorem Drained.extend (h : Drained grace key e before block l x p s log)
    (hgrace : 200 + 2 * grace.toNat < 2 ^ 64) (env : Env)
    (hcreator : env.sender = sampleApp.creator)
    (haccepts : env.accepts drainPayout.1 drainPayout.2 = true) :
    ∃ s' deadline, exec sampleApp env s (.payWithdrawal drainPayout.1 drainPayout.2
        (withdrawalTerminal sampleApp)) = .ok s' ∧
      deadline.toNat = 200 + 2 * grace.toNat ∧ Owing grace deadline 0 [] l s' := by
  obtain ⟨deadline, hdeadline, howing⟩ := h.owing
  have hnone : Unlooped [] := by
    intro left hleft
    cases List.suffix_nil.mp hleft
    exact iff_of_true rfl rfl
  have hfits : s.CreditFits 1 := by
    intro d hd progress hprogress
    cases howing.deadline.symm.trans hd
    cases howing.progress.symm.trans hprogress
    rw [howing.grace]
    exact ⟨by decide, fun _ => by omega⟩
  obtain ⟨s', deadline', progress, hok, hcredit, howing'⟩ :=
    howing.pay h.run hnone env hcreator haccepts hfits
  cases hcredit with
  | counted hsum hshort =>
    rw [UInt64.lt_iff_toNat_lt, hsum] at hshort
    exact absurd hshort (by decide)
  | extended _ _ hextended => exact ⟨s', deadline', hok, by omega, howing'⟩

theorem Drained.root (h : Drained grace key e before block l x p s log) :
    ∃ nonce left, nonce.toNat = 2 ∧ left.toNat = 75700000 ∧
      l.accounts = Function.update (fun _ => none) (addressFromPublicKey .managed key)
        (some ⟨nonce, left, addressFromPublicKey .managed key⟩) ∧
      s.stateRoot = leafHash (addressFromPublicKey .managed key)
        ⟨nonce, left, addressFromPublicKey .managed key⟩ := by
  have hunit : (300000 : UInt64).toNat = 300000 := rfl
  have hpayout : drainPayout.2.toNat = 250000 := rfl
  have hzero : (0 : UInt64).toNat = 0 := rfl
  have hempty : (Ledger.withDomain (deploymentDomain sampleApp)).held
      (addressFromPublicKey .managed key) = Account.empty (addressFromPublicKey .managed key) := rfl
  obtain ⟨nonce, left, hnonce, hleft, haccounts⟩ := h.next.accounts
  obtain ⟨_, -, howing⟩ := h.owing
  simp only [hempty, Account.empty, hunit, hpayout, hzero] at hnonce hleft
  exact ⟨nonce, left, hnonce, by omega, haccounts,
    howing.step.root.symm.trans (Ledger.stateRoot_single h.next.reached.consistent.1 haccounts)⟩

/-- Made late, but not too late, it lets the sequencer settle again. -/
theorem Drained.resume (h : Drained grace key e before block l x p s log) (hkey : key.length ≤ 100)
    (hgrace : 200 + 2 * grace.toNat < 2 ^ 64) (now : UInt64) (hlapsed : 200 ≤ now)
    (hnow : now.toNat ≤ 200 + 2 * grace.toNat) :
    ∃ s' log' nonce left, Later sampleApp (fun _ _ _ => True) now s log now s' log' ∧
      (∀ e ∈ log', e.Genuine (2 ^ 32)) ∧ nonce.toNat = 2 ∧ left.toNat = 76000000 ∧
      s'.stateRoot = leafHash (addressFromPublicKey .managed key)
        ⟨nonce, left, addressFromPublicKey .managed key⟩ := by
  obtain ⟨s₁, deadline, hok, hdeadline, howing⟩ :=
    h.extend hgrace (sampleEnv (sampleAccount 1) now) rfl rfl
  have hlater : Later sampleApp (fun _ _ _ => True) now s log now s₁ _ :=
    Later.start.call (sampleEnv (sampleAccount 1) now) _ True.intro (UInt64.le_refl _) hok
  have hrun : Run sampleApp 100000 now s₁ _ :=
    h.run.call (sampleEnv (sampleAccount 1) now) _ hlapsed hok
  obtain ⟨nonce, left, hnonce, hleft, haccounts, -⟩ := h.root
  have hheld := Ledger.held_update haccounts
  have hidle : Idle s₁ := ⟨howing.live, howing.closed, howing.pending⟩
  obtain ⟨l', block', x', p', hnext⟩ := exists_nextBlock 0 0 255 hrun hidle h.next.reached
    howing.step hkey h.arrived (by rw [hheld]) (by rw [howing.cursor]; decide) (by decide) (by decide)
    (by rw [hheld]; simp only; omega) (by rw [hheld]; simp only; omega)
  have htimely : ∀ d ∈ s₁.escapeDeadline, (sampleEnv (sampleAccount 1) now).round ≤ d := by
    intro d hd
    cases howing.deadline.symm.trans hd
    rw [UInt64.le_iff_toNat_le, hdeadline]
    exact hnow
  have hfits : Move.Fits 255 s₁ (.verifyBatch p') := by
    intro _
    rw [howing.cursor]
    exact State.creditFits_of_short howing.progress (by decide)
  obtain ⟨s', log', hfollows, hdone, -⟩ :=
    Follows.batch hrun hidle hnext.planned hnext.due.hto (UInt64.le_refl _) htimely rfl (howing.verifier ▸ by decide) hfits
  have hgenuine := hfollows.genuine hnext.commits (List.forall_mem_cons.mpr ⟨?_, h.genuine⟩)
  · obtain ⟨nonce', left', hnonce', hleft', haccounts'⟩ := hnext.accounts
    have hunit : (300000 : UInt64).toNat = 300000 := rfl
    rw [haccounts, Function.update_idem] at haccounts'
    simp only [hheld, hunit] at hnonce' hleft'
    obtain ⟨_, _, _, _, rfl, -, -⟩ := hdone
    exact ⟨_, log', nonce', left', hfollows.later hlater, hgenuine, by omega, by omega,
      hnext.root.symm.trans (Ledger.stateRoot_single hnext.reached.consistent.1 haccounts')⟩
  · refine ⟨id, ?_⟩
    rintro _ _ _ ⟨⟩

end Resuming

section Sample
attribute [local instance] Crypto.unsigned

theorem sample_unlooped : Unlooped [drainPayout, drainPayout] := by
  intro left hleft
  have hcases : left = [] ∨ left = [drainPayout] ∨ left = [drainPayout, drainPayout] := by
    simpa [List.suffix_cons_iff, or_comm, or_assoc] using hleft
  rcases hcases with rfl | rfl | rfl
  · exact iff_of_true rfl rfl
  · exact iff_of_false (by decide +kernel) (List.cons_ne_nil _ _)
  · exact iff_of_false (by decide +kernel) (List.cons_ne_nil _ _)

end Sample

end PaymentRollup.Contract
