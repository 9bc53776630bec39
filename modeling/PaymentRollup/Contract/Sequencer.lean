import PaymentRollup.Contract.Progress
import PaymentRollup.Rollup.HostSettlement

/-! # The calls of a sequencer

The sequencer makes the calls that settle its block in order, and everybody else may call what they
like in between, escapes, payouts, program updates and its own calls apart. Where such a run has come
to is told by the calls that are left, and there the next of them goes through.
-/
namespace PaymentRollup.Contract

section Statements
variable [Crypto]

/-- A call the sequencer has still to make. -/
inductive Move where
  | openBatch (batchLength target : UInt64)
  | accumulateChunk (chunk : Bytes)
  | verifyBatch (p : PublicValues)
  | payWithdrawal (link : WithdrawalLink)

def moves (x : Settlement) (target : UInt64) (p : PublicValues) : List Move :=
  .openBatch (UInt64.ofNat x.batchLength) target ::
    (x.chunks.map .accumulateChunk ++ .verifyBatch p :: x.withdrawalLinks.map .payWithdrawal)

/-- The call makes the move; which keys a proof is made under is decided when it is sent. -/
inductive Move.Makes : Move → Call → Prop
  | openBatch {n target : UInt64} : Makes (.openBatch n target) (.openBatch n target)
  | accumulateChunk {chunk : Bytes} : Makes (.accumulateChunk chunk) (.accumulateChunk chunk)
  | verifyBatch {p : PublicValues} {verifier : PaymentTxn} {signals : List Word} :
      Makes (.verifyBatch p) (.verifyBatch verifier signals p)
  | payWithdrawal {link : WithdrawalLink} :
      Makes (.payWithdrawal link) (.payWithdrawal link.recipient link.amount link.tail)

/-- What others may call meanwhile. Escapes are not among it, nor is a payout: one made by somebody
else leaves the sequencer's own move for it nothing to pay. -/
def Call.IsBystander : Call → Prop
  | .deposit _ _ => True
  | .requestWithdrawal _ _ _ _ _ _ _ => True
  | .pruneRequest _ => True
  | .pruneDeposit _ => True
  | .signalEscape => True
  | call => call.IsInert ∧ ¬call.IsUpdate

/-- The runs on from `s` in which the sequencer has made some of the calls of `plan` and has
the rest still to make. -/
inductive Follows (app : App) (Q : Set Bytes) (round : UInt64) (s : State) (log : Log)
    (plan : List Move) : UInt64 → State → Log → List Move → Prop
  | start : Follows app Q round s log plan round s log plan
  | other {round' : UInt64} {s' s'' : State} {log' : Log} {left : List Move}
      (h : Follows app Q round s log plan round' s' log' left) (env : Env) (call : Call)
      (hround : round' ≤ env.round) (hcall : call.IsBystander)
      (hstrings : callStrings app s' call ⊆ Q) (hok : exec app env s' call = .ok s'') :
      Follows app Q round s log plan env.round s'' (⟨s', env, call, s''⟩ :: log') left
  | own {round' : UInt64} {s' s'' : State} {log' : Log} {move : Move} {left : List Move}
      (h : Follows app Q round s log plan round' s' log' (move :: left)) (env : Env) (call : Call)
      (hround : round' ≤ env.round) (hcreator : env.sender = app.creator)
      (hmakes : move.Makes call) (hstrings : callStrings app s' call ⊆ Q)
      (hok : exec app env s' call = .ok s'') :
      Follows app Q round s log plan env.round s'' (⟨s', env, call, s''⟩ :: log') left

/-- A ledger and the contract stand for the same accounts and the same settled inbox. -/
structure InStep (app : App) (l : Ledger) (s : State) : Prop where
  domain : l.domain = deploymentDomain app
  root : l.stateRoot = s.stateRoot
  chain : l.inboxChain = s.settledInboxChain

structure Idle (s : State) : Prop where
  live : s.escaped = false
  closed : s.batchLength = none
  unpaid : s.pendingWithdrawals = none

/-- A block over the next entries of the inbox, built by a sequencer in step with an idle
contract. -/
structure Due (app : App) (s : State) (log : Log) (l l' : Ledger) (block : Block)
    (target : UInt64) : Prop where
  idle : Idle s
  reached : Ledger.Reached (deploymentDomain app) l
  inStep : InStep app l s
  built : ∃ stxns, l.getBlock stxns = some (block, l') ∧
    inboxItems (stxns.map SignedTransaction.txn) =
      ((arrivals app log).take target.toNat).drop s.settledInboxCursor.toNat
  hfrom : s.settledInboxCursor ≤ target
  hto : target ≤ s.inboxCursor

/-- What a proof needs to be taken: it was made under the current keys, and is in time. -/
structure Timely (app : App) (env : Env) (s : State) (verifier : PaymentTxn)
    (signals : List Word) (p : PublicValues) : Prop where
  sender : verifier.sender ≠ app.address
  proof : checkProof verifier signals p s = .ok ()
  round : ∀ deadline ∈ s.escapeDeadline, env.round ≤ deadline

/-- Crediting what a move discharges stays within 64 bits. -/
def Move.Fits (target : UInt64) (s : State) : Move → Prop
  | .verifyBatch _ => (∀ t ∈ s.escapeInboxTarget, target < t) →
      s.CreditFits (target.toNat - s.settledInboxCursor.toNat)
  | .payWithdrawal _ => s.CreditFits 1
  | _ => True

end Statements

section Plans
variable [Crypto]

structure Planned (app : App) (usize : ℕ) (Q : Set Bytes) (s : State) (items : List InboxItem)
    (x : Settlement) (target : UInt64) (p : PublicValues) : Prop where
  length : x.batchBytes.length < 2 ^ 64
  domain : x.domain = deploymentDomain app
  oldRoot : p.oldRoot = s.stateRoot
  batch : p.batchCommitment = batchCommitment (deploymentDomain app) x.batchBytes
  oldChain : p.oldInboxChain = s.settledInboxChain
  newChain : p.newInboxChain = checkpointAt items target.toNat
  payouts : p.withdrawalChain = withdrawalChain (deploymentDomain app) x.withdrawals
  large : ∀ payout ∈ x.withdrawals, minWithdrawal ≤ payout.2
  hashed : payoutStrings (deploymentDomain app) x.withdrawals ⊆ Q
  hfrom : s.settledInboxCursor ≤ target
  hto : target.toNat ≤ items.length

structure Unsettled (app : App) (s₀ : State) (items : List InboxItem) (s : State) (log : Log) :
    Prop where
  live : s.escaped = false
  root : s.stateRoot = s₀.stateRoot
  chain : s.settledInboxChain = s₀.settledInboxChain
  cursor : s.settledInboxCursor = s₀.settledInboxCursor
  unpaid : s.pendingWithdrawals = none
  arrived : items <+: arrivals app log

/-- How far the sequencer has come when it has these moves left. -/
inductive OnCourse (app : App) (s₀ : State) (items : List InboxItem) (x : Settlement)
    (target : UInt64) (p : PublicValues) (s : State) (log : Log) : List Move → Prop
  | ready (h : Unsettled app s₀ items s log) (hclosed : s.batchLength = none) :
      OnCourse app s₀ items x target p s log (moves x target p)
  | posting {left : List Bytes} (h : Unsettled app s₀ items s log)
      (hlength : s.batchLength = some (UInt64.ofNat x.batchLength))
      (hsealed : s.sealedInboxCursor = some target) (hchunks : posted log ++ left = x.chunks) :
      OnCourse app s₀ items x target p s log
        (left.map .accumulateChunk ++ .verifyBatch p :: x.withdrawalLinks.map .payWithdrawal)
  | settled {owed : List Payout} (hlive : s.escaped = false) (hclosed : s.batchLength = none)
      (hroot : s.stateRoot = p.newRoot) (hchain : s.settledInboxChain = p.newInboxChain)
      (hcursor : s.settledInboxCursor = target) (howed : owed <:+ x.withdrawals)
      (hpending : s.pendingWithdrawals = pendingOf (deploymentDomain app) owed) :
      OnCourse app s₀ items x target p s log
        ((withdrawalLinks (deploymentDomain app) owed).map .payWithdrawal)

end Plans

section Bystanders
variable [Crypto] {app : App} {env : Env} {s s' : State} {call : Call} {log : Log}

structure Untouched (s s' : State) : Prop where
  escaped : s'.escaped = s.escaped
  root : s'.stateRoot = s.stateRoot
  chain : s'.settledInboxChain = s.settledInboxChain
  cursor : s'.settledInboxCursor = s.settledInboxCursor
  pending : s'.pendingWithdrawals = s.pendingWithdrawals
  length : s'.batchLength = s.batchLength
  sealed : s'.sealedInboxCursor = s.sealedInboxCursor

theorem Effect.untouched (h : Effect app env s call s') (hcall : call.IsBystander) :
    Untouched s s' := by
  cases h with
  | inert => exact ⟨rfl, rfl, rfl, rfl, rfl, rfl, rfl⟩
  | deposit => exact ⟨rfl, rfl, rfl, rfl, rfl, rfl, rfl⟩
  | request => exact ⟨rfl, rfl, rfl, rfl, rfl, rfl, rfl⟩
  | prune => exact ⟨rfl, rfl, rfl, rfl, rfl, rfl, rfl⟩
  | signal => exact ⟨rfl, rfl, rfl, rfl, rfl, rfl, rfl⟩
  | escape _ _ _ hescape =>
    rcases hescape with ⟨rfl, -⟩ | ⟨rfl, -⟩ <;> exact hcall.1.elim
  | _ => exact hcall.1.elim

omit [Crypto] in
theorem bystander_log (app : App) (e : Step) (log : Log) (hcall : e.call.IsBystander) :
    arrivals app log <+: arrivals app (e :: log) ∧ posted (e :: log) = posted log := by
  rcases e with ⟨before, env, call, after⟩
  cases call <;> first
    | exact ⟨List.prefix_append _ _, rfl⟩
    | exact ⟨List.prefix_refl _, rfl⟩
    | exact hcall.1.elim

variable {s₀ : State} {items : List InboxItem} {x : Settlement} {target : UInt64}
  {p : PublicValues} {left : List Move}

omit [Crypto] in
theorem Unsettled.untouched (h : Unsettled app s₀ items s log) (hsame : Untouched s s')
    {e : Step} (harrived : arrivals app log <+: arrivals app (e :: log)) :
    Unsettled app s₀ items s' (e :: log) :=
  ⟨hsame.escaped.trans h.live, hsame.root.trans h.root, hsame.chain.trans h.chain,
    hsame.cursor.trans h.cursor, hsame.pending.trans h.unpaid, h.arrived.trans harrived⟩

theorem OnCourse.other (h : OnCourse app s₀ items x target p s log left)
    (heffect : Effect app env s call s') (hcall : call.IsBystander) :
    OnCourse app s₀ items x target p s' (⟨s, env, call, s'⟩ :: log) left := by
  have hsame := heffect.untouched hcall
  obtain ⟨harrived, hposted⟩ := bystander_log app ⟨s, env, call, s'⟩ log hcall
  cases h with
  | ready h hclosed => exact .ready (h.untouched hsame harrived) (hsame.length.trans hclosed)
  | posting h hlength hsealed hchunks =>
    exact .posting (h.untouched hsame harrived) (hsame.length.trans hlength)
      (hsame.sealed.trans hsealed) (hposted ▸ hchunks)
  | settled hlive hclosed hroot hchain hcursor howed hpending =>
    exact .settled (hsame.escaped.trans hlive) (hsame.length.trans hclosed)
      (hsame.root.trans hroot) (hsame.chain.trans hchain) (hsame.cursor.trans hcursor) howed
      (hsame.pending.trans hpending)

end Bystanders

section Steps
variable [Crypto] {app : App} {usize : ℕ} {guest : PublicValues → Execution} {Q : Set Bytes}
  {env : Env} {s₀ s s' : State} {items : List InboxItem} {x : Settlement} {target : UInt64}
  {p : PublicValues} {call : Call} {log : Log} {move : Move} {left : List Move}

inductive Ahead (app : App) (s₀ : State) (items : List InboxItem) (x : Settlement)
    (target : UInt64) (p : PublicValues) (s : State) (log : Log) : Move → List Move → Prop
  | openBatch (h : Unsettled app s₀ items s log) (hclosed : s.batchLength = none) :
      Ahead app s₀ items x target p s log (.openBatch (UInt64.ofNat x.batchLength) target)
        (x.chunks.map .accumulateChunk ++ .verifyBatch p :: x.withdrawalLinks.map .payWithdrawal)
  | chunk {chunk : Bytes} {rest : List Bytes} (h : Unsettled app s₀ items s log)
      (hlength : s.batchLength = some (UInt64.ofNat x.batchLength))
      (hsealed : s.sealedInboxCursor = some target)
      (hchunks : posted log ++ chunk :: rest = x.chunks) :
      Ahead app s₀ items x target p s log (.accumulateChunk chunk)
        (rest.map .accumulateChunk ++ .verifyBatch p :: x.withdrawalLinks.map .payWithdrawal)
  | settle (h : Unsettled app s₀ items s log)
      (hlength : s.batchLength = some (UInt64.ofNat x.batchLength))
      (hsealed : s.sealedInboxCursor = some target) (hchunks : posted log = x.chunks) :
      Ahead app s₀ items x target p s log (.verifyBatch p) (x.withdrawalLinks.map .payWithdrawal)
  | pay {payout : Payout} {rest : List Payout} (hlive : s.escaped = false)
      (hclosed : s.batchLength = none) (hroot : s.stateRoot = p.newRoot)
      (hchain : s.settledInboxChain = p.newInboxChain) (hcursor : s.settledInboxCursor = target)
      (howed : payout :: rest <:+ x.withdrawals)
      (hpending : s.pendingWithdrawals = pendingOf (deploymentDomain app) (payout :: rest)) :
      Ahead app s₀ items x target p s log
        (.payWithdrawal ⟨payout.1, payout.2, withdrawalChain (deploymentDomain app) rest⟩)
        ((withdrawalLinks (deploymentDomain app) rest).map .payWithdrawal)

theorem OnCourse.ahead (h : OnCourse app s₀ items x target p s log (move :: left)) :
    Ahead app s₀ items x target p s log move left := by
  generalize hmoves : move :: left = all at h
  cases h with
  | ready h hclosed =>
    obtain ⟨rfl, rfl⟩ := List.cons.inj hmoves
    exact .openBatch h hclosed
  | @posting chunks h hlength hsealed hchunks =>
    cases chunks with
    | nil =>
      obtain ⟨rfl, rfl⟩ := List.cons.inj hmoves
      rw [List.append_nil] at hchunks
      exact .settle h hlength hsealed hchunks
    | cons chunk rest =>
      obtain ⟨rfl, rfl⟩ := List.cons.inj hmoves
      exact .chunk h hlength hsealed hchunks
  | @settled owed hlive hclosed hroot hchain hcursor howed hpending =>
    cases owed with
    | nil => cases hmoves
    | cons payout rest =>
      rw [withdrawalLinks_cons, List.map_cons] at hmoves
      obtain ⟨rfl, rfl⟩ := List.cons.inj hmoves
      exact .pay hlive hclosed hroot hchain hcursor howed hpending

theorem OnCourse.own (hQ : Ideal Q) (hplan : Planned app usize Q s₀ items x target p)
    (h : OnCourse app s₀ items x target p s log (move :: left))
    (heffect : Effect app env s call s') (hmakes : move.Makes call) :
    OnCourse app s₀ items x target p s' (⟨s, env, call, s'⟩ :: log) left := by
  cases h.ahead with
  | openBatch hstands hclosed =>
    cases hmakes
    cases heffect with
    | openBatch =>
      refine .posting ⟨hstands.live, hstands.root, hstands.chain, hstands.cursor, hstands.unpaid,
        hstands.arrived⟩ rfl rfl ?_
      rfl
    | inert hcall => exact hcall.elim
    | prune _ hcall => simp at hcall
    | escape _ _ _ hcall => simp at hcall
  | chunk hstands hlength hsealed hchunks =>
    cases hmakes
    cases heffect with
    | chunk =>
      refine .posting ⟨hstands.live, hstands.root, hstands.chain, hstands.cursor, hstands.unpaid,
        hstands.arrived⟩ hlength hsealed ?_
      rw [posted, List.append_assoc, List.singleton_append]
      exact hchunks
    | inert hcall => exact hcall.elim
    | prune _ hcall => simp at hcall
    | escape _ _ _ hcall => simp at hcall
  | settle hstands hlength hsealed hchunks =>
    cases hmakes
    cases heffect with
    | settle _ _ _ _ _ _ _ _ _ _ hcursor =>
      cases hsealed.symm.trans hcursor
      have hlinks : x.withdrawalLinks = withdrawalLinks (deploymentDomain app) x.withdrawals := by
        rw [Settlement.withdrawalLinks, hplan.domain]
      rw [hlinks]
      refine .settled hstands.live rfl rfl rfl rfl (List.suffix_refl _) ?_
      rw [hstands.unpaid, hplan.payouts, withdrawalTerminal_eq, pendingOf]
      simp only [ne_eq, withdrawalChain_eq_terminal hQ hplan.hashed, ite_not]
    | inert hcall => exact hcall.elim
    | prune _ hcall => simp at hcall
    | escape _ _ _ hcall => simp at hcall
  | @pay payout rest hlive hclosed hroot hchain hcursor howed hpending =>
    cases hmakes
    have hsuffix := (List.suffix_cons payout rest).trans howed
    have hrest : payoutStrings (deploymentDomain app) rest ⊆ Q :=
      payoutStrings_suffix hsuffix hplan.hashed
    cases heffect with
    | pay =>
      refine .settled hlive hclosed hroot hchain hcursor hsuffix ?_
      rw [withdrawalTerminal_eq, pendingOf]
      simp only [withdrawalChain_eq_terminal hQ hrest]
    | inert hcall => exact hcall.elim
    | prune _ hcall => simp at hcall
    | escape _ _ _ hcall => simp at hcall

section Next
variable (hplan : Planned app usize Q s₀ items x target p)
  (hkept : Kept app s (arrivals app log) (posted log)) (hcreator : env.sender = app.creator)
include hplan hkept hcreator

theorem Unsettled.opens (h : Unsettled app s₀ items s log) (hclosed : s.batchLength = none) :
    ∃ s', openBatch app env (UInt64.ofNat x.batchLength) target s = .ok s' := by
  have hlength : (arrivals app log).length = s.inboxCursor.toNat := hkept.inbox.length
  have hitems := h.arrived.length_le
  have hto := hplan.hto
  refine openBatch_ok hcreator h.live hclosed h.unpaid hkept.inbox ?_ ?_
  · rw [h.cursor]
    exact hplan.hfrom
  · rw [UInt64.le_iff_toNat_le]
    omega

theorem Planned.posts {chunk : Bytes} {rest : List Bytes}
    (hlength : s.batchLength = some (UInt64.ofNat x.batchLength))
    (hchunks : posted log ++ chunk :: rest = x.chunks) :
    ∃ s', accumulateChunk app env chunk s = .ok s' := by
  have hn : (UInt64.ofNat x.batchLength).toNat = x.batchBytes.length :=
    UInt64.toNat_ofNat_of_lt' hplan.length
  obtain ⟨c, hposting⟩ := hkept.batch.posting hlength
  exact accumulateChunk_ok hcreator hn hposting hchunks

theorem Unsettled.settles (h : Unsettled app s₀ items s log)
    (hlength : s.batchLength = some (UInt64.ofNat x.batchLength))
    (hsealed : s.sealedInboxCursor = some target) (hchunks : posted log = x.chunks)
    (hbalance : s.minBalance ≤ s.balance) {verifier : PaymentTxn} {signals : List Word}
    (htimely : Timely app env s verifier signals p) (hfits : Move.Fits target s (.verifyBatch p)) :
    ∃ s', verifyBatch app env verifier signals p s = .ok s' := by
  have hn : (UInt64.ofNat x.batchLength).toNat = x.batchBytes.length :=
    UInt64.toNat_ofNat_of_lt' hplan.length
  obtain ⟨c, hposting⟩ := hkept.batch.posting hlength
  cases hsealed.symm.trans hposting.sealedCursor
  have hposted : posted log = PaymentRollup.chunks x.batchBytes := hchunks
  have hreceive : ∃ s', s.receive app verifier = .ok s' := by
    simp only [State.receive_eq_ok]
    by_cases hself : verifier.receiver = app.address
    · exact ⟨_, htimely.sender, .inl ⟨hself, by omega, rfl⟩⟩
    · exact ⟨_, htimely.sender, .inr ⟨hself, rfl⟩⟩
  refine verifyBatch_ok hcreator hkept.signal hposting ?_ ?_ hreceive htimely.proof htimely.round
    ?_ ?_ ?_ ?_ hfits
  · rw [hposted, chunks_flatten, hn]
  · rw [h.cursor]
    exact hplan.hfrom
  · rw [h.root]
    exact hplan.oldRoot
  · rw [hposted, hplan.batch, batchCommitment_eq]
    rfl
  · rw [h.chain]
    exact hplan.oldChain
  · obtain ⟨later, hlater⟩ := h.arrived
    rw [hplan.newChain, ← hlater, checkpointAt_append hplan.hto]

theorem Planned.pays {S : AccountMap} {batches : List Batch} {lists : List (List Payout)}
    {owed : List Payout} (hQ : Ideal Q) (hledgered : Ledgered app usize Q s log S batches lists owed)
    (hsolvent : Solvent app s S owed (arrivals app log) (reclaimed log)) {payout : Payout}
    {rest : List Payout} (howed : payout :: rest <:+ x.withdrawals)
    (hpending : s.pendingWithdrawals = pendingOf (deploymentDomain app) (payout :: rest))
    (haccepts : ∀ account amount, minWithdrawal ≤ amount → env.accepts account amount = true)
    (hfits : s.CreditFits 1) :
    ∃ s', payWithdrawal app env payout.1 payout.2 (withdrawalChain (deploymentDomain app) rest) s =
      .ok s' := by
  rw [pendingOf, if_neg (List.cons_ne_nil _ _), withdrawalChain_cons] at hpending
  have hlinked : withdrawalString (withdrawalChain (deploymentDomain app) rest) payout.1
      payout.2 ∈ Q :=
    (payoutStrings_cons_subset.mp (payoutStrings_suffix howed hplan.hashed)).2
  obtain ⟨others, rfl, -, -⟩ := hledgered.next hQ hpending hlinked
  have hcovers := hsolvent.covers
  simp only [liabilities, payoutTotal, List.map_cons, List.sum_cons] at hcovers
  refine payWithdrawal_ok hcreator hkept.signal hfits hpending
    (haccepts _ _ (hplan.large payout (howed.subset (List.mem_cons_self ..)))) ?_
  omega

theorem OnCourse.next (h : OnCourse app s₀ items x target p s log (move :: left))
    {S : AccountMap} {batches : List Batch} {lists : List (List Payout)} {owed : List Payout}
    (hQ : Ideal Q) (hledgered : Ledgered app usize Q s log S batches lists owed)
    (hsolvent : Solvent app s S owed (arrivals app log) (reclaimed log)) (hmakes : move.Makes call)
    (htimely : ∀ verifier signals, call = .verifyBatch verifier signals p →
      Timely app env s verifier signals p)
    (haccepts : ∀ account amount, minWithdrawal ≤ amount → env.accepts account amount = true)
    (hfits : move.Fits target s) : ∃ s', exec app env s call = .ok s' := by
  cases h.ahead with
  | openBatch hstands hclosed =>
    cases hmakes
    exact hstands.opens hplan hkept hcreator hclosed
  | chunk hstands hlength hsealed hchunks =>
    cases hmakes
    exact hplan.posts hkept hcreator hlength hchunks
  | settle hstands hlength hsealed hchunks =>
    cases hmakes
    have hbalance : s.minBalance ≤ s.balance := (Nat.le_add_right ..).trans hsolvent.covers
    exact hstands.settles hplan hkept hcreator hlength hsealed hchunks hbalance (htimely _ _ rfl)
      hfits
  | pay hlive hclosed hroot hchain hcursor howed hpending =>
    cases hmakes
    exact hplan.pays hkept hcreator hQ hledgered hsolvent howed hpending haccepts hfits

end Next

end Steps

section Following
variable [Crypto] {app : App} {usize : ℕ} {guest : PublicValues → Execution} {Q : Set Bytes} {funds : ℕ}
  {round round' : UInt64} {s s' : State} {log log' : Log} {x : Settlement} {target : UInt64}
  {p : PublicValues} {left : List Move}

theorem Follows.run {plan : List Move} (hrun : Run app funds round s log)
    (h : Follows app Q round s log plan round' s' log' left) : Run app funds round' s' log' := by
  induction h with
  | start => exact hrun
  | other h env call hround hcall hstrings hok ih => exact ih.call env call hround hok
  | own h env call hround hcreator hmakes hstrings hok ih => exact ih.call env call hround hok

omit [Crypto] in
theorem Call.IsBystander.not_update {call : Call} (h : call.IsBystander) : ¬call.IsUpdate := by
  cases call <;> first | exact id | exact h.2

omit [Crypto] in
theorem Call.IsBystander.not_settle {call : Call} (h : call.IsBystander)
    (verifier : PaymentTxn) (signals : List Word) (p : PublicValues) :
    call ≠ .verifyBatch verifier signals p := by
  rintro rfl
  exact h.1

omit [Crypto] in
theorem Move.Makes.not_update {move : Move} {call : Call} (h : move.Makes call) :
    ¬call.IsUpdate := by
  cases h <;> exact id

/-- What the calls on the way leave unchanged and hash, and that they settle on nothing but the
plan's own public values. -/
theorem Follows.made (h : Follows app Q round s log (moves x target p) round' s' log' left) :
    left <:+ moves x target p ∧ ∃ made, log' = made ++ log ∧ ∀ e ∈ made, ¬e.call.IsUpdate ∧
      callStrings app e.before e.call ⊆ Q ∧
      ∀ verifier signals q, e.call = .verifyBatch verifier signals q → q = p := by
  induction h with
  | start =>
    refine ⟨List.suffix_refl _, [], rfl, ?_⟩
    intro e he
    cases he
  | other h env call hround hcall hstrings hok ih =>
    obtain ⟨hleft, made, rfl, hmade⟩ := ih
    refine ⟨hleft, _, (List.cons_append ..).symm, List.forall_mem_cons.mpr ⟨?_, hmade⟩⟩
    refine ⟨hcall.not_update, hstrings, ?_⟩
    exact fun verifier signals q hsettle => absurd hsettle (hcall.not_settle _ _ _)
  | @own round' s' s'' log' move left h env call hround hcreator hmakes hstrings hok ih =>
    obtain ⟨hleft, made, rfl, hmade⟩ := ih
    refine ⟨(List.suffix_cons _ _).trans hleft, _, (List.cons_append ..).symm,
      List.forall_mem_cons.mpr ⟨?_, hmade⟩⟩
    refine ⟨hmakes.not_update, hstrings, ?_⟩
    rintro verifier signals q rfl
    cases hmakes
    have hmem : Move.verifyBatch q ∈ moves x target p := hleft.subset (List.mem_cons_self ..)
    simpa only [moves, List.mem_cons, List.mem_append, List.mem_map, reduceCtorEq, false_or,
      and_false, exists_false, or_false, Move.verifyBatch.injEq] using hmem

theorem Follows.sound (hlog : ∀ e ∈ log, e.Sound app usize guest Q)
    (hcommits : (guest p).Commits usize p.bytes) (hhashed : (guest p).strings usize ⊆ Q)
    (h : Follows app Q round s log (moves x target p) round' s' log' left) :
    ∀ e ∈ log', e.Sound app usize guest Q := by
  obtain ⟨-, made, rfl, hmade⟩ := h.made
  intro e he
  rcases List.mem_append.mp he with hnew | hold
  · obtain ⟨hprogram, hstrings, hsettles⟩ := hmade e hnew
    refine ⟨hprogram, hstrings, ?_⟩
    intro verifier signals q hcall
    cases hsettles verifier signals q hcall
    exact ⟨hcommits, hhashed⟩
  · exact hlog e hold

end Following

section Blocks
variable [Crypto] {app : App} {usize : ℕ} {Q : Set Bytes} {s : State} {log : Log} {l l' : Ledger}
  {block : Block} {target : UInt64} {x : Settlement} {p : PublicValues}

theorem Due.proves (h : Due app s log l l' block target) : Ledger.Proves l block l' := by
  obtain ⟨stxns, hblock, -⟩ := h.built
  exact Ledger.getBlock_proves h.reached.consistent.1 hblock

theorem Due.planned (h : Due app s log l l' block target)
    (hkept : Kept app s (arrivals app log) (posted log)) (hhosts : x.Hosts usize block)
    (hbatch : block.batch.encode.length < 2 ^ 64)
    (hhashed : payoutStrings block.domain (withdrawalPayouts block.batch block.sidecar) ⊆ Q)
    (hp : p.bytes = x.publicValues) :
    Planned app usize Q s (arrivals app log) x target p := by
  have hproves := h.proves
  have hdomain : block.domain = deploymentDomain app := hproves.domain.trans h.inStep.domain
  obtain ⟨stxns, hblock, hinbox⟩ := h.built
  rw [← Ledger.getBlock_txns hblock] at hinbox
  obtain ⟨holdRoot, -, hcommitment, holdChain, hnewChain, hpayouts⟩ :=
    PublicValues.words (hp.trans hhosts.publicValues)
  have hlength : (arrivals app log).length = s.inboxCursor.toNat := hkept.inbox.length
  have hfromNat := UInt64.le_iff_toNat_le.mp h.hfrom
  have htoNat := UInt64.le_iff_toNat_le.mp h.hto
  have hsettled : l.inboxChain = checkpointAt (arrivals app log) s.settledInboxCursor.toNat :=
    h.inStep.chain.trans hkept.inbox.settledChain
  constructor
  · rw [hhosts.batchBytes]
    exact hbatch
  · exact hhosts.domain.trans hdomain
  · exact holdRoot.trans (hproves.oldRoot.trans h.inStep.root)
  · rw [hcommitment, hdomain]
  · exact holdChain.trans (hproves.oldInboxChain.trans h.inStep.chain)
  · rw [hnewChain, verifyBatch_inbox hproves.verified, hproves.oldInboxChain, hsettled, hinbox,
      checkpointAt, ← foldInbox_append, checkpointAt]
    have htake : (arrivals app log).take s.settledInboxCursor.toNat =
        ((arrivals app log).take target.toNat).take s.settledInboxCursor.toNat := by
      rw [List.take_take, min_eq_left hfromNat]
    rw [htake, List.take_append_drop]
  · rw [hpayouts, hdomain]
  · rw [hhosts.withdrawals]
    exact (replay_total (Ledger.getBlock_replays h.reached.consistent.1 hblock)).2
  · rw [hhosts.withdrawals, ← hdomain]
    exact hhashed
  · exact h.hfrom
  · omega

end Blocks

end PaymentRollup.Contract
