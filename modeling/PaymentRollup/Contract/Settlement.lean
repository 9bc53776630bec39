import PaymentRollup.Contract.Bookkeeping
import PaymentRollup.Contract.Playing

/-! # What the settled root and the payout head stand for

The contract compares words and a prover picks everything behind them. On the strings of a
run that do not collide, the words leave no choice: a settled batch is the chunks that were
posted, it was replayed from the accounts behind the root, it consumed exactly the sealed
prefix of the inbox, and the payout head is the chain of what it pays out.
-/
namespace PaymentRollup.Contract

section Statements
variable [Crypto]

/-- The accounts, the batches and the payouts behind a reachable state. -/
structure Ledgered (app : App) (usize : ℕ) (Q : Set Bytes) (s : State) (log : Log)
    (S : AccountMap) (batches : List Batch) (lists : List (List Payout)) (owed : List Payout) :
    Prop where
  decoded : (settledBatches log).mapM (Batch.decode usize) = .ok batches
  replayed : replayBatches emptyLedger batches = some (S, lists)
  root : s.stateRoot = (treeOf S).root
  tree : (treeOf S).strings ⊆ Q
  consumed : (batches.flatMap fun batch => inboxItems batch.txns) =
    (arrivals app log).take s.settledInboxCursor.toNat
  arrived : inboxStrings inboxChainGenesis (arrivals app log) ⊆ Q
  posted : ∀ n, s.batchLength = some n →
    commitStrings (deploymentDomain app) n (posted log) ⊆ Q
  installed : installed log = lists.map (pendingOf (deploymentDomain app))
  paid : lists.flatMap (withdrawalLinks (deploymentDomain app)) =
    paid log ++ withdrawalLinks (deploymentDomain app) owed
  last : owed <:+ lists.getLastD []
  pending : s.pendingWithdrawals = pendingOf (deploymentDomain app) owed
  owedStrings : owed ≠ [] → payoutStrings (deploymentDomain app) owed ⊆ Q

/-- What one call did to the accounts and to the payouts owed. -/
inductive Moves (app : App) (usize : ℕ) (guest : PublicValues → Execution) (Q : Set Bytes)
    (items : List InboxItem) (s s' : State) :
    Call → AccountMap → List Payout → AccountMap → List Payout → Prop
  | settle {verifier : PaymentTxn} {signals : List Word} {p : PublicValues} {S S' : AccountMap}
      {batch : Batch} {sidecar : Sidecar}
      (h : (guest p).Settles usize Q S S' batch sidecar p.bytes)
      (hdomain : (guest p).domain = deploymentDomain app)
      (hconsumed : items.take s'.settledInboxCursor.toNat =
        items.take s.settledInboxCursor.toNat ++ inboxItems batch.txns) :
      Moves app usize guest Q items s s' (.verifyBatch verifier signals p) S [] S'
        (withdrawalPayouts batch sidecar)
  | pay {recipient : L1Address} {amount : UInt64} {tail : Word} {S : AccountMap}
      {owed : List Payout} :
      Moves app usize guest Q items s s' (.payWithdrawal recipient amount tail) S
        ((recipient, amount) :: owed) S owed
  | stay {call : Call} {S : AccountMap} {owed : List Payout}
      (hsettle : ∀ verifier signals p, call ≠ .verifyBatch verifier signals p)
      (hpay : ∀ recipient amount tail, call ≠ .payWithdrawal recipient amount tail) :
      Moves app usize guest Q items s s' call S owed S owed

end Statements

section Lemmas
variable [Crypto]

theorem withdrawalTerminal_eq (app : App) :
    withdrawalTerminal app = withdrawalChainTerminal (deploymentDomain app) := rfl

omit [Crypto] in
theorem mapM_concat {α β ε : Type} {f : α → Except ε β} {xs : List α} {ys : List β} {x : α}
    {y : β} (h : xs.mapM f = .ok ys) (hx : f x = .ok y) :
    (xs ++ [x]).mapM f = .ok (ys ++ [y]) := by
  rw [List.mapM_append, h]
  simp [hx]

@[simp] theorem pendingOf_nil (domain : DeploymentDomain) : pendingOf domain [] = none := rfl

theorem pendingOf_eq_none {domain : DeploymentDomain} {owed : List Payout} :
    pendingOf domain owed = none ↔ owed = [] := by
  unfold pendingOf
  split_ifs with h <;> simp [h]

theorem Commits.oldRoot {usize : ℕ} {x : Execution} {p : PublicValues}
    (h : x.Commits usize p.bytes) : p.oldRoot = x.oldRoot := by
  obtain ⟨batch, sidecar, newRoot, inbox, wchain, -, -, -, hbytes⟩ := Execution.commits_iff.mp h
  exact (PublicValues.words hbytes).1

end Lemmas

section Step
variable [Crypto] {app : App} {usize : ℕ} {guest : PublicValues → Execution} {Q : Set Bytes}
  {env : Env} {s s' : State} {call : Call} {log : Log} {S : AccountMap} {batches : List Batch}
  {lists : List (List Payout)} {owed : List Payout}

theorem Ledgered.create {verifierAddress : L1Address} {programVkeyHash recursionVkeyRoot : Word}
    {inboxTimeout escapeGrace : UInt64} {securityCouncil : L1Address} {updateDelay : UInt64}
    {approvalProgram : List Bytes} {clearStateProgram : Bytes} {balance : ℕ} :
    Ledgered app usize Q (createApplication app verifierAddress programVkeyHash recursionVkeyRoot
      inboxTimeout escapeGrace securityCouncil updateDelay approvalProgram clearStateProgram
      balance) [] emptyLedger [] [] [] where
  decoded := rfl
  replayed := rfl
  root := by
    unfold emptyLedger
    rw [treeOf_none]
    rfl
  tree := by
    unfold emptyLedger
    rw [treeOf_none]
    exact Set.empty_subset Q
  consumed := rfl
  arrived := HashChain.strings_nil_subset _
  posted := fun _ h => nomatch h
  installed := rfl
  paid := rfl
  last := List.suffix_refl _
  pending := rfl
  owedStrings := fun h => absurd rfl h

theorem Ledgered.quiet (h : Ledgered app usize Q s log S batches lists owed)
    (hquiet : call.IsQuiet) (hroot : s'.stateRoot = s.stateRoot)
    (hcursor : s'.settledInboxCursor = s.settledInboxCursor)
    (hpending : s'.pendingWithdrawals = s.pendingWithdrawals)
    (hlength : s'.batchLength = s.batchLength ∨ s'.batchLength = none) :
    Ledgered app usize Q s' (⟨s, env, call, s'⟩ :: log) S batches lists owed := by
  obtain ⟨harrivals, hposted, hsettled, hpaid, hinstalled⟩ :=
    projections_quiet app ⟨s, env, call, s'⟩ hquiet log
  constructor
  · rw [hsettled]
    exact h.decoded
  · exact h.replayed
  · exact hroot.trans h.root
  · exact h.tree
  · rw [harrivals, hcursor]
    exact h.consumed
  · rw [harrivals]
    exact h.arrived
  · intro n hn
    rw [hposted]
    rcases hlength with hsame | hnone
    · exact h.posted n (hsame.symm.trans hn)
    · exact absurd (hnone.symm.trans hn) (Option.some_ne_none _).symm
  · rw [hinstalled]
    exact h.installed
  · rw [hpaid]
    exact h.paid
  · exact h.last
  · exact hpending.trans h.pending
  · exact h.owedStrings

theorem Moves.quiet {items : List InboxItem} (hquiet : call.IsQuiet) :
    Moves app usize guest Q items s s' call S owed S owed := by
  refine .stay ?_ ?_
  · rintro verifier signals p rfl
    exact hquiet
  · rintro recipient amount tail rfl
    exact hquiet

theorem Moves.quiet_eq {items : List InboxItem} {S' : AccountMap} {owed' : List Payout}
    (h : Moves app usize guest Q items s s' call S owed S' owed') (hquiet : call.IsQuiet) :
    S' = S ∧ owed' = owed := by
  cases h with
  | settle => exact hquiet.elim
  | pay => exact hquiet.elim
  | stay => exact ⟨rfl, rfl⟩

theorem Ledgered.push (h : Ledgered app usize Q s log S batches lists owed)
    (hkept : s.inboxKeys.Represents (arrivals app log)) {item : InboxItem}
    (hstring : item.string s.inboxChain ∈ Q) :
    (batches.flatMap fun batch => inboxItems batch.txns) =
        (arrivals app log ++ [item]).take s.settledInboxCursor.toNat ∧
      inboxStrings inboxChainGenesis (arrivals app log ++ [item]) ⊆ Q := by
  refine ⟨?_, ?_⟩
  · have hsettled : s.settledInboxCursor.toNat ≤ (arrivals app log).length := hkept.settled
    rw [List.take_append_of_le_length hsettled]
    exact h.consumed
  · rw [inboxStrings_append_subset, ← hkept.chain]
    exact ⟨h.arrived,
      HashChain.strings_cons_subset.mpr ⟨hstring, HashChain.strings_nil_subset _⟩⟩

theorem Ledgered.openBatch (h : Ledgered app usize Q s log S batches lists owed)
    {n target : UInt64} {chain : Word} (hseed : seedString app n ∈ Q)
    (hs' : s' = { s with
      chunkAccumulator := some (sha256 (seedString app n))
      batchLength := some n
      postedLength := some 0
      sealedInboxChain := some chain
      sealedInboxCursor := some target }) :
    Ledgered app usize Q s' (⟨s, env, .openBatch n target, s'⟩ :: log) S batches lists owed := by
  subst hs'
  refine { h with posted := ?_ }
  rintro _ ⟨⟩
  refine commitStrings_subset.mpr ⟨hseed, ?_, HashChain.strings_nil_subset _⟩
  exact fun chunk hchunk => nomatch hchunk

theorem Ledgered.chunk (h : Ledgered app usize Q s log S batches lists owed)
    {n posted : UInt64} {accumulator : Word} {chunk : Bytes} (hlength : s.batchLength = some n)
    (haccumulator : s.chunkAccumulator = some accumulator)
    (hcommit : accumulator = commitChunks (deploymentDomain app) n (Contract.posted log))
    (hchunk : chunk ∈ Q) (hlink : chunkString accumulator chunk ∈ Q)
    (hs' : s' = { s with
      chunkAccumulator := some (sha256 (chunkString accumulator chunk))
      postedLength := some posted }) :
    Ledgered app usize Q s' (⟨s, env, .accumulateChunk chunk, s'⟩ :: log) S batches lists
      owed := by
  subst hs'
  refine { h with posted := ?_ }
  intro n' hn'
  cases hlength.symm.trans hn'
  subst hcommit
  exact commitStrings_concat_subset (h.posted n hlength) hchunk hlink

/-- The payout that goes through is the next one owed, with the tail of those after it. -/
theorem Ledgered.next (hQ : Ideal Q) (h : Ledgered app usize Q s log S batches lists owed)
    {recipient : L1Address} {amount : UInt64} {tail : Word}
    (hhead : s.pendingWithdrawals = some (sha256 (payoutString tail recipient amount)))
    (hstring : payoutString tail recipient amount ∈ Q) :
    ∃ rest, owed = (recipient, amount) :: rest ∧
      tail = withdrawalChain (deploymentDomain app) rest ∧
      payoutStrings (deploymentDomain app) rest ⊆ Q := by
  have hpending := h.pending.symm.trans hhead
  cases howed : owed with
  | nil =>
    rw [howed, pendingOf_nil] at hpending
    exact absurd hpending.symm (Option.some_ne_none _)
  | cons payout rest =>
    have hstrings := h.owedStrings (howed ▸ List.cons_ne_nil _ _)
    rw [howed] at hpending hstrings
    obtain ⟨hrest, hlink⟩ := payoutStrings_cons_subset.mp hstrings
    rw [pendingOf, if_neg (List.cons_ne_nil _ _), withdrawalChain_cons, Option.some.injEq,
      accumulateWithdrawal] at hpending
    obtain ⟨rfl, rfl, rfl⟩ := withdrawalString_inj (hQ.inj _ hlink _ hstring hpending)
    exact ⟨rest, rfl, rfl, hrest⟩

theorem Ledgered.pay (hQ : Ideal Q) {recipient : L1Address} {amount : UInt64}
    {rest : List Payout}
    (h : Ledgered app usize Q s log S batches lists ((recipient, amount) :: rest)) {tail : Word}
    (htail : tail = withdrawalChain (deploymentDomain app) rest)
    (hrest : payoutStrings (deploymentDomain app) rest ⊆ Q)
    (hpending : s'.pendingWithdrawals =
      if tail = withdrawalTerminal app then none else some tail)
    (hroot : s'.stateRoot = s.stateRoot)
    (hcursor : s'.settledInboxCursor = s.settledInboxCursor)
    (hlength : s'.batchLength = s.batchLength) :
    Ledgered app usize Q s' (⟨s, env, .payWithdrawal recipient amount tail, s'⟩ :: log) S batches
      lists rest := by
  subst htail
  refine { h with
    root := hroot.trans h.root
    consumed := ?_
    posted := ?_
    paid := ?_
    last := (List.suffix_cons _ _).trans h.last
    pending := ?_
    owedStrings := fun _ => hrest }
  · rw [hcursor]
    exact h.consumed
  · rw [hlength]
    exact h.posted
  · rw [h.paid, withdrawalLinks_cons]
    exact List.append_cons ..
  · rw [hpending, withdrawalTerminal_eq, pendingOf]
    simp only [withdrawalChain_eq_terminal hQ hrest]

/-- What the proof behind an accepted settlement was about: the accounts behind the root, the
deployment's own domain, the chunks that were posted and the inbox up to the sealed cursor. -/
structure Answers (app : App) (usize : ℕ) (guest : PublicValues → Execution) (Q : Set Bytes)
    (s : State) (log : Log) (p : PublicValues) (c : UInt64) (S S' : AccountMap) (batch : Batch)
    (sidecar : Sidecar) : Prop where
  settles : (guest p).Settles usize Q S S' batch sidecar p.bytes
  domain : (guest p).domain = deploymentDomain app
  posted : (Contract.posted log).flatten = (guest p).batchBytes
  consumed : (arrivals app log).take c.toNat =
    (arrivals app log).take s.settledInboxCursor.toNat ++ inboxItems batch.txns

theorem Ledgered.answers (hQ : Ideal Q) (h : Ledgered app usize Q s log S batches lists owed)
    (hkept : Kept app s (arrivals app log) (Contract.posted log)) {verifier : PaymentTxn}
    {signals : List Word} {p : PublicValues} {n c : UInt64}
    (hsound : Call.Sound app usize guest Q s (.verifyBatch verifier signals p))
    (hlength : s.batchLength = some n) (hroot : p.oldRoot = s.stateRoot)
    (haccumulator : s.chunkAccumulator = some p.batchCommitment)
    (hfrom : p.oldInboxChain = s.settledInboxChain)
    (hto : s.sealedInboxChain = some p.newInboxChain) (hcursor : s.sealedInboxCursor = some c) :
    s.pendingWithdrawals = none ∧ owed = [] ∧
      ∃ S' batch sidecar, Answers app usize guest Q s log p c S S' batch sidecar := by
  obtain ⟨hcommits, hguest⟩ := hsound.proved verifier signals p rfl
  obtain ⟨c', hposting⟩ := hkept.batch.posting hlength
  cases hcursor.symm.trans hposting.sealedCursor
  have hunpaid : s.pendingWithdrawals = none := hposting.unpaid
  have hfromRoot : (guest p).oldRoot = (treeOf S).root :=
    (Commits.oldRoot hcommits).symm.trans (hroot.trans h.root)
  obtain ⟨S', batch, sidecar, hsettles⟩ := hcommits.settles hQ hguest h.tree hfromRoot
  obtain ⟨-, -, hcommitment, hanchor, hnewChain, -⟩ := PublicValues.words hsettles.committed
  have hhashed := hsettles.hashed
  simp only [Execution.stringsOf, Set.union_subset_iff] at hhashed
  obtain ⟨-, hinboxStrings, -, hcommitStrings⟩ := hhashed
  -- The chunks that were posted are the chunks of the bytes the guest decoded.
  obtain ⟨hdomain, -, hchunks⟩ := commitChunks_inj hQ (h.posted n hlength) hcommitStrings (by
    rw [← batchCommitment_eq, ← hcommitment]
    exact Option.some.inj (hposting.accumulator.symm.trans haccumulator))
  -- The inbox entries it consumed are the ones between the two checkpoints.
  have hstart : (guest p).inboxAnchor =
      foldInbox inboxChainGenesis ((arrivals app log).take s.settledInboxCursor.toNat) :=
    hanchor.symm.trans (hfrom.trans hkept.inbox.settledChain)
  have hsealed : p.newInboxChain = checkpointAt (arrivals app log) c.toNat :=
    Option.some.inj (hto.symm.trans hposting.sealedChain)
  refine ⟨hunpaid, pendingOf_eq_none.mp (h.pending.symm.trans hunpaid), S', batch, sidecar,
    hsettles, hdomain.symm, ?_, ?_⟩
  · rw [hchunks, chunks_flatten]
  · refine foldInbox_inj hQ (inboxStrings_take_subset h.arrived _) ?_ ?_
    · rw [inboxStrings_append_subset, ← hstart]
      exact ⟨inboxStrings_take_subset h.arrived _, hinboxStrings⟩
    · rw [foldInbox_append, ← hstart, ← hnewChain, hsealed]
      rfl

theorem Ledgered.settle (hQ : Ideal Q) (h : Ledgered app usize Q s log S batches lists [])
    {p : PublicValues} {c : UInt64} {S' : AccountMap} {batch : Batch} {sidecar : Sidecar}
    (hanswers : Answers app usize guest Q s log p c S S' batch sidecar)
    (hunpaid : s.pendingWithdrawals = none) {verifier : PaymentTxn} {signals : List Word}
    (hstate : s'.stateRoot = p.newRoot) (hsettled : s'.settledInboxCursor = c)
    (hpending : s'.pendingWithdrawals =
      if p.withdrawalChain ≠ withdrawalTerminal app then some p.withdrawalChain
      else s.pendingWithdrawals) (hclosed : s'.batchLength = none) :
    Ledgered app usize Q s' (⟨s, env, .verifyBatch verifier signals p, s'⟩ :: log) S'
      (batches ++ [batch]) (lists ++ [withdrawalPayouts batch sidecar])
      (withdrawalPayouts batch sidecar) := by
  have hsettles := hanswers.settles
  obtain ⟨-, hnewRoot, -, -, -, hwchain⟩ := PublicValues.words hsettles.committed
  have hstrings := hsettles.hashed
  simp only [Execution.stringsOf, Set.union_subset_iff, hanswers.domain] at hstrings
  rw [hanswers.domain] at hwchain
  have hleft : s'.pendingWithdrawals =
      pendingOf (deploymentDomain app) (withdrawalPayouts batch sidecar) := by
    rw [hpending, hunpaid, hwchain, withdrawalTerminal_eq, pendingOf]
    simp only [ne_eq, withdrawalChain_eq_terminal hQ hstrings.2.2.1, ite_not]
  constructor
  · exact mapM_concat h.decoded (hanswers.posted ▸ hsettles.decoded)
  · exact replayBatches_concat h.replayed hsettles.replayed
  · exact hstate.trans hnewRoot
  · exact hsettles.tree
  · rw [List.flatMap_append, h.consumed, hsettled]
    simp only [List.flatMap_cons, List.flatMap_nil, List.append_nil]
    exact hanswers.consumed.symm
  · exact h.arrived
  · intro n hn
    exact absurd (hclosed.symm.trans hn) (Option.some_ne_none _).symm
  · rw [Contract.installed, h.installed, List.map_append, List.map_singleton, hleft]
  · rw [List.flatMap_append, h.paid]
    simp [Contract.paid]
  · rw [List.getLastD_concat]
  · exact hleft
  · exact fun _ => hstrings.2.2.1

theorem Ledgered.step (hQ : Ideal Q) (h : Ledgered app usize Q s log S batches lists owed)
    (hkept : Kept app s (arrivals app log) (Contract.posted log))
    (heffect : Effect app env s call s')
    (hsound : call.Sound app usize guest Q s) :
    ∃ S' batches' lists' owed',
      Ledgered app usize Q s' (⟨s, env, call, s'⟩ :: log) S' batches' lists' owed' ∧
      Moves app usize guest Q (arrivals app log) s s' call S owed S' owed' := by
  have hhashed := hsound.hashed
  cases heffect with
  | inert hcall hbalance =>
    exact ⟨_, _, _, _, h.quiet hcall.isQuiet rfl rfl rfl (.inl rfl), .quiet hcall.isQuiet⟩
  | @deposit payment recipient amount next hlive hpos hamount hnext =>
    simp only [callStrings, sub_eq_of_toNat hamount, Set.singleton_subset_iff] at hhashed
    have hstring : (InboxItem.deposit recipient amount).string s.inboxChain ∈ Q := hhashed
    have hpush := h.push hkept.inbox hstring
    refine ⟨_, _, _, _, { h with consumed := ?_, arrived := ?_ },
      .stay (by rintro _ _ _ ⟨⟩) (by rintro _ _ _ ⟨⟩)⟩
    · simp only [arrivals, sub_eq_of_toNat hamount]
      exact hpush.1
    · simp only [arrivals, sub_eq_of_toNat hamount]
      exact hpush.2
  | @request payment nonce address recipient =>
    simp only [callStrings, Set.singleton_subset_iff] at hhashed
    have hstring : (InboxItem.forcedWithdrawal address recipient).string s.inboxChain ∈ Q := hhashed
    have hpush := h.push hkept.inbox hstring
    exact ⟨_, _, _, _, { h with consumed := hpush.1, arrived := hpush.2 },
      .stay (by rintro _ _ _ ⟨⟩) (by rintro _ _ _ ⟨⟩)⟩
  | @prune call index record hbox hcall hfunds =>
    have hquiet : call.IsQuiet := by
      rcases hcall with ⟨rfl, -⟩ | ⟨rfl, -⟩ <;> exact True.intro
    exact ⟨_, _, _, _, h.quiet hquiet rfl rfl rfl (.inl rfl), .quiet hquiet⟩
  | reclaim =>
    exact ⟨_, _, _, _, h.quiet True.intro rfl rfl rfl (.inl rfl), .quiet True.intro⟩
  | pay hhead hcredit hfunds =>
    obtain ⟨rest, rfl, htail, hrest⟩ := h.next hQ hhead (hhashed (.inl rfl))
    exact ⟨_, _, _, _, h.pay hQ htail hrest rfl rfl rfl rfl, .pay⟩
  | exit =>
    exact ⟨_, _, _, _, h.quiet True.intro rfl rfl rfl (.inl rfl), .quiet True.intro⟩
  | signal =>
    exact ⟨_, _, _, _, h.quiet True.intro rfl rfl rfl (.inl rfl), .quiet True.intro⟩
  | @escape call dropped hdropped hlive hcall =>
    have hquiet : call.IsQuiet := by
      rcases hcall with ⟨rfl, -⟩ | ⟨rfl, -⟩ <;> exact True.intro
    refine ⟨S, batches, lists, owed, ?_, .quiet hquiet⟩
    by_cases hopen : s.batchLength.isSome
    · rw [if_pos hopen] at hdropped
      subst hdropped
      exact h.quiet hquiet rfl rfl rfl (.inr rfl)
    · rw [if_neg hopen] at hdropped
      subst hdropped
      exact h.quiet hquiet rfl rfl rfl (.inl rfl)
  | abandon =>
    exact ⟨_, _, _, _, h.quiet True.intro rfl rfl rfl (.inr rfl), .quiet True.intro⟩
  | openBatch =>
    exact ⟨_, _, _, _, h.openBatch (Set.singleton_subset_iff.mp hhashed) rfl,
      .stay (by rintro _ _ _ ⟨⟩) (by rintro _ _ _ ⟨⟩)⟩
  | @chunk chunk n postedLength posted accumulator hcreator hlength hposted hmore hchunk hacc hsum =>
    obtain ⟨c, hposting⟩ := hkept.batch.posting hlength
    have hcommit := Option.some.inj (hacc.symm.trans hposting.accumulator)
    exact ⟨_, _, _, _, h.chunk hlength hacc hcommit (hhashed (.inl rfl))
      (hhashed (.inr ⟨accumulator, hacc, rfl⟩)) rfl, .stay (by rintro _ _ _ ⟨⟩) (by rintro _ _ _ ⟨⟩)⟩
  | @settle verifier signals p balance n c deadline target progress hcreator hlive hround hlength
      hposted hproof hroot hacc hfrom hto hcursor hanswer =>
    obtain ⟨hunpaid, rfl, S', batch, sidecar, hanswers⟩ :=
      h.answers hQ hkept hsound hlength hroot hacc hfrom hto hcursor
    exact ⟨S', _, _, _, h.settle hQ hanswers hunpaid rfl rfl rfl rfl,
      .settle hanswers.settles hanswers.domain hanswers.consumed⟩

theorem Run.ledgered (hQ : Ideal Q) {funds : ℕ} {round : UInt64} (h : Run app funds round s log)
    (hlog : ∀ e ∈ log, e.Sound app usize guest Q) :
    ∃ S batches lists owed, Ledgered app usize Q s log S batches lists owed := by
  induction h with
  | create => exact ⟨_, _, _, _, Ledgered.create⟩
  | call hrun env call hround hok ih =>
    obtain ⟨hsound, hrest⟩ := List.forall_mem_cons.mp hlog
    obtain ⟨S, batches, lists, owed, hledgered⟩ := ih hrest
    obtain ⟨S', batches', lists', owed', hstep, -⟩ :=
      hledgered.step hQ hrun.kept (exec_effect hok) hsound
    exact ⟨S', batches', lists', owed', hstep⟩

end Step

section Results
variable [Crypto] {app : App} {usize : ℕ} {guest : PublicValues → Execution} {Q : Set Bytes}
  {funds : ℕ} {round : UInt64} {s : State} {log : Log}

/-- What L1 recorded is enough to replay the rollup: the chunks posted for each settled batch
decode, replay from the empty ledger to the accounts behind the root, and fix every payout
list that was installed. -/
theorem state_replays_from_posted_chunks (hrun : Run app funds round s log) (hQ : Ideal Q)
    (hlog : ∀ e ∈ log, e.Sound app usize guest Q) :
    ∃ batches S lists, (settledBatches log).mapM (Batch.decode usize) = .ok batches ∧
      replayBatches emptyLedger batches = some (S, lists) ∧ s.stateRoot = (treeOf S).root ∧
      installed log = lists.map (pendingOf (deploymentDomain app)) := by
  obtain ⟨S, batches, lists, owed, h⟩ := hrun.ledgered hQ hlog
  exact ⟨batches, S, lists, h.decoded, h.replayed, h.root, h.installed⟩

/-- The inbox transactions of the settled batches are the settled prefix of the inbox. -/
theorem settled_batches_consume_inbox_prefix (hrun : Run app funds round s log) (hQ : Ideal Q)
    (hlog : ∀ e ∈ log, e.Sound app usize guest Q) :
    ∃ batches, (settledBatches log).mapM (Batch.decode usize) = .ok batches ∧
      (batches.flatMap fun batch => inboxItems batch.txns) =
        (arrivals app log).take s.settledInboxCursor.toNat ∧
      s.settledInboxCursor.toNat ≤ (arrivals app log).length := by
  obtain ⟨S, batches, lists, owed, h⟩ := hrun.ledgered hQ hlog
  exact ⟨batches, h.decoded, h.consumed, hrun.kept.inbox.settled⟩

end Results

section Sample
attribute [local instance] Crypto.unsigned

theorem sample_replays : ∃ batches S lists,
    (settledBatches sampleEnd.2).mapM (Batch.decode (2 ^ 32)) = .ok batches ∧
      replayBatches emptyLedger batches = some (S, lists) ∧
      sampleEnd.1.stateRoot = (treeOf S).root ∧
      installed sampleEnd.2 = lists.map (pendingOf (deploymentDomain sampleApp)) :=
  state_replays_from_posted_chunks sample_run sample_ideal sample_sound

theorem sample_consumes : ∃ batches,
    (settledBatches sampleEnd.2).mapM (Batch.decode (2 ^ 32)) = .ok batches ∧
      (batches.flatMap fun batch => inboxItems batch.txns) =
        (arrivals sampleApp sampleEnd.2).take sampleEnd.1.settledInboxCursor.toNat ∧
      sampleEnd.1.settledInboxCursor.toNat ≤ (arrivals sampleApp sampleEnd.2).length :=
  settled_batches_consume_inbox_prefix sample_run sample_ideal sample_sound

end Sample

end PaymentRollup.Contract
