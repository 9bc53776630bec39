import PaymentRollup.Contract.Sequencer
import PaymentRollup.Rollup.Following

/-! # A sequencer for every run

A prover may have settled batches that no sequencer built, with witnesses of its own making.
There is a ledger in step with the contract all the same: one that has built the settled
batches, block by block, from what was submitted for them.
-/
namespace PaymentRollup.Contract

section Statements
variable [Crypto]

/-- A ledger that stands where the contract does and whose blocks are the settled batches. -/
structure Mirrors (app : App) (usize : ℕ) (Q : Set Bytes) (s : State) (log : Log)
    (blocks : List Block) (l : Ledger) : Prop where
  grown : Ledger.Grown (deploymentDomain app) blocks l
  inStep : InStep app l s
  tree : l.tree.strings ⊆ Q
  decoded : (settledBatches log).mapM (Batch.decode usize) = .ok (blocks.map Block.batch)
  installed : installed log = blocks.map fun block =>
    if block.withdrawalChain = withdrawalTerminal app then none else some block.withdrawalChain

end Statements

section Step
variable [Crypto] {app : App} {usize : ℕ} {guest : PublicValues → Execution} {Q : Set Bytes}
  {env : Env} {s s' : State} {call : Call} {log : Log} {blocks : List Block} {l : Ledger}

theorem Effect.settled_words (h : Effect app env s call s')
    (hcall : ∀ verifier signals p, call ≠ .verifyBatch verifier signals p) :
    s'.stateRoot = s.stateRoot ∧ s'.settledInboxChain = s.settledInboxChain := by
  cases h with
  | escape dropped hdropped =>
    rw [hdropped]
    split <;> exact ⟨rfl, rfl⟩
  | @settle verifier signals p => exact absurd rfl (hcall verifier signals p)
  | _ => exact ⟨rfl, rfl⟩

omit [Crypto] in
theorem settlements_other {e : Step}
    (hcall : ∀ verifier signals p, e.call ≠ .verifyBatch verifier signals p) (log : Log) :
    settledBatches (e :: log) = settledBatches log ∧ installed (e :: log) = installed log := by
  rcases e with ⟨before, env, call, after⟩
  cases call with
  | verifyBatch verifier signals p => exact absurd rfl (hcall verifier signals p)
  | _ => exact ⟨rfl, rfl⟩

theorem Mirrors.other (h : Mirrors app usize Q s log blocks l) (heffect : Effect app env s call s')
    (hcall : ∀ verifier signals p, call ≠ .verifyBatch verifier signals p) :
    Mirrors app usize Q s' (⟨s, env, call, s'⟩ :: log) blocks l := by
  obtain ⟨hroot, hchain⟩ := heffect.settled_words hcall
  obtain ⟨hsettled, hinstalled⟩ := settlements_other (e := ⟨s, env, call, s'⟩) hcall log
  constructor
  · exact h.grown
  · exact ⟨h.inStep.domain, h.inStep.root.trans hroot.symm, h.inStep.chain.trans hchain.symm⟩
  · exact h.tree
  · rw [hsettled]
    exact h.decoded
  · rw [hinstalled]
    exact h.installed

theorem Mirrors.settle (hQ : Ideal Q) (h : Mirrors app usize Q s log blocks l) {S S' : AccountMap}
    (hroot : s.stateRoot = (treeOf S).root) {p : PublicValues} {c : UInt64} {batch : Batch}
    {sidecar : Sidecar} (hanswers : Answers app usize guest Q s log p c S S' batch sidecar)
    (hfrom : p.oldInboxChain = s.settledInboxChain) {verifier : PaymentTxn} {signals : List Word}
    (hstate : s'.stateRoot = p.newRoot) (hchain : s'.settledInboxChain = p.newInboxChain)
    (hpending : s'.pendingWithdrawals =
      if p.withdrawalChain = withdrawalTerminal app then none else some p.withdrawalChain) :
    ∃ blocks' l', Mirrors app usize Q s' (⟨s, env, .verifyBatch verifier signals p, s'⟩ :: log)
      blocks' l' := by
  have hsettles := hanswers.settles
  obtain ⟨-, hnewRoot, -, hanchor, hnewChain, hwchain⟩ := PublicValues.words hsettles.committed
  obtain ⟨inbox, wchain, hverified⟩ := hsettles.verified
  have hinbox := verifyBatch_inbox hverified
  have hpayouts := verifyBatch_payouts hverified
  rw [hanswers.domain, ← h.inStep.domain, ← hroot, ← h.inStep.root, ← hanchor, hfrom,
    ← h.inStep.chain] at hverified
  have hconsistent := h.grown.reached.consistent.1
  obtain ⟨sidecar', l', hblock, htree, -, -⟩ := Ledger.follows hQ hconsistent h.tree
    (Set.subset_union_left.trans hsettles.hashed) hverified
  have hproves := Ledger.getBlock_proves hconsistent hblock
  refine ⟨blocks ++ [_], l', h.grown.getBlock _ hblock, ⟨?_, ?_, ?_⟩, htree, ?_, ?_⟩
  · exact hproves.domain'.trans h.inStep.domain
  · rw [← hproves.newRoot, hstate, hnewRoot]
  · rw [← hproves.newInboxChain, hchain, hnewChain, hinbox]
  · rw [List.map_append]
    exact mapM_concat h.decoded (hanswers.posted ▸ hsettles.decoded)
  · rw [Contract.installed, h.installed, List.map_append, hpending, hwchain, hpayouts]
    rfl

theorem Mirrors.step (hQ : Ideal Q) (h : Mirrors app usize Q s log blocks l) {S : AccountMap}
    {batches : List Batch} {lists : List (List Payout)} {owed : List Payout}
    (hledgered : Ledgered app usize Q s log S batches lists owed)
    (hkept : Kept app s (arrivals app log) (Contract.posted log))
    (heffect : Effect app env s call s') (hsound : call.Sound app usize guest Q s) :
    ∃ blocks' l', Mirrors app usize Q s' (⟨s, env, call, s'⟩ :: log) blocks' l' := by
  by_cases hcall : ∀ verifier signals p, call ≠ .verifyBatch verifier signals p
  · exact ⟨blocks, l, h.other heffect hcall⟩
  · push Not at hcall
    obtain ⟨verifier, signals, p, rfl⟩ := hcall
    cases heffect with
    | inert hcall => exact hcall.elim
    | prune _ hcall => simp at hcall
    | escape _ _ _ hcall => simp at hcall
    | @settle _ _ _ balance n c deadline target progress hcreator hlive hround hlength hposted
        hproof hroot hacc hfrom hto hcursor =>
      obtain ⟨hunpaid, rfl, S', batch, sidecar, hanswers⟩ :=
        hledgered.answers hQ hkept hsound hlength hroot hacc hfrom hto hcursor
      apply h.settle hQ hledgered.root hanswers hfrom
      · rfl
      · rfl
      · simp only [hunpaid, ne_eq, ite_not]

end Step

section Results
variable [Crypto] {app : App} {usize : ℕ} {guest : PublicValues → Execution} {Q : Set Bytes}
  {funds : ℕ} {round : UInt64} {s : State} {log : Log}

theorem Run.mirrored (hrun : Run app funds round s log) (hQ : Ideal Q)
    (hlog : ∀ e ∈ log, e.Sound app usize guest Q) :
    ∃ blocks l, Mirrors app usize Q s log blocks l := by
  induction hrun with
  | create =>
    refine ⟨[], _, .new, ⟨rfl, rfl, rfl⟩, ?_, rfl, rfl⟩
    exact Set.empty_subset Q
  | call hrun env call hround hok ih =>
    obtain ⟨hsound, hrest⟩ := List.forall_mem_cons.mp hlog
    obtain ⟨blocks, l, hmirrors⟩ := ih hrest
    obtain ⟨S, batches, lists, owed, hledgered⟩ := hrun.ledgered hQ hrest
    exact hmirrors.step hQ hledgered hrun.kept (exec_effect hok) hsound

/-- In every run there is a ledger in step with the contract that has done nothing but build the
settled batches, whoever had them proved: its blocks are what was posted and commit to what was
paid out. -/
theorem every_run_has_a_sequencer (hrun : Run app funds round s log) (hQ : Ideal Q)
    (hlog : ∀ e ∈ log, e.Sound app usize guest Q) :
    ∃ blocks l, Ledger.Grown (deploymentDomain app) blocks l ∧ InStep app l s ∧
      (settledBatches log).mapM (Batch.decode usize) = .ok (blocks.map Block.batch) ∧
      installed log = blocks.map fun block =>
        if block.withdrawalChain = withdrawalTerminal app then none
        else some block.withdrawalChain := by
  obtain ⟨blocks, l, h⟩ := hrun.mirrored hQ hlog
  exact ⟨blocks, l, h.grown, h.inStep, h.decoded, h.installed⟩

end Results

section Sample
attribute [local instance] Crypto.unsigned

theorem sample_has_a_sequencer : ∃ blocks l,
    Ledger.Grown (deploymentDomain sampleApp) blocks l ∧ InStep sampleApp l sampleEnd.1 ∧
      (settledBatches sampleEnd.2).mapM (Batch.decode (2 ^ 32)) = .ok (blocks.map Block.batch) ∧
      installed sampleEnd.2 = blocks.map fun block =>
        if block.withdrawalChain = withdrawalTerminal sampleApp then none
        else some block.withdrawalChain :=
  every_run_has_a_sequencer sample_run sample_ideal sample_sound

end Sample

end PaymentRollup.Contract
