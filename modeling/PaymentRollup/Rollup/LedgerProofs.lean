import PaymentRollup.Rollup.CodecProofs
import PaymentRollup.Rollup.Ledger
import PaymentRollup.Rollup.Soundness

/-! # Every block the sequencer builds proves

The builder captures each witness before the write it is for, so the verifier recomputes
the roots the tree went through. No property of the hash is used.
-/
namespace PaymentRollup
open Reader (Aligned)

section Building
variable [Crypto]

namespace Ledger

/-- The tree commits to the account table. -/
def Consistent (l : Ledger) : Prop := l.tree = treeOf l.accounts

/-- What a write leaves alone, and what it keeps. -/
structure Extends (l l' : Ledger) : Prop where
  consistent : l'.Consistent
  domain : l'.domain = l.domain
  inboxChain : l'.inboxChain = l.inboxChain

section Writes
variable {l : Ledger} (hl : l.Consistent)
include hl

theorem witness_pins (address : Address) :
    Pins l.accounts address (l.witness address).proof := by
  have hproof : (l.witness address).proof = (treeOf l.accounts).proof address := by
    rw [← hl]
    rfl
  rw [hproof]
  exact pins_proof l.accounts address

theorem extends_insertAccount (address : Address) (account : Account) :
    l.Extends (l.insertAccount address account) := by
  refine ⟨?_, rfl, rfl⟩
  change l.tree.update address (some account) = _
  rw [hl]
  exact treeOf_update _ _ _

theorem root_before (address : Address) :
    rootFromProof address (l.witness address).oldAccount (l.witness address).proof =
      some l.stateRoot := by
  have hroot := (witness_pins hl address).root
  rwa [← hl] at hroot

theorem root_after (address : Address) (account : Account) :
    rootFromProof address (some account) (l.witness address).proof =
      some (l.insertAccount address account).stateRoot := by
  have hroot := (witness_pins hl address).root_write account
  have hwritten := (extends_insertAccount hl address account).consistent
  rw [hroot]
  exact congrArg (fun t => some t.root) hwritten.symm

theorem debit_complete {l' : Ledger} {sender : Address} {amount fee : UInt64} {sig : Signature}
    {message : UInt64 → Bytes} {w : LeafWitness}
    (h : l.debit sender amount fee sig message = some (w, l')) :
    PaymentRollup.debit sender w sig amount fee l.stateRoot message = .ok l'.stateRoot ∧
      Replay.debit l.accounts sender amount fee = some l'.accounts ∧ l.Extends l' ∧
      w.proof.siblings.length ≤ maxDepth := by
  simp only [debit, Option.bind_eq_bind, Option.bind_eq_some_iff, Option.some.injEq,
    Prod.mk.injEq] at h
  obtain ⟨account, haccount, bumped, hbump, _, hsig, balance, hbalance, rfl, rfl⟩ := h
  have hbump' : account.bumpNonce = .ok bumped := by
    cases hb : account.bumpNonce with
    | error e => simp [hb, Except.toOption] at hbump
    | ok b => simpa [hb, Except.toOption] using hbump
  have hsig' : sig.verify bumped (message bumped.nonce) = .ok () := by
    cases hs : sig.verify bumped (message bumped.nonce) with
    | error e => simp [hs, Except.toOption] at hsig
    | ok u => rfl
  obtain ⟨nonce, hnonce, rfl⟩ := Account.bumpNonce_eq_ok.mp hbump'
  have hpost : account.debited amount fee = some ⟨nonce, balance, account.authAddress⟩ :=
    Account.debited_eq_some.mpr ⟨nonce, balance, hnonce,
      Option.bind_eq_some_iff.mpr hbalance, rfl⟩
  refine ⟨debit_eq_ok.mpr ⟨root_before hl sender, account, _, haccount, hpost, hsig',
    root_after hl sender _⟩, ?_, extends_insertAccount hl sender _, (witness_pins hl sender).length_le⟩
  simp [Replay.debit, haccount, hpost, insertAccount]

theorem credit_complete {l' : Ledger} {receiver : Address} {amount : UInt64} {w : LeafWitness}
    (h : l.credit receiver amount = some (w, l')) :
    PaymentRollup.credit receiver w amount l.stateRoot = .ok l'.stateRoot ∧
      Replay.credit l.accounts receiver amount = some l'.accounts ∧ l.Extends l' ∧
      w.proof.siblings.length ≤ maxDepth := by
  simp only [credit, Option.bind_eq_bind, Option.bind_eq_some_iff, Option.some.injEq,
    Prod.mk.injEq] at h
  obtain ⟨balance, hbalance, rfl, rfl⟩ := h
  have hpost := Account.credited_eq_some.mpr ⟨balance, hbalance, rfl⟩
  refine ⟨credit_eq_ok.mpr ⟨root_before hl receiver, _, hpost, root_after hl receiver _⟩, ?_,
    extends_insertAccount hl receiver _, (witness_pins hl receiver).length_le⟩
  simp [Replay.credit, hpost, insertAccount]

theorem creditFee_complete {l' : Ledger} {fee : UInt64} {w : Option LeafWitness}
    (h : l.creditFee fee = some (w, l')) :
    PaymentRollup.creditFee fee w l.stateRoot = .ok l'.stateRoot ∧
      Replay.creditFee l.accounts fee = some l'.accounts ∧ l.Extends l' ∧
      (w.isSome ↔ fee ≠ 0) ∧ ∀ x ∈ w, x.proof.siblings.length ≤ maxDepth := by
  by_cases hfee : fee = 0
  · simp only [creditFee, hfee, ne_eq, not_true_eq_false, ↓reduceIte, Option.some.injEq,
      Prod.mk.injEq] at h
    obtain ⟨rfl, rfl⟩ := h
    exact ⟨creditFee_eq_ok.mpr (Or.inl ⟨hfee, rfl, rfl⟩), by simp [Replay.creditFee, hfee],
      ⟨hl, rfl, rfl⟩, by simp [hfee], by simp⟩
  · simp only [creditFee, ne_eq, hfee, not_false_eq_true, ↓reduceIte, Option.bind_eq_bind,
      Option.bind_eq_some_iff, Option.some.injEq, Prod.mk.injEq, Prod.exists] at h
    obtain ⟨w, l₁, hcredit, rfl, rfl⟩ := h
    obtain ⟨hverify, hreplay, hext, hdepth⟩ := credit_complete hl hcredit
    exact ⟨creditFee_eq_ok.mpr (Or.inr ⟨hfee, w, rfl, hverify⟩),
      by simp [Replay.creditFee, hfee, hreplay], hext, by simp [hfee], by simpa using hdepth⟩

end Writes

section Submissions

theorem Building.step_txns {b b' : Building} {stxn : SignedTransaction}
    (h : b.step stxn = some b') : b'.txns = b.txns ++ [stxn.txn] := by
  cases stxn with
  | payment p sig =>
    simp only [step, Option.bind_eq_bind, Option.bind_eq_some_iff, Option.some.injEq,
      Prod.exists] at h
    obtain ⟨_, _, -, _, _, -, _, _, -, rfl⟩ := h
    rfl
  | deposit d =>
    simp only [step, Option.bind_eq_bind, Option.bind_eq_some_iff, Option.some.injEq,
      Prod.exists] at h
    obtain ⟨_, _, -, rfl⟩ := h
    rfl
  | withdrawal w sig =>
    simp only [step] at h
    split_ifs at h
    simp only [Option.bind_eq_bind, Option.bind_eq_some_iff, Option.some.injEq,
      Prod.exists] at h
    obtain ⟨_, _, -, _, _, -, rfl⟩ := h
    rfl
  | forcedWithdrawal f =>
    simp only [step] at h
    split_ifs at h
    · simp only [Option.bind_eq_bind, Option.bind_eq_some_iff, Option.some.injEq] at h
      obtain ⟨_, -, _, -, rfl⟩ := h
      rfl
    · cases h
      rfl

theorem Building.steps_txns {b b' : Building} {stxns : List SignedTransaction}
    (h : stxns.foldlM Building.step b = some b') :
    b'.txns = b.txns ++ stxns.map SignedTransaction.txn := by
  induction stxns generalizing b with
  | nil =>
    cases h
    exact (List.append_nil _).symm
  | cons stxn rest ih =>
    simp only [List.foldlM_cons, Option.bind_eq_bind, Option.bind_eq_some_iff] at h
    obtain ⟨b₁, hstep, hrest⟩ := h
    rw [ih hrest, Building.step_txns hstep, List.append_assoc, List.map_cons, List.singleton_append]

theorem getBlock_txns {l l' : Ledger} {stxns : List SignedTransaction} {block : Block}
    (h : l.getBlock stxns = some (block, l')) :
    block.batch.txns = stxns.map SignedTransaction.txn := by
  simp only [getBlock, Option.bind_eq_bind, Option.bind_eq_some_iff, Option.some.injEq,
    Prod.mk.injEq] at h
  obtain ⟨b, hrun, rfl, -⟩ := h
  exact Building.steps_txns hrun

end Submissions

theorem Extends.trans {l l' l'' : Ledger} (h : l.Extends l') (h' : l'.Extends l'') :
    l.Extends l'' :=
  ⟨h'.consistent, h'.domain.trans h.domain, h'.inboxChain.trans h.inboxChain⟩

/-- Where the verifier's loop stands once the builder's has come this far. -/
def Building.replaying (b : Building) : Replaying :=
  ⟨b.ledger.stateRoot, b.ledger.inboxChain, b.payouts⟩

/-- One step of the builder, as the verifier and the replay see it. -/
structure Building.Stepped (b b' : Building) (txn : Transaction) (entry : TxnSidecar) : Prop where
  txns : b'.txns = b.txns ++ [txn]
  entries : b'.entries = b.entries ++ [entry]
  aligned : Aligned txn entry
  consistent : b'.ledger.Consistent
  domain : b'.ledger.domain = b.ledger.domain
  verified : verifyTxn b.ledger.domain b.replaying (txn, entry) = .ok b'.replaying
  replayed : ∃ paid, Replay.step b.ledger.accounts txn = some (b'.ledger.accounts, paid) ∧
    b'.payouts = b.payouts ++ paid

theorem Building.forced_stepped {b b' : Building} (hb : b.ledger.Consistent)
    {f : ForcedWithdrawal} (h : b.step (.forcedWithdrawal f) = some b') :
    ∃ txn entry, Building.Stepped b b' txn entry := by
  have hpre : expectPreState f.address (b.ledger.witness f.address) b.ledger.stateRoot = .ok () :=
    expectPreState_eq_ok.mpr (root_before hb f.address)
  have hdepth := (witness_pins hb f.address).length_le
  have hold : (b.ledger.witness f.address).oldAccount = b.ledger.accounts f.address := rfl
  simp only [step] at h
  split_ifs at h with hmin
  · simp only [Option.bind_eq_bind, Option.bind_eq_some_iff, Option.some.injEq] at h
    obtain ⟨account, haccount, emptied, hbump, rfl⟩ := h
    have hbump' : { account with amount := 0 }.bumpNonce = .ok emptied := by
      cases hb : { account with amount := 0 }.bumpNonce with
      | error e => simp [hb, Except.toOption] at hbump
      | ok b => simpa [hb, Except.toOption] using hbump
    have hext := extends_insertAccount hb f.address emptied
    have hafter := root_after hb f.address emptied
    rw [haccount] at hmin
    refine ⟨_, _, rfl, rfl, hdepth, hext.consistent, hext.domain, ?_, _, ?_, rfl⟩
    · simp only [verifyTxn, replaying, hpre, hold, haccount, hmin, demand, ↓reduceIte, ok_bind,
        hbump', rootWith, hafter, push]
      rfl
    · obtain ⟨nonce, hnonce, rfl⟩ := Account.bumpNonce_eq_ok.mp hbump'
      have hempty : account.emptied = some ⟨nonce, 0, account.authAddress⟩ :=
        Account.emptied_eq_some.mpr ⟨nonce, hnonce, rfl⟩
      have hmin' : minWithdrawal ≤ account.amount := hmin
      simp [Replay.step, Replay.force, haccount, hmin', hempty, push, insertAccount]
  · simp only [Option.some.injEq] at h
    subst h
    refine ⟨_, _, rfl, rfl, hdepth, hb, rfl, ?_, [], ?_, rfl⟩
    · simp only [verifyTxn, replaying, hpre, hold, hmin, ↓reduceIte, ok_bind, push,
        List.append_nil]
      rfl
    · cases haccount : b.ledger.accounts f.address with
      | none => simp [Replay.step, Replay.force, haccount, push]
      | some account =>
        have hmin' : ¬minWithdrawal ≤ account.amount := by
          rwa [haccount] at hmin
        simp [Replay.step, Replay.force, haccount, hmin', push]

theorem Building.step_stepped {b b' : Building} (hb : b.ledger.Consistent)
    {stxn : SignedTransaction} (h : b.step stxn = some b') :
    ∃ txn entry, Building.Stepped b b' txn entry := by
  cases stxn with
  | payment p sig =>
    simp only [step, Option.bind_eq_bind, Option.bind_eq_some_iff, Option.some.injEq,
      Prod.exists] at h
    obtain ⟨w₁, l₁, hdebit, w₂, l₂, hcredit, w₃, l₃, hfee, rfl⟩ := h
    obtain ⟨hv₁, hr₁, he₁, hd₁⟩ := debit_complete hb hdebit
    obtain ⟨hv₂, hr₂, he₂, hd₂⟩ := credit_complete he₁.consistent hcredit
    obtain ⟨hv₃, hr₃, he₃, hsome, hd₃⟩ := creditFee_complete he₂.consistent hfee
    have hext := (he₁.trans he₂).trans he₃
    refine ⟨_, _, rfl, rfl, ⟨hsome, hd₁, hd₂, hd₃⟩, hext.consistent, hext.domain, ?_, [], ?_, rfl⟩
    · simp only [verifyTxn, replaying, hv₁, hv₂, hv₃, ok_bind, push, List.append_nil,
        hext.inboxChain]
    · simp [Replay.step, hr₁, hr₂, hr₃, push]
  | deposit d =>
    simp only [step, Option.bind_eq_bind, Option.bind_eq_some_iff, Option.some.injEq,
      Prod.exists] at h
    obtain ⟨w₁, l₁, hcredit, rfl⟩ := h
    obtain ⟨hv₁, hr₁, he₁, hd₁⟩ := credit_complete hb hcredit
    refine ⟨_, _, rfl, rfl, hd₁, he₁.consistent, he₁.domain, ?_, [], ?_, rfl⟩
    · simp only [verifyTxn, replaying, hv₁, ok_bind, push, List.append_nil, he₁.inboxChain]
      rfl
    · simp [Replay.step, hr₁, push]
  | withdrawal w sig =>
    simp only [step] at h
    split_ifs at h with hmin
    simp only [Option.bind_eq_bind, Option.bind_eq_some_iff, Option.some.injEq,
      Prod.exists] at h
    obtain ⟨w₁, l₁, hdebit, w₂, l₂, hfee, rfl⟩ := h
    obtain ⟨hv₁, hr₁, he₁, hd₁⟩ := debit_complete hb hdebit
    obtain ⟨hv₂, hr₂, he₂, hsome, hd₂⟩ := creditFee_complete he₁.consistent hfee
    have hext := he₁.trans he₂
    refine ⟨_, _, rfl, rfl, ⟨hsome, hd₁, hd₂⟩, hext.consistent, hext.domain, ?_, _, ?_, rfl⟩
    · simp only [verifyTxn, replaying, require, hmin, ↓reduceIte, hv₁, hv₂, ok_bind, push,
        hext.inboxChain]
    · simp [Replay.step, hmin, hr₁, hr₂, push]
  | forcedWithdrawal f =>
    exact forced_stepped hb h

/-- What a block under construction from `l` already amounts to. -/
structure Built (l : Ledger) (b : Building) : Prop where
  consistent : b.ledger.Consistent
  domain : b.ledger.domain = l.domain
  length : b.txns.length = b.entries.length
  aligned : List.Forall₂ Aligned b.txns b.entries
  verified : (b.txns.zip b.entries).foldlM (verifyTxn l.domain)
    ⟨l.stateRoot, l.inboxChain, []⟩ = .ok b.replaying
  replayed : replay l.accounts b.txns = some (b.ledger.accounts, b.payouts)

theorem Built.step {l : Ledger} {b b' : Building} (hb : Built l b) {stxn : SignedTransaction}
    (h : b.step stxn = some b') : Built l b' := by
  obtain ⟨txn, entry, hs⟩ := Building.step_stepped hb.consistent h
  obtain ⟨paid, hreplay, hpaid⟩ := hs.replayed
  refine ⟨hs.consistent, hs.domain.trans hb.domain, ?_, ?_, ?_, ?_⟩
  · simp [hs.txns, hs.entries, hb.length]
  · rw [hs.txns, hs.entries]
    exact List.rel_append hb.aligned (.cons hs.aligned .nil)
  · have hverified := hs.verified
    rw [hb.domain] at hverified
    rw [hs.txns, hs.entries, List.zip_append hb.length, List.foldlM_append, hb.verified, ok_bind]
    simp [hverified]
  · rw [hs.txns, hpaid]
    exact replay_append_eq_some.mpr ⟨_, _, paid, hb.replayed,
      replay_cons_eq_some.mpr ⟨_, paid, [], hreplay, rfl, (List.append_nil _).symm⟩, rfl⟩

theorem Built.run {l : Ledger} {b b' : Building} (hb : Built l b) {stxns : List SignedTransaction}
    (h : stxns.foldlM Building.step b = some b') : Built l b' := by
  induction stxns generalizing b with
  | nil =>
    cases h
    exact hb
  | cons stxn rest ih =>
    simp only [List.foldlM_cons, Option.bind_eq_bind, Option.bind_eq_some_iff] at h
    obtain ⟨b₁, hstep, hrest⟩ := h
    exact ih (hb.step hstep) hrest

theorem built_start {l : Ledger} (hl : l.Consistent) : Built l ⟨l, [], [], []⟩ :=
  ⟨hl, rfl, rfl, .nil, rfl, rfl⟩

/-- A built block: its halves belong together, verify to its own words, and replay. -/
structure Proves (l : Ledger) (block : Block) (l' : Ledger) : Prop where
  consistent : l'.Consistent
  domain : block.domain = l.domain
  domain' : l'.domain = l.domain
  oldRoot : block.oldRoot = l.stateRoot
  newRoot : block.newRoot = l'.stateRoot
  oldInboxChain : block.oldInboxChain = l.inboxChain
  newInboxChain : block.newInboxChain = l'.inboxChain
  aligned : List.Forall₂ Aligned block.batch.txns block.sidecar.entries
  verified : verifyBatch block.domain block.oldRoot block.oldInboxChain block.batch
    block.sidecar = .ok (block.newRoot, block.newInboxChain, block.withdrawalChain)
  replayed : ∃ payouts, replay l.accounts block.batch.txns = some (l'.accounts, payouts) ∧
    block.withdrawalChain = PaymentRollup.withdrawalChain block.domain payouts

theorem getBlock_proves {l l' : Ledger} (hl : l.Consistent) {stxns : List SignedTransaction}
    {block : Block} (h : l.getBlock stxns = some (block, l')) : Proves l block l' := by
  simp only [getBlock, Option.bind_eq_bind, Option.bind_eq_some_iff, Option.some.injEq,
    Prod.mk.injEq] at h
  obtain ⟨b, hrun, rfl, rfl⟩ := h
  have hb := (built_start hl).run hrun
  refine ⟨hb.consistent, hb.domain, hb.domain, rfl, rfl, rfl, rfl, hb.aligned, ?_,
    b.payouts, hb.replayed, rfl⟩
  simp only [verifyBatch, require, hb.length, ↓reduceIte, ok_bind, hb.domain, hb.verified]
  rfl

theorem Reached.consistent {domain : DeploymentDomain} {l : Ledger} (h : Reached domain l) :
    l.Consistent ∧ l.domain = domain := by
  induction h with
  | new => exact ⟨treeOf_none.symm, rfl⟩
  | insertAccount h address account ih =>
    exact ⟨(extends_insertAccount ih.1 address account).consistent, ih.2⟩
  | createAccount h scheme pubKey ih =>
    simp only [Ledger.createAccount]
    split
    · exact ih
    · exact ⟨(extends_insertAccount ih.1 _ _).consistent, ih.2⟩
  | getBlock h stxns hblock ih =>
    have hproves := getBlock_proves ih.1 hblock
    exact ⟨hproves.consistent, hproves.domain'.trans ih.2⟩

end Ledger

theorem Proves.execute {l l' : Ledger} {block : Block} (h : Ledger.Proves l block l') {usize : ℕ}
    (husize : usize ≤ 2 ^ 64) (hbatch : block.batch.encode.length < usize)
    (hsidecar : block.sidecar.encode.length < usize) :
    execute usize block.domain block.oldRoot block.oldInboxChain block.batch.encode
      block.sidecar.encode = .ok (publicValues block.domain block.oldRoot block.newRoot
        block.batch.encode block.oldInboxChain block.newInboxChain block.withdrawalChain) := by
  simp only [PaymentRollup.execute, Batch.decode_encode husize _ hbatch,
    Sidecar.decode_encode husize h.aligned hsidecar, h.verified, Except.mapError, ok_bind]

/-- Whatever a sequencer builds holds what was submitted, verifies, executes from its encoded halves
to its own public values, and leaves the ledger at the replay of the block. The halves have to be
byte strings the machine can hold: shorter than the number of values of its word. -/
theorem every_built_block_proves {domain : DeploymentDomain} {l l' : Ledger}
    (hl : Ledger.Reached domain l) {stxns : List SignedTransaction} {block : Block}
    (hblock : l.getBlock stxns = some (block, l')) :
    block.batch.txns = stxns.map SignedTransaction.txn ∧ verifyBlock block = .ok () ∧
      (∀ usize ≤ 2 ^ 64, block.batch.encode.length < usize → block.sidecar.encode.length < usize →
        execute usize block.domain block.oldRoot block.oldInboxChain block.batch.encode
          block.sidecar.encode = .ok (publicValues block.domain block.oldRoot block.newRoot
            block.batch.encode block.oldInboxChain block.newInboxChain block.withdrawalChain)) ∧
      (block.oldRoot = l.stateRoot ∧ block.newRoot = l'.stateRoot ∧
        block.oldInboxChain = l.inboxChain ∧ block.newInboxChain = l'.inboxChain) ∧
      (∃ payouts, replay l.accounts block.batch.txns = some (l'.accounts, payouts)) ∧
      ∀ t, Holds t l'.accounts → l'.stateRoot = t.root := by
  have h := Ledger.getBlock_proves hl.consistent.1 hblock
  obtain ⟨payouts, hreplay, -⟩ := h.replayed
  refine ⟨Ledger.getBlock_txns hblock, ?_, fun usize husize hb hs => Proves.execute h husize hb hs,
    ⟨h.oldRoot, h.newRoot, h.oldInboxChain, h.newInboxChain⟩, ⟨payouts, hreplay⟩, ?_⟩
  · simp [verifyBlock, h.verified]
  · intro t ht
    rw [ht.eq_treeOf, ← h.consistent]
    rfl

end Building

section Sample
attribute [local instance] Crypto.unsigned

def sampleTxns : List SignedTransaction :=
  [.deposit ⟨sampleAddress, 300000⟩,
    .withdrawal ⟨⟨sampleAddress, 0⟩, sampleAccount 5, 250000⟩ ⟨.managed, sampleKey, []⟩]

def firstBuilt : Block × Ledger :=
  ((Ledger.withDomain Word.zero).getBlock sampleTxns).get (by decide +kernel)

theorem firstBuilt_eq :
    (Ledger.withDomain Word.zero).getBlock sampleTxns = some (firstBuilt.1, firstBuilt.2) := by
  rw [Prod.mk.eta, firstBuilt, Option.some_get]

theorem first_block_proves :
    firstBuilt.1.batch.txns = sampleTxns.map SignedTransaction.txn ∧
      verifyBlock firstBuilt.1 = .ok () ∧
      (∀ usize ≤ 2 ^ 64, firstBuilt.1.batch.encode.length < usize →
        firstBuilt.1.sidecar.encode.length < usize →
        execute usize firstBuilt.1.domain firstBuilt.1.oldRoot firstBuilt.1.oldInboxChain
          firstBuilt.1.batch.encode firstBuilt.1.sidecar.encode =
          .ok (publicValues firstBuilt.1.domain firstBuilt.1.oldRoot firstBuilt.1.newRoot
            firstBuilt.1.batch.encode firstBuilt.1.oldInboxChain firstBuilt.1.newInboxChain
            firstBuilt.1.withdrawalChain)) ∧
      (firstBuilt.1.oldRoot = (Ledger.withDomain Word.zero).stateRoot ∧
        firstBuilt.1.newRoot = firstBuilt.2.stateRoot ∧
        firstBuilt.1.oldInboxChain = (Ledger.withDomain Word.zero).inboxChain ∧
        firstBuilt.1.newInboxChain = firstBuilt.2.inboxChain) ∧
      (∃ payouts, replay (Ledger.withDomain Word.zero).accounts firstBuilt.1.batch.txns =
        some (firstBuilt.2.accounts, payouts)) ∧
      ∀ t, Holds t firstBuilt.2.accounts → firstBuilt.2.stateRoot = t.root :=
  every_built_block_proves .new firstBuilt_eq

end Sample

end PaymentRollup
