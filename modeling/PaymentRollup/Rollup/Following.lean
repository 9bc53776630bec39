import PaymentRollup.Rollup.LedgerProofs
import PaymentRollup.Rollup.MerkleProofs

/-! # The sequencer builds whatever verifies

A batch and its sidecar are split off what was submitted. Put back together, a ledger that
stands at the same root builds its own block from them, with the same words whatever the
witnesses were. A proof leaves its maker one choice only, how to show an account that stands
beside a single other one; without it the two blocks are the same.
-/
namespace PaymentRollup

section Submissions

/-- What was submitted for a transaction, its witnesses left out. -/
def submitted : Transaction × TxnSidecar → Option SignedTransaction
  | (.payment payment, .payment entry) => some (.payment payment entry.sig)
  | (.deposit deposit, .deposit _) => some (.deposit deposit)
  | (.withdrawal withdrawal, .withdrawal entry) => some (.withdrawal withdrawal entry.sig)
  | (.forcedWithdrawal forced, .forcedWithdrawal _) => some (.forcedWithdrawal forced)
  | _ => none

def submissions (batch : Batch) (sidecar : Sidecar) : List SignedTransaction :=
  (batch.txns.zip sidecar.entries).filterMap submitted

/-- An account that stands is shown at its own position. -/
def LeafWitness.Direct (w : LeafWitness) : Prop := w.oldAccount ≠ none → w.proof.slot = .own

def TxnSidecar.witnesses : TxnSidecar → List LeafWitness
  | .payment entry => entry.senderWitness :: entry.receiverWitness :: entry.feeSinkWitness.toList
  | .deposit entry => [entry.receiverWitness]
  | .withdrawal entry => entry.senderWitness :: entry.feeSinkWitness.toList
  | .forcedWithdrawal entry => [entry.senderWitness]

def TxnSidecar.Direct (entry : TxnSidecar) : Prop := ∀ w ∈ entry.witnesses, w.Direct

def Sidecar.Direct (sidecar : Sidecar) : Prop := ∀ entry ∈ sidecar.entries, entry.Direct

/-- The same transaction with the same signature, and the same witnesses where these are direct. -/
structure Restated (pair pair' : Transaction × TxnSidecar) : Prop where
  txn : pair'.1 = pair.1
  submitted : PaymentRollup.submitted pair' = PaymentRollup.submitted pair
  entry : pair.2.Direct → pair'.2 = pair.2

end Submissions

section Restatements
variable {pairs pairs' : List (Transaction × TxnSidecar)}

theorem Restated.txns (h : List.Forall₂ Restated pairs pairs') :
    pairs'.map Prod.fst = pairs.map Prod.fst := by
  induction h with
  | nil => rfl
  | cons hpair _ ih => rw [List.map_cons, List.map_cons, hpair.txn, ih]

theorem Restated.submissions (h : List.Forall₂ Restated pairs pairs') :
    pairs'.filterMap PaymentRollup.submitted = pairs.filterMap PaymentRollup.submitted := by
  induction h with
  | nil => rfl
  | cons hpair _ ih => rw [List.filterMap_cons, List.filterMap_cons, hpair.submitted, ih]

theorem Restated.entries (h : List.Forall₂ Restated pairs pairs')
    (hdirect : ∀ pair ∈ pairs, pair.2.Direct) : pairs'.map Prod.snd = pairs.map Prod.snd := by
  induction h with
  | nil => rfl
  | cons hpair _ ih =>
    obtain ⟨hfirst, hrest⟩ := List.forall_mem_cons.mp hdirect
    rw [List.map_cons, List.map_cons, hpair.entry hfirst, ih hrest]

end Restatements

section Writes
variable [Crypto]

namespace Ledger

theorem debit_ok {l : Ledger} {sender : Address} {amount fee : UInt64} {sig : Signature}
    {message : UInt64 → Bytes} {account post : Account}
    (haccount : l.accounts sender = some account) (hpost : account.debited amount fee = some post)
    (hsig : sig.verify { account with nonce := post.nonce } (message post.nonce) = .ok ()) :
    l.debit sender amount fee sig message =
      some (l.witness sender, l.insertAccount sender post) := by
  obtain ⟨nonce, balance, hnonce, hbalance, rfl⟩ := Account.debited_eq_some.mp hpost
  have hbump : account.bumpNonce = .ok { account with nonce } :=
    Account.bumpNonce_eq_ok.mpr ⟨nonce, hnonce, rfl⟩
  simp only [debit, haccount, hbump, hsig, hbalance, Except.toOption, Option.bind_eq_bind,
    Option.bind_some]

theorem credit_ok {l : Ledger} {receiver : Address} {amount : UInt64} {post : Account}
    (hpost : ((l.accounts receiver).getD (Account.empty receiver)).credited amount = some post) :
    l.credit receiver amount = some (l.witness receiver, l.insertAccount receiver post) := by
  obtain ⟨balance, hbalance, rfl⟩ := Account.credited_eq_some.mp hpost
  simp only [credit, hbalance, Option.bind_eq_bind, Option.bind_some]

/-- A write led where the verifier was led, and hashed nothing new. -/
structure Reaches (Q : Set Bytes) (l l' : Ledger) (root : Word) : Prop extends Extends l l' where
  root : l'.stateRoot = root
  strings : l'.tree.strings ⊆ Q

section Following
variable {Q : Set Bytes} (hQ : Ideal Q) {l : Ledger} (hl : l.Consistent)
  (hstrings : l.tree.strings ⊆ Q)
include hQ hl hstrings

/-- A witness that reproduces the ledger's root shows the account the ledger holds. -/
theorem witness_sound {address : Address} {w : LeafWitness} {post : Option Account}
    (hsub : writeStrings address w post ⊆ Q)
    (hpre : rootFromProof address w.oldAccount w.proof = some l.stateRoot) :
    w.oldAccount = l.accounts address ∧ (w.Direct → l.witness address = w) := by
  rw [hl] at hstrings
  rw [stateRoot, hl] at hpre
  obtain ⟨hold, hpins⟩ := pre_sound hQ hstrings hsub hpre
  refine ⟨hold, ?_⟩
  intro hdirect
  rcases w with ⟨oldAccount, proof⟩
  dsimp only at hold
  subst hold
  rw [witness, hl, hpins.eq_proof hdirect]

theorem reaches_insertAccount {address : Address} {w : LeafWitness} {post : Account} {root : Word}
    (hsub : writeStrings address w (some post) ⊆ Q)
    (hpre : rootFromProof address w.oldAccount w.proof = some l.stateRoot)
    (hpost : rootFromProof address (some post) w.proof = some root) :
    Reaches Q l (l.insertAccount address post) root := by
  have hext := extends_insertAccount hl address post
  rw [hl] at hstrings
  rw [stateRoot, hl] at hpre
  obtain ⟨hroot, hwritten⟩ := write_sound hQ hstrings hsub hpre hpost
  refine { hext with root := ?_, strings := ?_ }
  · rw [stateRoot, hext.consistent]
    exact hroot.symm
  · rw [hext.consistent]
    exact hwritten

theorem debit_follows {sender : Address} {w : LeafWitness} {sig : Signature} {amount fee : UInt64}
    {root : Word} {message : UInt64 → Bytes} (hsub : debitStrings sender w amount fee ⊆ Q)
    (hok : PaymentRollup.debit sender w sig amount fee l.stateRoot message = .ok root) :
    ∃ l', l.debit sender amount fee sig message = some (l.witness sender, l') ∧
      Reaches Q l l' root ∧ (w.Direct → l.witness sender = w) := by
  obtain ⟨hpre, account, post, hold, hpost, hsig, hroot⟩ := debit_eq_ok.mp hok
  unfold debitStrings at hsub
  simp only [hold, Option.bind_some, hpost] at hsub
  obtain ⟨hheld, hdirect⟩ := witness_sound hQ hl hstrings hsub hpre
  exact ⟨_, debit_ok (hheld.symm.trans hold) hpost hsig,
    reaches_insertAccount hQ hl hstrings hsub hpre hroot, hdirect⟩

theorem credit_follows {receiver : Address} {w : LeafWitness} {amount : UInt64} {root : Word}
    (hsub : creditStrings receiver w amount ⊆ Q)
    (hok : PaymentRollup.credit receiver w amount l.stateRoot = .ok root) :
    ∃ l', l.credit receiver amount = some (l.witness receiver, l') ∧ Reaches Q l l' root ∧
      (w.Direct → l.witness receiver = w) := by
  obtain ⟨hpre, post, hpost, hroot⟩ := credit_eq_ok.mp hok
  unfold creditStrings at hsub
  simp only [hpost] at hsub
  obtain ⟨hheld, hdirect⟩ := witness_sound hQ hl hstrings hsub hpre
  rw [hheld] at hpost
  exact ⟨_, credit_ok hpost, reaches_insertAccount hQ hl hstrings hsub hpre hroot, hdirect⟩

theorem creditFee_follows {fee : UInt64} {w : Option LeafWitness} {root : Word}
    (hsub : feeStrings fee w ⊆ Q)
    (hok : PaymentRollup.creditFee fee w l.stateRoot = .ok root) :
    ∃ w' l', l.creditFee fee = some (w', l') ∧ Reaches Q l l' root ∧
      ((∀ x ∈ w, x.Direct) → w' = w) := by
  rcases creditFee_eq_ok.mp hok with ⟨rfl, rfl, rfl⟩ | ⟨hfee, x, rfl, hcredit⟩
  · exact ⟨none, l, rfl, ⟨⟨hl, rfl, rfl⟩, rfl, hstrings⟩, fun _ => rfl⟩
  · obtain ⟨l', hcredited, hreaches, hdirect⟩ := credit_follows hQ hl hstrings hsub hcredit
    refine ⟨some (l.witness feeSink), l', ?_, hreaches, ?_⟩
    · simp only [creditFee, if_pos hfee, hcredited, Option.bind_eq_bind, Option.bind_some]
    · intro hx
      rw [hdirect (hx x rfl)]

end Following

/-- The builder made the step the verifier made, for the same transaction and signature. -/
structure Building.Followed (Q : Set Bytes) (b b' : Building) (pair : Transaction × TxnSidecar)
    (r : Replaying) : Prop where
  consistent : b'.ledger.Consistent
  domain : b'.ledger.domain = b.ledger.domain
  strings : b'.ledger.tree.strings ⊆ Q
  replaying : b'.replaying = r
  txns : b'.txns = b.txns ++ [pair.1]
  entries : ∃ entry, b'.entries = b.entries ++ [entry] ∧
    submitted (pair.1, entry) = submitted pair ∧ (pair.2.Direct → entry = pair.2)

section StepRules
variable {b : Building} {l₁ l₂ l₃ : Ledger} {w₁ w₂ : LeafWitness} {w₃ : Option LeafWitness}
  {sig : Signature}

theorem Building.step_payment {p : Payment}
    (hdebit : b.ledger.debit p.header.sender p.amount p.header.fee sig
      (fun nonce => p.bytesToSign b.ledger.domain nonce) = some (w₁, l₁))
    (hcredit : l₁.credit p.receiver p.amount = some (w₂, l₂))
    (hfee : l₂.creditFee p.header.fee = some (w₃, l₃)) :
    b.step (.payment p sig) = some (b.push l₃ [] (.payment p) (.payment ⟨sig, w₁, w₂, w₃⟩)) := by
  simp only [step, hdebit, hcredit, hfee, Option.bind_eq_bind, Option.bind_some]

theorem Building.step_deposit {d : Deposit}
    (hcredit : b.ledger.credit d.receiver d.amount = some (w₁, l₁)) :
    b.step (.deposit d) =
      some (b.push { l₁ with inboxChain := accumulateDeposit l₁.inboxChain d.receiver d.amount } []
        (.deposit d) (.deposit ⟨w₁⟩)) := by
  simp only [step, hcredit, Option.bind_eq_bind, Option.bind_some]

theorem Building.step_withdrawal {w : Withdrawal} (hmin : minWithdrawal ≤ w.amount)
    (hdebit : b.ledger.debit w.header.sender w.amount w.header.fee sig
      (fun nonce => w.bytesToSign b.ledger.domain nonce) = some (w₁, l₁))
    (hfee : l₁.creditFee w.header.fee = some (w₃, l₂)) :
    b.step (.withdrawal w sig) = some (b.push l₂ [(w.recipient, w.amount)] (.withdrawal w)
      (.withdrawal ⟨sig, w₁, w₃⟩)) := by
  simp only [step, if_pos hmin, hdebit, hfee, Option.bind_eq_bind, Option.bind_some]

theorem Building.step_emptied {f : ForcedWithdrawal} {account emptied : Account}
    (haccount : b.ledger.accounts f.address = some account)
    (hmin : minWithdrawal ≤ (b.ledger.accounts f.address).elim 0 Account.amount)
    (hbump : { account with amount := 0 }.bumpNonce = .ok emptied) :
    b.step (.forcedWithdrawal f) = some (b.push
      { b.ledger.insertAccount f.address emptied with
        inboxChain := accumulateRequest b.ledger.inboxChain f.address f.recipient }
      [(f.recipient, account.amount)] (.forcedWithdrawal f)
      (.forcedWithdrawal ⟨b.ledger.witness f.address⟩)) := by
  simp only [haccount, Option.elim_some] at hmin
  simp only [step, haccount, Option.elim_some, if_pos hmin, hbump, Except.toOption,
    Option.bind_eq_bind, Option.bind_some]

theorem Building.step_spared {f : ForcedWithdrawal}
    (hmin : ¬minWithdrawal ≤ (b.ledger.accounts f.address).elim 0 Account.amount) :
    b.step (.forcedWithdrawal f) = some (b.push
      { b.ledger with
        inboxChain := accumulateRequest b.ledger.inboxChain f.address f.recipient } []
      (.forcedWithdrawal f) (.forcedWithdrawal ⟨b.ledger.witness f.address⟩)) := by
  simp only [step]
  rw [if_neg hmin]

end StepRules

section Steps
variable {Q : Set Bytes} (hQ : Ideal Q) {b : Building} (hb : b.ledger.Consistent)
  (hstrings : b.ledger.tree.strings ⊆ Q) {r : Replaying}
include hQ hb hstrings

theorem Building.payment_follows {p : Payment} {e : PaymentSidecar}
    (hsub : txnStrings (.payment p, .payment e) ⊆ Q)
    (hok : verifyTxn b.ledger.domain b.replaying (.payment p, .payment e) = .ok r) :
    ∃ b', b.step (.payment p e.sig) = some b' ∧
      Building.Followed Q b b' (.payment p, .payment e) r := by
  simp only [txnStrings, Set.union_subset_iff] at hsub
  obtain ⟨hsender, hreceiver, hfee⟩ := hsub
  simp only [verifyTxn, replaying, bind_eq_ok, Except.ok.injEq] at hok
  obtain ⟨_, hdebit, _, hcredit, _, hsink, rfl⟩ := hok
  obtain ⟨l₁, h₁, hr₁, hw₁⟩ := debit_follows hQ hb hstrings hsender hdebit
  rw [← hr₁.root] at hcredit
  obtain ⟨l₂, h₂, hr₂, hw₂⟩ := credit_follows hQ hr₁.consistent hr₁.strings hreceiver hcredit
  rw [← hr₂.root] at hsink
  obtain ⟨w, l₃, h₃, hr₃, hw₃⟩ := creditFee_follows hQ hr₂.consistent hr₂.strings hfee hsink
  have hext := (hr₁.toExtends.trans hr₂.toExtends).trans hr₃.toExtends
  refine ⟨_, Building.step_payment h₁ h₂ h₃, hext.consistent, hext.domain,
    hr₃.strings, ?_, rfl, _, rfl, rfl, ?_⟩
  · simp only [replaying, push, List.append_nil, hr₃.root, hext.inboxChain]
  · intro hdirect
    rw [hw₁ (hdirect _ (by simp [TxnSidecar.witnesses])),
      hw₂ (hdirect _ (by simp [TxnSidecar.witnesses])),
      hw₃ (fun x hx => hdirect x (by simp [TxnSidecar.witnesses, Option.mem_def.mp hx]))]

theorem Building.deposit_follows {d : Deposit} {e : DepositSidecar}
    (hsub : txnStrings (.deposit d, .deposit e) ⊆ Q)
    (hok : verifyTxn b.ledger.domain b.replaying (.deposit d, .deposit e) = .ok r) :
    ∃ b', b.step (.deposit d) = some b' ∧ Building.Followed Q b b' (.deposit d, .deposit e) r := by
  simp only [verifyTxn, replaying, bind_eq_ok, Except.ok.injEq] at hok
  obtain ⟨_, hcredit, rfl⟩ := hok
  obtain ⟨l₁, h₁, hr₁, hw₁⟩ := credit_follows hQ hb hstrings hsub hcredit
  refine ⟨_, Building.step_deposit h₁, hr₁.consistent, hr₁.domain, hr₁.strings, ?_,
    rfl, _, rfl, rfl, ?_⟩
  · rw [← hr₁.root, ← hr₁.inboxChain]
    simp only [replaying, push, List.append_nil]
    rfl
  · intro hdirect
    rw [hw₁ (hdirect _ (by simp [TxnSidecar.witnesses]))]

theorem Building.withdrawal_follows {w : Withdrawal} {e : WithdrawalSidecar}
    (hsub : txnStrings (.withdrawal w, .withdrawal e) ⊆ Q)
    (hok : verifyTxn b.ledger.domain b.replaying (.withdrawal w, .withdrawal e) = .ok r) :
    ∃ b', b.step (.withdrawal w e.sig) = some b' ∧
      Building.Followed Q b b' (.withdrawal w, .withdrawal e) r := by
  simp only [txnStrings, Set.union_subset_iff] at hsub
  obtain ⟨hsender, hfee⟩ := hsub
  simp only [verifyTxn, replaying, bind_eq_ok, Except.ok.injEq, require_eq_ok] at hok
  obtain ⟨_, hmin, _, hdebit, _, hsink, rfl⟩ := hok
  obtain ⟨l₁, h₁, hr₁, hw₁⟩ := debit_follows hQ hb hstrings hsender hdebit
  rw [← hr₁.root] at hsink
  obtain ⟨w', l₂, h₂, hr₂, hw₂⟩ := creditFee_follows hQ hr₁.consistent hr₁.strings hfee hsink
  have hext := hr₁.toExtends.trans hr₂.toExtends
  refine ⟨_, Building.step_withdrawal hmin h₁ h₂, hext.consistent, hext.domain,
    hr₂.strings, ?_, rfl, _, rfl, rfl, ?_⟩
  · simp only [replaying, push, hr₂.root, hext.inboxChain]
  · intro hdirect
    rw [hw₁ (hdirect _ (by simp [TxnSidecar.witnesses])),
      hw₂ (fun x hx => hdirect x (by simp [TxnSidecar.witnesses, Option.mem_def.mp hx]))]

theorem Building.forced_follows {f : ForcedWithdrawal} {e : ForcedWithdrawalSidecar}
    (hsub : txnStrings (.forcedWithdrawal f, .forcedWithdrawal e) ⊆ Q)
    (hok : verifyTxn b.ledger.domain b.replaying (.forcedWithdrawal f, .forcedWithdrawal e) =
      .ok r) :
    ∃ b', b.step (.forcedWithdrawal f) = some b' ∧
      Building.Followed Q b b' (.forcedWithdrawal f, .forcedWithdrawal e) r := by
  simp only [verifyTxn, replaying, bind_eq_ok, expectPreState_eq_ok] at hok
  obtain ⟨_, hpre, hok⟩ := hok
  obtain ⟨hold, hw⟩ := witness_sound hQ hb hstrings hsub hpre
  have hentry : TxnSidecar.Direct (.forcedWithdrawal e) →
      TxnSidecar.forcedWithdrawal ⟨b.ledger.witness f.address⟩ = .forcedWithdrawal e := by
    intro hdirect
    rw [hw (hdirect _ (by simp [TxnSidecar.witnesses]))]
  rw [hold] at hok
  split_ifs at hok with hmin
  · simp only [bind_eq_ok, demand_eq_ok, Account.bumpNonce_eq_ok, rootWith_eq_ok,
      Except.ok.injEq] at hok
    obtain ⟨account, haccount, _, ⟨nonce, hnonce, rfl⟩, root, hroot, rfl⟩ := hok
    have hbump : { account with amount := 0 }.bumpNonce =
        .ok { account with amount := 0, nonce } :=
      Account.bumpNonce_eq_ok.mpr ⟨nonce, hnonce, rfl⟩
    have hempty : account.emptied = some ⟨nonce, 0, account.authAddress⟩ :=
      Account.emptied_eq_some.mpr ⟨nonce, hnonce, rfl⟩
    simp only [txnStrings, hold, haccount, Option.bind_some, hempty] at hsub
    have hreaches := reaches_insertAccount hQ hb hstrings hsub hpre hroot
    refine ⟨_, Building.step_emptied haccount hmin hbump, hreaches.consistent,
      hreaches.domain, hreaches.strings, ?_, rfl, _, rfl, rfl, hentry⟩
    rw [← hreaches.root, haccount]
    rfl
  · cases hok
    refine ⟨_, Building.step_spared hmin, hb, rfl, hstrings, ?_, rfl, _, rfl, rfl,
      hentry⟩
    simp only [replaying, push, List.append_nil]
    rfl

theorem Building.step_follows {txn : Transaction} {entry : TxnSidecar}
    (hsub : txnStrings (txn, entry) ⊆ Q)
    (hok : verifyTxn b.ledger.domain b.replaying (txn, entry) = .ok r) :
    ∃ stxn b', submitted (txn, entry) = some stxn ∧ b.step stxn = some b' ∧
      Building.Followed Q b b' (txn, entry) r := by
  cases txn with
  | payment p =>
    cases entry with
    | payment e =>
      obtain ⟨b', hstep, hfollowed⟩ := Building.payment_follows hQ hb hstrings hsub hok
      exact ⟨_, b', rfl, hstep, hfollowed⟩
    | _ => cases hok
  | deposit d =>
    cases entry with
    | deposit e =>
      obtain ⟨b', hstep, hfollowed⟩ := Building.deposit_follows hQ hb hstrings hsub hok
      exact ⟨_, b', rfl, hstep, hfollowed⟩
    | _ => cases hok
  | withdrawal w =>
    cases entry with
    | withdrawal e =>
      obtain ⟨b', hstep, hfollowed⟩ := Building.withdrawal_follows hQ hb hstrings hsub hok
      exact ⟨_, b', rfl, hstep, hfollowed⟩
    | _ => cases hok
  | forcedWithdrawal f =>
    cases entry with
    | forcedWithdrawal e =>
      obtain ⟨b', hstep, hfollowed⟩ := Building.forced_follows hQ hb hstrings hsub hok
      exact ⟨_, b', rfl, hstep, hfollowed⟩
    | _ => cases hok

end Steps

section Runs
variable {Q : Set Bytes} (hQ : Ideal Q)
include hQ

theorem Building.run_follows {b : Building} (hb : b.ledger.Consistent)
    (hstrings : b.ledger.tree.strings ⊆ Q) {pairs : List (Transaction × TxnSidecar)}
    {r : Replaying} (hsub : ∀ pair ∈ pairs, txnStrings pair ⊆ Q)
    (hok : pairs.foldlM (verifyTxn b.ledger.domain) b.replaying = .ok r) :
    ∃ b' pairs', (pairs.filterMap submitted).foldlM Building.step b = some b' ∧
      b'.replaying = r ∧ b'.ledger.tree.strings ⊆ Q ∧ List.Forall₂ Restated pairs pairs' ∧
      b'.txns = b.txns ++ pairs'.map Prod.fst ∧ b'.entries = b.entries ++ pairs'.map Prod.snd := by
  induction pairs generalizing b with
  | nil =>
    cases hok
    exact ⟨b, [], rfl, rfl, hstrings, .nil, (List.append_nil _).symm, (List.append_nil _).symm⟩
  | cons pair rest ih =>
    obtain ⟨hpair, hrest⟩ := List.forall_mem_cons.mp hsub
    simp only [List.foldlM_cons, bind_eq_ok] at hok
    obtain ⟨r₁, hstep, hlater⟩ := hok
    obtain ⟨stxn, b₁, hstxn, hb₁, hfollowed⟩ := step_follows hQ hb hstrings hpair hstep
    obtain ⟨entry, hentry, hsubmitted, hdirect⟩ := hfollowed.entries
    rw [← hfollowed.domain, ← hfollowed.replaying] at hlater
    obtain ⟨b', pairs', hrun, hreplaying, htree, hall, htxns, hentries⟩ :=
      ih hfollowed.consistent hfollowed.strings hrest hlater
    refine ⟨b', (pair.1, entry) :: pairs', ?_, hreplaying, htree,
      .cons ⟨rfl, hsubmitted, hdirect⟩ hall, ?_, ?_⟩
    · rw [List.filterMap_cons_some hstxn, List.foldlM_cons, hb₁]
      exact hrun
    · rw [htxns, hfollowed.txns, List.append_assoc]
      rfl
    · rw [hentries, hentry, List.append_assoc]
      rfl

theorem follows {l : Ledger} (hl : l.Consistent) (hstrings : l.tree.strings ⊆ Q) {batch : Batch}
    {sidecar : Sidecar} (hsub : batchStrings batch sidecar ⊆ Q) {root inbox wchain : Word}
    (hok : verifyBatch l.domain l.stateRoot l.inboxChain batch sidecar =
      .ok (root, inbox, wchain)) :
    ∃ sidecar' l', l.getBlock (submissions batch sidecar) =
        some (⟨l.domain, l.stateRoot, root, l.inboxChain, inbox, wchain, batch, sidecar'⟩, l') ∧
      l'.tree.strings ⊆ Q ∧ submissions batch sidecar' = submissions batch sidecar ∧
      (sidecar.Direct → sidecar' = sidecar) := by
  simp only [verifyBatch, bind_eq_ok, require_eq_ok, Except.ok.injEq, Prod.mk.injEq] at hok
  obtain ⟨_, hlen, r, hloop, rfl, rfl, rfl⟩ := hok
  obtain ⟨b, pairs, hrun, rfl, htree, hall, htxns, hentries⟩ :=
    Building.run_follows hQ (b := ⟨l, [], [], []⟩) hl hstrings
      (fun pair hpair _ hx => hsub ⟨pair, hpair, hx⟩) hloop
  have hbatch : b.txns = batch.txns := by
    rw [htxns, List.nil_append, Restated.txns hall, List.map_fst_zip hlen.le]
  have hpairs : batch.txns.zip b.entries = pairs := by
    rw [← hbatch, htxns, hentries, List.nil_append, List.nil_append]
    exact (List.zip_of_prod rfl rfl).symm
  refine ⟨⟨b.entries⟩, b.ledger, ?_, htree, ?_, ?_⟩
  · have hdomain : b.ledger.domain = l.domain := ((built_start hl).run hrun).domain
    simp only [getBlock, submissions, hrun, Option.bind_eq_bind, Option.bind_some, hdomain, hbatch]
    rfl
  · rw [submissions, hpairs]
    exact Restated.submissions hall
  · intro hdirect
    have hsnd := Restated.entries hall fun pair hpair => hdirect _ (List.of_mem_zip hpair).2
    rw [hentries, hsnd, List.nil_append, List.map_snd_zip hlen.ge]

end Runs

/-- A ledger that has only ever built blocks, with the blocks in order. -/
inductive Grown (domain : DeploymentDomain) : List Block → Ledger → Prop
  | new : Grown domain [] (withDomain domain)
  | getBlock {blocks : List Block} {l l' : Ledger} {block : Block} (h : Grown domain blocks l)
      (stxns : List SignedTransaction) (hblock : l.getBlock stxns = some (block, l')) :
      Grown domain (blocks ++ [block]) l'

theorem Grown.reached {domain : DeploymentDomain} {blocks : List Block} {l : Ledger}
    (h : Grown domain blocks l) : Reached domain l := by
  induction h with
  | new => exact .new
  | getBlock _ stxns hblock ih => exact ih.getBlock stxns hblock

end Ledger

/-- From where a sequencer stands, a batch verifies with exactly the words its own block would
have. Whatever witnesses it was proved with, the transactions and signatures alone make that
block; and direct witnesses verify if and only if they are the ones it makes. -/
theorem sequencer_builds_what_verifies {domain : DeploymentDomain} {l : Ledger}
    (hl : Ledger.Reached domain l) {batch : Batch} {sidecar : Sidecar}
    (hideal : Ideal (l.tree.strings ∪ batchStrings batch sidecar)) (root inbox wchain : Word) :
    (verifyBatch domain l.stateRoot l.inboxChain batch sidecar = .ok (root, inbox, wchain) →
      ∃ sidecar' l', l.getBlock (submissions batch sidecar) =
          some (⟨domain, l.stateRoot, root, l.inboxChain, inbox, wchain, batch, sidecar'⟩, l') ∧
        submissions batch sidecar' = submissions batch sidecar) ∧
    (sidecar.Direct →
      (verifyBatch domain l.stateRoot l.inboxChain batch sidecar = .ok (root, inbox, wchain) ↔
        ∃ l', l.getBlock (submissions batch sidecar) =
          some (⟨domain, l.stateRoot, root, l.inboxChain, inbox, wchain, batch, sidecar⟩,
            l'))) := by
  obtain ⟨hconsistent, rfl⟩ := hl.consistent
  constructor
  · intro hok
    obtain ⟨sidecar', l', hblock, -, hsubmitted, -⟩ :=
      Ledger.follows hideal hconsistent Set.subset_union_left Set.subset_union_right hok
    exact ⟨sidecar', l', hblock, hsubmitted⟩
  · intro hdirect
    constructor
    · intro hok
      obtain ⟨sidecar', l', hblock, -, -, hsame⟩ :=
        Ledger.follows hideal hconsistent Set.subset_union_left Set.subset_union_right hok
      obtain rfl := hsame hdirect
      exact ⟨l', hblock⟩
    · rintro ⟨l', hblock⟩
      exact (Ledger.getBlock_proves hconsistent hblock).verified

end Writes

section Sample
attribute [local instance] Crypto.unsigned

theorem sampleSidecar_direct : sampleSidecar.Direct := by
  intro entry hentry w hw
  simp only [sampleSidecar, List.mem_cons, List.not_mem_nil, or_false] at hentry
  rcases hentry with rfl | rfl
  · obtain rfl := List.mem_singleton.mp hw
    exact fun _ => rfl
  · obtain rfl := List.mem_singleton.mp hw
    exact fun _ => rfl

theorem sampleBatch_rebuilt : ∃ l',
    (Ledger.withDomain Word.zero).getBlock (submissions sampleBatch sampleSidecar) =
      some (⟨Word.zero, (Ledger.withDomain Word.zero).stateRoot,
        leafHash sampleAddress ⟨1, 50000, sampleAddress⟩,
        (Ledger.withDomain Word.zero).inboxChain,
        accumulateDeposit Word.zero sampleAddress 300000,
        withdrawalChain Word.zero [(sampleAccount 5, 250000)], sampleBatch, sampleSidecar⟩,
        l') := by
  have hideal := sampleLeaves_ideal.mono sampleLeaves_subset
  rw [treeOf_none] at hideal
  exact ((sequencer_builds_what_verifies .new hideal _ _ _).2 sampleSidecar_direct).mp
    sampleBatch_verifies

end Sample

end PaymentRollup
