import PaymentRollup.Rollup.ChainProofs
import PaymentRollup.Rollup.MerkleWitness
import PaymentRollup.Rollup.Replay
import PaymentRollup.Rollup.Verify

/-! # Whatever the sidecar, an accepted batch is its replay

Every write is pinned by the root it starts from: the claimed account is the one the map
holds, and the next root is the root of the written map. The batch then follows by
induction, one write at a time, with no case for addresses that coincide.
-/
namespace PaymentRollup

section Inversion
variable [Crypto]

theorem rootWith_eq_ok {address : Address} {account : Option Account} {proof : MerkleProof}
    {root : Word} : rootWith address account proof = .ok root ↔
      rootFromProof address account proof = some root := demand_eq_ok

theorem expectPreState_eq_ok {address : Address} {witness : LeafWitness} {root : Word}
    {u : Unit} : expectPreState address witness root = .ok u ↔
      rootFromProof address witness.oldAccount witness.proof = some root := by
  simp [expectPreState, rootWith_eq_ok]

theorem debit_eq_ok {sender : Address} {witness : LeafWitness} {sig : Signature}
    {amount fee : UInt64} {root root' : Word} {message : UInt64 → Bytes} :
    debit sender witness sig amount fee root message = .ok root' ↔
      rootFromProof sender witness.oldAccount witness.proof = some root ∧
      ∃ account post, witness.oldAccount = some account ∧
        account.debited amount fee = some post ∧
        sig.verify { account with nonce := post.nonce } (message post.nonce) = .ok () ∧
        rootFromProof sender (some post) witness.proof = some root' := by
  simp only [debit, bind_eq_ok, expectPreState_eq_ok, demand_eq_ok, rootWith_eq_ok,
    Account.bumpNonce_eq_ok, Account.debited_eq_some]
  constructor
  · rintro ⟨_, hpre, account, haccount, _, ⟨nonce, hnonce, rfl⟩, _, hsig, balance, hbalance, hroot⟩
    exact ⟨hpre, account, _, haccount, ⟨nonce, balance, hnonce, hbalance, rfl⟩, hsig, hroot⟩
  · rintro ⟨hpre, account, _, haccount, ⟨nonce, balance, hnonce, hbalance, rfl⟩, hsig, hroot⟩
    exact ⟨(), hpre, account, haccount, _, ⟨nonce, hnonce, rfl⟩, (), hsig, balance, hbalance, hroot⟩

theorem credit_eq_ok {receiver : Address} {witness : LeafWitness} {amount : UInt64}
    {root root' : Word} : credit receiver witness amount root = .ok root' ↔
      rootFromProof receiver witness.oldAccount witness.proof = some root ∧
      ∃ post, (witness.oldAccount.getD (Account.empty receiver)).credited amount = some post ∧
        rootFromProof receiver (some post) witness.proof = some root' := by
  simp only [credit, bind_eq_ok, expectPreState_eq_ok, demand_eq_ok, rootWith_eq_ok,
    Account.credited_eq_some]
  constructor
  · rintro ⟨_, hpre, balance, hbalance, hroot⟩
    exact ⟨hpre, _, ⟨balance, hbalance, rfl⟩, hroot⟩
  · rintro ⟨hpre, _, ⟨balance, hbalance, rfl⟩, hroot⟩
    exact ⟨(), hpre, balance, hbalance, hroot⟩

theorem creditFee_eq_ok {fee : UInt64} {witness : Option LeafWitness} {root root' : Word} :
    creditFee fee witness root = .ok root' ↔
      (fee = 0 ∧ witness = none ∧ root' = root) ∨
      (fee ≠ 0 ∧ ∃ w, witness = some w ∧ credit feeSink w fee root = .ok root') := by
  cases witness with
  | none =>
    by_cases hfee : fee = 0
    · simp [creditFee, hfee, eq_comm]
    · simp [creditFee, hfee]
  | some w =>
    by_cases hfee : fee = 0
    · simp [creditFee, hfee]
    · simp [creditFee, hfee]

omit [Crypto] in
theorem paidOut_cons (pair : Transaction × TxnSidecar) (rest : List (Transaction × TxnSidecar)) :
    paidOut (pair :: rest) = paidOut [pair] ++ paidOut rest := by
  simp only [paidOut, List.filterMap_cons, List.filterMap_nil]
  split <;> rfl

/-- A transaction queues the payout that is later read back out of it, and folds the inbox item it
stands for; neither depends on its witnesses. -/
theorem verifyTxn_records {domain : DeploymentDomain} {r r' : Replaying}
    {pair : Transaction × TxnSidecar} (hok : verifyTxn domain r pair = .ok r') :
    r'.payouts = r.payouts ++ paidOut [pair] ∧
      r'.inboxChain = foldInbox r.inboxChain (inboxItems [pair.1]) := by
  rcases pair with ⟨txn, entry⟩
  cases txn with
  | payment p =>
    cases entry with
    | payment e =>
      simp only [verifyTxn, bind_eq_ok, Except.ok.injEq] at hok
      obtain ⟨_, -, _, -, _, -, rfl⟩ := hok
      exact ⟨(List.append_nil _).symm, rfl⟩
    | _ => cases hok
  | deposit d =>
    cases entry with
    | deposit e =>
      simp only [verifyTxn, bind_eq_ok, Except.ok.injEq] at hok
      obtain ⟨_, -, rfl⟩ := hok
      exact ⟨(List.append_nil _).symm, rfl⟩
    | _ => cases hok
  | withdrawal w =>
    cases entry with
    | withdrawal e =>
      simp only [verifyTxn, bind_eq_ok, Except.ok.injEq] at hok
      obtain ⟨_, -, _, -, _, -, rfl⟩ := hok
      exact ⟨rfl, rfl⟩
    | _ => cases hok
  | forcedWithdrawal f =>
    cases entry with
    | forcedWithdrawal e =>
      simp only [verifyTxn, bind_eq_ok] at hok
      obtain ⟨_, -, hok⟩ := hok
      split_ifs at hok with hpaid
      · simp only [bind_eq_ok, Except.ok.injEq] at hok
        obtain ⟨_, -, _, -, _, -, rfl⟩ := hok
        exact ⟨by simp [paidOut, hpaid], rfl⟩
      · cases hok
        exact ⟨by simp [paidOut, hpaid], rfl⟩
    | _ => cases hok

theorem verifyTxns_records {domain : DeploymentDomain} {r r' : Replaying}
    {pairs : List (Transaction × TxnSidecar)}
    (hok : pairs.foldlM (verifyTxn domain) r = .ok r') :
    r'.payouts = r.payouts ++ paidOut pairs ∧
      r'.inboxChain = foldInbox r.inboxChain (inboxItems (pairs.map Prod.fst)) := by
  induction pairs generalizing r with
  | nil =>
    cases hok
    exact ⟨(List.append_nil _).symm, rfl⟩
  | cons pair rest ih =>
    simp only [List.foldlM_cons, bind_eq_ok] at hok
    obtain ⟨r₁, hstep, hrest⟩ := hok
    obtain ⟨hpaid, hfolded⟩ := verifyTxn_records hstep
    obtain ⟨hlater, hchain⟩ := ih hrest
    constructor
    · rw [hlater, hpaid, List.append_assoc, ← paidOut_cons]
    · rw [hchain, hfolded, ← foldInbox_append, ← inboxItems_append, List.map_cons,
        List.singleton_append]

theorem verifyTxns_payouts {domain : DeploymentDomain} {r r' : Replaying}
    {pairs : List (Transaction × TxnSidecar)}
    (hok : pairs.foldlM (verifyTxn domain) r = .ok r') :
    r'.payouts = r.payouts ++ paidOut pairs :=
  (verifyTxns_records hok).1

theorem verifyBatch_payouts {domain : DeploymentDomain}
    {oldRoot anchor newRoot inbox wchain : Word} {batch : Batch} {sidecar : Sidecar}
    (hok : verifyBatch domain oldRoot anchor batch sidecar = .ok (newRoot, inbox, wchain)) :
    wchain = withdrawalChain domain (withdrawalPayouts batch sidecar) := by
  simp only [verifyBatch, bind_eq_ok, require_eq_ok, Except.ok.injEq, Prod.mk.injEq] at hok
  obtain ⟨_, -, r, hloop, -, -, rfl⟩ := hok
  rw [verifyTxns_payouts hloop]
  rfl

theorem verifyBatch_inbox {domain : DeploymentDomain} {oldRoot anchor newRoot inbox wchain : Word}
    {batch : Batch} {sidecar : Sidecar}
    (hok : verifyBatch domain oldRoot anchor batch sidecar = .ok (newRoot, inbox, wchain)) :
    inbox = foldInbox anchor (inboxItems batch.txns) := by
  simp only [verifyBatch, bind_eq_ok, require_eq_ok, Except.ok.injEq, Prod.mk.injEq] at hok
  obtain ⟨_, hlen, r, hloop, -, rfl, -⟩ := hok
  have hchain := (verifyTxns_records hloop).2
  rwa [List.map_fst_zip hlen.le] at hchain

end Inversion

section Strings
variable [Crypto]

/-- The strings hashed in checking one write and computing the root after it. -/
def writeStrings (address : Address) (witness : LeafWitness) (post : Option Account) :
    Set Bytes :=
  rootStrings address witness.oldAccount witness.proof ∪
    {string | ∃ account, post = some account ∧
      string ∈ rootStrings address (some account) witness.proof}

def debitStrings (sender : Address) (witness : LeafWitness) (amount fee : UInt64) : Set Bytes :=
  writeStrings sender witness (witness.oldAccount.bind fun account => account.debited amount fee)

def creditStrings (receiver : Address) (witness : LeafWitness) (amount : UInt64) : Set Bytes :=
  writeStrings receiver witness
    ((witness.oldAccount.getD (Account.empty receiver)).credited amount)

def feeStrings (fee : UInt64) : Option LeafWitness → Set Bytes
  | none => ∅
  | some witness => creditStrings feeSink witness fee

/-- The tree nodes and leaves hashed in replaying one transaction. -/
def txnStrings : Transaction × TxnSidecar → Set Bytes
  | (.payment payment, .payment entry) =>
    debitStrings payment.header.sender entry.senderWitness payment.amount payment.header.fee ∪
      (creditStrings payment.receiver entry.receiverWitness payment.amount ∪
        feeStrings payment.header.fee entry.feeSinkWitness)
  | (.deposit deposit, .deposit entry) =>
    creditStrings deposit.receiver entry.receiverWitness deposit.amount
  | (.withdrawal withdrawal, .withdrawal entry) =>
    debitStrings withdrawal.header.sender entry.senderWitness withdrawal.amount
        withdrawal.header.fee ∪
      feeStrings withdrawal.header.fee entry.feeSinkWitness
  | (.forcedWithdrawal forced, .forcedWithdrawal entry) =>
    writeStrings forced.address entry.senderWitness
      (entry.senderWitness.oldAccount.bind Account.emptied)
  | _ => ∅

def batchStrings (batch : Batch) (sidecar : Sidecar) : Set Bytes :=
  {string | ∃ pair ∈ batch.txns.zip sidecar.entries, string ∈ txnStrings pair}

theorem writeStrings_subset {address : Address} {witness : LeafWitness} {post : Account}
    {Q : Set Bytes} (h : writeStrings address witness (some post) ⊆ Q) :
    rootStrings address witness.oldAccount witness.proof ⊆ Q ∧
      rootStrings address (some post) witness.proof ⊆ Q :=
  ⟨fun _ hx => h (Or.inl hx), fun _ hx => h (Or.inr ⟨post, rfl, hx⟩)⟩

end Strings

section Soundness
variable [Crypto] {Q : Set Bytes} (hQ : Ideal Q)
include hQ

/-- A root that a witness reproduces reveals the account the map holds. -/
theorem pre_sound {S : AccountMap} (hS : (treeOf S).strings ⊆ Q) {address : Address}
    {witness : LeafWitness} {post : Option Account}
    (hsub : writeStrings address witness post ⊆ Q)
    (hpre : rootFromProof address witness.oldAccount witness.proof = some (treeOf S).root) :
    witness.oldAccount = S address ∧ Pins S address witness.proof :=
  pins_of_root hQ hS (fun _ hx => hsub (Or.inl hx)) hpre

theorem write_sound {S : AccountMap} (hS : (treeOf S).strings ⊆ Q) {address : Address}
    {witness : LeafWitness} {post : Account} {root' : Word}
    (hsub : writeStrings address witness (some post) ⊆ Q)
    (hpre : rootFromProof address witness.oldAccount witness.proof = some (treeOf S).root)
    (hpost : rootFromProof address (some post) witness.proof = some root') :
    root' = (treeOf (Function.update S address (some post))).root ∧
      (treeOf (Function.update S address (some post))).strings ⊆ Q := by
  obtain ⟨-, hpins⟩ := pre_sound hQ hS hsub hpre
  refine ⟨?_, hpins.strings_write post hS (writeStrings_subset hsub).2⟩
  rw [hpins.root_write post] at hpost
  exact (Option.some.inj hpost).symm

theorem debit_sound {S : AccountMap} (hS : (treeOf S).strings ⊆ Q) {sender : Address}
    {witness : LeafWitness} {sig : Signature} {amount fee : UInt64} {root' : Word}
    {message : UInt64 → Bytes} (hsub : debitStrings sender witness amount fee ⊆ Q)
    (hok : debit sender witness sig amount fee (treeOf S).root message = .ok root') :
    ∃ S', Replay.debit S sender amount fee = some S' ∧ root' = (treeOf S').root ∧
      (treeOf S').strings ⊆ Q := by
  obtain ⟨hpre, account, post, hold, hpost, -, hroot⟩ := debit_eq_ok.mp hok
  unfold debitStrings at hsub
  simp only [hold, Option.bind_some, hpost] at hsub
  have hS' := (pre_sound hQ hS hsub hpre).1
  obtain ⟨hroot', hstrings⟩ := write_sound hQ hS hsub hpre hroot
  refine ⟨_, ?_, hroot', hstrings⟩
  simp [Replay.debit, ← hS', hold, hpost]

theorem credit_sound {S : AccountMap} (hS : (treeOf S).strings ⊆ Q) {receiver : Address}
    {witness : LeafWitness} {amount : UInt64} {root' : Word}
    (hsub : creditStrings receiver witness amount ⊆ Q)
    (hok : credit receiver witness amount (treeOf S).root = .ok root') :
    ∃ S', Replay.credit S receiver amount = some S' ∧ root' = (treeOf S').root ∧
      (treeOf S').strings ⊆ Q := by
  obtain ⟨hpre, post, hpost, hroot⟩ := credit_eq_ok.mp hok
  unfold creditStrings at hsub
  simp only [hpost] at hsub
  have hS' := (pre_sound hQ hS hsub hpre).1
  obtain ⟨hroot', hstrings⟩ := write_sound hQ hS hsub hpre hroot
  refine ⟨_, ?_, hroot', hstrings⟩
  simp [Replay.credit, ← hS', hpost]

theorem creditFee_sound {S : AccountMap} (hS : (treeOf S).strings ⊆ Q) {fee : UInt64}
    {witness : Option LeafWitness} {root' : Word} (hsub : feeStrings fee witness ⊆ Q)
    (hok : creditFee fee witness (treeOf S).root = .ok root') :
    ∃ S', Replay.creditFee S fee = some S' ∧ root' = (treeOf S').root ∧
      (treeOf S').strings ⊆ Q := by
  rcases creditFee_eq_ok.mp hok with ⟨hfee, -, rfl⟩ | ⟨hfee, w, rfl, hcredit⟩
  · exact ⟨S, by simp [Replay.creditFee, hfee], rfl, hS⟩
  · obtain ⟨S', hS', hroot, hstrings⟩ := credit_sound hQ hS hsub hcredit
    exact ⟨S', by simp [Replay.creditFee, hfee, hS'], hroot, hstrings⟩

theorem forced_sound {S : AccountMap} (hS : (treeOf S).strings ⊆ Q)
    {domain : DeploymentDomain} {r r' : Replaying} {f : ForcedWithdrawal} {e : ForcedWithdrawalSidecar}
    (hroot : r.root = (treeOf S).root)
    (hsub : txnStrings (.forcedWithdrawal f, .forcedWithdrawal e) ⊆ Q)
    (hok : verifyTxn domain r (.forcedWithdrawal f, .forcedWithdrawal e) = .ok r') :
    ∃ S' paid, Replay.step S (.forcedWithdrawal f) = some (S', paid) ∧
      r'.root = (treeOf S').root ∧ (treeOf S').strings ⊆ Q ∧ r'.payouts = r.payouts ++ paid ∧
      r'.inboxChain = foldInbox r.inboxChain (inboxItems [.forcedWithdrawal f]) := by
  simp only [verifyTxn, bind_eq_ok, expectPreState_eq_ok, hroot] at hok
  obtain ⟨_, hpre, hok⟩ := hok
  obtain ⟨hold, -⟩ := pre_sound hQ hS hsub hpre
  cases haccount : S f.address with
  | none =>
    have hzero : ¬minWithdrawal ≤ 0 := by decide
    simp only [hold, haccount, Option.elim, hzero, ↓reduceIte, Except.ok.injEq] at hok
    subst hok
    exact ⟨S, [], by simp [Replay.step, Replay.force, haccount], rfl, hS,
      (List.append_nil _).symm, rfl⟩
  | some account =>
    simp only [hold, haccount, Option.elim] at hok
    by_cases hmin : minWithdrawal ≤ account.amount
    · simp only [hmin, ↓reduceIte, bind_eq_ok, demand_eq_ok, Option.some.injEq,
        Account.bumpNonce_eq_ok, rootWith_eq_ok, Except.ok.injEq] at hok
      obtain ⟨_, rfl, _, ⟨nonce, hnonce, rfl⟩, root', hpost, rfl⟩ := hok
      have hempty : account.emptied = some ⟨nonce, 0, account.authAddress⟩ :=
        Account.emptied_eq_some.mpr ⟨nonce, hnonce, rfl⟩
      simp only [txnStrings, hold, haccount, Option.bind_some, hempty] at hsub
      obtain ⟨hroot', hstrings⟩ := write_sound hQ hS hsub hpre hpost
      exact ⟨_, _, by simp [Replay.step, Replay.force, haccount, hmin, hempty], hroot',
        hstrings, rfl, rfl⟩
    · simp only [hmin, ↓reduceIte, Except.ok.injEq] at hok
      subst hok
      exact ⟨S, [], by simp [Replay.step, Replay.force, haccount, hmin], rfl, hS,
        (List.append_nil _).symm, rfl⟩

/-- One transaction, from any accounts: the new root, inbox chain and payouts are those of
the replay. -/
theorem verifyTxn_sound {S : AccountMap} (hS : (treeOf S).strings ⊆ Q)
    {domain : DeploymentDomain} {r r' : Replaying} {txn : Transaction} {entry : TxnSidecar}
    (hroot : r.root = (treeOf S).root) (hsub : txnStrings (txn, entry) ⊆ Q)
    (hok : verifyTxn domain r (txn, entry) = .ok r') :
    ∃ S' paid, Replay.step S txn = some (S', paid) ∧ r'.root = (treeOf S').root ∧
      (treeOf S').strings ⊆ Q ∧ r'.payouts = r.payouts ++ paid ∧
      r'.inboxChain = foldInbox r.inboxChain (inboxItems [txn]) := by
  cases txn with
  | payment p =>
    cases entry with
    | payment e =>
      simp only [txnStrings, Set.union_subset_iff] at hsub
      obtain ⟨hsender, hreceiver, hfee⟩ := hsub
      simp only [verifyTxn, bind_eq_ok, hroot, Except.ok.injEq] at hok
      obtain ⟨_, hdebit, _, hcredit, _, hsink, rfl⟩ := hok
      obtain ⟨S₁, h₁, rfl, hS₁⟩ := debit_sound hQ hS hsender hdebit
      obtain ⟨S₂, h₂, rfl, hS₂⟩ := credit_sound hQ hS₁ hreceiver hcredit
      obtain ⟨S₃, h₃, rfl, hS₃⟩ := creditFee_sound hQ hS₂ hfee hsink
      exact ⟨S₃, [], by simp [Replay.step, h₁, h₂, h₃], rfl, hS₃, (List.append_nil _).symm, rfl⟩
    | deposit e => cases hok
    | withdrawal e => cases hok
    | forcedWithdrawal e => cases hok
  | deposit d =>
    cases entry with
    | deposit e =>
      simp only [verifyTxn, bind_eq_ok, hroot, Except.ok.injEq] at hok
      obtain ⟨_, hcredit, rfl⟩ := hok
      obtain ⟨S₁, h₁, rfl, hS₁⟩ := credit_sound hQ hS hsub hcredit
      exact ⟨S₁, [], by simp [Replay.step, h₁], rfl, hS₁, (List.append_nil _).symm, rfl⟩
    | payment e => cases hok
    | withdrawal e => cases hok
    | forcedWithdrawal e => cases hok
  | withdrawal w =>
    cases entry with
    | withdrawal e =>
      simp only [txnStrings, Set.union_subset_iff] at hsub
      obtain ⟨hsender, hfee⟩ := hsub
      simp only [verifyTxn, bind_eq_ok, hroot, Except.ok.injEq, require_eq_ok] at hok
      obtain ⟨_, hmin, _, hdebit, _, hsink, rfl⟩ := hok
      obtain ⟨S₁, h₁, rfl, hS₁⟩ := debit_sound hQ hS hsender hdebit
      obtain ⟨S₂, h₂, rfl, hS₂⟩ := creditFee_sound hQ hS₁ hfee hsink
      exact ⟨S₂, _, by simp [Replay.step, hmin, h₁, h₂], rfl, hS₂, rfl, rfl⟩
    | payment e => cases hok
    | deposit e => cases hok
    | forcedWithdrawal e => cases hok
  | forcedWithdrawal f =>
    cases entry with
    | forcedWithdrawal e =>
      exact forced_sound hQ hS hroot hsub hok
    | payment e => cases hok
    | deposit e => cases hok
    | withdrawal e => cases hok

theorem verifyTxns_sound {S : AccountMap} (hS : (treeOf S).strings ⊆ Q)
    {domain : DeploymentDomain} {r r' : Replaying} {txns : List Transaction}
    {entries : List TxnSidecar} (hlen : txns.length = entries.length)
    (hroot : r.root = (treeOf S).root)
    (hsub : ∀ pair ∈ txns.zip entries, txnStrings pair ⊆ Q)
    (hok : (txns.zip entries).foldlM (verifyTxn domain) r = .ok r') :
    ∃ S' paid, replay S txns = some (S', paid) ∧ r'.root = (treeOf S').root ∧
      (treeOf S').strings ⊆ Q ∧ r'.payouts = r.payouts ++ paid ∧
      r'.inboxChain = foldInbox r.inboxChain (inboxItems txns) := by
  induction txns generalizing S r entries with
  | nil =>
    cases hok
    exact ⟨S, [], rfl, hroot, hS, (List.append_nil _).symm, rfl⟩
  | cons txn rest ih =>
    cases entries with
    | nil => cases hlen
    | cons entry entries =>
      simp only [List.zip_cons_cons, List.foldlM_cons, bind_eq_ok] at hok
      obtain ⟨r₁, hstep, hrest⟩ := hok
      obtain ⟨S₁, paid, hS₁, hroot₁, hstrings, hpaid, hinbox⟩ :=
        verifyTxn_sound hQ hS hroot (hsub _ (by simp)) hstep
      obtain ⟨S₂, later, hS₂, hroot₂, hstrings₂, hlater, hinbox₂⟩ :=
        ih hstrings (Nat.succ_injective hlen) hroot₁
          (fun pair hpair => hsub pair (List.mem_cons_of_mem _ hpair)) hrest
      refine ⟨S₂, paid ++ later, replay_cons_eq_some.mpr ⟨S₁, paid, later, hS₁, hS₂, rfl⟩, hroot₂,
        hstrings₂, by rw [hlater, hpaid, List.append_assoc], ?_⟩
      rw [hinbox₂, hinbox, ← foldInbox_append, ← inboxItems_append, List.singleton_append]

theorem verifyBatch_sound {S : AccountMap} (hS : (treeOf S).strings ⊆ Q)
    {domain : DeploymentDomain} {anchor newRoot inbox wchain : Word} {batch : Batch}
    {sidecar : Sidecar} (hsub : batchStrings batch sidecar ⊆ Q)
    (hok : verifyBatch domain (treeOf S).root anchor batch sidecar = .ok (newRoot, inbox, wchain)) :
    ∃ S', replay S batch.txns = some (S', withdrawalPayouts batch sidecar) ∧
      newRoot = (treeOf S').root ∧ (treeOf S').strings ⊆ Q ∧
      inbox = foldInbox anchor (inboxItems batch.txns) ∧
      wchain = withdrawalChain domain (withdrawalPayouts batch sidecar) := by
  have hwchain := verifyBatch_payouts hok
  simp only [verifyBatch, bind_eq_ok, require_eq_ok, Except.ok.injEq, Prod.mk.injEq] at hok
  obtain ⟨_, hlen, r, hloop, rfl, rfl, -⟩ := hok
  obtain ⟨S', payouts, hS', hroot, hstrings, hpayouts, hinbox⟩ :=
    verifyTxns_sound hQ hS hlen rfl (fun pair hpair _ hx => hsub ⟨pair, hpair, hx⟩) hloop
  have hqueued : payouts = withdrawalPayouts batch sidecar :=
    hpayouts.symm.trans (verifyTxns_payouts hloop)
  exact ⟨S', hqueued ▸ hS', hroot, hstrings, hinbox, hwchain⟩

omit hQ in
/-- Whatever the sidecar holds, a batch that verifies from the root of `S` replays on `S`,
and the three words returned are those of the replay. -/
theorem verifyBatch_replays {S : AccountMap} {domain : DeploymentDomain}
    {oldRoot anchor newRoot inbox wchain : Word} {batch : Batch} {sidecar : Sidecar}
    (hideal : Ideal ((treeOf S).strings ∪ batchStrings batch sidecar))
    (hroot : (treeOf S).root = oldRoot)
    (hok : verifyBatch domain oldRoot anchor batch sidecar = .ok (newRoot, inbox, wchain)) :
    ∃ S' payouts, replay S batch.txns = some (S', payouts) ∧ (treeOf S').root = newRoot ∧
      inbox = foldInbox anchor (inboxItems batch.txns) ∧
      wchain = withdrawalChain domain payouts := by
  subst hroot
  obtain ⟨S', hreplay, hnew, -, hinbox, hwchain⟩ := verifyBatch_sound hideal
    Set.subset_union_left Set.subset_union_right hok
  exact ⟨S', _, hreplay, hnew.symm, hinbox, hwchain⟩

end Soundness

section Sample
attribute [local instance] Crypto.unsigned

/-! A first deposit, and a withdrawal of part of it. -/

def sampleKey : Bytes := ascii ['a', 'l', 'i', 'c', 'e']

def sampleAddress : Address := addressFromPublicKey .managed sampleKey

def sampleAccount (byte : UInt8) : L1Address := ⟨List.replicate 32 byte, rfl⟩

def sampleBatch : Batch :=
  ⟨[.deposit ⟨sampleAddress, 300000⟩, .withdrawal ⟨⟨sampleAddress, 0⟩, sampleAccount 5, 250000⟩]⟩

def sampleSidecar : Sidecar :=
  ⟨[.deposit ⟨⟨none, ⟨[], .own⟩⟩⟩,
    .withdrawal ⟨⟨.managed, sampleKey, []⟩, ⟨some ⟨0, 300000, sampleAddress⟩, ⟨[], .own⟩⟩, none⟩]⟩

def sampleLeaves : List Bytes :=
  [leafString sampleAddress ⟨0, 300000, sampleAddress⟩,
    leafString sampleAddress ⟨1, 50000, sampleAddress⟩]

theorem rootStrings_alone (address : Address) (account : Option Account) :
    rootStrings address account ⟨[], .own⟩ ⊆
      {string | ∃ a ∈ account, string = leafString address a} := by
  rintro string ⟨-, preimage, htree | hclimb, rfl⟩
  · cases account with
    | none => exact htree.elim
    | some a =>
      cases htree
      exact ⟨a, rfl, rfl⟩
  · exact hclimb.elim

theorem sampleLeaves_subset : (treeOf fun _ => none).strings ∪
    batchStrings sampleBatch sampleSidecar ⊆ {string | string ∈ sampleLeaves} := by
  rw [treeOf_none, Set.union_subset_iff]
  refine ⟨Set.empty_subset _, ?_⟩
  rintro string ⟨pair, hpair, hstring⟩
  have hpairs : pair ∈ sampleBatch.txns.zip sampleSidecar.entries := hpair
  simp only [sampleBatch, sampleSidecar, List.zip_cons_cons, List.zip_nil_right, List.mem_cons,
    List.not_mem_nil, or_false] at hpairs
  rcases hpairs with rfl | rfl
  · rcases hstring with hpre | ⟨post, hpost, hstring⟩
    · obtain ⟨_, hnone, -⟩ := rootStrings_alone _ _ hpre
      cases hnone
    · obtain ⟨_, hsome, rfl⟩ := rootStrings_alone _ _ hstring
      cases hsome
      cases hpost
      exact List.mem_cons_self ..
  · rcases hstring with (hpre | ⟨post, hpost, hstring⟩) | hfee
    · obtain ⟨_, hsome, rfl⟩ := rootStrings_alone _ _ hpre
      cases hsome
      exact List.mem_cons_self ..
    · obtain ⟨_, hsome, rfl⟩ := rootStrings_alone _ _ hstring
      cases hsome
      cases hpost
      exact List.mem_cons_of_mem _ (List.mem_cons_self ..)
    · exact hfee.elim

theorem sampleLeaves_ideal : Ideal {string | string ∈ sampleLeaves} :=
  .of_list (by decide +kernel)

theorem emptyTree_root : (treeOf fun _ => none).root = Word.zero := by
  rw [treeOf_none]
  rfl

theorem sampleBatch_verifies :
    verifyBatch Word.zero Word.zero Word.zero sampleBatch sampleSidecar =
      .ok (leafHash sampleAddress ⟨1, 50000, sampleAddress⟩,
        accumulateDeposit Word.zero sampleAddress 300000,
        withdrawalChain Word.zero [(sampleAccount 5, 250000)]) := by
  decide +kernel

theorem sampleBatch_replays : ∃ S' payouts,
    replay (fun _ => none) sampleBatch.txns = some (S', payouts) ∧
      (treeOf S').root = leafHash sampleAddress ⟨1, 50000, sampleAddress⟩ ∧
      accumulateDeposit Word.zero sampleAddress 300000 =
        foldInbox Word.zero (inboxItems sampleBatch.txns) ∧
      withdrawalChain Word.zero [(sampleAccount 5, 250000)] =
        withdrawalChain Word.zero payouts :=
  verifyBatch_replays (sampleLeaves_ideal.mono sampleLeaves_subset) emptyTree_root
    sampleBatch_verifies

end Sample

end PaymentRollup
