import Mathlib.Algebra.BigOperators.Group.Finset.Basic
import PaymentRollup.Rollup.Checking
import PaymentRollup.Rollup.Errors
import PaymentRollup.Rollup.Soundness

/-! # Value is moved, minted by deposits and burned by payouts

Each write changes one balance, so the total over all addresses changes by the difference
at that address, whichever other addresses a transaction names. The same bound keeps every
credit of an accepted prefix below the largest amount.
-/
namespace PaymentRollup
open Finset

theorem sum_update {ι α : Type*} [Fintype ι] [DecidableEq ι] (f : ι → α → ℕ) (g : ι → α)
    (i : ι) (v : α) : (∑ j, f j (Function.update g i v j)) + f i (g i) = (∑ j, f j (g j)) + f i v := by
  have hrest : ∑ j ∈ univ.erase i, f j (Function.update g i v j) =
      ∑ j ∈ univ.erase i, f j (g j) := by
    refine sum_congr rfl fun j hj => ?_
    rw [Function.update_of_ne (ne_of_mem_erase hj)]
  have hnew := add_sum_erase univ (fun j => f j (Function.update g i v j)) (mem_univ i)
  have hold := add_sum_erase univ (fun j => f j (g j)) (mem_univ i)
  simp only [Function.update_self] at hnew
  omega

def AccountMap.balance (S : AccountMap) (address : Address) : ℕ :=
  (S address).elim 0 fun account => account.amount.toNat

noncomputable def AccountMap.total (S : AccountMap) : ℕ := ∑ address, S.balance address

def payoutTotal (payouts : List Payout) : ℕ := (payouts.map fun payout => payout.2.toNat).sum

def InboxItem.amount : InboxItem → ℕ
  | .deposit _ amount => amount.toNat
  | .forcedWithdrawal _ _ => 0

def depositTotal (items : List InboxItem) : ℕ := (items.map InboxItem.amount).sum

@[simp] theorem payoutTotal_nil : payoutTotal [] = 0 := rfl

theorem payoutTotal_append (xs ys : List Payout) :
    payoutTotal (xs ++ ys) = payoutTotal xs + payoutTotal ys := by
  simp [payoutTotal]

@[simp] theorem depositTotal_nil : depositTotal [] = 0 := rfl

theorem depositTotal_append (xs ys : List InboxItem) :
    depositTotal (xs ++ ys) = depositTotal xs + depositTotal ys := by
  simp [depositTotal]

namespace AccountMap

@[simp] theorem total_empty : total (fun _ => none) = 0 := by
  simp [total, balance]

theorem balance_some {S : AccountMap} {address : Address} {account : Account}
    (h : S address = some account) : S.balance address = account.amount.toNat := by
  simp [balance, h]

theorem balance_getD (S : AccountMap) (address : Address) :
    S.balance address = ((S address).getD (Account.empty address)).amount.toNat := by
  cases h : S address <;> simp [balance, h, Account.empty]

theorem total_write (S : AccountMap) (address : Address) (account : Account) :
    total (Function.update S address (some account)) + S.balance address =
      S.total + account.amount.toNat := by
  exact sum_update (fun _ entry => entry.elim 0 fun account => account.amount.toNat) S address
    (some account)

theorem balance_le_total (S : AccountMap) (address : Address) : S.balance address ≤ S.total := by
  have h := add_sum_erase univ S.balance (mem_univ address)
  unfold total
  omega

end AccountMap

section Steps

theorem Account.debited_amount {a post : Account} {amount fee : UInt64}
    (h : a.debited amount fee = some post) :
    a.amount.toNat = post.amount.toNat + amount.toNat + fee.toNat := by
  obtain ⟨nonce, balance, -, hbalance, rfl⟩ := debited_eq_some.mp h
  obtain ⟨b, hb, hb'⟩ := Option.bind_eq_some_iff.mp hbalance
  have h₁ := checkedSub_eq_some.mp hb
  have h₂ := checkedSub_eq_some.mp hb'
  dsimp only
  omega

theorem Account.credited_amount {a post : Account} {amount : UInt64}
    (h : a.credited amount = some post) :
    post.amount.toNat = a.amount.toNat + amount.toNat := by
  obtain ⟨balance, hbalance, rfl⟩ := credited_eq_some.mp h
  exact checkedAdd_eq_some.mp hbalance

namespace Replay
open AccountMap

theorem debit_total {S S' : AccountMap} {sender : Address} {amount fee : UInt64}
    (h : debit S sender amount fee = some S') :
    S'.total + amount.toNat + fee.toNat = S.total := by
  obtain ⟨account, post, haccount, hpost, rfl⟩ := debit_eq_some.mp h
  have hwrite := total_write S sender post
  have hbalance := balance_some haccount
  have hamount := Account.debited_amount hpost
  omega

theorem credit_total {S S' : AccountMap} {receiver : Address} {amount : UInt64}
    (h : credit S receiver amount = some S') : S'.total = S.total + amount.toNat := by
  obtain ⟨post, hpost, rfl⟩ := credit_eq_some.mp h
  have hwrite := total_write S receiver post
  have hbalance := balance_getD S receiver
  have hamount := Account.credited_amount hpost
  omega

theorem creditFee_total {S S' : AccountMap} {fee : UInt64} (h : creditFee S fee = some S') :
    S'.total = S.total + fee.toNat := by
  unfold creditFee at h
  split at h
  · rename_i hfee
    cases h
    simp [hfee]
  · exact credit_total h

/-- What one transaction does to the total, and what it may pay out. -/
theorem step_total {S S' : AccountMap} {txn : Transaction} {paid : List Payout}
    (h : step S txn = some (S', paid)) :
    S'.total + payoutTotal paid = S.total + depositTotal (inboxItems [txn]) ∧
      ∀ payout ∈ paid, minWithdrawal ≤ payout.2 := by
  cases step_cases h with
  | @payment p S₁ S₂ S₃ hdebit hcredit hfee =>
    have hitems : inboxItems [Transaction.payment p] = [] := rfl
    have h₁ := debit_total hdebit
    have h₂ := credit_total hcredit
    have h₃ := creditFee_total hfee
    refine ⟨?_, by simp⟩
    simp only [hitems, payoutTotal_nil, depositTotal_nil]
    omega
  | @deposit d S₁ hcredit =>
    have hitems : depositTotal (inboxItems [Transaction.deposit d]) = d.amount.toNat := rfl
    refine ⟨?_, by simp⟩
    rw [hitems, credit_total hcredit, payoutTotal_nil, add_zero]
  | @withdrawal w S₁ S₂ hmin hdebit hfee =>
    have hitems : inboxItems [Transaction.withdrawal w] = [] := rfl
    have hpaid : payoutTotal [(w.recipient, w.amount)] = w.amount.toNat := by simp [payoutTotal]
    have h₁ := debit_total hdebit
    have h₂ := creditFee_total hfee
    refine ⟨?_, by simpa using hmin⟩
    simp only [hitems, hpaid, depositTotal_nil]
    omega
  | @emptied f account nonce haccount hmin hnonce =>
    have hitems : depositTotal (inboxItems [Transaction.forcedWithdrawal f]) = 0 := rfl
    have hpaid : payoutTotal [(f.recipient, account.amount)] = account.amount.toNat := by
      simp [payoutTotal]
    have hwrite := total_write S f.address ⟨nonce, 0, account.authAddress⟩
    have hbalance := balance_some haccount
    refine ⟨?_, by simpa using hmin⟩
    rw [hitems, hpaid]
    simp only [UInt64.toNat_zero] at hwrite
    omega
  | spared => exact ⟨rfl, by simp⟩

end Replay

theorem replay_total {S S' : AccountMap} {txns : List Transaction} {payouts : List Payout}
    (h : replay S txns = some (S', payouts)) :
    S'.total + payoutTotal payouts = S.total + depositTotal (inboxItems txns) ∧
      ∀ payout ∈ payouts, minWithdrawal ≤ payout.2 := by
  induction txns generalizing S payouts with
  | nil =>
    cases h
    simp [inboxItems]
  | cons txn rest ih =>
    obtain ⟨S₁, paid, later, hstep, hrest, rfl⟩ := replay_cons_eq_some.mp h
    obtain ⟨htotal, hmin⟩ := Replay.step_total hstep
    obtain ⟨htotal', hmin'⟩ := ih hrest
    have hitems : depositTotal (inboxItems (txn :: rest)) =
        depositTotal (inboxItems [txn]) + depositTotal (inboxItems rest) := by
      rw [← depositTotal_append, ← inboxItems_append, List.singleton_append]
    refine ⟨by rw [payoutTotal_append, hitems]; omega, ?_⟩
    intro payout hpayout
    rcases List.mem_append.mp hpayout with hpaid | hlater
    · exact hmin payout hpaid
    · exact hmin' payout hlater

end Steps

section Overflow
variable [Crypto]

theorem debit_ne_overflow (sender : Address) (witness : LeafWitness) (sig : Signature)
    (amount fee : UInt64) (root : Word) (message : UInt64 → Bytes) :
    debit sender witness sig amount fee root message ≠ .error .amountOverflow := by
  intro h
  have hlisted : VerificationError.amountOverflow ∈ debitErrors := debit_errors _ _ _ _ _ _ _ _ h
  exact absurd hlisted (by decide)

theorem expectPreState_ne_overflow (address : Address) (witness : LeafWitness) (root : Word) :
    expectPreState address witness root ≠ .error .amountOverflow := by
  intro h
  have hlisted : VerificationError.amountOverflow ∈ witnessErrors := expectPreState_errors _ _ _ _ h
  exact absurd hlisted (by decide)

theorem rootWith_ne_overflow (address : Address) (account : Option Account) (proof : MerkleProof) :
    rootWith address account proof ≠ .error .amountOverflow := by
  intro h
  cases List.mem_singleton.mp (rootWith_errors _ _ _ _ h)

variable {Q : Set Bytes} (hQ : Ideal Q)
include hQ

theorem credit_ne_overflow {S : AccountMap} (hS : (treeOf S).strings ⊆ Q) {receiver : Address}
    {witness : LeafWitness} {amount : UInt64}
    (hsub : creditStrings receiver witness amount ⊆ Q)
    (hbound : S.total + amount.toNat < 2 ^ 64) :
    credit receiver witness amount (treeOf S).root ≠ .error .amountOverflow := by
  intro h
  rcases bind_eq_error.mp h with hpre | ⟨_, hpre, h⟩
  · exact expectPreState_ne_overflow _ _ _ hpre
  obtain ⟨hold, -⟩ := pre_sound hQ hS hsub (expectPreState_eq_ok.mp hpre)
  rcases bind_eq_error.mp h with hadd | ⟨balance, -, h⟩
  · have hover := checkedAdd_eq_none.mp (demand_eq_error.mp hadd).1
    rw [hold, ← AccountMap.balance_getD] at hover
    have hle := S.balance_le_total receiver
    omega
  · exact rootWith_ne_overflow _ _ _ h

theorem creditFee_ne_overflow {S : AccountMap} (hS : (treeOf S).strings ⊆ Q) {fee : UInt64}
    {witness : Option LeafWitness} (hsub : feeStrings fee witness ⊆ Q)
    (hbound : S.total + fee.toNat < 2 ^ 64) :
    creditFee fee witness (treeOf S).root ≠ .error .amountOverflow := by
  intro h
  cases witness with
  | none =>
    simp only [creditFee] at h
    split_ifs at h
    cases h
  | some w =>
    simp only [creditFee] at h
    split_ifs at h
    · exact credit_ne_overflow hQ hS hsub hbound h
    · cases h

section Kinds
variable {S : AccountMap} {domain : DeploymentDomain} {r : Replaying}

theorem payment_ne_overflow (hS : (treeOf S).strings ⊆ Q) {p : Payment} {e : PaymentSidecar}
    (hroot : r.root = (treeOf S).root) (hsub : txnStrings (.payment p, .payment e) ⊆ Q)
    (hbound : S.total < 2 ^ 64) :
    verifyTxn domain r (.payment p, .payment e) ≠ .error .amountOverflow := by
  intro h
  simp only [txnStrings, Set.union_subset_iff] at hsub
  obtain ⟨hsender, hreceiver, hfee⟩ := hsub
  simp only [verifyTxn, hroot] at h
  rcases bind_eq_error.mp h with hdebit | ⟨_, hdebit, h⟩
  · exact debit_ne_overflow _ _ _ _ _ _ _ hdebit
  obtain ⟨S₁, h₁, rfl, hS₁⟩ := debit_sound hQ hS hsender hdebit
  have ht₁ := Replay.debit_total h₁
  rcases bind_eq_error.mp h with hcredit | ⟨_, hcredit, h⟩
  · exact credit_ne_overflow hQ hS₁ hreceiver (by omega) hcredit
  obtain ⟨S₂, h₂, rfl, hS₂⟩ := credit_sound hQ hS₁ hreceiver hcredit
  have ht₂ := Replay.credit_total h₂
  rcases bind_eq_error.mp h with hsink | ⟨_, -, h⟩
  · exact creditFee_ne_overflow hQ hS₂ hfee (by omega) hsink
  · cases h

theorem withdrawal_ne_overflow (hS : (treeOf S).strings ⊆ Q) {w : Withdrawal}
    {e : WithdrawalSidecar} (hroot : r.root = (treeOf S).root)
    (hsub : txnStrings (.withdrawal w, .withdrawal e) ⊆ Q) (hbound : S.total < 2 ^ 64) :
    verifyTxn domain r (.withdrawal w, .withdrawal e) ≠ .error .amountOverflow := by
  intro h
  simp only [txnStrings, Set.union_subset_iff] at hsub
  obtain ⟨hsender, hfee⟩ := hsub
  simp only [verifyTxn, hroot] at h
  rcases bind_eq_error.mp h with hmin | ⟨_, -, h⟩
  · cases (require_eq_error.mp hmin).2
  rcases bind_eq_error.mp h with hdebit | ⟨_, hdebit, h⟩
  · exact debit_ne_overflow _ _ _ _ _ _ _ hdebit
  obtain ⟨S₁, h₁, rfl, hS₁⟩ := debit_sound hQ hS hsender hdebit
  have ht₁ := Replay.debit_total h₁
  rcases bind_eq_error.mp h with hsink | ⟨_, -, h⟩
  · exact creditFee_ne_overflow hQ hS₁ hfee (by omega) hsink
  · cases h

omit hQ in
theorem forced_ne_overflow {f : ForcedWithdrawal} {e : ForcedWithdrawalSidecar} :
    verifyTxn domain r (.forcedWithdrawal f, .forcedWithdrawal e) ≠ .error .amountOverflow := by
  intro h
  simp only [verifyTxn] at h
  rcases bind_eq_error.mp h with hpre | ⟨_, -, h⟩
  · exact expectPreState_ne_overflow _ _ _ hpre
  split_ifs at h
  rcases bind_eq_error.mp h with hsome | ⟨account, -, h⟩
  · cases (demand_eq_error.mp hsome).2
  rcases bind_eq_error.mp h with hbump | ⟨bumped, -, h⟩
  · cases List.mem_singleton.mp (Account.bumpNonce_errors _ _ hbump)
  rcases bind_eq_error.mp h with hpost | ⟨_, -, h⟩
  · exact rootWith_ne_overflow _ _ _ hpost
  · cases h

end Kinds

theorem verifyTxn_ne_overflow {S : AccountMap} (hS : (treeOf S).strings ⊆ Q)
    {domain : DeploymentDomain} {r : Replaying} {txn : Transaction} {entry : TxnSidecar}
    (hroot : r.root = (treeOf S).root) (hsub : txnStrings (txn, entry) ⊆ Q)
    (hbound : S.total + depositTotal (inboxItems [txn]) < 2 ^ 64) :
    verifyTxn domain r (txn, entry) ≠ .error .amountOverflow := by
  intro h
  cases txn with
  | payment p =>
    cases entry with
    | payment e => exact payment_ne_overflow hQ hS hroot hsub hbound h
    | deposit e => cases h
    | withdrawal e => cases h
    | forcedWithdrawal e => cases h
  | deposit d =>
    have hitems : depositTotal (inboxItems [Transaction.deposit d]) = d.amount.toNat := rfl
    rw [hitems] at hbound
    cases entry with
    | deposit e =>
      simp only [verifyTxn, hroot] at h
      rcases bind_eq_error.mp h with hcredit | ⟨_, -, h⟩
      · exact credit_ne_overflow hQ hS hsub hbound hcredit
      · cases h
    | payment e => cases h
    | withdrawal e => cases h
    | forcedWithdrawal e => cases h
  | withdrawal w =>
    cases entry with
    | withdrawal e => exact withdrawal_ne_overflow hQ hS hroot hsub hbound h
    | payment e => cases h
    | deposit e => cases h
    | forcedWithdrawal e => cases h
  | forcedWithdrawal f =>
    cases entry with
    | forcedWithdrawal e => exact forced_ne_overflow h
    | payment e => cases h
    | deposit e => cases h
    | withdrawal e => cases h

/-- While the total and the deposits fit in 64 bits, no prefix of the loop overflows. -/
theorem verifyTxns_ne_overflow {S : AccountMap} (hS : (treeOf S).strings ⊆ Q)
    {domain : DeploymentDomain} {r : Replaying} {txns : List Transaction}
    {entries : List TxnSidecar} (hroot : r.root = (treeOf S).root)
    (hsub : ∀ pair ∈ txns.zip entries, txnStrings pair ⊆ Q)
    (hbound : S.total + depositTotal (inboxItems txns) < 2 ^ 64) :
    (txns.zip entries).foldlM (verifyTxn domain) r ≠ .error .amountOverflow := by
  induction txns generalizing S r entries with
  | nil => exact fun h => nomatch h
  | cons txn rest ih =>
    cases entries with
    | nil => exact fun h => nomatch h
    | cons entry entries =>
      have hitems : depositTotal (inboxItems (txn :: rest)) =
          depositTotal (inboxItems [txn]) + depositTotal (inboxItems rest) := by
        rw [← depositTotal_append, ← inboxItems_append, List.singleton_append]
      have hhead : txnStrings (txn, entry) ⊆ Q := hsub _ (by simp)
      simp only [List.zip_cons_cons, List.foldlM_cons]
      intro h
      rcases bind_eq_error.mp h with hstep | ⟨r₁, hstep, hrest⟩
      · exact verifyTxn_ne_overflow hQ hS hroot hhead (by omega) hstep
      · obtain ⟨S₁, paid, hS₁, hroot₁, hstrings, -⟩ := verifyTxn_sound hQ hS hroot hhead hstep
        have htotal := (Replay.step_total hS₁).1
        exact ih hstrings hroot₁ (fun pair hpair => hsub pair (List.mem_cons_of_mem _ hpair))
          (by omega) hrest

theorem verifyBatch_ne_overflow {S : AccountMap} (hS : (treeOf S).strings ⊆ Q)
    {domain : DeploymentDomain} {anchor : Word} {batch : Batch} {sidecar : Sidecar}
    (hsub : batchStrings batch sidecar ⊆ Q)
    (hbound : S.total + depositTotal (inboxItems batch.txns) < 2 ^ 64) :
    verifyBatch domain (treeOf S).root anchor batch sidecar ≠ .error .amountOverflow := by
  intro h
  rcases bind_eq_error.mp h with hlen | ⟨_, -, h⟩
  · cases (require_eq_error.mp hlen).2
  rcases bind_eq_error.mp h with hloop | ⟨r, -, h⟩
  · exact verifyTxns_ne_overflow hQ hS rfl (fun pair hpair _ hx => hsub ⟨pair, hpair, hx⟩) hbound
      hloop
  · cases h

end Overflow

section Batches
variable [Crypto]

/-- A settled batch as the ledger sees it: what was verified, and the payout chain it committed. -/
structure Settled where
  domain : DeploymentDomain
  batch : Batch
  withdrawalChain : Word

/-- Batches accepted one after another from the empty ledger, whatever their sidecars. -/
inductive Accepted (Q : Set Bytes) : Word → List Settled → Prop
  | genesis : Accepted Q emptySubtree []
  | batch {root newRoot anchor inbox wchain : Word} {log : List Settled} {domain : DeploymentDomain}
      {batch : Batch} {sidecar : Sidecar} (h : Accepted Q root log)
      (hsub : batchStrings batch sidecar ⊆ Q)
      (hok : verifyBatch domain root anchor batch sidecar = .ok (newRoot, inbox, wchain)) :
      Accepted Q newRoot (log ++ [⟨domain, batch, wchain⟩])

def settledDeposits (log : List Settled) : ℕ :=
  (log.map fun settled => depositTotal (inboxItems settled.batch.txns)).sum

def CommittedPayouts (log : List Settled) (payouts : List (List Payout)) : Prop :=
  List.Forall₂ (fun settled paid => settled.withdrawalChain = withdrawalChain settled.domain paid)
    log payouts

/-- All value on the rollup is what was deposited and has not been paid out. -/
theorem Accepted.total {Q : Set Bytes} (hQ : Ideal Q) {root : Word} {log : List Settled}
    (h : Accepted Q root log) : ∃ S payouts, (treeOf S).root = root ∧ (treeOf S).strings ⊆ Q ∧
      CommittedPayouts log payouts ∧ S.total + payoutTotal payouts.flatten = settledDeposits log := by
  induction h with
  | genesis =>
    refine ⟨fun _ => none, [], ?_, ?_, List.Forall₂.nil, ?_⟩
    · rw [treeOf_none]
      rfl
    · rw [treeOf_none]
      exact Set.empty_subset Q
    · simp [settledDeposits]
  | batch h hsub hok ih =>
    obtain ⟨S, payouts, rfl, hS, hcommitted, htotal⟩ := ih
    obtain ⟨S', hreplay, hroot, hstrings, -, hwchain⟩ := verifyBatch_sound hQ hS hsub hok
    have hstep := (replay_total hreplay).1
    refine ⟨S', payouts ++ [_], hroot.symm, hstrings,
      List.rel_append hcommitted (.cons hwchain .nil), ?_⟩
    simp only [settledDeposits, List.map_append, List.sum_append, List.map_cons, List.map_nil,
      List.sum_cons, List.sum_nil, List.flatten_append, List.flatten_cons, List.flatten_nil,
      payoutTotal_append, payoutTotal_nil, add_zero]
    unfold settledDeposits at htotal
    omega

/-- Fees and payments only move value: what enters is deposits and what leaves is payouts of
at least the minimum, in one batch and over any chain of them. No batch whose deposits fit
beside the value already held can overflow a balance. -/
theorem verifyBatch_conserves {Q : Set Bytes} (hQ : Ideal Q) :
    (∀ (S : AccountMap) (domain : DeploymentDomain) (oldRoot anchor : Word) (batch : Batch)
        (sidecar : Sidecar), (treeOf S).root = oldRoot → (treeOf S).strings ⊆ Q →
        batchStrings batch sidecar ⊆ Q →
      (∀ newRoot inbox wchain,
        verifyBatch domain oldRoot anchor batch sidecar = .ok (newRoot, inbox, wchain) →
        ∃ S' payouts, replay S batch.txns = some (S', payouts) ∧ (treeOf S').root = newRoot ∧
          wchain = withdrawalChain domain payouts ∧
          S'.total + payoutTotal payouts = S.total + depositTotal (inboxItems batch.txns) ∧
          ∀ payout ∈ payouts, minWithdrawal ≤ payout.2) ∧
      (S.total + depositTotal (inboxItems batch.txns) ≤ 2 ^ 64 - 1 →
        verifyBatch domain oldRoot anchor batch sidecar ≠ .error .amountOverflow)) ∧
    ∀ (root : Word) (log : List Settled), Accepted Q root log →
      ∃ S payouts, (treeOf S).root = root ∧ CommittedPayouts log payouts ∧
        S.total + payoutTotal payouts.flatten = settledDeposits log := by
  refine ⟨?_, ?_⟩
  · rintro S domain _ anchor batch sidecar rfl hS hsub
    refine ⟨?_, fun hbound => verifyBatch_ne_overflow hQ hS hsub (by omega)⟩
    intro newRoot inbox wchain hok
    obtain ⟨S', hreplay, hroot, -, -, hwchain⟩ := verifyBatch_sound hQ hS hsub hok
    obtain ⟨htotal, hmin⟩ := replay_total hreplay
    exact ⟨S', _, hreplay, hroot.symm, hwchain, htotal, hmin⟩
  · intro root log h
    obtain ⟨S, payouts, hroot, -, hcommitted, htotal⟩ := h.total hQ
    exact ⟨S, payouts, hroot, hcommitted, htotal⟩

end Batches

section Sample
attribute [local instance] Crypto.unsigned

/-- Another deposit to the same account, settled after the sample batch. -/
def laterBatch : Batch := ⟨[.deposit ⟨sampleAddress, 300000⟩]⟩

def laterSidecar : Sidecar :=
  ⟨[.deposit ⟨⟨some ⟨1, 50000, sampleAddress⟩, ⟨[], .own⟩⟩⟩]⟩

def laterLeaves : List Bytes := leafString sampleAddress ⟨1, 350000, sampleAddress⟩ :: sampleLeaves

theorem laterBatch_verifies :
    verifyBatch Word.zero (leafHash sampleAddress ⟨1, 50000, sampleAddress⟩)
        (accumulateDeposit Word.zero sampleAddress 300000) laterBatch laterSidecar =
      .ok (leafHash sampleAddress ⟨1, 350000, sampleAddress⟩,
        accumulateDeposit (accumulateDeposit Word.zero sampleAddress 300000) sampleAddress 300000,
        withdrawalChain Word.zero []) := by
  decide +kernel

/-- Of two deposits of 300000 the first batch pays 250000 out, and after the second 350000 is
left. -/
theorem sampleLeaves_conserve :
    (∃ S' payouts, replay (fun _ => none) sampleBatch.txns = some (S', payouts) ∧
        (treeOf S').root = leafHash sampleAddress ⟨1, 50000, sampleAddress⟩ ∧
        withdrawalChain Word.zero [(sampleAccount 5, 250000)] = withdrawalChain Word.zero payouts ∧
        S'.total + payoutTotal payouts = 300000 ∧ ∀ payout ∈ payouts, minWithdrawal ≤ payout.2) ∧
      verifyBatch Word.zero Word.zero Word.zero sampleBatch sampleSidecar ≠
        .error .amountOverflow ∧
      ∃ S payouts, (treeOf S).root = leafHash sampleAddress ⟨1, 350000, sampleAddress⟩ ∧
        CommittedPayouts [⟨Word.zero, sampleBatch, withdrawalChain Word.zero
            [(sampleAccount 5, 250000)]⟩, ⟨Word.zero, laterBatch, withdrawalChain Word.zero []⟩]
          payouts ∧
        S.total + payoutTotal payouts.flatten = 600000 := by
  have hideal : Ideal {string | string ∈ laterLeaves} := .of_list (by decide +kernel)
  have hleaves : {string | string ∈ sampleLeaves} ⊆ {string | string ∈ laterLeaves} :=
    fun string hstring => List.mem_cons_of_mem _ hstring
  obtain ⟨htree, hbatch⟩ := Set.union_subset_iff.mp (sampleLeaves_subset.trans hleaves)
  have hlater : batchStrings laterBatch laterSidecar ⊆ {string | string ∈ laterLeaves} := by
    decide +kernel
  obtain ⟨hconserves, hchain⟩ := verifyBatch_conserves hideal
  obtain ⟨hvalue, hbounded⟩ := hconserves (fun _ => none) Word.zero Word.zero Word.zero sampleBatch
    sampleSidecar emptyTree_root htree hbatch
  have haccepted := (Accepted.genesis.batch hbatch sampleBatch_verifies).batch hlater
    laterBatch_verifies
  refine ⟨?_, ?_, hchain _ _ haccepted⟩
  · have hvalue := hvalue _ _ _ sampleBatch_verifies
    rw [AccountMap.total_empty] at hvalue
    exact hvalue
  · apply hbounded
    rw [AccountMap.total_empty]
    decide

end Sample

end PaymentRollup
