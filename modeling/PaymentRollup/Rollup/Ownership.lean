import PaymentRollup.Rollup.Authorization

/-! # Who can change an account

Every write leaves the authorizing address of the account it replaces, so neither the accounts
nor their owners are a prover's to choose. What spends an account is a transaction its owner
signed, or a request that L1 has ordered.
-/
namespace PaymentRollup

section Rewrites

def Transaction.Touches (address : Address) : Transaction → Prop
  | .payment p => address = p.header.sender ∨ address = p.receiver ∨
      (address = feeSink ∧ p.header.fee ≠ 0)
  | .deposit d => address = d.receiver
  | .withdrawal w => address = w.header.sender ∨ (address = feeSink ∧ w.header.fee ≠ 0)
  | .forcedWithdrawal f => address = f.address

/-- Who may spend from the account at `address`, which need not exist. -/
def AccountMap.ownerOf (S : AccountMap) (address : Address) : Address :=
  ((S address).getD (Account.empty address)).authAddress

/-- A chain of writes, each to an address in `touched` and none changing who owns it. -/
inductive Rewrites (touched : Address → Prop) (S : AccountMap) : AccountMap → Prop
  | refl : Rewrites touched S S
  | write {S' : AccountMap} {address : Address} (h : Rewrites touched S S')
      (haddress : touched address) (nonce amount : UInt64) :
      Rewrites touched S
        (Function.update S' address (some ⟨nonce, amount, S'.ownerOf address⟩))

def AccountMap.Owned (S : AccountMap) : Prop :=
  ∀ address account, S address = some account → account.authAddress = address

variable {touched touched' : Address → Prop} {S S' S'' : AccountMap}

theorem AccountMap.ownerOf_some {address : Address} {account : Account}
    (h : S address = some account) : S.ownerOf address = account.authAddress := by
  rw [ownerOf, h, Option.getD_some]

theorem AccountMap.ownerOf_none {address : Address} (h : S address = none) :
    S.ownerOf address = address := by
  rw [ownerOf, h]
  rfl

namespace Rewrites

theorem single {address : Address} (haddress : touched address) (nonce amount : UInt64) :
    Rewrites touched S (Function.update S address (some ⟨nonce, amount, S.ownerOf address⟩)) :=
  refl.write haddress nonce amount

theorem trans (h : Rewrites touched S S') (h' : Rewrites touched S' S'') :
    Rewrites touched S S'' := by
  induction h' with
  | refl => exact h
  | write _ haddress nonce amount ih => exact ih.write haddress nonce amount

theorem mono (h : Rewrites touched S S') (hle : ∀ a, touched a → touched' a) :
    Rewrites touched' S S' := by
  induction h with
  | refl => exact .refl
  | write _ haddress nonce amount ih => exact ih.write (hle _ haddress) nonce amount

theorem untouched (h : Rewrites touched S S') {address : Address} (haddress : ¬touched address) :
    S' address = S address := by
  induction h with
  | refl => rfl
  | @write S' written _ hwritten nonce amount ih =>
    have hne : address ≠ written := by
      rintro rfl
      exact haddress hwritten
    rw [Function.update_of_ne hne, ih]

/-- No account disappears and none changes hands. -/
theorem owner (h : Rewrites touched S S') {address : Address} {account : Account}
    (haccount : S address = some account) :
    ∃ account', S' address = some account' ∧ account'.authAddress = account.authAddress := by
  induction h with
  | refl => exact ⟨account, haccount, rfl⟩
  | @write S' written _ _ nonce amount ih =>
    obtain ⟨held, hheld, howner⟩ := ih
    by_cases heq : address = written
    · subst heq
      refine ⟨_, Function.update_self .., ?_⟩
      rw [AccountMap.ownerOf_some hheld, howner]
    · exact ⟨held, by rw [Function.update_of_ne heq, hheld], howner⟩

theorem owned (h : Rewrites touched S S') (hS : S.Owned) : S'.Owned := by
  induction h with
  | refl => exact hS
  | @write S' written _ _ nonce amount ih =>
    intro address account haccount
    by_cases heq : address = written
    · subst heq
      rw [Function.update_self] at haccount
      cases haccount
      cases hheld : S' address with
      | none => exact AccountMap.ownerOf_none hheld
      | some held => exact (AccountMap.ownerOf_some hheld).trans (ih address held hheld)
    · rw [Function.update_of_ne heq] at haccount
      exact ih address account haccount

end Rewrites

namespace Replay

theorem debit_rewrites {sender : Address} {amount fee : UInt64}
    (h : debit S sender amount fee = some S') : Rewrites (· = sender) S S' := by
  obtain ⟨account, post, haccount, hpost, rfl⟩ := debit_eq_some.mp h
  obtain ⟨nonce, balance, -, -, rfl⟩ := Account.debited_eq_some.mp hpost
  rw [← AccountMap.ownerOf_some haccount]
  exact .single (by rfl) nonce balance

theorem credit_rewrites {receiver : Address} {amount : UInt64}
    (h : credit S receiver amount = some S') : Rewrites (· = receiver) S S' := by
  obtain ⟨post, hpost, rfl⟩ := credit_eq_some.mp h
  obtain ⟨balance, -, rfl⟩ := Account.credited_eq_some.mp hpost
  exact .single (by rfl) _ balance

theorem creditFee_rewrites {fee : UInt64} (h : creditFee S fee = some S') :
    Rewrites (fun a => a = feeSink ∧ fee ≠ 0) S S' := by
  rcases creditFee_eq_some.mp h with ⟨-, rfl⟩ | ⟨hfee, hcredit⟩
  · exact .refl
  · exact (credit_rewrites hcredit).mono fun a ha => ⟨ha, hfee⟩

theorem step_rewrites {txn : Transaction} {paid : List Payout}
    (h : step S txn = some (S', paid)) : Rewrites txn.Touches S S' := by
  cases step_cases h with
  | payment hdebit hcredit hfee =>
    exact ((debit_rewrites hdebit).mono fun a ha => .inl ha).trans
      (((credit_rewrites hcredit).mono fun a ha => .inr (.inl ha)).trans
        ((creditFee_rewrites hfee).mono fun a ha => .inr (.inr ha)))
  | deposit hcredit => exact credit_rewrites hcredit
  | withdrawal hmin hdebit hfee =>
    exact ((debit_rewrites hdebit).mono fun a ha => .inl ha).trans
      ((creditFee_rewrites hfee).mono fun a ha => .inr ha)
  | @emptied f account nonce haccount =>
    rw [← AccountMap.ownerOf_some haccount]
    exact .single (by rfl) nonce 0
  | spared => exact .refl

end Replay

theorem replay_rewrites {txns : List Transaction} {payouts : List Payout}
    (h : replay S txns = some (S', payouts)) :
    Rewrites (fun a => ∃ txn ∈ txns, txn.Touches a) S S' := by
  induction txns generalizing S payouts with
  | nil =>
    cases h
    exact .refl
  | cons txn rest ih =>
    obtain ⟨S₁, paid, later, hstep, hrest, -⟩ := replay_cons_eq_some.mp h
    exact ((Replay.step_rewrites hstep).mono fun a ha => ⟨txn, List.mem_cons_self .., ha⟩).trans
      ((ih hrest).mono fun a ⟨other, hmem, ha⟩ => ⟨other, List.mem_cons_of_mem _ hmem, ha⟩)

end Rewrites

section Spending
variable {S S' : AccountMap}

/-- How many nonces of `address` the transactions use up. -/
def spends (address : Address) : AccountMap → List Transaction → ℕ
  | _, [] => 0
  | S, txn :: rest => (if txn.Spends S address then 1 else 0) +
      match Replay.step S txn with
      | some (S', _) => spends address S' rest
      | none => 0

theorem replay_nonce {txns : List Transaction} {payouts : List Payout}
    (h : replay S txns = some (S', payouts)) (address : Address) :
    nonceOf S' address = nonceOf S address + spends address S txns := by
  induction txns generalizing S payouts with
  | nil =>
    cases h
    rfl
  | cons txn rest ih =>
    obtain ⟨S₁, paid, later, hstep, hrest, -⟩ := replay_cons_eq_some.mp h
    rw [ih hrest, Replay.step_nonce hstep, spends, hstep, Nat.add_assoc]

/-- What a transaction adds to the balance at an address, fees included. -/
def Transaction.income (b : Address) : Transaction → ℕ
  | .payment p => (if b = p.receiver then p.amount.toNat else 0) +
      (if b = feeSink then p.header.fee.toNat else 0)
  | .deposit d => if b = d.receiver then d.amount.toNat else 0
  | .withdrawal w => if b = feeSink then w.header.fee.toNat else 0
  | .forcedWithdrawal _ => 0

namespace Replay
open AccountMap

theorem balance_update (S : AccountMap) (address : Address) (account : Account) (b : Address) :
    balance (Function.update S address (some account)) b =
      if b = address then account.amount.toNat else S.balance b := by
  by_cases hb : b = address
  · subst hb
    simp [balance]
  · simp [balance, hb]

theorem debit_balance {sender : Address} {amount fee : UInt64}
    (h : debit S sender amount fee = some S') (b : Address) :
    S'.balance b + (if b = sender then amount.toNat + fee.toNat else 0) = S.balance b := by
  obtain ⟨account, post, haccount, hpost, rfl⟩ := debit_eq_some.mp h
  have hamount := Account.debited_amount hpost
  rw [balance_update]
  split_ifs with hb
  · subst hb
    rw [balance_some haccount]
    omega
  · rfl

theorem credit_balance {receiver : Address} {amount : UInt64}
    (h : credit S receiver amount = some S') (b : Address) :
    S'.balance b = S.balance b + if b = receiver then amount.toNat else 0 := by
  obtain ⟨post, hpost, rfl⟩ := credit_eq_some.mp h
  have hamount := Account.credited_amount hpost
  rw [balance_update]
  split_ifs with hb
  · subst hb
    rw [balance_getD, hamount]
  · rfl

theorem creditFee_balance {fee : UInt64} (h : creditFee S fee = some S') (b : Address) :
    S'.balance b = S.balance b + if b = feeSink then fee.toNat else 0 := by
  rcases creditFee_eq_some.mp h with ⟨rfl, rfl⟩ | ⟨-, hcredit⟩
  · simp
  · exact credit_balance hcredit b

theorem step_balance {txn : Transaction} {paid : List Payout}
    (h : step S txn = some (S', paid)) {b : Address} (hb : ¬txn.Spends S b) :
    S'.balance b = S.balance b + txn.income b := by
  cases step_cases h with
  | @payment p S₁ S₂ S₃ hdebit hcredit hfee =>
    have hsent := debit_balance hdebit b
    have hne : b ≠ p.header.sender := fun heq => hb heq.symm
    rw [if_neg hne] at hsent
    rw [creditFee_balance hfee, credit_balance hcredit, Transaction.income]
    omega
  | deposit hcredit => exact credit_balance hcredit b
  | @withdrawal w S₁ S₂ hmin hdebit hfee =>
    have hsent := debit_balance hdebit b
    have hne : b ≠ w.header.sender := fun heq => hb heq.symm
    rw [if_neg hne] at hsent
    rw [creditFee_balance hfee, Transaction.income]
    omega
  | @emptied f account nonce haccount hmin =>
    have hne : b ≠ f.address := by
      rintro rfl
      rw [UInt64.le_iff_toNat_le, ← balance_some haccount] at hmin
      exact hb ⟨rfl, hmin⟩
    rw [balance_update, if_neg hne]
    rfl
  | spared => rfl

end Replay

theorem replay_balance {txns : List Transaction} {payouts : List Payout} {b : Address}
    (h : replay S txns = some (S', payouts)) (hspares : spends b S txns = 0) :
    S'.balance b = S.balance b + (txns.map (Transaction.income b)).sum := by
  induction txns generalizing S payouts with
  | nil =>
    cases h
    rfl
  | cons txn rest ih =>
    obtain ⟨S₁, paid, later, hstep, hrest, -⟩ := replay_cons_eq_some.mp h
    rw [spends, hstep, Nat.add_eq_zero_iff] at hspares
    have hb : ¬txn.Spends S b := by
      intro hspends
      rw [if_pos hspends] at hspares
      exact absurd hspares.1 Nat.one_ne_zero
    rw [ih hrest hspares.2, Replay.step_balance hstep hb, List.map_cons, List.sum_cons,
      Nat.add_assoc]

theorem spends_eq_zero {txns : List Transaction} {b : Address}
    (h : ∀ before txn after S₁ paid, txns = before ++ txn :: after →
      replay S before = some (S₁, paid) → ¬txn.Spends S₁ b) : spends b S txns = 0 := by
  induction txns generalizing S with
  | nil => rfl
  | cons txn rest ih =>
    rw [spends, if_neg (h [] txn rest S [] rfl rfl), Nat.zero_add]
    cases hstep : Replay.step S txn with
    | none => rfl
    | some result =>
      obtain ⟨S₁, paid⟩ := result
      refine ih ?_
      intro before other after S₂ paid' hsplit hbefore
      refine h (txn :: before) other after S₂ (paid ++ paid') (congrArg (txn :: ·) hsplit) ?_
      exact replay_cons_eq_some.mpr ⟨S₁, paid, paid', hstep, hbefore, rfl⟩

end Spending

section Owners
variable [Crypto]

theorem Signature.verify_eq_ok {sig : Signature} {account : Account} {message : Bytes} {u : Unit} :
    sig.verify account message = .ok u ↔ sig.address = account.authAddress ∧
      sig.scheme.verify sig.pubKey sig.sig message = .ok () := by
  rw [Signature.verify, bind_eq_ok]
  constructor
  · rintro ⟨_, hauth, hverify⟩
    refine ⟨?_, hverify⟩
    unfold Signature.verifyAuth at hauth
    split_ifs at hauth with h
    exact h
  · rintro ⟨hauth, hverify⟩
    exact ⟨(), if_pos hauth, hverify⟩

/-- What entitles a transaction to take from the account at `address`: L1 ordered it out, or a
key that hashes to its owner signed the transaction's own bytes. -/
inductive Entitled (domain : DeploymentDomain) (S : AccountMap) (address : Address) :
    Transaction × TxnSidecar → Prop
  | forced {recipient : L1Address} {entry : TxnSidecar} :
      Entitled domain S address (.forcedWithdrawal ⟨address, recipient⟩, entry)
  | payment {p : Payment} {entry : PaymentSidecar} {account : Account} {nonce : UInt64}
      (hsender : p.header.sender = address) (haccount : S address = some account)
      (hnonce : nonce.toNat = account.nonce.toNat + 1)
      (howner : addressFromPublicKey entry.sig.scheme entry.sig.pubKey = account.authAddress)
      (hsigned : entry.sig.scheme.verify entry.sig.pubKey entry.sig.sig
        (p.bytesToSign domain nonce) = .ok ()) :
      Entitled domain S address (.payment p, .payment entry)
  | withdrawal {w : Withdrawal} {entry : WithdrawalSidecar} {account : Account} {nonce : UInt64}
      (hsender : w.header.sender = address) (haccount : S address = some account)
      (hnonce : nonce.toNat = account.nonce.toNat + 1)
      (howner : addressFromPublicKey entry.sig.scheme entry.sig.pubKey = account.authAddress)
      (hsigned : entry.sig.scheme.verify entry.sig.pubKey entry.sig.sig
        (w.bytesToSign domain nonce) = .ok ()) :
      Entitled domain S address (.withdrawal w, .withdrawal entry)

variable {Q : Set Bytes} (hQ : Ideal Q) {S S' : AccountMap}
include hQ

theorem debit_entitled (hS : (treeOf S).strings ⊆ Q) {sender : Address} {witness : LeafWitness}
    {sig : Signature} {amount fee : UInt64} {root' : Word} {message : UInt64 → Bytes}
    (hsub : debitStrings sender witness amount fee ⊆ Q)
    (hok : debit sender witness sig amount fee (treeOf S).root message = .ok root') :
    ∃ account nonce, S sender = some account ∧ nonce.toNat = account.nonce.toNat + 1 ∧
      addressFromPublicKey sig.scheme sig.pubKey = account.authAddress ∧
      sig.scheme.verify sig.pubKey sig.sig (message nonce) = .ok () := by
  obtain ⟨hpre, account, post, hold, hpost, hsig, -⟩ := debit_eq_ok.mp hok
  unfold debitStrings at hsub
  simp only [hold, Option.bind_some, hpost] at hsub
  have haccount := (pre_sound hQ hS hsub hpre).1
  obtain ⟨nonce, balance, hnonce, -, rfl⟩ := Account.debited_eq_some.mp hpost
  obtain ⟨howner, hverify⟩ := Signature.verify_eq_ok.mp hsig
  exact ⟨account, nonce, haccount.symm.trans hold, checkedAdd_eq_some.mp hnonce, howner, hverify⟩

theorem verifyTxn_entitled (hS : (treeOf S).strings ⊆ Q) {domain : DeploymentDomain}
    {r r' : Replaying} {txn : Transaction} {entry : TxnSidecar} (hroot : r.root = (treeOf S).root)
    (hsub : txnStrings (txn, entry) ⊆ Q) (hok : verifyTxn domain r (txn, entry) = .ok r')
    {address : Address} (hspends : txn.Spends S address) :
    Entitled domain S address (txn, entry) := by
  cases txn with
  | payment p =>
    cases entry with
    | payment e =>
      simp only [txnStrings, Set.union_subset_iff] at hsub
      simp only [verifyTxn, bind_eq_ok, hroot] at hok
      obtain ⟨_, hdebit, -⟩ := hok
      obtain ⟨account, nonce, haccount, hnonce, howner, hsigned⟩ :=
        debit_entitled hQ hS hsub.1 hdebit
      have hsender : p.header.sender = address := hspends
      exact .payment hsender (hsender ▸ haccount) hnonce howner hsigned
    | _ => cases hok
  | deposit d => exact hspends.elim
  | withdrawal w =>
    cases entry with
    | withdrawal e =>
      simp only [txnStrings, Set.union_subset_iff] at hsub
      simp only [verifyTxn, bind_eq_ok, hroot] at hok
      obtain ⟨_, -, _, hdebit, -⟩ := hok
      obtain ⟨account, nonce, haccount, hnonce, howner, hsigned⟩ :=
        debit_entitled hQ hS hsub.1 hdebit
      have hsender : w.header.sender = address := hspends
      exact .withdrawal hsender (hsender ▸ haccount) hnonce howner hsigned
    | _ => cases hok
  | forcedWithdrawal f =>
    obtain ⟨rfl, -⟩ := hspends
    exact .forced

/-- Every spending transaction of an accepted list is entitled to, in the accounts it found. -/
theorem verifyTxns_entitled (hS : (treeOf S).strings ⊆ Q) {domain : DeploymentDomain}
    {r r' : Replaying} {before after : List (Transaction × TxnSidecar)} {txn : Transaction}
    {entry : TxnSidecar} (hroot : r.root = (treeOf S).root)
    (hsub : ∀ pair ∈ before ++ (txn, entry) :: after, txnStrings pair ⊆ Q)
    (hok : (before ++ (txn, entry) :: after).foldlM (verifyTxn domain) r = .ok r')
    {S₁ : AccountMap} {paid : List Payout}
    (hbefore : replay S (before.map Prod.fst) = some (S₁, paid)) {address : Address}
    (hspends : txn.Spends S₁ address) : Entitled domain S₁ address (txn, entry) := by
  simp only [List.foldlM_append, List.foldlM_cons, bind_eq_ok] at hok
  obtain ⟨r₁, hfirst, r₂, htxn, -⟩ := hok
  have hzip : (before.map Prod.fst).zip (before.map Prod.snd) = before := (List.zip_of_prod rfl rfl).symm
  have hwitnesses : ∀ pair ∈ (before.map Prod.fst).zip (before.map Prod.snd),
      txnStrings pair ⊆ Q := by
    rw [hzip]
    exact fun pair hpair => hsub pair (List.mem_append_left _ hpair)
  rw [← hzip] at hfirst
  obtain ⟨S', paid', hreplay, hroot₁, hstrings, -⟩ :=
    verifyTxns_sound hQ hS (by simp) hroot hwitnesses hfirst
  cases hbefore.symm.trans hreplay
  exact verifyTxn_entitled hQ hstrings hroot₁
    (hsub _ (List.mem_append_right _ (List.mem_cons_self ..))) htxn hspends

omit hQ [Crypto] in
theorem zip_split {α β : Type} {xs before after : List α} {x : α} {ys : List β}
    (hlen : xs.length = ys.length) (h : xs = before ++ x :: after) :
    ∃ pairs y rest, xs.zip ys = pairs ++ (x, y) :: rest ∧ pairs.map Prod.fst = before := by
  subst h
  induction before generalizing ys with
  | nil =>
    cases ys with
    | nil => cases hlen
    | cons y ys => exact ⟨[], y, after.zip ys, rfl, rfl⟩
  | cons first before ih =>
    cases ys with
    | nil => cases hlen
    | cons y ys =>
      obtain ⟨pairs, z, rest, hzip, hfst⟩ := ih (Nat.succ_injective hlen)
      refine ⟨(first, y) :: pairs, z, rest, ?_, ?_⟩
      · rw [List.cons_append, List.zip_cons_cons, hzip, List.cons_append]
      · rw [List.map_cons, hfst]

/-- An address that no key derives is only ever spent from by L1. -/
theorem verifyBatch_spares (hS : (treeOf S).strings ⊆ Q) (howned : S.Owned)
    {domain : DeploymentDomain} {anchor newRoot inbox wchain : Word} {batch : Batch}
    {sidecar : Sidecar} (hsub : batchStrings batch sidecar ⊆ Q)
    (hok : verifyBatch domain (treeOf S).root anchor batch sidecar = .ok (newRoot, inbox, wchain))
    {b : Address} (hkeys : ∀ scheme pubKey, addressFromPublicKey scheme pubKey ≠ b)
    (hforced : ∀ recipient, .forcedWithdrawal b recipient ∉ inboxItems batch.txns) :
    spends b S batch.txns = 0 := by
  refine spends_eq_zero ?_
  intro before txn after S₁ paid hsplit hbefore hspends
  simp only [verifyBatch, bind_eq_ok, require_eq_ok, Except.ok.injEq, Prod.mk.injEq] at hok
  obtain ⟨_, hlen, r, hloop, -⟩ := hok
  obtain ⟨pairs, entry, rest, hzip, rfl⟩ := zip_split hlen hsplit
  have hpairs : ∀ pair ∈ pairs ++ (txn, entry) :: rest, txnStrings pair ⊆ Q := by
    rw [← hzip]
    exact fun pair hpair string hstring => hsub ⟨pair, hpair, hstring⟩
  rw [hzip] at hloop
  have howned₁ : S₁.Owned := (replay_rewrites hbefore).owned howned
  cases verifyTxns_entitled hQ hS rfl hpairs hloop hbefore hspends with
  | @forced recipient =>
    refine hforced recipient (List.mem_filterMap.mpr ⟨.forcedWithdrawal ⟨b, recipient⟩, ?_, rfl⟩)
    rw [hsplit]
    exact List.mem_append_right _ (List.mem_cons_self ..)
  | payment _ haccount _ howner => exact hkeys _ _ (howner.trans (howned₁ b _ haccount))
  | withdrawal _ haccount _ howner => exact hkeys _ _ (howner.trans (howned₁ b _ haccount))

omit hQ in
/-- Whatever the sidecar of an accepted batch holds: no account disappears or changes hands, an
address that no transaction touches is left alone, a nonce counts what its owner spent, and a
transaction that takes from a balance is entitled to. -/
theorem only_owners_spend {domain : DeploymentDomain} {oldRoot anchor newRoot inbox wchain : Word}
    {batch : Batch} {sidecar : Sidecar}
    (hideal : Ideal ((treeOf S).strings ∪ batchStrings batch sidecar))
    (hroot : (treeOf S).root = oldRoot)
    (hok : verifyBatch domain oldRoot anchor batch sidecar = .ok (newRoot, inbox, wchain)) :
    ∃ S' payouts, replay S batch.txns = some (S', payouts) ∧ (treeOf S').root = newRoot ∧
      (∀ x account, S x = some account →
        ∃ account', S' x = some account' ∧ account'.authAddress = account.authAddress) ∧
      (∀ x, (∀ txn ∈ batch.txns, ¬txn.Touches x) → S' x = S x) ∧
      (∀ x, nonceOf S' x = nonceOf S x + spends x S batch.txns) ∧
      ∀ before txn entry after S₁ S₂ paid paid',
        batch.txns.zip sidecar.entries = before ++ (txn, entry) :: after →
        replay S (before.map Prod.fst) = some (S₁, paid) →
        Replay.step S₁ txn = some (S₂, paid') →
        ∀ x, S₂.balance x < S₁.balance x → Entitled domain S₁ x (txn, entry) := by
  subst hroot
  obtain ⟨S', hreplay, hnew, -⟩ := verifyBatch_sound hideal Set.subset_union_left
    Set.subset_union_right hok
  have hrewrites := replay_rewrites hreplay
  refine ⟨S', _, hreplay, hnew.symm, fun x account => hrewrites.owner, ?_,
    replay_nonce hreplay, ?_⟩
  · intro x hx
    exact hrewrites.untouched fun ⟨txn, hmem, htouches⟩ => hx txn hmem htouches
  · intro before txn entry after S₁ S₂ paid paid' hsplit hbefore hstep x hless
    simp only [verifyBatch, bind_eq_ok, require_eq_ok, Except.ok.injEq, Prod.mk.injEq] at hok
    obtain ⟨_, -, r, hloop, -⟩ := hok
    rw [hsplit] at hloop
    have hsub : ∀ pair ∈ before ++ (txn, entry) :: after,
        txnStrings pair ⊆ (treeOf S).strings ∪ batchStrings batch sidecar := by
      rw [← hsplit]
      exact fun pair hpair string hstring => .inr ⟨pair, hpair, hstring⟩
    refine verifyTxns_entitled hideal Set.subset_union_left rfl hsub hloop hbefore ?_
    by_contra hspares
    rw [Replay.step_balance hstep hspares] at hless
    exact absurd hless (Nat.not_lt.mpr (Nat.le_add_right ..))

end Owners

section Sample
attribute [local instance] Crypto.unsigned

theorem sampleBatch_owners : ∃ S' payouts,
    replay (fun _ => none) sampleBatch.txns = some (S', payouts) ∧
      (treeOf S').root = leafHash sampleAddress ⟨1, 50000, sampleAddress⟩ ∧
      (∀ x account, (none : Option Account) = some account →
        ∃ account', S' x = some account' ∧ account'.authAddress = account.authAddress) ∧
      (∀ x, (∀ txn ∈ sampleBatch.txns, ¬txn.Touches x) → S' x = none) ∧
      (∀ x, nonceOf S' x = nonceOf (fun _ => none) x + spends x (fun _ => none) sampleBatch.txns) ∧
      ∀ before txn entry after S₁ S₂ paid paid',
        sampleBatch.txns.zip sampleSidecar.entries = before ++ (txn, entry) :: after →
        replay (fun _ => none) (before.map Prod.fst) = some (S₁, paid) →
        Replay.step S₁ txn = some (S₂, paid') →
        ∀ x, S₂.balance x < S₁.balance x → Entitled Word.zero S₁ x (txn, entry) :=
  only_owners_spend (sampleLeaves_ideal.mono sampleLeaves_subset) emptyTree_root
    sampleBatch_verifies

end Sample

end PaymentRollup
