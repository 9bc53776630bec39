import PaymentRollup.Lib.OneUse
import PaymentRollup.Rollup.Conservation
import PaymentRollup.Rollup.Execution

/-! # What is signed, and the guards against signing it twice

Payments and withdrawals are signed over a nonce that is derived from the account and is
never on the wire; requests carry the L1 request cursor, and exits are recorded by address.
-/
namespace PaymentRollup

/-- One signed message, with every field it binds. -/
inductive Authorization where
  | payment (domain : DeploymentDomain) (nonce : UInt64) (p : Payment)
  | withdrawal (domain : DeploymentDomain) (nonce : UInt64) (w : Withdrawal)
  | request (domain : DeploymentDomain) (nonce : UInt64) (address : Address)
      (recipient : L1Address)
  | exit (domain : DeploymentDomain) (address : Address) (recipient : L1Address)
deriving DecidableEq, Repr

namespace Authorization

def domain : Authorization → DeploymentDomain
  | .payment domain _ _ => domain
  | .withdrawal domain _ _ => domain
  | .request domain _ _ _ => domain
  | .exit domain _ _ => domain

/-- The bytes the signature is checked against. -/
def preimage : Authorization → Bytes
  | .payment domain nonce p => p.bytesToSign domain nonce
  | .withdrawal domain nonce w => w.bytesToSign domain nonce
  | .request domain nonce address recipient =>
    ascii ['W', 'R', 'E', 'Q'] ++ domain.bytes ++ toBeBytes nonce ++ address.bytes ++
      recipient.bytes
  | .exit domain address recipient =>
    ascii ['E', 'X', 'I', 'T'] ++ domain.bytes ++ address.bytes ++ recipient.bytes

section Layout

theorem bytesToSign_inj {domain domain' : DeploymentDomain} {tag tag' : Bytes}
    {sender sender' : Address} {nonce nonce' fee fee' : UInt64} {destination destination' : Word}
    {amount amount' : UInt64} (htag : tag.length = tag'.length)
    (h : bytesToSign domain tag sender nonce fee destination amount =
      bytesToSign domain' tag' sender' nonce' fee' destination' amount') :
    tag = tag' ∧ domain = domain' ∧ sender = sender' ∧ nonce = nonce' ∧ fee = fee' ∧
      destination = destination' ∧ amount = amount' := by
  simp only [bytesToSign, List.append_assoc] at h
  obtain ⟨htags, h⟩ := List.append_inj h htag
  obtain ⟨hdomain, h⟩ := word_append_inj h
  obtain ⟨hsender, h⟩ := word_append_inj h
  obtain ⟨hnonce, h⟩ := toBeBytes_append_inj h
  obtain ⟨hfee, h⟩ := toBeBytes_append_inj h
  obtain ⟨hdestination, hamount⟩ := word_append_inj h
  exact ⟨htags, hdomain, hsender, hnonce, hfee, hdestination, toBeBytes_inj hamount⟩

theorem bytesToSign_length (domain : DeploymentDomain) (tag : Bytes) (sender : Address)
    (nonce fee : UInt64) (destination : Word) (amount : UInt64) :
    (bytesToSign domain tag sender nonce fee destination amount).length = tag.length + 120 := by
  simp only [bytesToSign, List.length_append, Word.size, toBeBytes_length]

/-- How long each kind of message is; only payments and withdrawals share a length. -/
theorem preimage_length (a : Authorization) : a.preimage.length =
    match a with
    | .payment _ _ _ => 123
    | .withdrawal _ _ _ => 123
    | .request _ _ _ _ => 108
    | .exit _ _ _ => 100 := by
  cases a with
  | payment => exact bytesToSign_length ..
  | withdrawal => exact bytesToSign_length ..
  | request => simp only [preimage, ascii, List.length_append, List.length_map, Word.size,
      toBeBytes_length, List.length_cons, List.length_nil]
  | exit => simp only [preimage, ascii, List.length_append, List.length_map, Word.size,
      List.length_cons, List.length_nil]

theorem payment_inj {domain domain' : DeploymentDomain} {nonce nonce' : UInt64} {p p' : Payment}
    (h : p.bytesToSign domain nonce = p'.bytesToSign domain' nonce') :
    domain = domain' ∧ nonce = nonce' ∧ p = p' := by
  rcases p with ⟨⟨sender, fee⟩, receiver, amount⟩
  rcases p' with ⟨⟨sender', fee'⟩, receiver', amount'⟩
  obtain ⟨-, hdomain, hsender, hnonce, hfee, hreceiver, hamount⟩ := bytesToSign_inj rfl h
  dsimp only at hsender hfee hreceiver hamount
  subst hsender hfee hreceiver hamount
  exact ⟨hdomain, hnonce, rfl⟩

theorem withdrawal_inj {domain domain' : DeploymentDomain} {nonce nonce' : UInt64}
    {w w' : Withdrawal} (h : w.bytesToSign domain nonce = w'.bytesToSign domain' nonce') :
    domain = domain' ∧ nonce = nonce' ∧ w = w' := by
  rcases w with ⟨⟨sender, fee⟩, recipient, amount⟩
  rcases w' with ⟨⟨sender', fee'⟩, recipient', amount'⟩
  obtain ⟨-, hdomain, hsender, hnonce, hfee, hrecipient, hamount⟩ := bytesToSign_inj rfl h
  dsimp only at hsender hfee hrecipient hamount
  subst hsender hfee hrecipient hamount
  exact ⟨hdomain, hnonce, rfl⟩

theorem payment_ne_withdrawal (domain domain' : DeploymentDomain) (nonce nonce' : UInt64)
    (p : Payment) (w : Withdrawal) : p.bytesToSign domain nonce ≠ w.bytesToSign domain' nonce' := by
  intro h
  have hlength : signTagPayment.length = signTagWithdrawal.length := rfl
  exact absurd (bytesToSign_inj hlength h).1 (by decide)

theorem preimage_inj {a b : Authorization} (h : a.preimage = b.preimage) : a = b := by
  have hlength := congrArg List.length h
  rw [preimage_length, preimage_length] at hlength
  cases a with
  | payment domain nonce p =>
    cases b with
    | payment domain' nonce' p' =>
      obtain ⟨rfl, rfl, rfl⟩ := payment_inj h
      rfl
    | withdrawal domain' nonce' w' => exact absurd h (payment_ne_withdrawal _ _ _ _ _ _)
    | request => cases hlength
    | exit => cases hlength
  | withdrawal domain nonce w =>
    cases b with
    | payment domain' nonce' p' => exact absurd h.symm (payment_ne_withdrawal _ _ _ _ _ _)
    | withdrawal domain' nonce' w' =>
      obtain ⟨rfl, rfl, rfl⟩ := withdrawal_inj h
      rfl
    | request => cases hlength
    | exit => cases hlength
  | request domain nonce address recipient =>
    cases b with
    | payment => cases hlength
    | withdrawal => cases hlength
    | request domain' nonce' address' recipient' =>
      simp only [preimage, List.append_assoc, List.append_cancel_left_eq] at h
      obtain ⟨hdomain, h⟩ := word_append_inj h
      obtain ⟨hnonce, h⟩ := toBeBytes_append_inj h
      obtain ⟨haddress, hrecipient⟩ := word_append_inj h
      rw [hdomain, hnonce, haddress, word_inj hrecipient]
    | exit => cases hlength
  | exit domain address recipient =>
    cases b with
    | payment => cases hlength
    | withdrawal => cases hlength
    | request => cases hlength
    | exit domain' address' recipient' =>
      simp only [preimage, List.append_assoc, List.append_cancel_left_eq] at h
      obtain ⟨hdomain, h⟩ := word_append_inj h
      obtain ⟨haddress, hrecipient⟩ := word_append_inj h
      rw [hdomain, haddress, word_inj hrecipient]

end Layout

end Authorization

section Guards

/-- What the three guards have recorded: the nonces of the accounts, the requests accepted so
far and the addresses that left. -/
structure Guards where
  accounts : AccountMap
  requests : UInt64
  exits : Address → Option UInt64

/-- The nonce of an address; one that was never paid has none to use up yet. -/
def nonceOf (S : AccountMap) (address : Address) : ℕ := (S address).elim 0 fun a => a.nonce.toNat

def Authorization.Used (g : Guards) : Authorization → Prop
  | .payment _ nonce p => nonce.toNat ≤ nonceOf g.accounts p.header.sender
  | .withdrawal _ nonce w => nonce.toNat ≤ nonceOf g.accounts w.header.sender
  | .request _ nonce _ _ => nonce < g.requests
  | .exit _ address _ => (g.exits address).isSome

structure Guards.Advances (g g' : Guards) : Prop where
  nonces : ∀ address, nonceOf g.accounts address ≤ nonceOf g'.accounts address
  requests : g.requests.toNat ≤ g'.requests.toNat
  exits : ∀ address, (g.exits address).isSome → (g'.exits address).isSome

theorem Guards.Advances.used {g g' : Guards} (h : g.Advances g') (a : Authorization)
    (ha : a.Used g) : a.Used g' := by
  cases a with
  | payment domain nonce p => exact Nat.le_trans ha (h.nonces p.header.sender)
  | withdrawal domain nonce w => exact Nat.le_trans ha (h.nonces w.header.sender)
  | request domain nonce address recipient =>
    exact UInt64.lt_iff_toNat_lt.mpr (Nat.lt_of_lt_of_le (UInt64.lt_iff_toNat_lt.mp ha) h.requests)
  | exit domain address recipient => exact h.exits address ha

end Guards

section Nonces
variable {S S' : AccountMap}

theorem nonceOf_update (S : AccountMap) (address : Address) (account : Account) (b : Address) :
    nonceOf (Function.update S address (some account)) b =
      if b = address then account.nonce.toNat else nonceOf S b := by
  by_cases hb : b = address
  · subst hb
    simp [nonceOf]
  · simp [nonceOf, hb]

/-- The transaction uses up a nonce of the address. A forced withdrawal does so only where it
finds enough to be worth paying. -/
def Transaction.Spends (S : AccountMap) (address : Address) : Transaction → Prop
  | .payment p => p.header.sender = address
  | .deposit _ => False
  | .withdrawal w => w.header.sender = address
  | .forcedWithdrawal f => f.address = address ∧ minWithdrawal.toNat ≤ S.balance address

instance (S : AccountMap) (address : Address) :
    (txn : Transaction) → Decidable (txn.Spends S address)
  | .payment _ => inferInstanceAs (Decidable (_ = _))
  | .deposit _ => inferInstanceAs (Decidable False)
  | .withdrawal _ => inferInstanceAs (Decidable (_ = _))
  | .forcedWithdrawal _ => inferInstanceAs (Decidable (_ ∧ _))

namespace Replay

theorem debit_nonce {sender : Address} {amount fee : UInt64}
    (h : debit S sender amount fee = some S') (b : Address) :
    nonceOf S' b = nonceOf S b + if sender = b then 1 else 0 := by
  obtain ⟨account, post, haccount, hpost, rfl⟩ := debit_eq_some.mp h
  obtain ⟨nonce, balance, hnonce, -, rfl⟩ := Account.debited_eq_some.mp hpost
  rw [nonceOf_update]
  by_cases hb : b = sender
  · subst hb
    simp [nonceOf, haccount, checkedAdd_eq_some.mp hnonce]
  · simp [hb, Ne.symm hb]

theorem credit_nonce {receiver : Address} {amount : UInt64}
    (h : credit S receiver amount = some S') (b : Address) : nonceOf S' b = nonceOf S b := by
  obtain ⟨post, hpost, rfl⟩ := credit_eq_some.mp h
  obtain ⟨balance, -, rfl⟩ := Account.credited_eq_some.mp hpost
  rw [nonceOf_update]
  split_ifs with hb
  · subst hb
    cases haccount : S b <;> simp [nonceOf, haccount, Account.empty]
  · rfl

theorem creditFee_nonce {fee : UInt64} (h : creditFee S fee = some S') (b : Address) :
    nonceOf S' b = nonceOf S b := by
  rcases creditFee_eq_some.mp h with ⟨-, rfl⟩ | ⟨-, hcredit⟩
  · rfl
  · exact credit_nonce hcredit b

theorem step_nonce {txn : Transaction} {payouts : List Payout}
    (h : step S txn = some (S', payouts)) (b : Address) :
    nonceOf S' b = nonceOf S b + if txn.Spends S b then 1 else 0 := by
  cases step_cases h with
  | payment hdebit hcredit hfee =>
    rw [creditFee_nonce hfee, credit_nonce hcredit, debit_nonce hdebit]
    rfl
  | deposit hcredit =>
    rw [credit_nonce hcredit]
    simp [Transaction.Spends]
  | withdrawal hmin hdebit hfee =>
    rw [creditFee_nonce hfee, debit_nonce hdebit]
    rfl
  | @emptied f account nonce haccount hmin hnonce =>
    rw [nonceOf_update]
    by_cases hb : b = f.address
    · subst hb
      have hspends : (Transaction.forcedWithdrawal f).Spends S f.address :=
        ⟨rfl, by rw [AccountMap.balance_some haccount]; exact UInt64.le_iff_toNat_le.mp hmin⟩
      simp [hspends, nonceOf, haccount, checkedAdd_eq_some.mp hnonce]
    · simp [hb, Transaction.Spends, Ne.symm hb]
  | @spared f hdust =>
    have hspares : ¬(Transaction.forcedWithdrawal f).Spends S b := by
      rintro ⟨rfl, hmin⟩
      cases haccount : S f.address with
      | none => simp [AccountMap.balance, haccount, minWithdrawal] at hmin
      | some account =>
        have hsmall := UInt64.lt_iff_toNat_lt.mp (hdust account haccount)
        rw [AccountMap.balance_some haccount] at hmin
        omega
    simp [hspares]

theorem step_nonce_le {txn : Transaction} {payouts : List Payout}
    (h : step S txn = some (S', payouts)) (b : Address) : nonceOf S b ≤ nonceOf S' b := by
  rw [step_nonce h]
  exact Nat.le_add_right ..

end Replay

end Nonces

section Batches
variable [Crypto]

/-- The nonce a debit derives from the account its witness claims. -/
def LeafWitness.nextNonce (witness : LeafWitness) : Option UInt64 :=
  witness.oldAccount.bind fun account => checkedAdd account.nonce 1

/-- What a transaction has to have had signed. -/
def signedIn (domain : DeploymentDomain) : Transaction × TxnSidecar → Option Authorization
  | (.payment payment, .payment entry) =>
    entry.senderWitness.nextNonce.map fun nonce => .payment domain nonce payment
  | (.withdrawal withdrawal, .withdrawal entry) =>
    entry.senderWitness.nextNonce.map fun nonce => .withdrawal domain nonce withdrawal
  | _ => none

def TxnSidecar.sig? : TxnSidecar → Option Signature
  | .payment entry => some entry.sig
  | .withdrawal entry => some entry.sig
  | _ => none

/-- Every message a guest execution checked a signature over, in order. -/
def Execution.authorizations (usize : ℕ) (x : Execution) : List Authorization :=
  match Batch.decode usize x.batchBytes with
  | .error _ => []
  | .ok batch =>
    match Sidecar.decode usize x.sidecarBytes batch with
    | .error _ => []
    | .ok sidecar => (batch.txns.zip sidecar.entries).filterMap (signedIn x.domain)

theorem debit_signed {sender : Address} {witness : LeafWitness} {sig : Signature}
    {amount fee : UInt64} {root root' : Word} {message : UInt64 → Bytes}
    (h : debit sender witness sig amount fee root message = .ok root') :
    ∃ nonce account, witness.nextNonce = some nonce ∧
      sig.verify account (message nonce) = .ok () := by
  obtain ⟨-, account, post, haccount, hpost, hsig, -⟩ := debit_eq_ok.mp h
  obtain ⟨nonce, balance, hnonce, -, rfl⟩ := Account.debited_eq_some.mp hpost
  exact ⟨nonce, _, by rw [LeafWitness.nextNonce, haccount, Option.bind_some, hnonce], hsig⟩

def Signature.Signs (sig : Signature) (message : Bytes) : Prop :=
  sig.scheme.verify sig.pubKey sig.sig message = .ok ()

theorem Signature.signs_of_verify {sig : Signature} {account : Account} {message : Bytes}
    (h : sig.verify account message = .ok ()) : sig.Signs message := by
  simp only [Signature.verify, bind_eq_ok] at h
  obtain ⟨-, -, hsigns⟩ := h
  exact hsigns

theorem verifyTxn_signed {domain : DeploymentDomain} {r r' : Replaying}
    {pair : Transaction × TxnSidecar} (hok : verifyTxn domain r pair = .ok r') :
    Option.Rel (fun sig a => sig.Signs a.preimage) pair.2.sig? (signedIn domain pair) := by
  rcases pair with ⟨txn, entry⟩
  cases txn with
  | payment p =>
    cases entry with
    | payment e =>
      simp only [verifyTxn, bind_eq_ok] at hok
      obtain ⟨_, hdebit, -⟩ := hok
      obtain ⟨nonce, account, hnonce, hverify⟩ := debit_signed hdebit
      rw [signedIn, hnonce, Option.map_some]
      exact .some (Signature.signs_of_verify hverify)
    | _ => cases hok
  | withdrawal w =>
    cases entry with
    | withdrawal e =>
      simp only [verifyTxn, bind_eq_ok] at hok
      obtain ⟨_, -, _, hdebit, -⟩ := hok
      obtain ⟨nonce, account, hnonce, hverify⟩ := debit_signed hdebit
      rw [signedIn, hnonce, Option.map_some]
      exact .some (Signature.signs_of_verify hverify)
    | _ => cases hok
  | deposit d =>
    cases entry with
    | deposit e => exact .none
    | _ => cases hok
  | forcedWithdrawal f =>
    cases entry with
    | forcedWithdrawal e => exact .none
    | _ => cases hok

theorem verifyTxns_signed {domain : DeploymentDomain} {r r' : Replaying}
    {pairs : List (Transaction × TxnSidecar)}
    (hok : pairs.foldlM (verifyTxn domain) r = .ok r') :
    List.Forall₂ (fun sig a => sig.Signs a.preimage) (pairs.filterMap fun pair => pair.2.sig?)
      (pairs.filterMap (signedIn domain)) := by
  induction pairs generalizing r with
  | nil => exact .nil
  | cons pair rest ih =>
    simp only [List.foldlM_cons, bind_eq_ok] at hok
    obtain ⟨r₁, hfirst, hrest⟩ := hok
    have hpair := verifyTxn_signed hfirst
    rw [List.filterMap_cons, List.filterMap_cons]
    generalize pair.2.sig? = sig at hpair
    generalize signedIn domain pair = a at hpair
    cases hpair with
    | none => exact ih hrest
    | some hsigns => exact .cons hsigns (ih hrest)

def Execution.signatures (usize : ℕ) (x : Execution) : List Signature :=
  match Batch.decode usize x.batchBytes with
  | .error _ => []
  | .ok batch =>
    match Sidecar.decode usize x.sidecarBytes batch with
    | .error _ => []
    | .ok sidecar => (batch.txns.zip sidecar.entries).filterMap fun pair => pair.2.sig?

theorem Execution.Commits.signed {usize : ℕ} {x : Execution} {bytes : Bytes}
    (h : x.Commits usize bytes) : List.Forall₂ (fun sig a => sig.Signs a.preimage)
      (x.signatures usize) (x.authorizations usize) := by
  obtain ⟨batch, sidecar, newRoot, inbox, wchain, hbatch, hsidecar, hverify, -⟩ :=
    commits_iff.mp h
  simp only [verifyBatch, bind_eq_ok] at hverify
  obtain ⟨_, -, r, hloop, -⟩ := hverify
  simp only [signatures, authorizations, hbatch, hsidecar]
  exact verifyTxns_signed hloop

variable {Q : Set Bytes} {S S' : AccountMap}

theorem debit_fresh (hQ : Ideal Q) (hS : (treeOf S).strings ⊆ Q) {sender : Address}
    {witness : LeafWitness} {sig : Signature} {amount fee : UInt64} {root' : Word}
    {message : UInt64 → Bytes} (hsub : debitStrings sender witness amount fee ⊆ Q)
    (hok : debit sender witness sig amount fee (treeOf S).root message = .ok root')
    {nonce : UInt64} (hnonce : witness.nextNonce = some nonce) :
    nonce.toNat = nonceOf S sender + 1 := by
  obtain ⟨hpre, account, post, hold, hpost, -⟩ := debit_eq_ok.mp hok
  unfold debitStrings at hsub
  simp only [hold, Option.bind_some, hpost] at hsub
  have hS' := (pre_sound hQ hS hsub hpre).1
  rw [LeafWitness.nextNonce, hold, Option.bind_some] at hnonce
  rw [checkedAdd_eq_some.mp hnonce, nonceOf, ← hS', hold]
  rfl

theorem verifyTxn_uses (hQ : Ideal Q) (hS : (treeOf S).strings ⊆ Q) {domain : DeploymentDomain}
    {r r' : Replaying} {txn : Transaction} {entry : TxnSidecar} {paid : List Payout}
    (hroot : r.root = (treeOf S).root) (hsub : txnStrings (txn, entry) ⊆ Q)
    (hok : verifyTxn domain r (txn, entry) = .ok r')
    (hstep : Replay.step S txn = some (S', paid)) {a : Authorization}
    (ha : signedIn domain (txn, entry) = some a) (requests : UInt64)
    (exits : Address → Option UInt64) :
    ¬a.Used ⟨S, requests, exits⟩ ∧ a.Used ⟨S', requests, exits⟩ ∧ a.domain = domain := by
  cases txn with
  | payment p =>
    cases entry with
    | payment e =>
      simp only [txnStrings, Set.union_subset_iff] at hsub
      simp only [verifyTxn, bind_eq_ok, hroot] at hok
      obtain ⟨_, hdebit, -⟩ := hok
      obtain ⟨nonce, hnonce, rfl⟩ := Option.map_eq_some_iff.mp ha
      have hfresh := debit_fresh hQ hS hsub.1 hdebit hnonce
      have hspends : (Transaction.payment p).Spends S p.header.sender := rfl
      have hafter := Replay.step_nonce hstep p.header.sender
      rw [if_pos hspends, ← hfresh] at hafter
      refine ⟨?_, hafter.ge, rfl⟩
      intro hused
      exact absurd (hfresh.symm.trans_le hused) (Nat.not_succ_le_self _)
    | _ => cases ha
  | withdrawal w =>
    cases entry with
    | withdrawal e =>
      simp only [txnStrings, Set.union_subset_iff] at hsub
      simp only [verifyTxn, bind_eq_ok, hroot] at hok
      obtain ⟨_, -, _, hdebit, -⟩ := hok
      obtain ⟨nonce, hnonce, rfl⟩ := Option.map_eq_some_iff.mp ha
      have hfresh := debit_fresh hQ hS hsub.1 hdebit hnonce
      have hspends : (Transaction.withdrawal w).Spends S w.header.sender := rfl
      have hafter := Replay.step_nonce hstep w.header.sender
      rw [if_pos hspends, ← hfresh] at hafter
      refine ⟨?_, hafter.ge, rfl⟩
      intro hused
      exact absurd (hfresh.symm.trans_le hused) (Nat.not_succ_le_self _)
    | _ => cases ha
  | deposit d => cases entry <;> cases ha
  | forcedWithdrawal f => cases entry <;> cases ha

omit [Crypto] in
theorem Guards.Advances.replay {txns : List Transaction} {payouts : List Payout}
    (h : replay S txns = some (S', payouts)) (requests : UInt64)
    (exits : Address → Option UInt64) :
    Guards.Advances ⟨S, requests, exits⟩ ⟨S', requests, exits⟩ := by
  refine ⟨?_, le_rfl, fun _ => id⟩
  induction txns generalizing S payouts with
  | nil =>
    cases h
    exact fun _ => le_rfl
  | cons txn rest ih =>
    obtain ⟨S₁, paid, later, hstep, hrest, -⟩ := replay_cons_eq_some.mp h
    intro address
    exact (Replay.step_nonce_le hstep address).trans (ih hrest address)

theorem verifyTxns_use (hQ : Ideal Q) (hS : (treeOf S).strings ⊆ Q) {domain : DeploymentDomain}
    {r r' : Replaying} {txns : List Transaction} {entries : List TxnSidecar}
    {payouts : List Payout} (hlen : txns.length = entries.length)
    (hroot : r.root = (treeOf S).root)
    (hsub : ∀ pair ∈ txns.zip entries, txnStrings pair ⊆ Q)
    (hok : (txns.zip entries).foldlM (verifyTxn domain) r = .ok r')
    (hreplay : replay S txns = some (S', payouts)) (requests : UInt64)
    (exits : Address → Option UInt64) :
    OneUse Authorization.Used ⟨S', requests, exits⟩
        ((txns.zip entries).filterMap (signedIn domain)) ∧
      ∀ a ∈ (txns.zip entries).filterMap (signedIn domain),
        ¬a.Used ⟨S, requests, exits⟩ ∧ a.domain = domain := by
  induction txns generalizing S r entries payouts with
  | nil => exact ⟨OneUse.nil, fun _ ha => nomatch ha⟩
  | cons txn rest ih =>
    cases entries with
    | nil => cases hlen
    | cons entry entries =>
      simp only [List.zip_cons_cons, List.foldlM_cons, bind_eq_ok] at hok
      obtain ⟨r₁, hverified, hrest⟩ := hok
      have hpair : txnStrings (txn, entry) ⊆ Q := hsub _ (by simp)
      obtain ⟨S₁, paid, hS₁, hroot₁, hstrings, -⟩ := verifyTxn_sound hQ hS hroot hpair hverified
      obtain ⟨S₂, paid₂, later, hstep, hlater, -⟩ := replay_cons_eq_some.mp hreplay
      cases hS₁.symm.trans hstep
      obtain ⟨hone, hfresh⟩ := ih hstrings (Nat.succ_injective hlen) hroot₁
        (fun pair hmem => hsub pair (List.mem_cons_of_mem _ hmem)) hrest hlater
      have hlast := Guards.Advances.replay hlater requests exits
      have hfirst : Guards.Advances ⟨S, requests, exits⟩ ⟨S₁, requests, exits⟩ :=
        ⟨Replay.step_nonce_le hstep, le_rfl, fun _ => id⟩
      rw [List.zip_cons_cons, List.filterMap_cons]
      cases ha : signedIn domain (txn, entry) with
      | none => exact ⟨hone, fun a hmem =>
          ⟨fun hused => (hfresh a hmem).1 (hfirst.used a hused), (hfresh a hmem).2⟩⟩
      | some a =>
        obtain ⟨hunused, hused, hdomain⟩ :=
          verifyTxn_uses hQ hS hroot hpair hverified hstep ha requests exits
        have hnone : OneUse Authorization.Used ⟨S₁, requests, exits⟩ [a] :=
          OneUse.nil.accept hunused hfirst.used hused
        refine ⟨hnone.append (fun b hmem => (hfresh b hmem).1) hlast.used hone, ?_⟩
        intro b hb
        rcases List.mem_cons.mp hb with rfl | hmem
        · exact ⟨hunused, hdomain⟩
        · exact ⟨fun hearly => (hfresh b hmem).1 (hfirst.used b hearly), (hfresh b hmem).2⟩

/-- A settled execution uses each of its messages once, none of them used before. -/
theorem Execution.Settles.uses (hQ : Ideal Q) {usize : ℕ} {x : Execution} {batch : Batch}
    {sidecar : Sidecar} {bytes : Bytes} (h : x.Settles usize Q S S' batch sidecar bytes)
    (hS : (treeOf S).strings ⊆ Q) (requests : UInt64) (exits : Address → Option UInt64) :
    OneUse Authorization.Used ⟨S', requests, exits⟩ (x.authorizations usize) ∧
      ∀ a ∈ x.authorizations usize, ¬a.Used ⟨S, requests, exits⟩ ∧ a.domain = x.domain := by
  obtain ⟨inbox, wchain, hverified⟩ := h.verified
  simp only [verifyBatch, bind_eq_ok, require_eq_ok, Except.ok.injEq, Prod.mk.injEq] at hverified
  obtain ⟨_, hlen, r, hloop, -⟩ := hverified
  have hstrings : batchStrings batch sidecar ⊆ Q := Set.subset_union_left.trans h.hashed
  simp only [Execution.authorizations, h.decoded, h.witnessed]
  exact verifyTxns_use hQ hS hlen rfl (fun pair hpair _ hx => hstrings ⟨pair, hpair, hx⟩) hloop
    h.replayed requests exits

end Batches

end PaymentRollup
