import PaymentRollup.Rollup.HostSettlement

/-! # A block over one account

Deposits to one account and then withdrawals from it, as many as its balance allows.
-/
namespace PaymentRollup.Ledger

variable [Crypto] {b : Building} {owner : Address} {account : Account} {amount : UInt64}
  {key : Bytes}

def held (l : Ledger) (owner : Address) : Account :=
  (l.accounts owner).getD (Account.empty owner)

omit [Crypto] in
theorem held_update {l : Ledger} {S : AccountMap}
    (h : l.accounts = Function.update S owner (some account)) : l.held owner = account := by
  rw [held, h, Function.update_self, Option.getD_some]

theorem stateRoot_single {l : Ledger} (hl : l.Consistent)
    (h : l.accounts = Function.update (fun _ => none) owner (some account)) :
    l.stateRoot = leafHash owner account := by
  have htree := treeOf_update (fun _ => none) owner (some account)
  rw [treeOf_none] at htree
  rw [stateRoot, hl, h, ← htree]
  rfl

theorem Building.deposit_step (b : Building) (owner : Address) (amount : UInt64)
    (hfits : (b.ledger.held owner).amount.toNat + amount.toNat < 2 ^ 64) :
    ∃ b' total, b.step (.deposit ⟨owner, amount⟩) = some b' ∧
      total.toNat = (b.ledger.held owner).amount.toNat + amount.toNat ∧
      b'.ledger.accounts = Function.update b.ledger.accounts owner
        (some { b.ledger.held owner with amount := total }) ∧
      b'.payouts = b.payouts := by
  obtain ⟨total, hsum⟩ := exists_checkedAdd hfits
  let account : Account := { b.ledger.held owner with amount := total }
  have hcredit : b.ledger.credit owner amount =
      some (b.ledger.witness owner, b.ledger.insertAccount owner account) := by
    rw [held] at hsum
    simp only [credit, hsum, Option.bind_eq_bind, Option.bind_some]
    rfl
  have hstep : b.step (.deposit ⟨owner, amount⟩) = some (b.push
      { b.ledger.insertAccount owner account with
        inboxChain := accumulateDeposit b.ledger.inboxChain owner amount } []
      (.deposit ⟨owner, amount⟩) (.deposit ⟨b.ledger.witness owner⟩)) := by
    simp only [step, hcredit, Option.bind_eq_bind, Option.bind_some]
    rfl
  exact ⟨_, total, hstep, checkedAdd_eq_some.mp hsum, rfl, List.append_nil _⟩

theorem Building.deposits_run (n : ℕ)
    (hfits : (b.ledger.held owner).amount.toNat + (n + 1) * amount.toNat < 2 ^ 64) :
    ∃ b' total, (List.replicate (n + 1) (SignedTransaction.deposit ⟨owner, amount⟩)).foldlM
        Building.step b = some b' ∧
      total.toNat = (b.ledger.held owner).amount.toNat + (n + 1) * amount.toNat ∧
      b'.ledger.accounts = Function.update b.ledger.accounts owner
        (some { b.ledger.held owner with amount := total }) ∧
      b'.payouts = b.payouts := by
  induction n generalizing b with
  | zero =>
    rw [Nat.zero_add, Nat.one_mul] at hfits
    obtain ⟨b', total, hstep, htotal, hkept⟩ := Building.deposit_step b owner amount hfits
    refine ⟨b', total, ?_, ?_, hkept⟩
    · rw [List.replicate_one, List.foldlM_cons, hstep]
      rfl
    · rw [htotal, Nat.zero_add, Nat.one_mul]
  | succ n ih =>
    rw [Nat.succ_mul] at hfits
    obtain ⟨b₁, sum, hstep, hsum, haccounts, hpayouts⟩ :=
      Building.deposit_step b owner amount (by omega)
    have hheld := held_update haccounts
    obtain ⟨b', total, hrest, htotal, haccounts', hpayouts'⟩ :=
      ih (b := b₁) (by rw [hheld]; simp only; omega)
    rw [hheld] at htotal haccounts'
    refine ⟨b', total, ?_, ?_, ?_, hpayouts'.trans hpayouts⟩
    · rw [List.replicate_succ, List.foldlM_cons, hstep]
      exact hrest
    · simp only [htotal, hsum, Nat.succ_mul (n + 1)]
      omega
    · rw [haccounts', haccounts, Function.update_idem]

theorem Building.withdrawal_step (recipient : L1Address)
    (haccount : b.ledger.accounts owner = some account)
    (howner : addressFromPublicKey .managed key = account.authAddress)
    (hmin : minWithdrawal ≤ amount) (hcovers : amount.toNat ≤ account.amount.toNat)
    (hnonce : account.nonce.toNat + 1 < 2 ^ 64) :
    ∃ b' nonce left, b.step (.withdrawal ⟨⟨owner, 0⟩, recipient, amount⟩ ⟨.managed, key, []⟩) =
        some b' ∧ nonce.toNat = account.nonce.toNat + 1 ∧
      left.toNat + amount.toNat = account.amount.toNat ∧
      b'.ledger.accounts = Function.update b.ledger.accounts owner
        (some ⟨nonce, left, account.authAddress⟩) ∧
      b'.payouts = b.payouts ++ [(recipient, amount)] := by
  obtain ⟨nonce, hbump⟩ := exists_checkedAdd (a := account.nonce) (b := 1) hnonce
  obtain ⟨left, hleft⟩ : ∃ left, checkedSub account.amount amount = some left :=
    ⟨_, if_pos hcovers⟩
  have hsum := checkedSub_eq_some.mp hleft
  have hzero : checkedSub left 0 = some left := checkedSub_eq_some.mpr rfl
  let withdrawal : Withdrawal := ⟨⟨owner, 0⟩, recipient, amount⟩
  let paid : Account := ⟨nonce, left, account.authAddress⟩
  have hsigned : (Signature.verify ⟨.managed, key, []⟩ { account with nonce }
      (withdrawal.bytesToSign b.ledger.domain nonce)).toOption = some () := by
    simp [Signature.verify, Signature.verifyAuth, Signature.address, howner, Scheme.verify,
      Except.toOption]
  have hdebit : b.ledger.debit owner amount 0 ⟨.managed, key, []⟩
      (fun nonce => withdrawal.bytesToSign b.ledger.domain nonce) =
        some (b.ledger.witness owner, b.ledger.insertAccount owner paid) := by
    have hbumped : account.bumpNonce.toOption = some { account with nonce } := by
      rw [Account.bumpNonce, hbump]
      rfl
    simp only [debit, haccount, hbumped, hsigned, hleft, hzero, Option.bind_eq_bind,
      Option.bind_some]
    rfl
  have hstep : b.step (.withdrawal withdrawal ⟨.managed, key, []⟩) = some (b.push
      (b.ledger.insertAccount owner paid) [(recipient, amount)] (.withdrawal withdrawal)
      (.withdrawal ⟨⟨.managed, key, []⟩, b.ledger.witness owner, none⟩)) := by
    have hlarge : minWithdrawal ≤ withdrawal.amount := hmin
    rw [step, if_pos hlarge]
    simp only [withdrawal, hdebit, Option.bind_eq_bind, Option.bind_some]
    rfl
  exact ⟨_, nonce, left, hstep, checkedAdd_eq_some.mp hbump, hsum.symm, rfl, rfl⟩

theorem Building.withdrawals_run (recipient : L1Address) (m : ℕ)
    (haccount : b.ledger.accounts owner = some account)
    (howner : addressFromPublicKey .managed key = account.authAddress)
    (hmin : minWithdrawal ≤ amount) (hcovers : m * amount.toNat ≤ account.amount.toNat)
    (hnonce : account.nonce.toNat + m < 2 ^ 64) :
    ∃ b' nonce left, (List.replicate m (SignedTransaction.withdrawal
          ⟨⟨owner, 0⟩, recipient, amount⟩ ⟨.managed, key, []⟩)).foldlM Building.step b = some b' ∧
      nonce.toNat = account.nonce.toNat + m ∧
      left.toNat + m * amount.toNat = account.amount.toNat ∧
      b'.ledger.accounts = Function.update b.ledger.accounts owner
        (some ⟨nonce, left, account.authAddress⟩) ∧
      b'.payouts = b.payouts ++ List.replicate m (recipient, amount) := by
  induction m generalizing b account with
  | zero =>
    refine ⟨b, account.nonce, account.amount, rfl, rfl, ?_, ?_, (List.append_nil _).symm⟩
    · rw [Nat.zero_mul, Nat.add_zero]
    · rw [← haccount, Function.update_eq_self]
  | succ m ih =>
    rw [Nat.succ_mul] at hcovers
    obtain ⟨b₁, nonce₁, left₁, hstep, hnonce₁, hleft₁, haccounts₁, hpayouts₁⟩ :=
      Building.withdrawal_step recipient haccount howner hmin (by omega) (by omega)
    have hfound : b₁.ledger.accounts owner = some ⟨nonce₁, left₁, account.authAddress⟩ := by
      rw [haccounts₁, Function.update_self]
    obtain ⟨b', nonce, left, hrest, hnonce', hleft, haccounts, hpayouts⟩ :=
      ih hfound howner (by simp only; omega) (by simp only; omega)
    simp only at hnonce' hleft haccounts
    refine ⟨b', nonce, left, ?_, by omega, ?_, ?_, ?_⟩
    · rw [List.replicate_succ, List.foldlM_cons, hstep]
      exact hrest
    · rw [Nat.succ_mul]
      omega
    · rw [haccounts, haccounts₁, Function.update_idem]
    · rw [hpayouts, hpayouts₁, List.append_assoc, List.replicate_succ, List.singleton_append]

/-- Deposits to an account under a managed key, and withdrawals from it. -/
def drainTxns (owner : Address) (key : Bytes) (recipient : L1Address) (amount paid : UInt64)
    (n m : ℕ) : List SignedTransaction :=
  List.replicate n (.deposit ⟨owner, amount⟩) ++
    List.replicate m (.withdrawal ⟨⟨owner, 0⟩, recipient, paid⟩ ⟨.managed, key, []⟩)

omit [Crypto] in
theorem drainTxns_inbox (owner : Address) (key : Bytes) (recipient : L1Address)
    (amount paid : UInt64) (n m : ℕ) :
    inboxItems ((drainTxns owner key recipient amount paid n m).map SignedTransaction.txn) =
      List.replicate n (.deposit owner amount) := by
  simp [drainTxns, inboxItems, List.filterMap_replicate, SignedTransaction.txn,
    Transaction.inboxItem?]

theorem getBlock_drains {l : Ledger} (hl : l.Consistent) (owner : Address) (key : Bytes)
    (recipient : L1Address) (amount paid : UInt64) (n m : ℕ)
    (howner : addressFromPublicKey .managed key = (l.held owner).authAddress)
    (hfits : (l.held owner).amount.toNat + (n + 1) * amount.toNat < 2 ^ 64)
    (hmin : minWithdrawal ≤ paid)
    (hcovers : m * paid.toNat ≤ (l.held owner).amount.toNat + (n + 1) * amount.toNat)
    (hnonce : (l.held owner).nonce.toNat + m < 2 ^ 64) :
    ∃ block l' nonce left, l.getBlock (drainTxns owner key recipient amount paid (n + 1) m) =
        some (block, l') ∧
      nonce.toNat = (l.held owner).nonce.toNat + m ∧
      left.toNat + m * paid.toNat = (l.held owner).amount.toNat + (n + 1) * amount.toNat ∧
      l'.accounts = Function.update l.accounts owner
        (some ⟨nonce, left, (l.held owner).authAddress⟩) ∧
      withdrawalPayouts block.batch block.sidecar = List.replicate m (recipient, paid) := by
  obtain ⟨b₁, total, hdeposits, htotal, haccounts₁, hpayouts₁⟩ :=
    Building.deposits_run (b := ⟨l, [], [], []⟩) n hfits
  have hfound : b₁.ledger.accounts owner = some { l.held owner with amount := total } := by
    rw [haccounts₁, Function.update_self]
  obtain ⟨b', nonce, left, hwithdrawals, hnonce', hleft, haccounts, hpayouts⟩ :=
    Building.withdrawals_run recipient m hfound howner hmin
      (by simp only [htotal]; exact hcovers) hnonce
  have hrun : (drainTxns owner key recipient amount paid (n + 1) m).foldlM Building.step
      ⟨l, [], [], []⟩ = some b' := by
    rw [drainTxns, List.foldlM_append, hdeposits]
    exact hwithdrawals
  have hbuilt := (built_start hl).run hrun
  have hpaidOut : b'.payouts = withdrawalPayouts ⟨b'.txns⟩ ⟨b'.entries⟩ :=
    verifyTxns_payouts hbuilt.verified
  simp only at hleft htotal
  rw [htotal] at hleft
  obtain ⟨block, hblock, hbatch, hsidecar⟩ : ∃ block,
      l.getBlock (drainTxns owner key recipient amount paid (n + 1) m) = some (block, b'.ledger) ∧
      block.batch = ⟨b'.txns⟩ ∧ block.sidecar = ⟨b'.entries⟩ := by
    rw [getBlock, hrun]
    exact ⟨_, rfl, rfl, rfl⟩
  refine ⟨block, b'.ledger, nonce, left, hblock, hnonce', hleft, ?_, ?_⟩
  · rw [haccounts, haccounts₁, Function.update_idem]
  · rw [hbatch, hsidecar, ← hpaidOut, hpayouts, hpayouts₁]
    rfl

end PaymentRollup.Ledger
