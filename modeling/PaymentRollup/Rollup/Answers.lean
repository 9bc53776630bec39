import PaymentRollup.Rollup.Authorization
import PaymentRollup.Rollup.HostSettlement

/-! # Whatever L1 orders can be answered

A sequencer that holds the accounts can build a batch of any inbox entries: a deposit is
credited and a request pays the whole balance or nothing. Only sums that leave 64 bits could
stop it, so the entries still to come are part of what each step keeps room for.
-/
namespace PaymentRollup

section Entries

def InboxItem.txn : InboxItem → Transaction
  | .deposit recipient amount => .deposit ⟨recipient, amount⟩
  | .forcedWithdrawal address recipient => .forcedWithdrawal ⟨address, recipient⟩

def InboxItem.signed : InboxItem → SignedTransaction
  | .deposit recipient amount => .deposit ⟨recipient, amount⟩
  | .forcedWithdrawal address recipient => .forcedWithdrawal ⟨address, recipient⟩

def InboxItem.isRequest : InboxItem → Bool
  | .deposit _ _ => false
  | .forcedWithdrawal _ _ => true

def requestCount (items : List InboxItem) : ℕ := items.countP InboxItem.isRequest

@[simp] theorem InboxItem.signed_txn (item : InboxItem) : item.signed.txn = item.txn := by
  cases item <;> rfl

@[simp] theorem InboxItem.txn_inboxItem? (item : InboxItem) : item.txn.inboxItem? = some item := by
  cases item <;> rfl

theorem inboxItems_map_txn (items : List InboxItem) :
    inboxItems (items.map InboxItem.txn) = items := by
  induction items with
  | nil => rfl
  | cons item rest ih =>
    rw [List.map_cons, inboxItems, List.filterMap_cons, InboxItem.txn_inboxItem?]
    exact congrArg (item :: ·) ih

/-- No balance or nonce can leave 64 bits while these entries are answered. The nonce of an
account with few requests ahead is safe; any other only grows by giving up value. -/
structure Room (S : AccountMap) (items : List InboxItem) : Prop where
  value : S.total + depositTotal items < 2 ^ 64
  nonces : ∀ address, nonceOf S address + requestCount items < 2 ^ 64 ∨
    minWithdrawal.toNat * nonceOf S address + (S.total + depositTotal items) < 2 ^ 64

theorem depositTotal_cons (item : InboxItem) (rest : List InboxItem) :
    depositTotal (item :: rest) = item.amount + depositTotal rest := by
  simp [depositTotal]

theorem requestCount_cons (item : InboxItem) (rest : List InboxItem) :
    requestCount (item :: rest) = requestCount rest + if item.isRequest then 1 else 0 :=
  List.countP_cons

variable {S S' : AccountMap} {item : InboxItem} {rest : List InboxItem}

theorem Room.nonce (h : Room S (item :: rest)) (hrequest : item.isRequest = true)
    {address : Address} {account : Account} (haccount : S address = some account)
    (hmin : minWithdrawal ≤ account.amount) : account.nonce.toNat + 1 < 2 ^ 64 := by
  have hnonce : nonceOf S address = account.nonce.toNat := by
    rw [nonceOf, haccount]
    rfl
  have htotal := AccountMap.balance_le_total S address
  rw [AccountMap.balance_some haccount] at htotal
  rw [UInt64.le_iff_toNat_le] at hmin
  have hpositive : minWithdrawal.toNat = 100000 := rfl
  rcases h.nonces address with hfew | hvalue
  · rw [hnonce, requestCount_cons, if_pos hrequest] at hfew
    omega
  · rw [hnonce, hpositive] at hvalue
    omega

theorem Room.step (h : Room S (item :: rest)) {paid : List Payout}
    (hstep : Replay.step S item.txn = some (S', paid)) : Room S' rest := by
  have htotal := (Replay.step_total hstep).1
  have hitems : depositTotal (inboxItems [item.txn]) = item.amount := by
    rw [inboxItems, List.filterMap_cons, InboxItem.txn_inboxItem?]
    exact Nat.add_zero _
  have hvalue := h.value
  rw [depositTotal_cons] at hvalue
  rw [hitems] at htotal
  refine ⟨by omega, ?_⟩
  intro address
  have hnonces := h.nonces address
  have hnonce := Replay.step_nonce hstep address
  rw [depositTotal_cons, requestCount_cons] at hnonces
  cases item with
  | deposit recipient amount =>
    rw [if_neg (by exact not_false), Nat.add_zero] at hnonce
    rw [hnonce]
    simp only [InboxItem.isRequest, Bool.false_eq_true, ↓reduceIte] at hnonces
    omega
  | forcedWithdrawal owner recipient =>
    simp only [InboxItem.isRequest, ↓reduceIte] at hnonces
    by_cases hspends : (InboxItem.forcedWithdrawal owner recipient).txn.Spends S address
    · rw [if_pos hspends] at hnonce
      -- A nonce is only used up by paying out at least the minimum.
      have hpaid : minWithdrawal.toNat ≤ payoutTotal paid := by
        cases Replay.step_cases hstep with
        | @emptied f account nonce haccount hmin =>
          simpa [payoutTotal] using UInt64.le_iff_toNat_le.mp hmin
        | @spared f hdust =>
          obtain ⟨rfl, hmin⟩ := hspends
          cases haccount : S owner with
          | none => simp [AccountMap.balance, haccount, minWithdrawal] at hmin
          | some account =>
            have hsmall := UInt64.lt_iff_toNat_lt.mp (hdust account haccount)
            rw [AccountMap.balance_some haccount] at hmin
            omega
      rw [hnonce, Nat.mul_add]
      omega
    · rw [if_neg hspends, Nat.add_zero] at hnonce
      rw [hnonce]
      omega

end Entries

section Building
variable [Crypto] {b : Ledger.Building} {item : InboxItem} {rest items : List InboxItem}

/-- The sequencer can always answer the next entry. -/
theorem Ledger.Building.answer (hb : b.ledger.Consistent)
    (h : Room b.ledger.accounts (item :: rest)) :
    ∃ b', b.step item.signed = some b' ∧ b'.ledger.Consistent ∧ Room b'.ledger.accounts rest := by
  have hsome : ∃ b', b.step item.signed = some b' := by
    cases item with
    | deposit recipient amount =>
      have hbalance := AccountMap.balance_le_total b.ledger.accounts recipient
      have hvalue := h.value
      rw [depositTotal_cons, InboxItem.amount] at hvalue
      rw [AccountMap.balance_getD] at hbalance
      have hfits : ((b.ledger.accounts recipient).getD (Account.empty recipient)).amount.toNat +
          amount.toNat < 2 ^ 64 := by omega
      obtain ⟨balance, hsum⟩ := exists_checkedAdd hfits
      simp [InboxItem.signed, Ledger.Building.step, Ledger.credit, hsum]
    | forcedWithdrawal address recipient =>
      cases haccount : b.ledger.accounts address with
      | none =>
        have hdust : ¬minWithdrawal ≤ 0 := by decide
        simp [InboxItem.signed, Ledger.Building.step, haccount, hdust]
      | some account =>
        by_cases hmin : minWithdrawal ≤ account.amount
        · have hfits : account.nonce.toNat + (1 : UInt64).toNat < 2 ^ 64 :=
            h.nonce rfl haccount hmin
          obtain ⟨nonce, hnonce⟩ := exists_checkedAdd hfits
          simp [InboxItem.signed, Ledger.Building.step, haccount, hmin, Account.bumpNonce, hnonce,
            Except.toOption]
        · simp [InboxItem.signed, Ledger.Building.step, haccount, hmin]
  obtain ⟨b', hstep⟩ := hsome
  obtain ⟨txn, entry, hs⟩ := Ledger.Building.step_stepped hb hstep
  have htxn : txn = item.txn := by
    have htxns := hs.txns.symm.trans (Ledger.Building.step_txns hstep)
    rw [InboxItem.signed_txn] at htxns
    simpa using htxns
  obtain ⟨paid, hreplay, -⟩ := hs.replayed
  exact ⟨b', hstep, hs.consistent, h.step (htxn ▸ hreplay)⟩

theorem Ledger.Building.answers (hb : b.ledger.Consistent) (h : Room b.ledger.accounts items) :
    ∃ b', (items.map InboxItem.signed).foldlM Ledger.Building.step b = some b' := by
  induction items generalizing b with
  | nil => exact ⟨b, rfl⟩
  | cons item rest ih =>
    obtain ⟨b₁, hstep, hb₁, hroom⟩ := Ledger.Building.answer hb h
    obtain ⟨b', hrest⟩ := ih hb₁ hroom
    refine ⟨b', ?_⟩
    rw [List.map_cons, List.foldlM_cons, hstep]
    exact hrest

end Building

section Answers
variable [Crypto]

/-- Any list of deposits and requests, on any addresses, has a batch of exactly these entries
and a sidecar that verifies it, unless the sums it asks for leave 64 bits. -/
theorem inbox_answerable (S : AccountMap) (domain : DeploymentDomain) (anchor : Word)
    (items : List InboxItem) (hvalue : S.total + depositTotal items ≤ 2 ^ 64 - 1)
    (hnonces : ∀ address account, S address = some account →
      account.nonce.toNat + requestCount items ≤ 2 ^ 64 - 1) :
    ∃ sidecar newRoot payouts,
      verifyBatch domain (treeOf S).root anchor ⟨items.map InboxItem.txn⟩ sidecar =
        .ok (newRoot, foldInbox anchor items, withdrawalChain domain payouts) ∧
      payouts = withdrawalPayouts ⟨items.map InboxItem.txn⟩ sidecar ∧
      ∀ payout ∈ payouts, minWithdrawal ≤ payout.2 := by
  let l : Ledger := ⟨domain, S, treeOf S, anchor⟩
  have hroom : Room l.accounts items := by
    refine ⟨by simp only [l]; omega, ?_⟩
    intro address
    cases haccount : S address with
    | none =>
      have hnonce : nonceOf l.accounts address = 0 := by simp only [l, nonceOf, haccount, Option.elim]
      right
      rw [hnonce]
      simp only [l]
      omega
    | some account =>
      have hbound := hnonces address account haccount
      have hnonce : nonceOf l.accounts address = account.nonce.toNat := by
        simp only [l, nonceOf, haccount, Option.elim]
      left
      omega
  have hstart : Ledger.Consistent l := rfl
  have hbuilding : Ledger.Consistent (Ledger.Building.mk l [] [] []).ledger := hstart
  obtain ⟨b, hb⟩ := Ledger.Building.answers hbuilding hroom
  have hbuilt := (Ledger.built_start hstart).run hb
  have htxns : b.txns = items.map InboxItem.txn := by
    have h := Ledger.Building.steps_txns hb
    rw [List.nil_append, List.map_map] at h
    exact h.trans (List.map_congr_left fun item _ => item.signed_txn)
  have hverified : verifyBatch domain (treeOf S).root anchor ⟨items.map InboxItem.txn⟩
      ⟨b.entries⟩ = .ok (b.ledger.stateRoot, b.ledger.inboxChain,
        withdrawalChain domain b.payouts) := by
    have hloop := hbuilt.verified
    rw [htxns] at hloop
    have hlength : (items.map InboxItem.txn).length = b.entries.length := htxns ▸ hbuilt.length
    have hfold : ((items.map InboxItem.txn).zip b.entries).foldlM (verifyTxn domain)
        ⟨(treeOf S).root, anchor, []⟩ = .ok b.replaying := hloop
    simp only [verifyBatch, require, hlength, ↓reduceIte, ok_bind, hfold]
    rfl
  have hinbox := verifyBatch_inbox hverified
  rw [inboxItems_map_txn] at hinbox
  refine ⟨⟨b.entries⟩, b.ledger.stateRoot, b.payouts, hinbox ▸ hverified, ?_,
    (replay_total hbuilt.replayed).2⟩
  rw [withdrawalPayouts, ← htxns]
  exact verifyTxns_payouts hbuilt.verified

end Answers

section Sample
attribute [local instance] Crypto.unsigned

theorem sampleItems_answerable : ∃ sidecar newRoot payouts,
    verifyBatch Word.zero (treeOf fun _ => none).root Word.zero
        ⟨[InboxItem.deposit sampleAddress 300000,
          .forcedWithdrawal sampleAddress (sampleAccount 5)].map InboxItem.txn⟩ sidecar =
      .ok (newRoot, foldInbox Word.zero [.deposit sampleAddress 300000,
          .forcedWithdrawal sampleAddress (sampleAccount 5)],
        withdrawalChain Word.zero payouts) ∧
      payouts = withdrawalPayouts ⟨[InboxItem.deposit sampleAddress 300000,
        .forcedWithdrawal sampleAddress (sampleAccount 5)].map InboxItem.txn⟩ sidecar ∧
      ∀ payout ∈ payouts, minWithdrawal ≤ payout.2 :=
  inbox_answerable (fun _ => none) Word.zero Word.zero
    [.deposit sampleAddress 300000, .forcedWithdrawal sampleAddress (sampleAccount 5)]
    (by rw [AccountMap.total_empty]; decide) (fun _ _ h => nomatch h)

end Sample

end PaymentRollup
