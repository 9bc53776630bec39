import PaymentRollup.Contract.Settlement
import PaymentRollup.Rollup.Answers
import PaymentRollup.Rollup.PayoutLinks

/-! # What L1 orders is done

An inbox entry below the settled cursor was applied to the ledger at a place of its own in the
settled batches, after the entries filed before it. What a request took out of the ledger is then
the payout of its rank: it has been made, or it is the rollup's to make.
-/
namespace PaymentRollup.Contract

section Statements

/-- What answering an entry does to the accounts, and what it has L1 pay. -/
inductive Answer (S : AccountMap) : InboxItem → AccountMap → List Payout → Prop
  | credited {receiver : Address} {amount balance : UInt64} {account : Account}
      (haccount : (S receiver).getD (Account.empty receiver) = account)
      (hbalance : balance.toNat = account.amount.toNat + amount.toNat) :
      Answer S (.deposit receiver amount)
        (Function.update S receiver (some ⟨account.nonce, balance, account.authAddress⟩)) []
  | emptied {address : Address} {recipient : L1Address} {account : Account} {nonce : UInt64}
      (haccount : S address = some account) (hmin : minWithdrawal ≤ account.amount)
      (hnonce : nonce.toNat = account.nonce.toNat + 1) :
      Answer S (.forcedWithdrawal address recipient)
        (Function.update S address (some ⟨nonce, 0, account.authAddress⟩))
        [(recipient, account.amount)]
  | spared {address : Address} {recipient : L1Address}
      (hdust : ∀ account, S address = some account → account.amount < minWithdrawal) :
      Answer S (.forcedWithdrawal address recipient) S []

variable [Crypto]

/-- Where the replay of the settled batches stands after the entries filed before the one at `i`, it
answers that entry as it was filed and goes on to the settled ledger. What the answer pays is paid
in its turn: it has been made, or is among what is `owed`. -/
inductive Fulfilled (app : App) (log : Log) (batches : List Batch) (ledger : AccountMap)
    (owed : List Payout) (i : ℕ) (item : InboxItem) : Prop
  | intro {before after : List Transaction} {S S' : AccountMap} {early made later : List Payout}
      (hsplit : batches.flatMap Batch.txns = before ++ item.txn :: after)
      (hplace : inboxItems before = (arrivals app log).take i)
      (hreached : replay emptyLedger before = some (S, early))
      (hstep : Replay.step S item.txn = some (S', made)) (hanswer : Answer S item S' made)
      (hrest : replay S' after = some (ledger, later))
      (hpayouts : (paid log).map WithdrawalLink.payout ++ owed = early ++ made ++ later)

end Statements

section Answers
variable {S S' : AccountMap} {item : InboxItem} {made : List Payout}

theorem answer_of_step (h : Replay.step S item.txn = some (S', made)) : Answer S item S' made := by
  cases item with
  | deposit receiver amount =>
    cases Replay.step_cases h with
    | deposit hcredit =>
      obtain ⟨post, hpost, rfl⟩ := Replay.credit_eq_some.mp hcredit
      obtain ⟨balance, hbalance, rfl⟩ := Account.credited_eq_some.mp hpost
      exact .credited rfl (checkedAdd_eq_some.mp hbalance)
  | forcedWithdrawal address recipient =>
    cases Replay.step_cases h with
    | emptied haccount hmin hnonce => exact .emptied haccount hmin (checkedAdd_eq_some.mp hnonce)
    | spared hdust => exact .spared hdust

theorem txn_of_inboxItem? {txn : Transaction} (h : txn.inboxItem? = some item) :
    txn = item.txn := by
  cases txn <;> cases h <;> rfl

theorem inboxItems_split {txns : List Transaction} {i : ℕ} (h : (inboxItems txns)[i]? = some item) :
    ∃ before after, txns = before ++ item.txn :: after ∧
      inboxItems before = (inboxItems txns).take i := by
  obtain ⟨hlt, hitem⟩ := List.getElem?_eq_some_iff.mp h
  have hparts : inboxItems txns =
      (inboxItems txns).take i ++ item :: (inboxItems txns).drop (i + 1) := by
    rw [← hitem, List.getElem_cons_drop, List.take_append_drop]
  obtain ⟨front, back, hsplit, hfront, hback⟩ := List.filterMap_eq_append_iff.mp hparts
  obtain ⟨others, txn, after, rfl, hothers, htxn, -⟩ := List.filterMap_eq_cons_iff.mp hback
  refine ⟨front ++ others, after, ?_, ?_⟩
  · rw [hsplit, txn_of_inboxItem? htxn, List.append_assoc]
  · have hnone : inboxItems others = [] := List.filterMap_eq_nil_iff.mpr hothers
    rw [inboxItems_append, hnone, List.append_nil]
    exact hfront

end Answers

section Results
variable [Crypto] {app : App} {usize : ℕ} {guest : PublicValues → Execution} {Q : Set Bytes}
  {funds : ℕ} {round : UInt64} {s : State} {log : Log}

theorem Ledgered.payouts {S : AccountMap} {batches : List Batch} {lists : List (List Payout)}
    {owed : List Payout} (h : Ledgered app usize Q s log S batches lists owed) :
    (Contract.paid log).map WithdrawalLink.payout ++ owed = lists.flatten := by
  have hlinks := congrArg (List.map WithdrawalLink.payout) h.paid
  rw [List.map_append, withdrawalLinks_payout, List.map_flatMap] at hlinks
  simp only [withdrawalLinks_payout, List.flatMap_id'] at hlinks
  exact hlinks.symm

/-- Every entry the settled cursor has passed was answered as it was filed, where the replay of the
settled batches stood then. What has been paid and what is owed are together what that replay pays,
so once nothing is owed any more what an entry was answered with has been paid. -/
theorem every_settled_entry_is_fulfilled (hrun : Run app funds round s log) (hQ : Ideal Q)
    (hlog : ∀ e ∈ log, e.Sound app usize guest Q) :
    ∃ batches ledger lists owed, (settledBatches log).mapM (Batch.decode usize) = .ok batches ∧
      replayBatches emptyLedger batches = some (ledger, lists) ∧
      s.stateRoot = (treeOf ledger).root ∧
      (paid log).map WithdrawalLink.payout ++ owed = lists.flatten ∧
      s.pendingWithdrawals = pendingOf (deploymentDomain app) owed ∧
      (s.pendingWithdrawals = none → owed = []) ∧
      ∀ i item, (arrivals app log)[i]? = some item → i < s.settledInboxCursor.toNat →
        Fulfilled app log batches ledger owed i item := by
  obtain ⟨S, batches, lists, owed, h⟩ := hrun.ledgered hQ hlog
  have hnone : s.pendingWithdrawals = none → owed = [] := by
    rw [h.pending]
    exact pendingOf_eq_none.mp
  refine ⟨batches, S, lists, owed, h.decoded, h.replayed, h.root, h.payouts, h.pending, hnone, ?_⟩
  intro i item hitem hi
  have hconsumed : inboxItems (batches.flatMap Batch.txns) =
      (arrivals app log).take s.settledInboxCursor.toNat := by
    rw [← h.consumed]
    exact List.filterMap_flatMap
  have hsettled : (inboxItems (batches.flatMap Batch.txns))[i]? = some item := by
    rw [hconsumed, List.getElem?_take_of_lt hi]
    exact hitem
  obtain ⟨before, after, hsplit, hbefore⟩ := inboxItems_split hsettled
  have hplace : inboxItems before = (arrivals app log).take i := by
    rw [hbefore, hconsumed, List.take_take, Nat.min_eq_left hi.le]
  have hreplayed := replayBatches_flat h.replayed
  rw [hsplit, replay_append_eq_some] at hreplayed
  obtain ⟨S₀, early, _, hreached, hrest, hflat⟩ := hreplayed
  obtain ⟨S₁, made, later, hstep, hafter, rfl⟩ := replay_cons_eq_some.mp hrest
  have hpayouts : (paid log).map WithdrawalLink.payout ++ owed = early ++ made ++ later := by
    rw [h.payouts, hflat, List.append_assoc]
  exact .intro hsplit hplace hreached hstep (answer_of_step hstep) hafter hpayouts

end Results

section Sample
attribute [local instance] Crypto.leaver

/-- A deposit was credited and a request was answered, and nothing is owed any more. -/
theorem sample_fulfilled : ∃ batches ledger lists,
    (settledBatches departed.2).mapM (Batch.decode (2 ^ 32)) = .ok batches ∧
      replayBatches emptyLedger batches = some (ledger, lists) ∧
      (paid departed.2).map WithdrawalLink.payout = lists.flatten ∧
      Fulfilled samplePriced departed.2 batches ledger [] 0 (.deposit leaver 300000) ∧
      Fulfilled samplePriced departed.2 batches ledger [] 2
        (.forcedWithdrawal asker (sampleAccount 6)) := by
  obtain ⟨batches, ledger, lists, owed, hdecoded, hreplayed, -, hpaid, -, hnone, hall⟩ :=
    every_settled_entry_is_fulfilled departed_run departing_ideal departed_sound
  have hfacts : departed.1.pendingWithdrawals = none ∧ departed.1.settledInboxCursor.toNat = 3 ∧
      arrivals samplePriced departed.2 = [.deposit leaver 300000, .deposit asker 200000,
        .forcedWithdrawal asker (sampleAccount 6)] := by
    decide +kernel
  obtain ⟨hpending, hcursor, harrivals⟩ := hfacts
  rw [harrivals, hcursor] at hall
  cases hnone hpending
  rw [List.append_nil] at hpaid
  exact ⟨batches, ledger, lists, hdecoded, hreplayed, hpaid, hall 0 _ rfl (by decide),
    hall 2 _ rfl (by decide)⟩

end Sample

end PaymentRollup.Contract
