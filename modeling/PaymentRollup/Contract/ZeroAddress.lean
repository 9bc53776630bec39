import PaymentRollup.Contract.Keys

/-! # The address that marks value from outside

No key derives `zeroAddress`, so nothing is spent from it. Nothing keeps value from being sent
there either: a credit creates the account it finds missing, whatever the address. So an address
other than the fee sink's has an account exactly when some payment or deposit has named it.
-/
namespace PaymentRollup

section Absence

/-- The transaction names `address` as the account to credit. -/
def Transaction.PaysTo (address : Address) : Transaction → Prop
  | .payment p => p.receiver = address
  | .deposit d => d.receiver = address
  | .withdrawal _ => False
  | .forcedWithdrawal _ => False

variable {S S' : AccountMap} {address : Address}

theorem AccountMap.write_absent {written : Address} {account : Account} :
    Function.update S written (some account) address = none ↔
      S address = none ∧ written ≠ address := by
  by_cases haddress : address = written
  · subst haddress
    simp
  · simp [Function.update_of_ne haddress, Ne.symm haddress]

namespace Replay

theorem debit_absent {sender : Address} {amount fee : UInt64}
    (h : debit S sender amount fee = some S') : S' address = none ↔ S address = none := by
  obtain ⟨account, post, haccount, -, rfl⟩ := debit_eq_some.mp h
  rw [AccountMap.write_absent]
  constructor
  · exact And.left
  · intro habsent
    refine ⟨habsent, ?_⟩
    rintro rfl
    cases haccount.symm.trans habsent

theorem credit_absent {receiver : Address} {amount : UInt64}
    (h : credit S receiver amount = some S') :
    S' address = none ↔ S address = none ∧ receiver ≠ address := by
  obtain ⟨post, -, rfl⟩ := credit_eq_some.mp h
  exact AccountMap.write_absent

theorem creditFee_absent {fee : UInt64} (hsink : feeSink ≠ address)
    (h : creditFee S fee = some S') : S' address = none ↔ S address = none := by
  rcases creditFee_eq_some.mp h with ⟨-, rfl⟩ | ⟨-, hcredit⟩
  · rfl
  · rw [credit_absent hcredit]
    exact and_iff_left hsink

theorem step_absent {txn : Transaction} {paid : List Payout} (hsink : feeSink ≠ address)
    (h : step S txn = some (S', paid)) :
    S' address = none ↔ S address = none ∧ ¬txn.PaysTo address := by
  cases step_cases h with
  | payment hdebit hcredit hfee =>
    rw [creditFee_absent hsink hfee, credit_absent hcredit, debit_absent hdebit]
    exact Iff.rfl
  | deposit hcredit =>
    rw [credit_absent hcredit]
    exact Iff.rfl
  | withdrawal _ hdebit hfee =>
    rw [creditFee_absent hsink hfee, debit_absent hdebit]
    exact (and_iff_left id).symm
  | @emptied f account nonce haccount _ _ =>
    -- The account that L1 empties was there already.
    have hother : S address = none → f.address ≠ address := by
      rintro habsent rfl
      cases haccount.symm.trans habsent
    rw [AccountMap.write_absent, and_iff_left_of_imp hother]
    exact (and_iff_left id).symm
  | spared _ => exact (and_iff_left id).symm

end Replay

theorem replay_absent {txns : List Transaction} {payouts : List Payout}
    (hsink : feeSink ≠ address) (h : replay S txns = some (S', payouts)) :
    S' address = none ↔ S address = none ∧ ∀ txn ∈ txns, ¬txn.PaysTo address := by
  induction txns generalizing S payouts with
  | nil =>
    cases h
    simp
  | cons txn rest ih =>
    obtain ⟨S₁, paid, later, hstep, hrest, -⟩ := replay_cons_eq_some.mp h
    rw [ih hrest, Replay.step_absent hsink hstep, List.forall_mem_cons, and_assoc]

end Absence

namespace Contract

section Results
variable [Crypto]

/-- No account stands at `zeroAddress` after a sequence of accepted batches, or at any point
inside them, exactly when no payment or deposit up to there names it. -/
theorem zero_address_absent_iff {Q : Set Bytes} (hQ : Ideal Q) {root : Word} {log : List Settled}
    (h : Accepted Q root log) : ∃ S lists,
      replayBatches emptyLedger (log.map Settled.batch) = some (S, lists) ∧
        (treeOf S).root = root ∧
        (S zeroAddress = none ↔
          ∀ settled ∈ log, ∀ txn ∈ settled.batch.txns, ¬txn.PaysTo zeroAddress) ∧
        ∀ earlier later, earlier ++ later = (log.map Settled.batch).flatMap Batch.txns →
          ∃ S' paid, replay emptyLedger earlier = some (S', paid) ∧
            (S' zeroAddress = none ↔ ∀ txn ∈ earlier, ¬txn.PaysTo zeroAddress) := by
  obtain ⟨S, lists, hreplays, hroot, -⟩ := accepted_replays hQ h
  have hsink : feeSink ≠ zeroAddress := by decide
  have hflat := replayBatches_flat hreplays
  refine ⟨S, lists, hreplays, hroot, ?_, ?_⟩
  · rw [replay_absent hsink hflat]
    simp only [emptyLedger, true_and, List.mem_flatMap, List.mem_map]
    constructor
    · intro hnone settled hsettled txn htxn
      exact hnone txn ⟨settled.batch, ⟨settled, hsettled, rfl⟩, htxn⟩
    · rintro hnone txn ⟨batch, ⟨settled, hsettled, rfl⟩, htxn⟩
      exact hnone settled hsettled txn htxn
  · intro earlier later htxns
    rw [← htxns, replay_append_eq_some] at hflat
    obtain ⟨S', paid, _, hearlier, -⟩ := hflat
    refine ⟨S', paid, hearlier, ?_⟩
    rw [replay_absent hsink hearlier]
    exact and_iff_right rfl

end Results

section Sample
attribute [local instance] Crypto.unsigned

theorem sampleBatch_absent : ∃ S lists,
    replayBatches emptyLedger [sampleBatch] = some (S, lists) ∧
      (treeOf S).root = leafHash sampleAddress ⟨1, 50000, sampleAddress⟩ ∧
      S zeroAddress = none := by
  have haccepted := Accepted.genesis.batch (Set.subset_union_right.trans sampleLeaves_subset)
    sampleBatch_verifies
  obtain ⟨S, lists, hreplays, hroot, habsent, -⟩ :=
    zero_address_absent_iff sampleLeaves_ideal haccepted
  refine ⟨S, lists, hreplays, hroot, habsent.mpr ?_⟩
  simp only [List.nil_append, forall_eq, sampleBatch, List.mem_cons, List.not_mem_nil, or_false,
    forall_eq_or_imp, Transaction.PaysTo, not_false_eq_true, and_true]
  decide +kernel

/-! A deposit that names the marker as its recipient. -/

def markedBatch : Batch := ⟨[.deposit ⟨zeroAddress, 5⟩]⟩

def markedSidecar : Sidecar := ⟨[.deposit ⟨⟨none, ⟨[], .own⟩⟩⟩]⟩

def markedLeaf : Bytes := PaymentRollup.leafString zeroAddress ⟨0, 5, zeroAddress⟩

theorem markedLeaf_subset : batchStrings markedBatch markedSidecar ⊆ {markedLeaf} := by
  rintro string ⟨pair, hpair, hstring⟩
  have hpairs : pair ∈ markedBatch.txns.zip markedSidecar.entries := hpair
  simp only [markedBatch, markedSidecar, List.zip_cons_cons, List.zip_nil_right,
    List.mem_singleton] at hpairs
  subst hpairs
  rcases hstring with hpre | ⟨post, hpost, hstring⟩
  · obtain ⟨_, hnone, -⟩ := rootStrings_alone _ _ hpre
    cases hnone
  · obtain ⟨_, hsome, rfl⟩ := rootStrings_alone _ _ hstring
    cases hsome
    cases hpost
    rfl

/-- The verifier accepts it, and the marker holds an account from then on. -/
theorem marker_enters_the_tree : ∃ Q root log S lists, Ideal Q ∧ Accepted Q root log ∧
    replayBatches emptyLedger (log.map Settled.batch) = some (S, lists) ∧
    (treeOf S).root = root ∧ S zeroAddress = some ⟨0, 5, zeroAddress⟩ := by
  have hverifies : PaymentRollup.verifyBatch Word.zero Word.zero Word.zero markedBatch
      markedSidecar = .ok (leafHash zeroAddress ⟨0, 5, zeroAddress⟩,
        accumulateDeposit Word.zero zeroAddress 5, withdrawalChain Word.zero []) := by
    decide +kernel
  have hideal : Ideal {string | string ∈ [markedLeaf]} := .of_list (by decide +kernel)
  have haccepted := Accepted.genesis.batch
    (markedLeaf_subset.trans fun _ => List.mem_singleton.mpr) hverifies
  obtain ⟨S, lists, hreplays, hroot, -⟩ := accepted_replays hideal haccepted
  refine ⟨_, _, _, S, lists, hideal, haccepted, hreplays, hroot, ?_⟩
  have hreplayed : replayBatches emptyLedger [markedBatch] =
      some (Function.update emptyLedger zeroAddress (some ⟨0, 5, zeroAddress⟩), [[]]) := rfl
  cases hreplayed.symm.trans hreplays
  exact Function.update_self ..

end Sample

end Contract

end PaymentRollup
