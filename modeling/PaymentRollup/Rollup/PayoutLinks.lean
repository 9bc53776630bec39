import Mathlib.Data.List.Chain
import PaymentRollup.Rollup.Soundness

/-! # The payouts reported are the payouts committed to

The links a batch's payouts are drained by lead from the word the batch was verified to down to
the terminal, one payout a link.
-/
namespace PaymentRollup

section Links
variable [Crypto] (domain : DeploymentDomain)

/-- The chain word the contract must hold for the link to be accepted. -/
def WithdrawalLink.head (link : WithdrawalLink) : Word :=
  accumulateWithdrawal link.tail link.recipient link.amount

def WithdrawalLink.payout (link : WithdrawalLink) : Payout := (link.recipient, link.amount)

theorem withdrawalLinks_payout (payouts : List Payout) :
    (withdrawalLinks domain payouts).map WithdrawalLink.payout = payouts := by
  induction payouts with
  | nil => rfl
  | cons payout rest ih =>
    rw [withdrawalLinks_cons, List.map_cons, ih]
    rfl

theorem withdrawalLinks_head {payouts : List Payout} {link : WithdrawalLink}
    (h : link ∈ (withdrawalLinks domain payouts).head?) :
    link.head = withdrawalChain domain payouts := by
  cases payouts with
  | nil => cases h
  | cons payout rest =>
    rw [withdrawalLinks_cons, List.head?_cons, Option.mem_some_iff] at h
    rw [← h, withdrawalChain_cons]
    rfl

theorem withdrawalLinks_isChain (payouts : List Payout) :
    (withdrawalLinks domain payouts).IsChain fun link next => next.head = link.tail := by
  induction payouts with
  | nil => exact .nil
  | cons payout rest ih =>
    rw [withdrawalLinks_cons, List.isChain_cons]
    constructor
    · intro next hnext
      exact withdrawalLinks_head domain hnext
    · exact ih

theorem withdrawalLinks_last {payouts : List Payout} {link : WithdrawalLink}
    (h : link ∈ (withdrawalLinks domain payouts).getLast?) :
    link.tail = withdrawalChainTerminal domain := by
  induction payouts with
  | nil => cases h
  | cons payout rest ih =>
    rw [withdrawalLinks_cons] at h
    cases hrest : withdrawalLinks domain rest with
    | nil =>
      have hnone : rest = [] := by
        rw [← withdrawalLinks_payout domain rest, hrest]
        rfl
      rw [hrest, List.getLast?_singleton, Option.mem_some_iff] at h
      rw [← h, hnone]
      rfl
    | cons next later =>
      rw [hrest, List.getLast?_cons_cons, ← hrest] at h
      exact ih h

/-- Whatever was verified, from whatever root: the payouts read back out of the batch fold to the
word it returned, and their links lead from that word to the terminal. -/
theorem reported_payouts_are_committed {oldRoot anchor newRoot inbox w : Word} {batch : Batch}
    {sidecar : Sidecar}
    (hok : verifyBatch domain oldRoot anchor batch sidecar = .ok (newRoot, inbox, w)) :
    withdrawalChain domain (withdrawalPayouts batch sidecar) = w ∧
    (withdrawalLinks domain (withdrawalPayouts batch sidecar)).map WithdrawalLink.payout =
      withdrawalPayouts batch sidecar ∧
    (∀ first ∈ (withdrawalLinks domain (withdrawalPayouts batch sidecar)).head?,
      first.head = w) ∧
    ((withdrawalLinks domain (withdrawalPayouts batch sidecar)).IsChain fun link next =>
      next.head = link.tail) ∧
    (∀ last ∈ (withdrawalLinks domain (withdrawalPayouts batch sidecar)).getLast?,
      last.tail = withdrawalChainTerminal domain) ∧
    (withdrawalPayouts batch sidecar = [] → w = withdrawalChainTerminal domain) := by
  have hchain := verifyBatch_payouts hok
  refine ⟨hchain.symm, withdrawalLinks_payout domain _, ?_, withdrawalLinks_isChain domain _, ?_, ?_⟩
  · intro first hfirst
    rw [hchain]
    exact withdrawalLinks_head domain hfirst
  · intro last hlast
    exact withdrawalLinks_last domain hlast
  · intro hnone
    rw [hchain, hnone, withdrawalChain_nil]

end Links

section Sample
attribute [local instance] Crypto.unsigned

/-- A withdrawal, whose one link leads from the word returned to the terminal. -/
theorem sampleBatch_links :
    withdrawalChain Word.zero (withdrawalPayouts sampleBatch sampleSidecar) =
      withdrawalChain Word.zero [(sampleAccount 5, 250000)] ∧
    (withdrawalLinks Word.zero (withdrawalPayouts sampleBatch sampleSidecar)).map
      WithdrawalLink.payout = withdrawalPayouts sampleBatch sampleSidecar := by
  obtain ⟨hchain, hpayouts, -⟩ := reported_payouts_are_committed Word.zero sampleBatch_verifies
  exact ⟨hchain, hpayouts⟩

end Sample

end PaymentRollup
