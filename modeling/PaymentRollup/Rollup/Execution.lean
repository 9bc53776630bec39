import PaymentRollup.Rollup.Codec
import PaymentRollup.Rollup.Soundness

/-! # What a guest execution attests to

The prover picks every input of the guest. Here is what the 192 bytes it commits say about
those inputs, and, where the root it started from is the root of known accounts, about the
accounts it led to.
-/
namespace PaymentRollup

variable [Crypto]

structure Execution where
  domain : DeploymentDomain
  oldRoot : Word
  inboxAnchor : Word
  batchBytes : Bytes
  sidecarBytes : Bytes
deriving DecidableEq

namespace Execution

/-- The guest commits `bytes` when it is run on these inputs. -/
def Commits (usize : ℕ) (x : Execution) (bytes : Bytes) : Prop :=
  execute usize x.domain x.oldRoot x.inboxAnchor x.batchBytes x.sidecarBytes = .ok bytes

instance (usize : ℕ) (x : Execution) (bytes : Bytes) : Decidable (x.Commits usize bytes) :=
  inferInstanceAs (Decidable (_ = _))

/-- The strings the guest hashes over a batch and sidecar, signature and key checks apart. -/
def stringsOf (x : Execution) (batch : Batch) (sidecar : Sidecar) : Set Bytes :=
  batchStrings batch sidecar ∪ (inboxStrings x.inboxAnchor (inboxItems batch.txns) ∪
    (payoutStrings x.domain (withdrawalPayouts batch sidecar) ∪
      commitStrings x.domain (UInt64.ofNat x.batchBytes.length) (chunks x.batchBytes)))

def strings (usize : ℕ) (x : Execution) : Set Bytes :=
  {string | ∃ batch sidecar, Batch.decode usize x.batchBytes = .ok batch ∧
    Sidecar.decode usize x.sidecarBytes batch = .ok sidecar ∧
    string ∈ x.stringsOf batch sidecar}

/-- What it takes for the guest to commit anything. -/
theorem commits_iff {usize : ℕ} {x : Execution} {bytes : Bytes} : x.Commits usize bytes ↔
    ∃ batch sidecar newRoot inbox wchain, Batch.decode usize x.batchBytes = .ok batch ∧
      Sidecar.decode usize x.sidecarBytes batch = .ok sidecar ∧
      verifyBatch x.domain x.oldRoot x.inboxAnchor batch sidecar = .ok (newRoot, inbox, wchain) ∧
      bytes = publicValues x.domain x.oldRoot newRoot x.batchBytes x.inboxAnchor inbox wchain := by
  simp only [Commits, execute, bind_eq_ok, mapError_eq_ok, Except.ok.injEq, Prod.exists]
  constructor
  · rintro ⟨batch, hbatch, sidecar, hsidecar, newRoot, inbox, wchain, hverify, rfl⟩
    exact ⟨batch, sidecar, newRoot, inbox, wchain, hbatch, hsidecar, hverify, rfl⟩
  · rintro ⟨batch, sidecar, newRoot, inbox, wchain, hbatch, hsidecar, hverify, rfl⟩
    exact ⟨batch, hbatch, sidecar, hsidecar, newRoot, inbox, wchain, hverify, rfl⟩

/-- What an execution from the root of `S` established. -/
structure Settles (usize : ℕ) (x : Execution) (Q : Set Bytes) (S S' : AccountMap)
    (batch : Batch) (sidecar : Sidecar) (bytes : Bytes) : Prop where
  decoded : Batch.decode usize x.batchBytes = .ok batch
  witnessed : Sidecar.decode usize x.sidecarBytes batch = .ok sidecar
  verified : ∃ inbox wchain, verifyBatch x.domain (treeOf S).root x.inboxAnchor batch sidecar =
    .ok ((treeOf S').root, inbox, wchain)
  replayed : replay S batch.txns = some (S', withdrawalPayouts batch sidecar)
  tree : (treeOf S').strings ⊆ Q
  committed : bytes = publicValues x.domain x.oldRoot (treeOf S').root x.batchBytes x.inboxAnchor
    (foldInbox x.inboxAnchor (inboxItems batch.txns))
    (withdrawalChain x.domain (withdrawalPayouts batch sidecar))
  hashed : x.stringsOf batch sidecar ⊆ Q

theorem Commits.settles {Q : Set Bytes} (hQ : Ideal Q) {usize : ℕ} {x : Execution}
    {bytes : Bytes} (h : x.Commits usize bytes) (hx : x.strings usize ⊆ Q) {S : AccountMap}
    (hS : (treeOf S).strings ⊆ Q) (hroot : x.oldRoot = (treeOf S).root) :
    ∃ S' batch sidecar, x.Settles usize Q S S' batch sidecar bytes := by
  obtain ⟨batch, sidecar, newRoot, inbox, wchain, hbatch, hsidecar, hverify, hbytes⟩ :=
    commits_iff.mp h
  have hhashed : x.stringsOf batch sidecar ⊆ Q :=
    fun string hstring => hx ⟨batch, sidecar, hbatch, hsidecar, hstring⟩
  rw [hroot] at hverify
  obtain ⟨S', hreplay, rfl, htree, rfl, rfl⟩ :=
    verifyBatch_sound hQ hS (Set.subset_union_left.trans hhashed) hverify
  exact ⟨S', batch, sidecar, hbatch, hsidecar, ⟨_, _, hverify⟩, hreplay, htree, hbytes, hhashed⟩

end Execution

end PaymentRollup
