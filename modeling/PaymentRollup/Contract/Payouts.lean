import PaymentRollup.Contract.Settlement

/-! # Payouts happen once, in order, and nothing settles before they have

A settlement leaves the head of its payout chain in `pendingWithdrawals`; from then on the
key only ever moves one payout down the chain, whoever makes the call and whatever else is
called in between.
-/
namespace PaymentRollup.Contract

section Payouts
variable [Crypto] {app : App} {env : Env} {s s' : State} {call : Call}

theorem Effect.pending_eq (h : Effect app env s call s')
    (hpay : ∀ recipient amount tail, call ≠ .payWithdrawal recipient amount tail)
    (hsettle : ∀ verifier signals p, call ≠ .verifyBatch verifier signals p) :
    s'.pendingWithdrawals = s.pendingWithdrawals := by
  cases h with
  | pay => exact absurd rfl (hpay _ _ _)
  | settle => exact absurd rfl (hsettle _ _ _)
  | escape dropped hdropped =>
    subst hdropped
    split_ifs <;> rfl
  | _ => rfl

theorem Effect.pending_none {items : List InboxItem} {chunks : List Bytes}
    (h : Effect app env s call s') (hkept : Kept app s items chunks)
    (hbatch : (∃ n target, call = .openBatch n target) ∨
      ∃ verifier signals p, call = .verifyBatch verifier signals p) :
    s.pendingWithdrawals = none := by
  rcases hbatch with ⟨n, target, rfl⟩ | ⟨verifier, signals, p, rfl⟩
  · cases h with
    | inert hcall => exact hcall.elim
    | prune _ hcall => simp at hcall
    | escape _ _ _ hcall => simp at hcall
    | openBatch hcreator hlive hclosed hpaid => exact hpaid
  · cases h with
    | inert hcall => exact hcall.elim
    | prune _ hcall => simp at hcall
    | escape _ _ _ hcall => simp at hcall
    | settle _ _ _ hlength =>
      obtain ⟨c, hposting⟩ := hkept.batch.posting hlength
      exact hposting.unpaid

/-- The payouts made are the links of every settled batch in turn, up to those still owed,
which are the end of the last list and what the payout head commits to. A payout goes
through only if it is the next one; no other call moves the head; no batch is opened or
settled while anything is owed. -/
theorem payouts_made_once_in_order {usize : ℕ} {guest : PublicValues → Execution}
    {Q : Set Bytes} {funds : ℕ} {round : UInt64} {log : Log} (hrun : Run app funds round s log) (hQ : Ideal Q)
    (hlog : ∀ e ∈ log, e.Sound app usize guest Q) :
    ∃ batches S lists owed, (settledBatches log).mapM (Batch.decode usize) = .ok batches ∧
      replayBatches emptyLedger batches = some (S, lists) ∧
      installed log = lists.map (pendingOf (deploymentDomain app)) ∧
      lists.flatMap (withdrawalLinks (deploymentDomain app)) =
        paid log ++ withdrawalLinks (deploymentDomain app) owed ∧
      owed <:+ lists.getLastD [] ∧
      s.pendingWithdrawals = pendingOf (deploymentDomain app) owed ∧
      (s.pendingWithdrawals = none ↔ owed = []) ∧
      ∀ env call s', exec app env s call = .ok s' → callStrings app s call ⊆ Q →
        (∀ recipient amount tail, call = .payWithdrawal recipient amount tail →
          (withdrawalLinks (deploymentDomain app) owed).head? = some ⟨recipient, amount, tail⟩) ∧
        ((∃ n target, call = .openBatch n target) ∨
          (∃ verifier signals p, call = .verifyBatch verifier signals p) → owed = []) ∧
        ((∀ recipient amount tail, call ≠ .payWithdrawal recipient amount tail) →
          (∀ verifier signals p, call ≠ .verifyBatch verifier signals p) →
          s'.pendingWithdrawals = s.pendingWithdrawals) := by
  obtain ⟨S, batches, lists, owed, h⟩ := hrun.ledgered hQ hlog
  have hnone : s.pendingWithdrawals = none ↔ owed = [] := by
    rw [h.pending, pendingOf_eq_none]
  refine ⟨batches, S, lists, owed, h.decoded, h.replayed, h.installed, h.paid, h.last, h.pending,
    hnone, ?_⟩
  intro env call s' hok hstrings
  have heffect := exec_effect hok
  refine ⟨?_, fun hbatch => hnone.mp (heffect.pending_none hrun.kept hbatch),
    heffect.pending_eq⟩
  rintro recipient amount tail rfl
  cases heffect with
  | inert hcall => exact hcall.elim
  | prune _ hcall => simp at hcall
  | escape _ _ _ hcall => simp at hcall
  | pay hhead =>
    obtain ⟨rest, rfl, rfl, -⟩ := h.next hQ hhead (hstrings (.inl rfl))
    rw [withdrawalLinks_cons]
    rfl

end Payouts

section Sample
attribute [local instance] Crypto.unsigned

theorem sample_pays : ∃ batches S lists owed,
    (settledBatches sampleEnd.2).mapM (Batch.decode (2 ^ 32)) = .ok batches ∧
      replayBatches emptyLedger batches = some (S, lists) ∧
      installed sampleEnd.2 = lists.map (pendingOf (deploymentDomain sampleApp)) ∧
      lists.flatMap (withdrawalLinks (deploymentDomain sampleApp)) =
        paid sampleEnd.2 ++ withdrawalLinks (deploymentDomain sampleApp) owed ∧
      owed <:+ lists.getLastD [] ∧
      sampleEnd.1.pendingWithdrawals = pendingOf (deploymentDomain sampleApp) owed ∧
      (sampleEnd.1.pendingWithdrawals = none ↔ owed = []) ∧
      ∀ env call s', exec sampleApp env sampleEnd.1 call = .ok s' →
        callStrings sampleApp sampleEnd.1 call ⊆ {string | string ∈ sampleStrings} →
        (∀ recipient amount tail, call = .payWithdrawal recipient amount tail →
          (withdrawalLinks (deploymentDomain sampleApp) owed).head? =
            some ⟨recipient, amount, tail⟩) ∧
        ((∃ n target, call = .openBatch n target) ∨
          (∃ verifier signals p, call = .verifyBatch verifier signals p) → owed = []) ∧
        ((∀ recipient amount tail, call ≠ .payWithdrawal recipient amount tail) →
          (∀ verifier signals p, call ≠ .verifyBatch verifier signals p) →
          s'.pendingWithdrawals = sampleEnd.1.pendingWithdrawals) :=
  payouts_made_once_in_order sample_run sample_ideal sample_sound

end Sample

end PaymentRollup.Contract
