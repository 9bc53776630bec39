import PaymentRollup.Contract.Sequencer

/-! # A batch at one go

The sequencer posts and settles a batch with nobody in between. What the contract is then
left with needs no assumption about the hash.
-/
namespace PaymentRollup.Contract

variable [Crypto] {app : App} {usize : ℕ} {funds : ℕ} {env : Env} {round round' : UInt64}
  {s₀ s s' : State} {log₀ log log' : Log} {plan : List Move} {x : Settlement} {target : UInt64}
  {p : PublicValues}

section Posting

theorem Follows.chunks (hrun : Run app funds round s₀ log₀) {bytes : Bytes} {n : UInt64}
    {left : List Bytes} {rest : List Move}
    (h : Follows app Set.univ round s₀ log₀ plan round' s log
      (left.map .accumulateChunk ++ rest)) (hround : round' ≤ env.round)
    (hcreator : env.sender = app.creator) (hlength : s.batchLength = some n)
    (hn : n.toNat = bytes.length) (hchunks : posted log ++ left = PaymentRollup.chunks bytes) :
    ∃ round'' log' accumulator count, round'' ≤ env.round ∧
      Follows app Set.univ round s₀ log₀ plan round''
        { s with chunkAccumulator := accumulator, postedLength := count } log' rest ∧
      posted log' = PaymentRollup.chunks bytes ∧ arrivals app log' = arrivals app log := by
  induction left generalizing s log round' with
  | nil =>
    refine ⟨round', log, s.chunkAccumulator, s.postedLength, hround, h, ?_, rfl⟩
    rw [← hchunks, List.append_nil]
  | cons chunk left ih =>
    have hkept := (h.run hrun).kept
    obtain ⟨c, hposting⟩ := hkept.batch.posting hlength
    obtain ⟨s₁, hok⟩ := accumulateChunk_ok hcreator hn hposting hchunks
    have hown := h.own env (.accumulateChunk chunk) hround hcreator .accumulateChunk
      (Set.subset_univ _) hok
    cases accumulateChunk_effect hok with
    | inert hcall => exact hcall.elim
    | prune _ hcall => simp at hcall
    | escape _ _ _ hcall => simp at hcall
    | chunk =>
      have hposted : posted log ++ [chunk] ++ left = PaymentRollup.chunks bytes := by
        rw [List.append_assoc]
        exact hchunks
      obtain ⟨last, log', accumulator, count, hlast, hfollows, hall, harrived⟩ :=
        ih hown (UInt64.le_refl _) hlength hposted
      exact ⟨last, log', accumulator, count, hlast, hfollows, hall, harrived⟩

end Posting

section Settling

def SettledOn (app : App) (target : UInt64) (p : PublicValues) (s s' : State) : Prop :=
  ∃ deadline target' progress balance, s' = { s.dropBatch with
      stateRoot := p.newRoot
      settledInboxChain := p.newInboxChain
      settledInboxCursor := target
      pendingWithdrawals :=
        if p.withdrawalChain ≠ withdrawalTerminal app then some p.withdrawalChain
        else s.pendingWithdrawals
      escapeDeadline := deadline
      escapeInboxTarget := target'
      escapeProgress := progress
      balance } ∧ s.balance ≤ balance ∧
    Answered s.escapeGrace s.settledInboxCursor target s.escapeDeadline s.escapeInboxTarget
      s.escapeProgress deadline target' progress

/-- The proof that the sequencer's verifier signs for. -/
def proofFor (s : State) (p : PublicValues) : List Word :=
  [s.programVkeyHash, signalOf (sha256 p.bytes), Word.zero, s.recursionVkeyRoot, Word.zero]

theorem checkProof_proofFor (s : State) (p : PublicValues) :
    checkProof ⟨s.verifierAddress, s.verifierAddress, 0⟩ (proofFor s p) p s = .ok () := by
  simp [checkProof, proofFor, assert, require]

theorem Follows.batch (hrun : Run app funds round s log) (hidle : Idle s)
    (hplan : Planned app usize Set.univ s (arrivals app log) x target p)
    (hto : target ≤ s.inboxCursor) (hround : round ≤ env.round)
    (htimely : ∀ deadline ∈ s.escapeDeadline, env.round ≤ deadline)
    (hcreator : env.sender = app.creator) (hverifier : s.verifierAddress ≠ app.address)
    (hfits : Move.Fits target s (.verifyBatch p)) :
    ∃ s' log', Follows app Set.univ round s log (moves x target p) env.round s' log'
        (x.withdrawalLinks.map .payWithdrawal) ∧ SettledOn app target p s s' ∧
      arrivals app log' = arrivals app log := by
  let verifier : PaymentTxn := ⟨s.verifierAddress, s.verifierAddress, 0⟩
  have hn : (UInt64.ofNat x.batchLength).toNat = x.batchBytes.length :=
    UInt64.toNat_ofNat_of_lt' hplan.length
  obtain ⟨s₁, hopen⟩ : ∃ s₁, exec app env s (.openBatch (UInt64.ofNat x.batchLength) target) =
      .ok s₁ :=
    openBatch_ok hcreator hidle.live hidle.closed hidle.unpaid hrun.kept.inbox hplan.hfrom hto
  have hopened : Follows app Set.univ round s log (moves x target p) env.round s₁
      (⟨s, env, .openBatch (UInt64.ofNat x.batchLength) target, s₁⟩ :: log)
      (x.chunks.map .accumulateChunk ++ .verifyBatch p :: x.withdrawalLinks.map .payWithdrawal) :=
    .own .start env _ hround hcreator .openBatch (Set.subset_univ _) hopen
  cases exec_effect hopen with
  | inert hcall => exact hcall.elim
  | prune _ hcall => simp at hcall
  | escape _ _ _ hcall => simp at hcall
  | @openBatch _ _ chain =>
    obtain ⟨round₂, log₂, accumulator, count, hround₂, hposted, hchunks, harrived⟩ :=
      hopened.chunks hrun (UInt64.le_refl _) hcreator rfl hn rfl
    have hrun₂ := hposted.run hrun
    obtain ⟨c, hposting⟩ := hrun₂.kept.batch.posting rfl
    cases hposting.sealedCursor
    have harrived : arrivals app log₂ = arrivals app log := harrived
    have hall : (posted log₂).flatten.length = (UInt64.ofNat x.batchLength).toNat := by
      rw [hchunks, chunks_flatten, hn]
    have hcommitment : p.batchCommitment =
        commitChunks (deploymentDomain app) (UInt64.ofNat x.batchLength) (posted log₂) := by
      rw [hplan.batch, batchCommitment_eq, hchunks]
      rfl
    have hchain : p.newInboxChain = checkpointAt (arrivals app log₂) target.toNat := by
      rw [harrived]
      exact hplan.newChain
    let full : State := { s with
      chunkAccumulator := accumulator
      batchLength := some (UInt64.ofNat x.batchLength)
      postedLength := count
      sealedInboxChain := some chain
      sealedInboxCursor := some target }
    have hreceive : ∃ s', full.receive app verifier = .ok s' := by
      simp only [State.receive_eq_ok]
      exact ⟨_, hverifier, .inr ⟨hverifier, rfl⟩⟩
    obtain ⟨s', hsettle⟩ := verifyBatch_ok hcreator hrun₂.kept.signal hposting hall
      hplan.hfrom hreceive (checkProof_proofFor s p) htimely hplan.oldRoot hcommitment
      hplan.oldChain hchain hfits
    refine ⟨s', _, hposted.own env _ hround₂ hcreator .verifyBatch (Set.subset_univ _) hsettle, ?_,
      harrived⟩
    cases verifyBatch_effect hsettle with
    | inert hcall => exact hcall.elim
    | prune _ hcall => simp at hcall
    | escape _ _ _ hcall => simp at hcall
    | settle _ _ _ _ _ _ _ _ _ _ hcursor hanswer hbalance =>
      cases hcursor
      exact ⟨_, _, _, _, rfl, hbalance, hanswer⟩

end Settling

end PaymentRollup.Contract
