import PaymentRollup.Contract.Exits
import PaymentRollup.Contract.Keys
import PaymentRollup.Contract.Playing

/-! # Fees never leave the sink

Nothing in the replay singles out the fee sink. It cannot be spent from because no key derives
it: no signature fits its account, no request for it gets into the inbox, and no exit of it is
signed.
-/
namespace PaymentRollup.Contract

section Sink
variable [Crypto] {app : App} {usize : ℕ} {guest : PublicValues → Execution} {Q : Set Bytes}
  {env : Env} {s s' : State} {call : Call} {log : Log} {S S' : AccountMap}

/-- The calls that would take from the account at an address. -/
def Call.TakesFrom (address : Address) : Call → Prop
  | .requestWithdrawal _ _ asked _ _ _ _ => asked = address
  | .forceExit left _ _ _ _ _ _ _ _ => left = address
  | _ => False

def SinkGrows (S : AccountMap) (batch : Batch) : Prop :=
  ∃ S' payouts, replay S batch.txns = some (S', payouts) ∧
    S'.balance feeSink = S.balance feeSink + (batch.txns.map (Transaction.income feeSink)).sum ∧
    nonceOf S' feeSink = 0

/-- Every settled batch found the accounts that those before it left, and fed the sink. -/
def SinkFed (batches : List Batch) : Prop :=
  ∀ before batch after, batches = before ++ batch :: after →
    ∃ S lists, replayBatches emptyLedger before = some (S, lists) ∧ SinkGrows S batch

structure SinkKept (app : App) (S : AccountMap) (batches : List Batch) (log : Log) : Prop where
  nonce : nonceOf S feeSink = 0
  fed : SinkFed batches
  unasked : ∀ recipient, .forcedWithdrawal feeSink recipient ∉ arrivals app log
  untaken : ∀ e ∈ log, ¬e.call.TakesFrom feeSink

omit [Crypto] in
theorem SinkFed.concat {batches : List Batch} {batch : Batch} {lists : List (List Payout)}
    (h : SinkFed batches) (hreplays : replayBatches emptyLedger batches = some (S, lists))
    (hgrows : SinkGrows S batch) : SinkFed (batches ++ [batch]) := by
  intro before found after hsplit
  rcases List.eq_nil_or_concat after with rfl | ⟨later, last, rfl⟩
  · obtain ⟨rfl, hlast⟩ := List.append_inj' hsplit rfl
    cases hlast
    exact ⟨S, lists, hreplays, hgrows⟩
  · rw [List.concat_eq_append, ← List.cons_append, ← List.append_assoc] at hsplit
    exact h before found later (List.append_inj' hsplit rfl).1

variable (hkeys : ∀ scheme pubKey, addressFromPublicKey scheme pubKey ≠ feeSink)
include hkeys

theorem Effect.takes_none (hQ : Ideal Q) (h : Effect app env s call s')
    (hsound : call.Sound app usize guest Q s) (hroot : s.stateRoot = (treeOf S).root)
    (hS : (treeOf S).strings ⊆ Q) (howned : S.Owned) : ¬call.TakesFrom feeSink := by
  intro htakes
  cases h with
  | inert hcall =>
    cases call <;> first | exact htakes | exact hcall
  | prune _ hcall => rcases hcall with ⟨rfl, -⟩ | ⟨rfl, -⟩ <;> exact htakes
  | escape _ _ _ hcall => rcases hcall with ⟨rfl, -⟩ | ⟨rfl, -⟩ <;> exact htakes
  | @request payment nonce address recipient pubKey _ _ _ _ _ _ hkey =>
    exact hkeys .ed25519 pubKey.bytes (hkey.trans htakes)
  | @exit address nonce amount authAddress pubKey _ _ _ _ _ _ hkey _ _ hdepth hexit =>
    have haccount := exit_account hQ hS hdepth (hexit.trans hroot) hsound.hashed
    have howner := howned address _ haccount
    exact hkeys .ed25519 pubKey.bytes ((hkey.trans howner).trans htakes)
  | _ => exact htakes

omit [Crypto] hkeys in
theorem arrivals_unasked (app : App) (e : Step) (htakes : ¬e.call.TakesFrom feeSink)
    (h : ∀ recipient, .forcedWithdrawal feeSink recipient ∉ arrivals app log) :
    ∀ recipient, .forcedWithdrawal feeSink recipient ∉ arrivals app (e :: log) := by
  intro recipient
  rcases e with ⟨before, env, call, after⟩
  cases call with
  | deposit payment receiver => simp [arrivals, h recipient]
  | requestWithdrawal payment nonce address dest scheme key sig =>
    intro hmem
    rcases List.mem_append.mp hmem with hold | hnew
    · exact h recipient hold
    · cases List.mem_singleton.mp hnew
      exact htakes rfl
  | _ => exact h recipient

omit [Crypto] hkeys in
theorem settledBatches_cons {e : Step} (h : ∀ verifier signals p, e.call ≠ .verifyBatch verifier signals p)
    (log : Log) : settledBatches (e :: log) = settledBatches log := by
  rcases e with ⟨before, env, call, after⟩
  cases call <;> first | rfl | exact absurd rfl (h _ _ _)

theorem Answers.grows (hQ : Ideal Q) {p : PublicValues} {c : UInt64} {batch : Batch}
    {sidecar : Sidecar} (h : Answers app usize guest Q s log p c S S' batch sidecar)
    (hS : (treeOf S).strings ⊆ Q) (howned : S.Owned) (hnonce : nonceOf S feeSink = 0)
    (hunasked : ∀ recipient, .forcedWithdrawal feeSink recipient ∉ arrivals app log) :
    SinkGrows S batch ∧ nonceOf S' feeSink = 0 := by
  have hsettles := h.settles
  have hstrings := hsettles.hashed
  simp only [Execution.stringsOf, Set.union_subset_iff] at hstrings
  obtain ⟨inbox, wchain, hverified⟩ := hsettles.verified
  have hforced : ∀ recipient, .forcedWithdrawal feeSink recipient ∉ inboxItems batch.txns := by
    intro recipient hmem
    refine hunasked recipient (List.mem_of_mem_take (i := c.toNat) ?_)
    rw [h.consumed]
    exact List.mem_append_right _ hmem
  have hspares := verifyBatch_spares hQ hS howned hstrings.1 hverified hkeys hforced
  have hafter : nonceOf S' feeSink = 0 := by
    rw [replay_nonce hsettles.replayed, hspares, hnonce]
  exact ⟨⟨S', _, hsettles.replayed, replay_balance hsettles.replayed hspares, hafter⟩, hafter⟩

theorem SinkKept.step (hQ : Ideal Q) {batches : List Batch} {lists : List (List Payout)}
    {owed : List Payout} (h : SinkKept app S batches log)
    (hledgered : Ledgered app usize Q s log S batches lists owed)
    (hkept : Kept app s (arrivals app log) (posted log)) (heffect : Effect app env s call s')
    (hsound : call.Sound app usize guest Q s) : ∃ S' batches' lists' owed',
      Ledgered app usize Q s' (⟨s, env, call, s'⟩ :: log) S' batches' lists' owed' ∧
        SinkKept app S' batches' (⟨s, env, call, s'⟩ :: log) := by
  have howned := replayBatches_owned hledgered.replayed emptyLedger_owned
  have htakes := heffect.takes_none hkeys hQ hsound hledgered.root hledgered.tree howned
  have hunasked := arrivals_unasked app ⟨s, env, call, s'⟩ htakes h.unasked
  have huntaken : ∀ e ∈ (⟨s, env, call, s'⟩ :: log : Log), ¬e.call.TakesFrom feeSink :=
    List.forall_mem_cons.mpr ⟨htakes, h.untaken⟩
  by_cases hsettle : ∃ verifier signals p, call = .verifyBatch verifier signals p
  · obtain ⟨verifier, signals, p, rfl⟩ := hsettle
    cases heffect with
    | inert hcall => exact hcall.elim
    | prune _ hcall => simp at hcall
    | escape _ _ _ hcall => simp at hcall
    | settle _ _ _ hlength _ _ hroot haccumulator hfrom hto hcursor =>
      obtain ⟨hunpaid, rfl, S', batch, sidecar, hanswers⟩ :=
        hledgered.answers hQ hkept hsound hlength hroot haccumulator hfrom hto hcursor
      obtain ⟨hgrows, hnonce⟩ :=
        hanswers.grows hkeys hQ hledgered.tree howned h.nonce h.unasked
      exact ⟨S', _, _, _, hledgered.settle hQ hanswers hunpaid rfl rfl rfl rfl, hnonce,
        h.fed.concat hledgered.replayed hgrows, hunasked, huntaken⟩
  · have hother : ∀ verifier signals p, call ≠ .verifyBatch verifier signals p :=
      fun verifier signals p hcall => hsettle ⟨verifier, signals, p, hcall⟩
    obtain ⟨S', batches', lists', owed', hstep, -⟩ :=
      hledgered.step hQ hkept heffect hsound
    have hdecoded := hstep.decoded
    rw [settledBatches_cons hother, hledgered.decoded] at hdecoded
    cases hdecoded
    cases hstep.replayed.symm.trans hledgered.replayed
    exact ⟨S, batches, lists, owed', hstep, h.nonce, h.fed, hunasked, huntaken⟩

/-- From one settled state to the next the fee sink gains exactly the fees of the batch and
what the batch pays or deposits to it. Its nonce stays 0, and no call that would take from it
goes through. -/
theorem fees_never_leave_the_sink (hQ : Ideal Q) {funds : ℕ} {round : UInt64}
    (hrun : Run app funds round s log) (hlog : ∀ e ∈ log, e.Sound app usize guest Q) :
    ∃ batches S lists, (settledBatches log).mapM (Batch.decode usize) = .ok batches ∧
      replayBatches emptyLedger batches = some (S, lists) ∧ s.stateRoot = (treeOf S).root ∧
      nonceOf S feeSink = 0 ∧ SinkFed batches ∧ ∀ e ∈ log, ¬e.call.TakesFrom feeSink := by
  have hkept : ∃ S batches lists owed, Ledgered app usize Q s log S batches lists owed ∧
      SinkKept app S batches log := by
    induction hrun with
    | create =>
      refine ⟨_, _, _, _, Ledgered.create, rfl, ?_, ?_, ?_⟩
      · intro before batch after hsplit
        simp at hsplit
      · intro recipient hmem
        cases hmem
      · intro e he
        cases he
    | call hrun env call hround hok ih =>
      obtain ⟨hsound, hrest⟩ := List.forall_mem_cons.mp hlog
      obtain ⟨S, batches, lists, owed, hledgered, hsink⟩ := ih hrest
      exact hsink.step hkeys hQ hledgered hrun.kept (exec_effect hok) hsound
  obtain ⟨S, batches, lists, owed, hledgered, hsink⟩ := hkept
  exact ⟨batches, S, lists, hledgered.decoded, hledgered.replayed, hledgered.root, hsink.nonce,
    hsink.fed, hsink.untaken⟩

end Sink

section Sample

/-- SHA-256, except that no string hashes to the fee sink. -/
@[reducible] def Crypto.sinkless : Crypto where
  sha256 bytes :=
    let digest : Word := ⟨Sha256.digest bytes, Sha256.digest_length bytes⟩
    if digest = feeSink then Word.zero else digest
  ed25519Key _ := false
  ed25519VerifyStrict _ _ _ := false
  falconVerifyCompressed _ _ _ := false
  ed25519VerifyBare _ _ _ := false

attribute [local instance] Crypto.sinkless

theorem sinkless_keys (scheme : Scheme) (pubKey : Bytes) :
    addressFromPublicKey scheme pubKey ≠ feeSink := by
  have hsink : Word.zero ≠ feeSink := by decide
  rw [addressFromPublicKey, Crypto.sha256]
  dsimp only
  split_ifs with hdigest
  · exact hsink
  · exact hdigest

def sinkPlayed (calls : List (Env × Call)) : State × Log :=
  (play sampleApp (sampleStart 100000) [] calls).toOption.getD (sampleStart 100000, [])

theorem sinkPlayed_run (calls : List (Env × Call))
    (hok : (play sampleApp (sampleStart 100000) [] calls).isOk = true) (horder : InOrder 0 calls) :
    Run sampleApp 100000 (lastRound 0 calls) (sinkPlayed calls).1 (sinkPlayed calls).2 :=
  played_run (.create 0 ..) horder hok

def sinkEnd : State × Log := sinkPlayed (sampleDeposit :: sampleSettlement)

theorem sink_evaluated :
    ((play sampleApp (sampleStart 100000) [] (sampleDeposit :: sampleSettlement)).isOk = true ∧
      InOrder 0 (sampleDeposit :: sampleSettlement)) ∧
    (Word.zero :: sampleStrings.map sha256).Nodup ∧
    ∀ e ∈ sinkEnd.2, e.Sound sampleApp (2 ^ 32) sampleGuest
      {string | string ∈ sampleStrings} := by
  decide +kernel

theorem sink_run : Run sampleApp 100000 9 sinkEnd.1 sinkEnd.2 := by
  obtain ⟨⟨hplays, horder⟩, -⟩ := sink_evaluated
  exact sinkPlayed_run (sampleDeposit :: sampleSettlement) hplays horder

theorem sink_ideal : Ideal {string | string ∈ sampleStrings} := .of_list sink_evaluated.2.1

theorem sink_sound : ∀ e ∈ sinkEnd.2,
    e.Sound sampleApp (2 ^ 32) sampleGuest {string | string ∈ sampleStrings} :=
  sink_evaluated.2.2

theorem sink_untaken : ∃ batches S lists,
    (settledBatches sinkEnd.2).mapM (Batch.decode (2 ^ 32)) = .ok batches ∧
      replayBatches emptyLedger batches = some (S, lists) ∧
      sinkEnd.1.stateRoot = (treeOf S).root ∧ nonceOf S feeSink = 0 ∧ SinkFed batches ∧
      ∀ e ∈ sinkEnd.2, ¬e.call.TakesFrom feeSink :=
  fees_never_leave_the_sink sinkless_keys sink_ideal sink_run sink_sound

end Sample

end PaymentRollup.Contract
