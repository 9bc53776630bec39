import PaymentRollup.Contract.Drains

/-! # An honest sequencer is never wedged

Wherever a run has come to in which the sequencer makes the calls that settle its block, the
next call goes through; and once there are none left, contract and ledger are in step again.
-/
namespace PaymentRollup.Contract

section Courses
variable [Crypto] {app : App} {usize : ℕ} {Q : Set Bytes} {round round' : UInt64} {s₀ s s' : State}
  {log₀ log log' : Log} {x : Settlement} {target : UInt64} {p : PublicValues}
  {left : List Move} {items : List InboxItem}

theorem Follows.course (hQ : Ideal Q) (hidle : Idle s)
    (hplan : Planned app usize Q s (arrivals app log) x target p)
    (h : Follows app Q round s log (moves x target p) round' s' log' left) :
    OnCourse app s (arrivals app log) x target p s' log' left := by
  induction h with
  | start =>
    exact .ready ⟨hidle.live, rfl, rfl, rfl, hidle.unpaid, List.prefix_refl _⟩ hidle.closed
  | other h env call hround hcall hstrings hok ih => exact ih.other (exec_effect hok) hcall
  | own h env call hround hcreator hmakes hstrings hok ih =>
    exact ih.own hQ hplan (exec_effect hok) hmakes

theorem OnCourse.finished (h : OnCourse app s₀ items x target p s log []) :
    Idle s ∧ s.stateRoot = p.newRoot ∧ s.settledInboxChain = p.newInboxChain ∧
      s.settledInboxCursor = target := by
  generalize hmoves : ([] : List Move) = all at h
  cases h with
  | ready => cases hmoves
  | @posting chunks => cases chunks <;> cases hmoves
  | @settled owed hlive hclosed hroot hchain hcursor howed hpending =>
    cases owed with
    | cons payout rest =>
      rw [withdrawalLinks_cons] at hmoves
      cases hmoves
    | nil => exact ⟨⟨hlive, hclosed, hpending⟩, hroot, hchain, hcursor⟩

end Courses

section Results
variable [Crypto] {app : App} {usize : ℕ} {guest : PublicValues → Execution} {Q : Set Bytes} {funds : ℕ}
  {round : UInt64} {s : State} {log : Log} {target : UInt64} {l l' : Ledger} {block : Block}

/-- Every planned call of a sequencer in step with an idle contract goes through, whatever
others call in between, and at the end both are in step and the contract is idle again. -/
theorem sequencer_never_wedged (hrun : Run app funds round s log)
    (hfunds : app.baseMinBalance ≤ funds) (hQ : Ideal Q)
    (hlog : ∀ e ∈ log, e.Sound app usize guest Q) (hdue : Due app s log l l' block target)
    (husize : usize ≤ 2 ^ 64) (hbatch : block.batch.encode.length < usize)
    (hsidecar : block.sidecar.encode.length < usize)
    (hhashed : block.execution.strings usize ⊆ Q) :
    ∃ x p, Settlement.forBlock usize block = .ok x ∧ p.bytes = x.publicValues ∧
      ∀ {round' s' log' left},
        Follows app Q round s log (moves x target p) round' s' log' left →
        (∀ {env move rest call}, left = move :: rest → round' ≤ env.round →
          env.sender = app.creator → move.Makes call →
          (∀ verifier signals, call = .verifyBatch verifier signals p →
            Timely app env s' verifier signals p) →
          (∀ account amount, minWithdrawal ≤ amount → env.accepts account amount = true) →
          move.Fits target s' → ∃ s'', exec app env s' call = .ok s'') ∧
        (left = [] → Idle s' ∧ InStep app l' s' ∧ s'.settledInboxCursor = target) := by
  have hproves := hdue.proves
  obtain ⟨x, hx, hhosts⟩ := Settlement.forBlock_hosts hproves husize hbatch hsidecar
  have hsize : x.publicValues.length = 192 := by
    rw [hhosts.publicValues]
    simp only [publicValues, List.length_append, Word.size]
  let p : PublicValues := ⟨x.publicValues, hsize⟩
  have hpayouts : payoutStrings block.domain (withdrawalPayouts block.batch block.sidecar) ⊆ Q := by
    intro string hstring
    exact hhashed ⟨_, _, hhosts.decoded, hhosts.witnessed, .inr (.inr (.inl hstring))⟩
  have hplan : Planned app usize Q s (arrivals app log) x target p :=
    hdue.planned hrun.kept hhosts (hbatch.trans_le husize) hpayouts rfl
  -- The sequencer's own execution may stand in for whatever made the same public values.
  let guest' := Function.update guest p block.execution
  have hcommits : (guest' p).Commits usize p.bytes ∧ (guest' p).strings usize ⊆ Q := by
    simp only [guest', Function.update_self]
    exact ⟨hhosts.commits, hhashed⟩
  have hlog' : ∀ e ∈ log, e.Sound app usize guest' Q := by
    intro e he
    obtain ⟨hprogram, hstrings, hproved⟩ := hlog e he
    refine ⟨hprogram, hstrings, ?_⟩
    intro verifier signals q hcall
    by_cases hq : q = p
    · exact hq ▸ hcommits
    · simp only [guest', Function.update_of_ne hq]
      exact hproved verifier signals q hcall
  refine ⟨x, p, hx, rfl, ?_⟩
  intro round' s' log' left hfollows
  have hrun' := hfollows.run hrun
  have hsound := hfollows.sound hlog' hcommits.1 hcommits.2
  have hcourse := hfollows.course hQ hdue.idle hplan
  obtain ⟨S', batches', lists', owed', hledgered', hsolvent⟩ := hrun'.solvent hQ hfunds hsound
  constructor
  · rintro env move rest call rfl hround hcreator hmakes htimely haccepts hfits
    exact hcourse.next hplan hrun'.kept hcreator hQ hledgered' hsolvent hmakes htimely haccepts hfits
  · rintro rfl
    obtain ⟨hidle', hroot, hchain, hcursor⟩ := hcourse.finished
    obtain ⟨-, hnewRoot, -, -, hnewChain, -⟩ := PublicValues.words (p := p) hhosts.publicValues
    refine ⟨hidle', ⟨?_, ?_, ?_⟩, hcursor⟩
    · exact hproves.domain'.trans hdue.inStep.domain
    · exact hproves.newRoot.symm.trans (hnewRoot.symm.trans hroot.symm)
    · exact hproves.newInboxChain.symm.trans (hnewChain.symm.trans hchain.symm)

end Results

section Playing
variable [Crypto] {app : App} {Q : Set Bytes} {round round' : UInt64} {s s' s'' : State}
  {log log' log'' : Log} {plan ms left : List Move} {verifier : PaymentTxn}
  {signals : List Word}

def Move.send (verifier : PaymentTxn) (signals : List Word) : Move → Call
  | .openBatch n target => .openBatch n target
  | .accumulateChunk chunk => .accumulateChunk chunk
  | .verifyBatch p => .verifyBatch verifier signals p
  | .payWithdrawal link => .payWithdrawal link.recipient link.amount link.tail

omit [Crypto] in
theorem Move.makes_send (move : Move) : move.Makes (move.send verifier signals) := by
  cases move <;> constructor

theorem play_log {calls : List (Env × Call)} (hok : play app s log calls = .ok (s', log')) :
    log <:+ log' := by
  induction calls generalizing s log with
  | nil =>
    cases hok
    exact List.suffix_refl _
  | cons first rest ih =>
    rcases first with ⟨env, call⟩
    simp only [play, bind_eq_ok] at hok
    obtain ⟨s₁, -, hrest⟩ := hok
    exact (List.suffix_cons _ _).trans (ih hrest)

theorem Follows.plays (h : Follows app Q round s log plan round' s' log' (ms ++ left))
    (env : Env) (hround : round' ≤ env.round) (hcreator : env.sender = app.creator)
    (hok : play app s' log' (ms.map fun move => (env, move.send verifier signals)) =
      .ok (s'', log''))
    (hstrings : ∀ e ∈ log'', callStrings app e.before e.call ⊆ Q) :
    ∃ last, last ≤ env.round ∧ Follows app Q round s log plan last s'' log'' left := by
  induction ms generalizing round' s' log' with
  | nil =>
    cases hok
    exact ⟨round', hround, h⟩
  | cons move rest ih =>
    simp only [List.map_cons, play, bind_eq_ok] at hok
    obtain ⟨s₁, hexec, hrest⟩ := hok
    have hmem := (play_log hrest).subset (List.mem_cons_self ..)
    exact ih (h.own env _ hround hcreator move.makes_send (hstrings _ hmem) hexec)
      (UInt64.le_refl _) hrest

end Playing

section Wedges
variable [Crypto]

/-- An app that was given so much has an honest sequencer whose next call does not go through,
although it is made in time and no recipient refuses a payment. -/
def Wedged (app : App) (usize : ℕ) (Q : Set Bytes) (funds : ℕ) : Prop :=
  ∃ (round last target : UInt64) (s s' : State) (log log' : Log) (l l' : Ledger) (block : Block)
      (x : Settlement) (p : PublicValues) (move : Move) (left : List Move),
    Run app funds round s log ∧ Due app s log l l' block target ∧
    Settlement.forBlock usize block = .ok x ∧ p.bytes = x.publicValues ∧
    Follows app Q round s log (moves x target p) last s' log' (move :: left) ∧
    (∀ e ∈ log', e.Genuine usize) ∧
    ∃ env call, last ≤ env.round ∧ env.sender = app.creator ∧ move.Makes call ∧
      (∀ verifier signals, call ≠ .verifyBatch verifier signals p) ∧
      (∀ account amount, env.accepts account amount = true) ∧
      ¬∃ s'', exec app env s' call = .ok s''

theorem Step.Sound.genuine {app : App} {usize : ℕ} {guest : PublicValues → Execution}
    {Q : Set Bytes} {e : Step} (h : e.Sound app usize guest Q) : e.Genuine usize :=
  ⟨h.program, fun verifier signals p hcall => ⟨guest p, (h.proved verifier signals p hcall).1⟩⟩

/-- With a grace period that long the last payout does not go through at all. -/
theorem Drained.wedged {grace : UInt64} {key : Bytes} {e : Step} {before log : Log} {block : Block}
    {l : Ledger} {x : Settlement} {p : PublicValues} {s : State}
    (h : Drained grace key e before block l x p s log) (hgrace : 2 ^ 64 ≤ 200 + 2 * grace.toNat) :
    Wedged sampleApp (2 ^ 32) Set.univ 100000 := by
  obtain ⟨deadline, hdeadline, howing⟩ := h.owing
  refine ⟨_, _, _, _, _, _, _, _, _, _, _, _, _, _, h.accused.run, h.next.due, h.next.hosted,
    h.next.bytes, h.follows, h.genuine, sampleEnv (sampleAccount 1) 200, _, UInt64.le_refl _, rfl,
    .payWithdrawal, ?_, fun _ _ => rfl, ?_⟩
  · rintro _ _ ⟨⟩
  · rintro ⟨s', hok⟩
    cases exec_effect hok with
    | inert hcall => exact hcall.elim
    | prune _ hcall => simp at hcall
    | escape _ _ _ hcall => simp at hcall
    | pay _ hcredit =>
      have hcreator : (sampleEnv (sampleAccount 1) 200).sender = sampleApp.creator := rfl
      rw [if_pos hcreator, howing.grace, howing.deadline, howing.progress] at hcredit
      cases hcredit with
      | counted hsum hshort =>
        rw [UInt64.lt_iff_toNat_lt, hsum] at hshort
        exact absurd hshort (by decide)
      | @extended _ _ _ later _ _ hlater =>
        have hbound := toNat_lt later
        omega

end Wedges

section Sample
attribute [local instance] Crypto.unsigned

def sampleLedger : Ledger :=
  (sampleBuilt.map Prod.snd).getD (.withDomain (deploymentDomain sampleApp))

/-- The deposit has arrived, at an app that was given so much. -/
def sampleArrived (funds : ℕ) : State × Log := samplePlayed funds [sampleDeposit]

theorem sampleArrived_evaluated : sampleBuilt.isSome = true ∧ ∀ funds ∈ [0, 100000],
    let s := (sampleArrived funds).1
    (play sampleApp (sampleStart funds) [] [sampleDeposit]).isOk = true ∧
    (s.escaped = false ∧ s.batchLength = none ∧ s.pendingWithdrawals = none) ∧
    ((Ledger.withDomain (deploymentDomain sampleApp)).stateRoot = s.stateRoot ∧
      inboxChainGenesis = s.settledInboxChain) ∧
    inboxItems (sampleTxns.map SignedTransaction.txn) =
      ((arrivals sampleApp (sampleArrived funds).2).take 1).drop s.settledInboxCursor.toNat ∧
    s.settledInboxCursor ≤ 1 ∧ 1 ≤ s.inboxCursor := by
  decide +kernel

theorem sampleBuilt_eq : (Ledger.withDomain (deploymentDomain sampleApp)).getBlock sampleTxns =
    some (sampleBlock, sampleLedger) := by
  obtain ⟨⟨block, l⟩, hbuilt⟩ := Option.isSome_iff_exists.mp sampleArrived_evaluated.1
  have hblock : sampleBlock = block := by rw [sampleBlock, hbuilt]; rfl
  have hledger : sampleLedger = l := by rw [sampleLedger, hbuilt]; rfl
  rw [hblock, hledger]
  exact hbuilt

theorem sampleArrived_run (funds : ℕ) (hfunds : funds ∈ [0, 100000]) :
    Run sampleApp funds 5 (sampleArrived funds).1 (sampleArrived funds).2 :=
  samplePlayed_run funds [sampleDeposit] (sampleArrived_evaluated.2 funds hfunds).1 (by decide)

theorem sampleArrived_due (funds : ℕ) (hfunds : funds ∈ [0, 100000]) :
    Due sampleApp (sampleArrived funds).1 (sampleArrived funds).2
      (.withDomain (deploymentDomain sampleApp)) sampleLedger sampleBlock 1 := by
  obtain ⟨-, ⟨hlive, hclosed, hunpaid⟩, ⟨hroot, hchain⟩, hinbox, hfrom, hto⟩ :=
    sampleArrived_evaluated.2 funds hfunds
  exact ⟨⟨hlive, hclosed, hunpaid⟩, .new, ⟨rfl, hroot, hchain⟩, ⟨sampleTxns, sampleBuilt_eq, hinbox⟩,
    hfrom, hto⟩

def sampleMoves : List Move :=
  match Settlement.forBlock (2 ^ 32) sampleBlock with
  | .ok x => moves x 1 samplePublicValues
  | .error _ => []

theorem sampleMoves_eq {x : Settlement} {p : PublicValues}
    (hx : Settlement.forBlock (2 ^ 32) sampleBlock = .ok x) (hp : p.bytes = x.publicValues) :
    moves x 1 p = sampleMoves := by
  have hsize : x.publicValues.length = 192 := by
    rw [← hp]
    exact p.size
  have hbytes : samplePublicValues.bytes = p.bytes := by
    unfold samplePublicValues
    rw [hx]
    simp only [hsize, dif_pos, hp]
  have hvalues : samplePublicValues = p := by
    generalize samplePublicValues = q at hbytes
    rcases q with ⟨bytes, hlength⟩
    cases hbytes
    rfl
  unfold sampleMoves
  rw [hx, hvalues]

def sampleSend (move : Move) : Env × Call :=
  (sampleEnv (sampleAccount 1) 6, move.send ⟨sampleAccount 10, sampleAccount 10, 0⟩
    [sampleAccount 11, signalOf (sha256 samplePublicValues.bytes), Word.zero, sampleAccount 12,
      Word.zero])

def sampleMade (funds n : ℕ) : State × Log :=
  (play sampleApp (sampleArrived funds).1 (sampleArrived funds).2
    ((sampleMoves.take n).map sampleSend)).toOption.getD (sampleArrived funds)

theorem sampleMade_follows (funds n : ℕ)
    (hok : (play sampleApp (sampleArrived funds).1 (sampleArrived funds).2
      ((sampleMoves.take n).map sampleSend)).isOk = true)
    (hstrings : ∀ e ∈ (sampleMade funds n).2,
      callStrings sampleApp e.before e.call ⊆ {string | string ∈ sampleStrings}) :
    ∃ last, last ≤ 6 ∧ Follows sampleApp {string | string ∈ sampleStrings} 5
      (sampleArrived funds).1 (sampleArrived funds).2 sampleMoves last (sampleMade funds n).1
      (sampleMade funds n).2 (sampleMoves.drop n) := by
  have hstart : Follows sampleApp {string | string ∈ sampleStrings} 5 (sampleArrived funds).1
      (sampleArrived funds).2 sampleMoves 5 (sampleArrived funds).1 (sampleArrived funds).2
      (sampleMoves.take n ++ sampleMoves.drop n) := by
    rw [List.take_append_drop]
    exact .start
  exact hstart.plays (sampleEnv (sampleAccount 1) 6) (by decide) rfl (eq_ok_getD hok) hstrings

theorem sample_never_wedged : ∃ x p last, Settlement.forBlock (2 ^ 32) sampleBlock = .ok x ∧
    p.bytes = x.publicValues ∧
    Follows sampleApp {string | string ∈ sampleStrings} 5 (sampleArrived 100000).1
      (sampleArrived 100000).2 (moves x 1 p) last (sampleMade 100000 4).1 (sampleMade 100000 4).2 [] ∧
    Idle (sampleMade 100000 4).1 ∧ InStep sampleApp sampleLedger (sampleMade 100000 4).1 ∧
    (sampleMade 100000 4).1.settledInboxCursor = 1 := by
  -- One evaluation of the sample block serves all of these.
  have hplayed : (sampleBlock.batch.encode.length < 2 ^ 32 ∧
        sampleBlock.sidecar.encode.length < 2 ^ 32 ∧
        sampleBlock.execution.strings (2 ^ 32) ⊆ {string | string ∈ sampleStrings}) ∧
      (∀ e ∈ (sampleArrived 100000).2,
        e.Sound sampleApp (2 ^ 32) sampleGuest {string | string ∈ sampleStrings}) ∧
      (play sampleApp (sampleArrived 100000).1 (sampleArrived 100000).2
        ((sampleMoves.take 4).map sampleSend)).isOk = true ∧
      (∀ e ∈ (sampleMade 100000 4).2,
        callStrings sampleApp e.before e.call ⊆ {string | string ∈ sampleStrings}) ∧
      sampleMoves.drop 4 = [] := by
    decide +kernel
  obtain ⟨⟨hbatch, hsidecar, hhashed⟩, hlog, hok, hstrings, hdone⟩ := hplayed
  obtain ⟨x, p, hx, hp, hnext⟩ := sequencer_never_wedged
    (sampleArrived_run 100000 (by decide)) (by decide) sample_ideal hlog
    (sampleArrived_due 100000 (by decide)) (by decide) hbatch hsidecar hhashed
  obtain ⟨last, -, hfollows⟩ := sampleMade_follows 100000 4 hok hstrings
  rw [hdone, ← sampleMoves_eq hx hp] at hfollows
  exact ⟨x, p, last, hx, hp, hfollows, (hnext hfollows).2 rfl⟩

/-- An app that was never given its minimum balance cannot pay out what it took in. -/
theorem sample_wedged : Wedged sampleApp (2 ^ 32) {string | string ∈ sampleStrings} 0 := by
  have hplayed : (sampleBlock.batch.encode.length < 2 ^ 32 ∧
        sampleBlock.sidecar.encode.length < 2 ^ 32) ∧
      (play sampleApp (sampleArrived 0).1 (sampleArrived 0).2
        ((sampleMoves.take 3).map sampleSend)).isOk = true ∧
      (∀ e ∈ (sampleMade 0 3).2,
        e.Sound sampleApp (2 ^ 32) sampleGuest {string | string ∈ sampleStrings}) ∧
      (sampleMoves.drop 3).length = 1 ∧
      ∀ move ∈ sampleMoves.drop 3, (sampleSend move).2.settles? = none ∧
        (exec sampleApp (sampleEnv (sampleAccount 1) 6) (sampleMade 0 3).1
          (sampleSend move).2).isOk = false := by
    decide +kernel
  obtain ⟨⟨hbatch, hsidecar⟩, hok, hsound, hone, hfails⟩ := hplayed
  have hdue := sampleArrived_due 0 (by decide)
  obtain ⟨x, hx, hhosts⟩ : ∃ x, Settlement.forBlock (2 ^ 32) sampleBlock = .ok x ∧
      x.Hosts (2 ^ 32) sampleBlock :=
    Settlement.forBlock_hosts hdue.proves (by decide) hbatch hsidecar
  have hsize : x.publicValues.length = 192 := by
    rw [hhosts.publicValues]
    simp only [publicValues, List.length_append, Word.size]
  let p : PublicValues := ⟨x.publicValues, hsize⟩
  have hstrings : ∀ e ∈ (sampleMade 0 3).2,
      callStrings sampleApp e.before e.call ⊆ {string | string ∈ sampleStrings} :=
    fun e he => (hsound e he).hashed
  obtain ⟨last, hlast, hfollows⟩ := sampleMade_follows 0 3 hok hstrings
  obtain ⟨move, hmove⟩ := List.length_eq_one_iff.mp hone
  rw [hmove, ← sampleMoves_eq (p := p) hx rfl] at hfollows
  obtain ⟨hunsettling, hfail⟩ := hfails move (hmove ▸ List.mem_singleton_self _)
  refine ⟨_, last, _, _, _, _, _, _, _, _, x, p, move, [],
    sampleArrived_run 0 (by decide), hdue, hx, rfl, hfollows,
    fun e he => (hsound e he).genuine, sampleEnv (sampleAccount 1) 6, (sampleSend move).2, hlast, rfl,
    move.makes_send, ?_, fun _ _ => rfl, ?_⟩
  · intro verifier signals hcall
    rw [hcall] at hunsettling
    cases hunsettling
  · rintro ⟨s', hok⟩
    rw [hok] at hfail
    cases hfail

/-- Without the minimum balance of the app, or with a grace period of half of all rounds, an honest
sequencer can be wedged. -/
theorem sequencer_wedged :
    (Ideal {string | string ∈ sampleStrings} ∧
      Wedged sampleApp (2 ^ 32) {string | string ∈ sampleStrings} 0) ∧
    Wedged sampleApp (2 ^ 32) Set.univ 100000 := by
  refine ⟨⟨sample_ideal, sample_wedged⟩, ?_⟩
  obtain ⟨e, before, block, l, x, p, s, log, h⟩ :=
    exists_drained 9223372036854775808 sampleKey (by decide) (by decide) sample_unlooped
  exact h.wedged (by decide)

end Sample

end PaymentRollup.Contract
