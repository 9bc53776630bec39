import PaymentRollup.Contract.Posting
import PaymentRollup.Contract.Updates

/-! # Which verifier judges a batch

The keys of the verifier change only by a rotation that waited out its delay. A rotation that
was scheduled before a batch was opened can be executed while it is being posted, and then the
batch is judged by another verifier than the one it was opened under.
-/
namespace PaymentRollup.Contract
open Timelock (Last)

section Keys
variable [Crypto] {app : App} {env : Env} {s s' : State} {call : Call}

theorem exec_verifierKeys (hok : exec app env s call = .ok s') :
    (call ≠ .executeVerifierUpdate → s'.verifierKeys = s.verifierKeys) ∧
    (call = .executeVerifierUpdate → s.pendingKeys = some s'.verifierKeys ∧ s.escaped = false) := by
  have hupdating := exec_updating hok
  have hkeys : s'.verifierKeys = s'.updateKeys.verifier := rfl
  rw [hkeys]
  generalize s'.updateKeys = k at hupdating
  cases hupdating with
  | kept hcall =>
    constructor
    · exact fun _ => rfl
    · rintro rfl
      exact absurd True.intro hcall
  | executeVerifier hlive hpending =>
    constructor
    · exact fun h => absurd rfl h
    · exact fun _ => ⟨hpending, hlive⟩
  | _ =>
    constructor
    · exact fun _ => rfl
    · exact fun h => nomatch h

end Keys

section InFlight
variable [Crypto] {app : App} {env : Env} {s s' : State} {call : Call} {n : UInt64}
  {round round' : UInt64} {log seg : Log}

/-- What the proof of the batch that is open will be compared against. -/
structure Terms where
  verifier : VerifierKeys
  stateRoot : Word
  settledInboxChain : Word
  settledInboxCursor : UInt64
  sealedInboxChain : Option Word
  sealedInboxCursor : Option UInt64
deriving DecidableEq

def State.terms (s : State) : Terms where
  verifier := s.verifierKeys
  stateRoot := s.stateRoot
  settledInboxChain := s.settledInboxChain
  settledInboxCursor := s.settledInboxCursor
  sealedInboxChain := s.sealedInboxChain
  sealedInboxCursor := s.sealedInboxCursor

theorem Effect.terms (h : Effect app env s call s') (hopen : s.batchLength = some n)
    (hends : ¬call.EndsBatch) : s'.terms = { s.terms with verifier := s'.verifierKeys } := by
  cases h with
  | escape _ _ _ hcall =>
    rcases hcall with ⟨rfl, -⟩ | ⟨rfl, -⟩ <;> exact absurd True.intro hends
  | abandon => exact absurd True.intro hends
  | openBatch _ _ hclosed => cases hclosed.symm.trans hopen
  | settle => exact absurd True.intro hends
  | _ => rfl

/-- One call keeps the terms unless it rotates the verifier to other keys. -/
theorem exec_terms_iff (hok : exec app env s call = .ok s') (hopen : s.batchLength = some n)
    (hends : ¬call.EndsBatch) : s'.terms = s.terms ↔
      (call = .executeVerifierUpdate → s.pendingKeys = some s.verifierKeys) := by
  have hterms := (exec_effect hok).terms hopen hends
  obtain ⟨hkept, hrotated⟩ := exec_verifierKeys hok
  constructor
  · intro hsame hcall
    have hkeys : s'.verifierKeys = s.verifierKeys := congrArg Terms.verifier hsame
    rw [← hkeys]
    exact (hrotated hcall).1
  · intro hquiet
    have hkeys : s'.verifierKeys = s.verifierKeys := by
      by_cases hcall : call = .executeVerifierUpdate
      · exact Option.some.inj ((hrotated hcall).1.symm.trans (hquiet hcall))
      · exact hkept hcall
    rw [hterms, hkeys]
    rfl

/-- Between the call that opens a batch and the one that ends it, what the batch is judged by
stays as it was if and only if every rotation executed meanwhile is to the keys in force. -/
theorem batch_in_flight_terms_iff {s₀ s₁ : State} {target : UInt64}
    (hok : exec app env s₀ (.openBatch n target) = .ok s₁)
    (hlater : Later app (fun _ _ call => ¬call.EndsBatch) env.round s₁ [] round' s seg) :
    (∀ e ∈ seg, e.after.terms = s₁.terms) ↔
      ∀ e ∈ seg, e.call = .executeVerifierUpdate → e.before.pendingKeys = some e.before.verifierKeys := by
  obtain ⟨-, hopened, -⟩ := openBatch_opens hok
  have hsteps : ∀ {round' s seg},
      Later app (fun _ _ call => ¬call.EndsBatch) env.round s₁ [] round' s seg →
      ((∀ e ∈ seg, e.after.terms = s₁.terms) ↔ ∀ e ∈ seg, e.call = .executeVerifierUpdate →
        e.before.pendingKeys = some e.before.verifierKeys) ∧
      ((∀ e ∈ seg, e.after.terms = s₁.terms) → s.terms = s₁.terms) := by
    intro round' s seg hlater
    induction hlater with
    | start => exact ⟨iff_of_true (fun _ h => nomatch h) (fun _ h => nomatch h), fun _ => rfl⟩
    | @call _ s s' seg hlater env' call hmay _ hexec ih =>
      have hstep := exec_terms_iff hexec (hlater.batchLength_kept hopened) hmay
      obtain ⟨ihsteps, ihlast⟩ := ih
      simp only [List.forall_mem_cons]
      constructor
      · rw [← ihsteps]
        constructor
        · rintro ⟨hnew, hold⟩
          exact ⟨hstep.mp (hnew.trans (ihlast hold).symm), hold⟩
        · rintro ⟨hnew, hold⟩
          exact ⟨(hstep.mpr hnew).trans (ihlast hold), hold⟩
      · exact fun h => h.1
  exact (hsteps hlater).1

end InFlight

section Timelocks
variable [Crypto] {app : App} {funds : ℕ} {round : UInt64} {s : State} {log : Log}

/-- The council scheduled `keys` by this call, and the delay had run out by `round`. -/
structure Announced (s : State) (round : UInt64) (keys : VerifierKeys) (sched : Step) : Prop where
  call : sched.call = .scheduleVerifierUpdate keys.verifierAddress keys.programVkeyHash
    keys.recursionVkeyRoot
  council : sched.env.sender = s.securityCouncil
  delay : sched.env.round.toNat + s.updateDelay.toNat ≤ round.toNat

omit [Crypto] in
theorem Announced.mono {round' : UInt64} {keys : VerifierKeys} {sched : Step}
    (h : Announced s round keys sched) (hround : round ≤ round') :
    Announced s round' keys sched :=
  ⟨h.call, h.council, h.delay.trans (UInt64.le_iff_toNat_le.mp hround)⟩

omit [Crypto] in
theorem Announced.council_eq {s' : State} {keys : VerifierKeys} {sched : Step}
    (h : Announced s round keys sched) (hcouncil : s'.securityCouncil = s.securityCouncil)
    (hdelay : s'.updateDelay = s.updateDelay) : Announced s' round keys sched :=
  ⟨h.call, by rw [hcouncil]; exact h.council, by rw [hdelay]; exact h.delay⟩

/-- A rotation applies the last schedule, which was announced in time. -/
theorem Run.rotated {later earlier : Log} {e : Step} (hrun : Run app funds round s log)
    (hlog : log = later ++ e :: earlier) (hcall : e.call = .executeVerifierUpdate) :
    ∃ sched, Last (fun x : Step => x.call.rotation x.after.verifierKeys) e.after.verifierKeys sched
      earlier ∧ Announced s e.env.round e.after.verifierKeys sched := by
  have haction : e.call.rotation e.after.verifierKeys = .apply e.after.verifierKeys := by
    rw [hcall]
    rfl
  obtain ⟨sched, hlast, hdelay, hrecorded⟩ := hrun.applied hrun.rotations hlog haction
  obtain ⟨hsched, hcouncil⟩ := hrecorded.scheduled hlast.scheduled
  exact ⟨sched, hlast, hsched, hcouncil, hdelay⟩

theorem Run.keys_announced (hrun : Run app funds round s log) :
    (∀ x ∈ log, x.before.verifierKeys = s.verifierKeys) ∨
      ∃ sched ∈ log, Announced s round s.verifierKeys sched := by
  induction hrun with
  | create => exact .inl fun x hx => nomatch hx
  | @call round s s' log hrun env call hround hok ih =>
    obtain ⟨hcouncil, hdelay⟩ := exec_council hok
    by_cases hcall : call = .executeVerifierUpdate
    · obtain ⟨sched, hlast, hannounced⟩ :=
        @Run.rotated _ _ _ _ _ _ [] _ _ (hrun.call env call hround hok) rfl hcall
      exact .inr ⟨sched, List.mem_cons_of_mem _ hlast.mem, hannounced⟩
    · have hkeys := (exec_verifierKeys hok).1 hcall
      rw [hkeys]
      rcases ih with hsame | ⟨sched, hmem, hannounced⟩
      · left
        intro x hx
        rcases List.mem_cons.mp hx with rfl | hx
        · rfl
        · exact hsame x hx
      · exact .inr ⟨sched, List.mem_cons_of_mem _ hmem,
          (hannounced.mono hround).council_eq hcouncil hdelay⟩

theorem Run.council {later earlier : Log} {e : Step} (hrun : Run app funds round s log)
    (hlog : log = later ++ e :: earlier) :
    s.securityCouncil = e.before.securityCouncil ∧ s.updateDelay = e.before.updateDelay := by
  induction hrun generalizing later with
  | create => simp at hlog
  | call _ env call _ hok ih =>
    obtain ⟨hcouncil, hdelay⟩ := exec_council hok
    cases later with
    | nil =>
      obtain ⟨rfl, -⟩ := List.cons.inj hlog
      exact ⟨hcouncil, hdelay⟩
    | cons newest rest =>
      obtain ⟨ihcouncil, ihdelay⟩ := ih (List.cons.inj hlog).2
      exact ⟨hcouncil.trans ihcouncil, hdelay.trans ihdelay⟩

/-- Of any call of a run: it changes the verifier's keys only as a rotation, before any escape,
to what was scheduled last, by the council and in time, with no rotation executed since. Two
rotations apply two schedules. And the keys a call meets are those of creation, or were
scheduled in time themselves. -/
theorem verifier_rotations_are_timelocked (hrun : Run app funds round s log) {later earlier : Log}
    {e : Step} (hlog : log = later ++ e :: earlier) :
    (e.after.verifierKeys ≠ e.before.verifierKeys → e.call = .executeVerifierUpdate) ∧
    (e.call = .executeVerifierUpdate → e.before.escaped = false ∧
      ∃ since sched before, earlier = since ++ sched :: before ∧
        Announced s e.env.round e.after.verifierKeys sched ∧
        ∀ x ∈ since, (∀ v p r, x.call ≠ .scheduleVerifierUpdate v p r) ∧
          x.call ≠ .executeVerifierUpdate) ∧
    (e.call = .executeVerifierUpdate → ∀ mid e' before, earlier = mid ++ e' :: before →
      e'.call = .executeVerifierUpdate →
        ∃ sched ∈ mid, Announced s e.env.round e.after.verifierKeys sched) ∧
    ((∀ x ∈ earlier, x.before.verifierKeys = e.before.verifierKeys) ∨
      ∃ sched ∈ earlier, Announced s e.env.round e.before.verifierKeys sched) := by
  have hrun' := hrun
  rw [hlog] at hrun'
  obtain ⟨round₀, hbefore, hround, hok⟩ := hrun'.earlier
  obtain ⟨hkept, hrotated⟩ := exec_verifierKeys hok
  refine ⟨?_, ?_, ?_, ?_⟩
  · intro hchanged
    by_contra hcall
    exact hchanged (hkept hcall)
  · intro hcall
    obtain ⟨sched, ⟨since, before, rfl, -, hsince⟩, hannounced⟩ := hrun.rotated hlog hcall
    refine ⟨(hrotated hcall).2, since, sched, before, rfl, hannounced, ?_⟩
    intro x hx
    have hother : x.call.rotation x.after.verifierKeys = .other := hsince x hx
    constructor
    · intro v p r hx
      rw [hx] at hother
      cases hother
    · intro hx
      rw [hx] at hother
      cases hother
  · rintro hcall mid e' before rfl hcall'
    obtain ⟨sched, hlast, hannounced⟩ := hrun.rotated hlog hcall
    have haction : e'.call.rotation e'.after.verifierKeys = .apply e'.after.verifierKeys := by
      rw [hcall']
      rfl
    exact ⟨sched, hlast.after_apply haction, hannounced⟩
  · obtain ⟨hcouncil, hdelay⟩ := hrun.council hlog
    rcases hbefore.keys_announced with hsame | ⟨sched, hmem, hannounced⟩
    · exact .inl hsame
    · exact .inr ⟨sched, hmem, (hannounced.mono hround).council_eq hcouncil hdelay⟩

end Timelocks

section Sample
attribute [local instance] Crypto.unsigned

def sampleScheduled : State × Log :=
  samplePlayed 100000 [(sampleEnv (sampleAccount 13) 1,
    .scheduleVerifierUpdate (sampleAccount 20) (sampleAccount 21) (sampleAccount 22))]

def sampleUnderway : State :=
  (exec sampleApp (sampleEnv (sampleAccount 1) 6) sampleScheduled.1 (.openBatch 5 0)).toOption.getD
    sampleScheduled.1

/-- A bystander executes the rotation while it is being posted. -/
def sampleRotated : State :=
  (exec sampleApp (sampleEnv (sampleAccount 8) 11) sampleUnderway
    .executeVerifierUpdate).toOption.getD sampleScheduled.1

theorem sampleRotated_evaluated :
    (play sampleApp (sampleStart 100000) [] [(sampleEnv (sampleAccount 13) 1,
      .scheduleVerifierUpdate (sampleAccount 20) (sampleAccount 21) (sampleAccount 22))]).isOk =
        true ∧
    (exec sampleApp (sampleEnv (sampleAccount 1) 6) sampleScheduled.1 (.openBatch 5 0)).isOk =
      true ∧
    (exec sampleApp (sampleEnv (sampleAccount 8) 11) sampleUnderway .executeVerifierUpdate).isOk =
      true ∧
    sampleRotated.batchLength = some 5 ∧
    sampleRotated.terms.verifier ≠ sampleUnderway.terms.verifier := by
  decide +kernel

theorem sampleScheduled_run : Run sampleApp 100000 1 sampleScheduled.1 sampleScheduled.2 :=
  samplePlayed_run 100000 [(sampleEnv (sampleAccount 13) 1,
    .scheduleVerifierUpdate (sampleAccount 20) (sampleAccount 21) (sampleAccount 22))]
    sampleRotated_evaluated.1 (by decide)

theorem sampleUnderway_ok : exec sampleApp (sampleEnv (sampleAccount 1) 6) sampleScheduled.1
    (.openBatch 5 0) = .ok sampleUnderway :=
  eq_ok_getD sampleRotated_evaluated.2.1

theorem sampleRotated_ok : exec sampleApp (sampleEnv (sampleAccount 8) 11) sampleUnderway
    .executeVerifierUpdate = .ok sampleRotated :=
  eq_ok_getD sampleRotated_evaluated.2.2.1

/-- The batch that is open will be judged by a verifier it was not opened under. -/
theorem rotation_lands_mid_batch : Run sampleApp 100000 1 sampleScheduled.1 sampleScheduled.2 ∧
    exec sampleApp (sampleEnv (sampleAccount 1) 6) sampleScheduled.1 (.openBatch 5 0) =
      .ok sampleUnderway ∧
    Later sampleApp (fun _ _ call => ¬call.EndsBatch) 6 sampleUnderway [] 11 sampleRotated
      [⟨sampleUnderway, sampleEnv (sampleAccount 8) 11, .executeVerifierUpdate, sampleRotated⟩] ∧
    sampleRotated.batchLength = some 5 ∧
    sampleRotated.terms.verifier ≠ sampleUnderway.terms.verifier :=
  ⟨sampleScheduled_run, sampleUnderway_ok,
    Later.start.call (sampleEnv (sampleAccount 8) 11) .executeVerifierUpdate id (by decide)
      sampleRotated_ok, sampleRotated_evaluated.2.2.2.1, sampleRotated_evaluated.2.2.2.2⟩

theorem samplePosted_terms : samplePosted.terms = sampleOpened.terms := by
  have hstart := @Later.start _ sampleApp (fun _ _ call => ¬call.EndsBatch) 6 sampleOpened []
  have hlater := hstart.call (sampleEnv (sampleAccount 1) 7) (.accumulateChunk [1, 0, 0, 0, 0]) id
    (by decide) samplePosted_ok
  have hsame := (batch_in_flight_terms_iff sampleOpened_ok hlater).mpr (by simp)
  exact hsame _ List.mem_cons_self

theorem sampleRotated_announced : ∃ sched ∈ sampleScheduled.2,
    Announced sampleRotated 11 sampleRotated.verifierKeys sched := by
  have hrun := (sampleScheduled_run.call _ _ (by decide) sampleUnderway_ok).call
    (sampleEnv (sampleAccount 8) 11) .executeVerifierUpdate (by decide) sampleRotated_ok
  obtain ⟨-, hrotated, -⟩ := @verifier_rotations_are_timelocked _ _ _ _ _ _ hrun [] _ _ rfl
  obtain ⟨-, since, sched, before, hlog, hannounced, -⟩ := hrotated rfl
  have hmem := List.mem_append_right since (@List.mem_cons_self _ sched before)
  rw [← hlog] at hmem
  rcases List.mem_cons.mp hmem with rfl | hmem
  · cases hannounced.call
  · exact ⟨sched, hmem, hannounced⟩

end Sample

end PaymentRollup.Contract
