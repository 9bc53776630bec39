import PaymentRollup.Contract.Postponement
import PaymentRollup.Lib.Timelock

/-! # The council's updates and their delay

Two things can be replaced in a deployment: the verifier and the program. Each is scheduled by
the council and executed by anyone a delay later, so each is a timelock.
-/
namespace PaymentRollup.Contract
open Timelock (Action Allows Waiting Locked Last)

section Keys

/-- What a proof is checked against. -/
structure VerifierKeys where
  verifierAddress : L1Address
  programVkeyHash : Word
  recursionVkeyRoot : Word
deriving DecidableEq

def State.verifierKeys (s : State) : VerifierKeys :=
  ⟨s.verifierAddress, s.programVkeyHash, s.recursionVkeyRoot⟩

def State.pendingKeys (s : State) : Option VerifierKeys :=
  match s.pendingVerifierAddress, s.pendingProgramVkeyHash, s.pendingRecursionVkeyRoot with
  | some v, some p, some r => some ⟨v, p, r⟩
  | _, _, _ => none

/-- Everything that the update methods read and write. -/
structure UpdateKeys where
  verifier : VerifierKeys
  pendingVerifier : Option VerifierKeys
  verifierUpdateAfter : Option UInt64
  approvalProgram : List Bytes
  clearStateProgram : Bytes
  pendingApprovalProgramHash : Option Word
  applicationUpdateAfter : Option UInt64
  securityCouncil : L1Address
  updateDelay : UInt64

def State.updateKeys (s : State) : UpdateKeys where
  verifier := s.verifierKeys
  pendingVerifier := s.pendingKeys
  verifierUpdateAfter := s.verifierUpdateAfter
  approvalProgram := s.approvalProgram
  clearStateProgram := s.clearStateProgram
  pendingApprovalProgramHash := s.pendingApprovalProgramHash
  applicationUpdateAfter := s.applicationUpdateAfter
  securityCouncil := s.securityCouncil
  updateDelay := s.updateDelay

/-- What waits, together with the round it waits for. -/
def waitingFor {α : Type} (pending : Option α) (after : Option UInt64) : Waiting α :=
  match pending, after with
  | some a, some after => some (a, after.toNat)
  | _, _ => none

def Call.Updates : Call → Prop
  | .securityCouncilEscape => True
  | .scheduleVerifierUpdate _ _ _ => True
  | .executeVerifierUpdate => True
  | .scheduleApplicationUpdate _ => True
  | .updateApplication _ _ => True
  | _ => False

variable [Crypto] {app : App} {env : Env} {s s' : State} {call : Call}

/-- Every way a call can leave the keys of the updates, with what it checked of them. -/
inductive Updating (env : Env) (s : State) : Call → UpdateKeys → Prop
  | kept {call : Call} (hcall : ¬call.Updates) : Updating env s call s.updateKeys
  | escape (hcouncil : env.sender = s.securityCouncil) :
      Updating env s .securityCouncilEscape { s.updateKeys with
        pendingVerifier := none
        verifierUpdateAfter := none
        pendingApprovalProgramHash := none
        applicationUpdateAfter := none }
  | scheduleVerifier {keys : VerifierKeys} {after : UInt64}
      (hcouncil : env.sender = s.securityCouncil) (hclosed : s.batchLength = none)
      (hafter : after.toNat = env.round.toNat + s.updateDelay.toNat) :
      Updating env s (.scheduleVerifierUpdate keys.verifierAddress keys.programVkeyHash
        keys.recursionVkeyRoot) { s.updateKeys with
          pendingVerifier := some keys
          verifierUpdateAfter := some after }
  | executeVerifier {keys : VerifierKeys} {after : UInt64} (hlive : s.escaped = false)
      (hpending : s.pendingKeys = some keys) (hafter : s.verifierUpdateAfter = some after)
      (hdue : after ≤ env.round) :
      Updating env s .executeVerifierUpdate { s.updateKeys with
        verifier := keys
        pendingVerifier := none
        verifierUpdateAfter := none }
  | scheduleApplication {hash : Word} {after : UInt64}
      (hcouncil : env.sender = s.securityCouncil)
      (hafter : after.toNat = env.round.toNat + s.updateDelay.toNat) :
      Updating env s (.scheduleApplicationUpdate hash) { s.updateKeys with
        pendingApprovalProgramHash := some hash
        applicationUpdateAfter := some after }
  | application {pages : List Bytes} {clear : Bytes} {after : UInt64}
      (hlive : s.escaped = false)
      (hpending : s.pendingApprovalProgramHash = some (approvalProgramCommitment pages))
      (hafter : s.applicationUpdateAfter = some after) (hdue : after ≤ env.round) :
      Updating env s (.updateApplication pages clear) { s.updateKeys with
        approvalProgram := pages
        clearStateProgram := clear
        pendingApprovalProgramHash := none
        applicationUpdateAfter := none }

end Keys

section Methods
variable [Crypto] {app : App} {env : Env} {s s' : State} {call : Call}

theorem securityCouncilEscape_updating (h : securityCouncilEscape env s = .ok s') :
    Updating env s .securityCouncilEscape s'.updateKeys := by
  simp only [securityCouncilEscape, State.assertSecurityCouncil, bind_eq_ok, assert_eq_ok,
    Except.ok.injEq] at h
  obtain ⟨-, hcouncil, -, -, rfl⟩ := h
  split_ifs <;> exact .escape hcouncil

theorem scheduleVerifierUpdate_updating {v : L1Address} {p r : Word}
    (h : scheduleVerifierUpdate env v p r s = .ok s') :
    Updating env s (.scheduleVerifierUpdate v p r) s'.updateKeys := by
  simp only [scheduleVerifierUpdate, State.assertSecurityCouncil, bind_eq_ok, assert_eq_ok,
    add_eq_ok, Except.ok.injEq] at h
  obtain ⟨-, hcouncil, -, -, -, hclosed, after, hafter, rfl⟩ := h
  exact @Updating.scheduleVerifier _ env s ⟨v, p, r⟩ after hcouncil hclosed hafter

theorem executeVerifierUpdate_updating (h : executeVerifierUpdate env s = .ok s') :
    Updating env s .executeVerifierUpdate s'.updateKeys := by
  simp only [executeVerifierUpdate, bind_eq_ok, assert_eq_ok, demand_eq_ok, Except.ok.injEq] at h
  obtain ⟨-, hlive, -, -, after, hafter, -, hdue, v, hv, p, hp, r, hr, rfl⟩ := h
  have hpending : s.pendingKeys = some ⟨v, p, r⟩ := by
    rw [State.pendingKeys, hv, hp, hr]
  exact .executeVerifier (by simpa using hlive) hpending hafter hdue

theorem scheduleApplicationUpdate_updating {hash : Word}
    (h : scheduleApplicationUpdate env hash s = .ok s') :
    Updating env s (.scheduleApplicationUpdate hash) s'.updateKeys := by
  simp only [scheduleApplicationUpdate, State.assertSecurityCouncil, bind_eq_ok, assert_eq_ok,
    add_eq_ok, Except.ok.injEq] at h
  obtain ⟨-, hcouncil, -, -, after, hafter, rfl⟩ := h
  exact .scheduleApplication hcouncil hafter

theorem updateApplication_updating {pages : List Bytes} {clear : Bytes}
    (h : updateApplication env pages clear s = .ok s') :
    Updating env s (.updateApplication pages clear) s'.updateKeys := by
  simp only [updateApplication, bind_eq_ok, assert_eq_ok, demand_eq_ok, Except.ok.injEq] at h
  obtain ⟨-, hlive, -, -, after, hafter, -, hdue, hash, hpending, -, rfl, rfl⟩ := h
  exact .application (by simpa using hlive) hpending hafter hdue

omit [Crypto] in
theorem fund_updateKeys {payment : PaymentTxn} (h : s.receive app payment = .ok s') :
    s'.updateKeys = s.updateKeys := by
  obtain ⟨-, ⟨-, -, rfl⟩ | ⟨-, rfl⟩⟩ := State.receive_eq_ok.mp h <;> rfl

omit [Crypto] in
theorem executeEscape_updateKeys (h : executeEscape env s = .ok s') :
    s'.updateKeys = s.updateKeys := by
  simp only [executeEscape, bind_eq_ok, assert_eq_ok, demand_eq_ok, Except.ok.injEq] at h
  obtain ⟨-, -, -, -, deadline, -, -, -, rfl⟩ := h
  split_ifs <;> rfl

theorem exec_updateKeys (hok : exec app env s call = .ok s') (hcall : ¬call.Updates) :
    s'.updateKeys = s.updateKeys := by
  have hinert : call.IsInert → s'.updateKeys = s.updateKeys := by
    intro hinert
    cases call with
    | fund payment => exact fund_updateKeys hok
    | opUp nonce => exact congrArg State.updateKeys (Except.ok.inj hok).symm
    | scheduleVerifierUpdate => exact absurd True.intro hcall
    | executeVerifierUpdate => exact absurd True.intro hcall
    | scheduleApplicationUpdate => exact absurd True.intro hcall
    | updateApplication => exact absurd True.intro hcall
    | _ => exact hinert.elim
  have hescape : call = .securityCouncilEscape ∨ call = .executeEscape →
      s'.updateKeys = s.updateKeys := by
    rintro (rfl | rfl)
    · exact absurd True.intro hcall
    · exact executeEscape_updateKeys hok
  cases exec_effect hok with
  | inert h => exact hinert h
  | escape _ _ _ h => exact hescape (h.imp And.left And.left)
  | _ => rfl

theorem exec_updating (hok : exec app env s call = .ok s') :
    Updating env s call s'.updateKeys := by
  have hkept : ¬call.Updates → Updating env s call s'.updateKeys := by
    intro hcall
    rw [exec_updateKeys hok hcall]
    exact .kept hcall
  cases call with
  | securityCouncilEscape => exact securityCouncilEscape_updating hok
  | scheduleVerifierUpdate v p r => exact scheduleVerifierUpdate_updating hok
  | executeVerifierUpdate => exact executeVerifierUpdate_updating hok
  | scheduleApplicationUpdate hash => exact scheduleApplicationUpdate_updating hok
  | updateApplication pages clear => exact updateApplication_updating hok
  | _ => exact hkept id

end Methods

section Delays
variable [Crypto] {app : App} {env : Env} {s s' : State} {call : Call} {k : UpdateKeys}
  {funds : ℕ} {round : UInt64} {log : Log} {e : Step}

/-- What a call does to a rotation that waits; `installed` are the keys it leaves in force. -/
def Call.rotation (installed : VerifierKeys) : Call → Action VerifierKeys
  | .scheduleVerifierUpdate v p r => .schedule ⟨v, p, r⟩
  | .executeVerifierUpdate => .apply installed
  | .securityCouncilEscape => .cancel
  | _ => .other

/-- What a call does to a program that waits, as the commitment to it. -/
def Call.replacement : Call → Action Word
  | .scheduleApplicationUpdate hash => .schedule hash
  | .updateApplication pages _ => .apply (approvalProgramCommitment pages)
  | .securityCouncilEscape => .cancel
  | _ => .other

theorem Updating.rotates (h : Updating env s call k) :
    Allows s.updateDelay.toNat env.round.toNat (waitingFor s.pendingKeys s.verifierUpdateAfter)
      (call.rotation k.verifier) (waitingFor k.pendingVerifier k.verifierUpdateAfter) := by
  cases h with
  | kept hcall =>
    have hother : call.rotation s.updateKeys.verifier = .other := by
      cases call <;> first | rfl | exact absurd True.intro hcall
    rw [hother]
    exact .other _
  | escape => exact .cancel _
  | @scheduleVerifier keys after _ _ hafter =>
    change Allows _ _ _ _ (some (keys, after.toNat))
    rw [hafter]
    exact .schedule _ _
  | executeVerifier _ hpending hafter hdue =>
    rw [hpending, hafter]
    exact .apply (UInt64.le_iff_toNat_le.mp hdue)
  | scheduleApplication => exact .other _
  | application => exact .other _

theorem Updating.replaces (h : Updating env s call k) :
    Allows s.updateDelay.toNat env.round.toNat
      (waitingFor s.pendingApprovalProgramHash s.applicationUpdateAfter) call.replacement
      (waitingFor k.pendingApprovalProgramHash k.applicationUpdateAfter) := by
  cases h with
  | kept hcall =>
    have hother : call.replacement = .other := by
      cases call <;> first | rfl | exact absurd True.intro hcall
    rw [hother]
    exact .other _
  | escape => exact .cancel _
  | scheduleVerifier => exact .other _
  | executeVerifier => exact .other _
  | @scheduleApplication hash after _ hafter =>
    change Allows _ _ _ _ (some (hash, after.toNat))
    rw [hafter]
    exact .schedule _ _
  | application _ hpending hafter hdue =>
    rw [hpending, hafter]
    exact .apply (UInt64.le_iff_toNat_le.mp hdue)

theorem Updating.council (h : Updating env s call k) :
    k.securityCouncil = s.securityCouncil ∧ k.updateDelay = s.updateDelay := by
  cases h <;> exact ⟨rfl, rfl⟩

theorem exec_council (hok : exec app env s call = .ok s') :
    s'.securityCouncil = s.securityCouncil ∧ s'.updateDelay = s.updateDelay :=
  (exec_updating hok).council

/-- What a run recorded of one call: no later than the run has come, and under its council. -/
structure Recorded (s : State) (round : UInt64) (e : Step) : Prop where
  updating : Updating e.env e.before e.call e.after.updateKeys
  council : e.before.securityCouncil = s.securityCouncil
  round : e.env.round ≤ round

theorem Run.recorded (hrun : Run app funds round s log) : ∀ e ∈ log, Recorded s round e := by
  induction hrun with
  | create => exact fun e he => nomatch he
  | call _ env call hround hok ih =>
    have hcouncil := (exec_council hok).1
    intro e he
    rcases List.mem_cons.mp he with rfl | he
    · exact ⟨exec_updating hok, hcouncil.symm, UInt64.le_refl _⟩
    · have h := ih e he
      exact ⟨h.updating, h.council.trans hcouncil.symm, UInt64.le_trans h.round hround⟩

/-- Whatever a timelock of the contract applies was scheduled last and in time, by a recorded
call. -/
theorem Run.applied {α : Type} {action : Step → Action α} {w : Waiting α} {a : α}
    {later earlier : Log} (hrun : Run app funds round s log)
    (hlocked : Locked action (fun e => e.env.round.toNat) s.updateDelay.toNat w log)
    (hlog : log = later ++ e :: earlier) (haction : action e = .apply a) :
    ∃ sched, Last action a sched earlier ∧
      sched.env.round.toNat + s.updateDelay.toNat ≤ e.env.round.toNat ∧
      Recorded s round sched := by
  have hrecorded := hrun.recorded
  rw [hlog] at hlocked hrecorded
  obtain ⟨sched, hlast, hdelay⟩ := hlocked.applied haction
  have hmem : sched ∈ later ++ e :: earlier :=
    List.mem_append_right _ (List.mem_cons_of_mem _ hlast.mem)
  exact ⟨sched, hlast, hdelay, hrecorded sched hmem⟩

theorem Run.rotations (hrun : Run app funds round s log) :
    Locked (fun e : Step => e.call.rotation e.after.verifierKeys) (fun e => e.env.round.toNat)
      s.updateDelay.toNat (waitingFor s.pendingKeys s.verifierUpdateAfter) log := by
  induction hrun with
  | create => exact .start
  | @call _ s s' _ _ env call _ hok ih =>
    rw [(exec_council hok).2]
    exact ih.step ⟨s, env, call, s'⟩ (exec_updating hok).rotates

theorem Run.replacements (hrun : Run app funds round s log) :
    Locked (fun e : Step => e.call.replacement) (fun e => e.env.round.toNat) s.updateDelay.toNat
      (waitingFor s.pendingApprovalProgramHash s.applicationUpdateAfter) log := by
  induction hrun with
  | create => exact .start
  | @call _ s s' _ _ env call _ hok ih =>
    rw [(exec_council hok).2]
    exact ih.step ⟨s, env, call, s'⟩ (exec_updating hok).replaces

theorem Recorded.scheduled {keys : VerifierKeys} (h : Recorded s round e)
    (haction : e.call.rotation e.after.verifierKeys = .schedule keys) :
    e.call = .scheduleVerifierUpdate keys.verifierAddress keys.programVkeyHash
      keys.recursionVkeyRoot ∧ e.env.sender = s.securityCouncil := by
  have hupdating := h.updating
  rw [← h.council]
  generalize e.after.updateKeys = k at hupdating
  generalize e.call = call at haction hupdating
  cases hupdating with
  | kept hcall => cases call <;> first | exact absurd True.intro hcall | cases haction
  | scheduleVerifier hcouncil =>
    cases haction
    exact ⟨rfl, hcouncil⟩
  | _ => cases haction

theorem Recorded.scheduledProgram {hash : Word} (h : Recorded s round e)
    (haction : e.call.replacement = .schedule hash) :
    e.call = .scheduleApplicationUpdate hash ∧ e.env.sender = s.securityCouncil := by
  have hupdating := h.updating
  rw [← h.council]
  generalize e.after.updateKeys = k at hupdating
  generalize e.call = call at haction hupdating
  cases hupdating with
  | kept hcall => cases call <;> first | exact absurd True.intro hcall | cases haction
  | scheduleApplication hcouncil =>
    cases haction
    exact ⟨rfl, hcouncil⟩
  | _ => cases haction

end Delays

end PaymentRollup.Contract
