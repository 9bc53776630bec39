import PaymentRollup.Contract.Settlement
import PaymentRollup.Rollup.Authorization

/-! # No signed message works twice

A deployment checks signatures in two programs: the guest over payments and withdrawals, the
contract over requests and exits. Seen from the guards of both, one run uses no message
twice.
-/
namespace PaymentRollup.Contract

section Statements
variable [Crypto]

def callAuthorizations (app : App) (usize : ℕ) (guest : PublicValues → Execution) :
    Call → List Authorization
  | .requestWithdrawal _ nonce address recipient _ _ _ =>
    [.request (deploymentDomain app) nonce address recipient]
  | .forceExit address _ _ _ _ _ _ recipient _ => [.exit (deploymentDomain app) address recipient]
  | .verifyBatch _ _ p => (guest p).authorizations usize
  | _ => []

/-- Every message accepted so far, oldest first. -/
def authorizations (app : App) (usize : ℕ) (guest : PublicValues → Execution) :
    Log → List Authorization
  | [] => []
  | e :: log => authorizations app usize guest log ++ callAuthorizations app usize guest e.call

/-- The signature checks of a call that went through: which messages each would have passed. -/
def callChecks (usize : ℕ) (guest : PublicValues → Execution) : Call → List (Bytes → Prop)
  | .requestWithdrawal _ _ _ _ _ pubKey signature =>
    [fun message => Crypto.ed25519VerifyBare message signature pubKey.bytes = true]
  | .forceExit _ _ _ _ _ pubKey signature _ _ =>
    [fun message => Crypto.ed25519VerifyBare message signature pubKey.bytes = true]
  | .verifyBatch _ _ p => ((guest p).signatures usize).map Signature.Signs
  | _ => []

def State.guards (s : State) (S : AccountMap) : Guards := ⟨S, s.requestCursor, s.exits⟩

end Statements

section Messages
variable [Crypto] (app : App) (nonce : UInt64) (address : Address) (recipient : L1Address)

theorem requestMessage_eq : requestMessage app nonce address recipient =
    (Authorization.request (deploymentDomain app) nonce address recipient).preimage := rfl

theorem exitMessage_eq : exitMessage app address recipient =
    (Authorization.exit (deploymentDomain app) address recipient).preimage := rfl

end Messages

section Step
variable [Crypto] {app : App} {usize : ℕ} {guest : PublicValues → Execution} {Q : Set Bytes}
  {env : Env} {s s' : State} {call : Call} {log : Log} {items : List InboxItem}
  {S S' : AccountMap} {owed owed' : List Payout}

theorem Effect.signed (h : Effect app env s call s') (hsound : call.Sound app usize guest Q s) :
    List.Forall₂ (fun check a => check a.preimage) (callChecks usize guest call)
      (callAuthorizations app usize guest call) := by
  cases h with
  | request _ _ _ _ hsig =>
    rw [requestMessage_eq] at hsig
    exact .cons hsig .nil
  | exit _ _ _ hsig =>
    rw [exitMessage_eq] at hsig
    exact .cons hsig .nil
  | settle =>
    obtain ⟨-, -, hproved⟩ := hsound
    exact List.forall₂_map_left_iff.mpr (hproved _ _ _ rfl).1.signed
  | inert hcall =>
    cases call <;> first | exact hcall.elim | exact .nil
  | prune _ hcall => rcases hcall with ⟨rfl, -⟩ | ⟨rfl, -⟩ <;> exact .nil
  | escape _ _ _ hcall => rcases hcall with ⟨rfl, -⟩ | ⟨rfl, -⟩ <;> exact .nil
  | _ => exact .nil

theorem Run.signed {funds : ℕ} {round : UInt64} (hrun : Run app funds round s log)
    (hlog : ∀ e ∈ log, e.Sound app usize guest Q) :
    ∀ e ∈ log, List.Forall₂ (fun check a => check a.preimage) (callChecks usize guest e.call)
      (callAuthorizations app usize guest e.call) := by
  induction hrun with
  | create => exact fun _ he => nomatch he
  | call hrun env call hround hok ih =>
    obtain ⟨hsound, hrest⟩ := List.forall_mem_cons.mp hlog
    exact List.forall_mem_cons.mpr ⟨(exec_effect hok).signed hsound, ih hrest⟩

theorem Effect.uses (hQ : Ideal Q) (h : Effect app env s call s')
    (hmoves : Moves app usize guest Q items s s' call S owed S' owed')
    (hS : (treeOf S).strings ⊆ Q) :
    (s.guards S).Advances (s'.guards S') ∧
      OneUse Authorization.Used (s'.guards S') (callAuthorizations app usize guest call) ∧
      ∀ a ∈ callAuthorizations app usize guest call,
        ¬a.Used (s.guards S) ∧ a.domain = deploymentDomain app := by
  -- Calls that accept no message leave every guard alone.
  have hnone : S' = S → s'.requestCursor = s.requestCursor → s'.exits = s.exits →
      callAuthorizations app usize guest call = [] →
      (s.guards S).Advances (s'.guards S') ∧
        OneUse Authorization.Used (s'.guards S') (callAuthorizations app usize guest call) ∧
        ∀ a ∈ callAuthorizations app usize guest call,
          ¬a.Used (s.guards S) ∧ a.domain = deploymentDomain app := by
    rintro rfl hrequests hexits hcall
    rw [hcall]
    refine ⟨⟨fun _ => le_rfl, ?_, ?_⟩, OneUse.nil, fun _ ha => nomatch ha⟩
    · exact (congrArg UInt64.toNat hrequests).ge
    · intro address hexit
      simpa only [State.guards, hexits] using hexit
  cases h with
  | @request payment nonce address recipient pubKey signature next nextNonce _ _ hnonce _ _ _
      hnextNonce =>
    cases hmoves with
    | stay =>
      have hless : nonce < nextNonce := UInt64.lt_iff_toNat_lt.mpr (by omega)
      refine ⟨⟨fun _ => le_rfl, ?_, fun _ => id⟩, OneUse.single hless, ?_⟩
      · simp only [State.guards, hnonce]
        omega
      · intro a ha
        rw [List.mem_singleton.mp ha]
        refine ⟨?_, rfl⟩
        simp only [Authorization.Used, State.guards, hnonce]
        exact UInt64.lt_irrefl nonce
  | @exit address nonce amount authAddress pubKey signature recipient siblings paid _ hfresh =>
    cases hmoves with
    | stay =>
      refine ⟨⟨fun _ => le_rfl, le_rfl, ?_⟩, OneUse.single ?_, ?_⟩
      · intro b hb
        by_cases hsame : b = address
        · simp [State.guards, hsame]
        · simpa [State.guards, hsame] using hb
      · simp [Authorization.Used, State.guards]
      · intro a ha
        rw [List.mem_singleton.mp ha]
        exact ⟨by simp [Authorization.Used, State.guards, hfresh], rfl⟩
  | settle =>
    cases hmoves with
    | settle hsettles hdomain =>
      obtain ⟨hone, hfresh⟩ := hsettles.uses hQ hS s.requestCursor s.exits
      exact ⟨.replay hsettles.replayed _ _, hone, fun a ha =>
        ⟨(hfresh a ha).1, (hfresh a ha).2.trans hdomain⟩⟩
    | stay hsettle => exact absurd rfl (hsettle _ _ _)
  | inert hcall =>
    have hsame := (hmoves.quiet_eq hcall.isQuiet).1
    refine hnone hsame rfl rfl ?_
    cases call <;> first | exact hcall.elim | rfl
  | prune _ hcall =>
    rcases hcall with ⟨rfl, -⟩ | ⟨rfl, -⟩ <;>
      exact hnone (hmoves.quiet_eq True.intro).1 rfl rfl rfl
  | escape dropped hdropped _ hcall =>
    have hsame : dropped.requestCursor = s.requestCursor ∧ dropped.exits = s.exits := by
      subst hdropped
      split_ifs <;> exact ⟨rfl, rfl⟩
    rcases hcall with ⟨rfl, -⟩ | ⟨rfl, -⟩ <;>
      exact hnone (hmoves.quiet_eq True.intro).1 hsame.1 hsame.2 rfl
  | pay =>
    cases hmoves with
    | pay => exact hnone rfl rfl rfl rfl
    | stay => exact hnone rfl rfl rfl rfl
  | _ =>
    cases hmoves with
    | stay => exact hnone rfl rfl rfl rfl

/-- The accounts behind the root and the two records of the contract guard every message the
run accepted. -/
theorem Run.uses (hQ : Ideal Q) {funds : ℕ} {round : UInt64} (hrun : Run app funds round s log)
    (hlog : ∀ e ∈ log, e.Sound app usize guest Q) :
    ∃ S batches lists owed, Ledgered app usize Q s log S batches lists owed ∧
      OneUse Authorization.Used (s.guards S) (authorizations app usize guest log) ∧
      ∀ a ∈ authorizations app usize guest log, a.domain = deploymentDomain app := by
  induction hrun with
  | create => exact ⟨_, _, _, _, Ledgered.create, OneUse.nil, fun _ ha => nomatch ha⟩
  | call hrun env call hround hok ih =>
    obtain ⟨hsound, hrest⟩ := List.forall_mem_cons.mp hlog
    obtain ⟨S, batches, lists, owed, hledgered, hone, hdomains⟩ := ih hrest
    have heffect := exec_effect hok
    obtain ⟨S', batches', lists', owed', hstep, hmoves⟩ :=
      hledgered.step hQ hrun.kept heffect hsound
    obtain ⟨hadvances, hnew, hfresh⟩ := heffect.uses hQ hmoves hledgered.tree
    refine ⟨S', batches', lists', owed', hstep, ?_, ?_⟩
    · exact hone.append (fun a ha => (hfresh a ha).1) hadvances.used hnew
    · intro a ha
      rcases List.mem_append.mp ha with hold | hin
      · exact hdomains a hold
      · exact (hfresh a hin).2

end Step

section Domains
variable [Crypto]

omit [Crypto] in
theorem domainString_inj {app other : App} (h : domainString app = domainString other) :
    app.genesisHash = other.genesisHash ∧ app.appId = other.appId := by
  simp only [domainString, List.append_assoc, List.append_cancel_left_eq] at h
  obtain ⟨hgenesis, hid⟩ := word_append_inj h
  exact ⟨hgenesis, toBeBytes_inj hid⟩

theorem deploymentDomain_inj {Q : Set Bytes} (hQ : Ideal Q) {app other : App}
    (happ : app.testDeployment = false) (hother : other.testDeployment = false)
    (hin : domainString app ∈ Q) (hotherIn : domainString other ∈ Q)
    (h : deploymentDomain app = deploymentDomain other) :
    app.genesisHash = other.genesisHash ∧ app.appId = other.appId := by
  simp only [deploymentDomain, happ, hother, Bool.false_eq_true, ↓reduceIte] at h
  exact domainString_inj (hQ.inj _ hin _ hotherIn h)

end Domains

section Results
variable [Crypto]

/-- Over the whole life of a deployment no signed message is accepted twice, and none without a
signature that was checked over it. A message says every field of what it authorizes, so two that
differ anywhere have different bytes; and what one deployment accepts, no other deployment does. -/
theorem no_signed_message_works_twice {app : App} {usize : ℕ} {guest : PublicValues → Execution}
    {Q : Set Bytes} {funds : ℕ} {round : UInt64} {s : State} {log : Log}
    (happ : app.testDeployment = false) (hrun : Run app funds round s log) (hQ : Ideal Q)
    (hlog : ∀ e ∈ log, e.Sound app usize guest Q) :
    ((authorizations app usize guest log).map Authorization.preimage).Nodup ∧
      (∀ e ∈ log, List.Forall₂ (fun check a => check a.preimage) (callChecks usize guest e.call)
        (callAuthorizations app usize guest e.call)) ∧
      (∀ a b : Authorization, a.preimage = b.preimage → a = b) ∧
      ∀ {other : App} {otherFunds : ℕ} {otherRound : UInt64} {s' : State} {otherLog : Log},
        other.testDeployment = false → Run other otherFunds otherRound s' otherLog →
        (∀ e ∈ otherLog, e.Sound other usize guest Q) →
        domainString app ∈ Q → domainString other ∈ Q →
        (app.genesisHash, app.appId) ≠ (other.genesisHash, other.appId) →
        ∀ a ∈ authorizations app usize guest log,
          ∀ b ∈ authorizations other usize guest otherLog, a.preimage ≠ b.preimage := by
  obtain ⟨S, batches, lists, owed, -, hone, hdomains⟩ := hrun.uses hQ hlog
  refine ⟨?_, hrun.signed hlog, fun a b => Authorization.preimage_inj, ?_⟩
  · exact hone.nodup.map fun a b => Authorization.preimage_inj
  · intro other otherFunds otherRound s' otherLog hother hotherRun hotherLog hin hotherIn hne a ha
      b hb heq
    obtain ⟨_, _, _, _, -, -, hotherDomains⟩ := hotherRun.uses hQ hotherLog
    have hsame : deploymentDomain app = deploymentDomain other := by
      rw [← hdomains a ha, Authorization.preimage_inj heq, hotherDomains b hb]
    obtain ⟨hgenesis, hid⟩ := deploymentDomain_inj hQ happ hother hin hotherIn hsame
    exact hne (by rw [hgenesis, hid])

end Results

section Sample
attribute [local instance] Crypto.leaver

/-- Two messages are signed on the way out: the asker's request and the leaver's exit. -/
theorem sample_signed_once :
    let log : Log := leaverStep :: departed.2
    authorizations samplePriced (2 ^ 32) departingGuest log =
        [.request (deploymentDomain samplePriced) 0 asker (sampleAccount 6),
          .exit (deploymentDomain samplePriced) leaver (sampleAccount 8)] ∧
      ((authorizations samplePriced (2 ^ 32) departingGuest log).map
        Authorization.preimage).Nodup ∧
      (∀ e ∈ log, List.Forall₂ (fun check a => check a.preimage)
        (callChecks (2 ^ 32) departingGuest e.call)
        (callAuthorizations samplePriced (2 ^ 32) departingGuest e.call)) ∧
      (∀ a b : Authorization, a.preimage = b.preimage → a = b) ∧
      ∀ {other : App} {otherFunds : ℕ} {otherRound : UInt64} {s' : State} {otherLog : Log},
        other.testDeployment = false → Run other otherFunds otherRound s' otherLog →
        (∀ e ∈ otherLog,
          e.Sound other (2 ^ 32) departingGuest {string | string ∈ departingStrings}) →
        domainString samplePriced ∈ {string | string ∈ departingStrings} →
        domainString other ∈ {string | string ∈ departingStrings} →
        (samplePriced.genesisHash, samplePriced.appId) ≠ (other.genesisHash, other.appId) →
        ∀ a ∈ authorizations samplePriced (2 ^ 32) departingGuest log,
          ∀ b ∈ authorizations other (2 ^ 32) departingGuest otherLog,
            a.preimage ≠ b.preimage := by
  intro log
  have hrun : Run samplePriced 100000 11 leaverLeft log :=
    departed_run.call _ leaverCall (by decide) leaverLeft_ok
  have hsound : ∀ e ∈ log, e.Sound samplePriced (2 ^ 32) departingGuest
      {string | string ∈ departingStrings} := by
    intro e he
    rcases List.mem_cons.mp he with rfl | hold
    · exact leaverStep_sound
    · exact departed_sound e hold
  exact ⟨by decide +kernel, no_signed_message_works_twice rfl hrun departing_ideal hsound⟩

end Sample

end PaymentRollup.Contract
