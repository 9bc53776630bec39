import PaymentRollup.Contract.Playing
import PaymentRollup.Contract.Updates
import PaymentRollup.Rollup.ChainProofs

/-! # What a scheduled application update installs

The commitment pins every page of the approval program and their number. The clear-state
program is no part of it, and is whatever the call that executes the update carries.
-/
namespace PaymentRollup.Contract

section Commitment
variable [Crypto] {Q : Set Bytes} {pages pages' : List Bytes}

/-- What one page adds to the commitment, given its digest. -/
def pageDigestString (commitment digest : Word) : Bytes :=
  ascii ['A', 'P', 'A', 'G', 'E'] ++ commitment.bytes ++ digest.bytes

omit [Crypto] in
theorem pageDigestString_inj : Function.Injective2 pageDigestString := by
  intro c c' d d' h
  simp only [pageDigestString, List.append_assoc] at h
  obtain ⟨hc, hd⟩ := word_append_inj (List.append_cancel_left h)
  exact ⟨hc, word_inj hd⟩

omit [Crypto] in
theorem pageDigestString_ne_programString (c d : Word) (pages : List Bytes) :
    pageDigestString c d ≠ programString pages := by
  simp only [pageDigestString, programString, List.append_assoc]
  exact tag_ne rfl (by decide)

theorem approvalProgramCommitment_eq (pages : List Bytes) : approvalProgramCommitment pages =
    HashChain.fold sha256 pageDigestString (sha256 (programString pages)) (pages.map sha256) := by
  rw [HashChain.fold, List.foldl_map]
  rfl

def programStrings (pages : List Bytes) : Set Bytes :=
  {programString pages} ∪ ({page | page ∈ pages} ∪
    HashChain.strings sha256 pageDigestString (sha256 (programString pages)) (pages.map sha256))

theorem programStrings_subset : programStrings pages ⊆ Q ↔
    programString pages ∈ Q ∧ (∀ page ∈ pages, page ∈ Q) ∧
      HashChain.strings sha256 pageDigestString (sha256 (programString pages))
        (pages.map sha256) ⊆ Q := by
  simp only [programStrings, Set.union_subset_iff, Set.singleton_subset_iff]
  rfl

/-- No page of a program leads back to where the commitment to one starts. -/
theorem page_anchor (hQ : Ideal Q) (h : programString pages ∈ Q) :
    HashChain.Anchor sha256 pageDigestString Q (sha256 (programString pages)) := by
  intro commitment digest hmem heq
  exact pageDigestString_ne_programString _ _ _ (hQ.inj _ hmem _ h heq)

theorem approvalProgramCommitment_inj (hQ : Ideal Q) (hpages : programStrings pages ⊆ Q)
    (hpages' : programStrings pages' ⊆ Q)
    (h : approvalProgramCommitment pages = approvalProgramCommitment pages') : pages = pages' := by
  obtain ⟨hstart, hmem, hlinks⟩ := programStrings_subset.mp hpages
  obtain ⟨hstart', hmem', hlinks'⟩ := programStrings_subset.mp hpages'
  rw [approvalProgramCommitment_eq, approvalProgramCommitment_eq] at h
  have hdigests := (HashChain.fold_inj hQ.injOn pageDigestString_inj hlinks hlinks'
    (page_anchor hQ hstart) (page_anchor hQ hstart') h).1
  exact HashChain.map_injOn hQ.injOn hmem hmem' hdigests

end Commitment

section Updates
variable [Crypto] {app : App} {env : Env} {s s' : State} {pages : List Bytes} {clear : Bytes}
  {funds : ℕ} {round : UInt64} {log : Log}

theorem updateApplication_installs
    (hok : exec app env s (.updateApplication pages clear) = .ok s') :
    s.pendingApprovalProgramHash = some (approvalProgramCommitment pages) ∧ s.escaped = false ∧
      s'.approvalProgram = pages ∧ s'.clearStateProgram = clear := by
  have hupdating := exec_updating hok
  have hpages : s'.approvalProgram = s'.updateKeys.approvalProgram := rfl
  have hclear : s'.clearStateProgram = s'.updateKeys.clearStateProgram := rfl
  rw [hpages, hclear]
  generalize s'.updateKeys = k at hupdating
  cases hupdating with
  | kept hcall => exact absurd True.intro hcall
  | application hlive hpending => exact ⟨hpending, hlive, rfl, rfl⟩

/-- Whether an update goes through does not depend on the clear-state program it carries. -/
theorem updateApplication_any_clear
    (hok : exec app env s (.updateApplication pages clear) = .ok s') (clear' : Bytes) :
    exec app env s (.updateApplication pages clear') =
      .ok { s' with clearStateProgram := clear' } := by
  simp only [exec, updateApplication, bind_eq_ok, Except.ok.injEq] at hok ⊢
  obtain ⟨_, hlive, _, hscheduled, after, hafter, _, hdelay, hash, hpending, _, hpages, rfl⟩ := hok
  exact ⟨_, hlive, _, hscheduled, after, hafter, _, hdelay, hash, hpending, _, hpages, rfl⟩

theorem Run.replaced {later earlier : Log} {e : Step} (hrun : Run app funds round s log)
    (hlog : log = later ++ e :: earlier) (hcall : e.call = .updateApplication pages clear) :
    ∃ sched ∈ earlier,
      sched.call = .scheduleApplicationUpdate (approvalProgramCommitment pages) ∧
      sched.env.sender = s.securityCouncil ∧
      sched.env.round.toNat + s.updateDelay.toNat ≤ e.env.round.toNat := by
  have haction : e.call.replacement = .apply (approvalProgramCommitment pages) := by
    rw [hcall]
    rfl
  obtain ⟨sched, hlast, hdelay, hrecorded⟩ := hrun.applied hrun.replacements hlog haction
  obtain ⟨hsched, hcouncil⟩ := hrecorded.scheduledProgram hlast.scheduled
  exact ⟨sched, hlast.mem, hsched, hcouncil, hdelay⟩

/-- Every update of a run was committed to by the council a delay before. Two calls accepted
against one commitment, in whatever states and by whomever, install one approval program; they
install the same code if and only if they carry the same clear-state program. Which of them are
accepted does not depend on it. -/
theorem same_commitment_installs_iff {Q : Set Bytes} (hQ : Ideal Q) :
    (∀ {funds : ℕ} {round : UInt64} {s : State} {log later earlier : Log} {e : Step}
      {pages : List Bytes} {clear : Bytes}, Run app funds round s log → log = later ++ e :: earlier →
      e.call = .updateApplication pages clear →
      e.after.approvalProgram = pages ∧ e.after.clearStateProgram = clear ∧
        e.before.escaped = false ∧
        ∃ sched ∈ earlier,
          sched.call = .scheduleApplicationUpdate (approvalProgramCommitment pages) ∧
          sched.env.sender = s.securityCouncil ∧
          sched.env.round.toNat + s.updateDelay.toNat ≤ e.env.round.toNat) ∧
    (∀ {env env' : Env} {s s' t t' : State} {pages pages' : List Bytes} {clear clear' : Bytes},
      programStrings pages ⊆ Q → programStrings pages' ⊆ Q →
      exec app env s (.updateApplication pages clear) = .ok t →
      exec app env' s' (.updateApplication pages' clear') = .ok t' →
      s.pendingApprovalProgramHash = s'.pendingApprovalProgramHash →
      t.approvalProgram = t'.approvalProgram ∧
        ((t.approvalProgram = t'.approvalProgram ∧ t.clearStateProgram = t'.clearStateProgram) ↔
          clear = clear')) ∧
    ∀ {env : Env} {s t : State} {pages : List Bytes} {clear : Bytes},
      exec app env s (.updateApplication pages clear) = .ok t → ∀ clear',
      exec app env s (.updateApplication pages clear') =
        .ok { t with clearStateProgram := clear' } := by
  refine ⟨?_, ?_, updateApplication_any_clear⟩
  · intro funds round s log later earlier e pages clear hrun hlog hcall
    have hrun' := hrun
    rw [hlog] at hrun'
    obtain ⟨_, -, -, hok⟩ := hrun'.earlier
    rw [hcall] at hok
    obtain ⟨-, hlive, hpages, hclear⟩ := updateApplication_installs hok
    exact ⟨hpages, hclear, hlive, hrun.replaced hlog hcall⟩
  · intro env env' s s' t t' pages pages' clear clear' hstrings hstrings' hok hok' hsame
    obtain ⟨hpending, -, hpages, hclear⟩ := updateApplication_installs hok
    obtain ⟨hpending', -, hpages', hclear'⟩ := updateApplication_installs hok'
    have hcommitted := Option.some.inj (hpending.symm.trans (hsame.trans hpending'))
    have hprogram : t.approvalProgram = t'.approvalProgram := by
      rw [hpages, hpages']
      exact approvalProgramCommitment_inj hQ hstrings hstrings' hcommitted
    constructor
    · exact hprogram
    · rw [hclear, hclear']
      exact and_iff_right hprogram

end Updates

section Sample
attribute [local instance] Crypto.unsigned

def sampleCommitment : State × Log :=
  samplePlayed 100000 [(sampleEnv (sampleAccount 13) 1,
    .scheduleApplicationUpdate (approvalProgramCommitment [[1]]))]

/-- What a caller installs once the delay is over, with a clear-state program of its own. -/
def sampleInstalled (caller : L1Address) (clear : Bytes) : State :=
  (exec sampleApp (sampleEnv caller 11) sampleCommitment.1
    (.updateApplication [[1]] clear)).toOption.getD sampleCommitment.1

theorem sampleInstalled_evaluated :
    (play sampleApp (sampleStart 100000) [] [(sampleEnv (sampleAccount 13) 1,
      .scheduleApplicationUpdate (approvalProgramCommitment [[1]]))]).isOk = true ∧
    (exec sampleApp (sampleEnv (sampleAccount 8) 11) sampleCommitment.1
      (.updateApplication [[1]] [0])).isOk = true ∧
    (exec sampleApp (sampleEnv (sampleAccount 9) 11) sampleCommitment.1
      (.updateApplication [[1]] [9])).isOk = true ∧
    (sampleInstalled (sampleAccount 8) [0]).clearStateProgram ≠
      (sampleInstalled (sampleAccount 9) [9]).clearStateProgram := by
  decide +kernel

theorem sampleCommitment_run : Run sampleApp 100000 1 sampleCommitment.1 sampleCommitment.2 :=
  samplePlayed_run 100000 [(sampleEnv (sampleAccount 13) 1,
    .scheduleApplicationUpdate (approvalProgramCommitment [[1]]))] sampleInstalled_evaluated.1
    (by decide)

theorem sampleInstalled_first : exec sampleApp (sampleEnv (sampleAccount 8) 11) sampleCommitment.1
    (.updateApplication [[1]] [0]) = .ok (sampleInstalled (sampleAccount 8) [0]) :=
  eq_ok_getD sampleInstalled_evaluated.2.1

theorem sampleInstalled_second : exec sampleApp (sampleEnv (sampleAccount 9) 11) sampleCommitment.1
    (.updateApplication [[1]] [9]) = .ok (sampleInstalled (sampleAccount 9) [9]) :=
  eq_ok_getD sampleInstalled_evaluated.2.2.1

/-- Against one commitment, two bystanders can install two different clear-state programs. -/
theorem clear_state_is_the_callers : Run sampleApp 100000 1 sampleCommitment.1 sampleCommitment.2 ∧
    exec sampleApp (sampleEnv (sampleAccount 8) 11) sampleCommitment.1
      (.updateApplication [[1]] [0]) = .ok (sampleInstalled (sampleAccount 8) [0]) ∧
    exec sampleApp (sampleEnv (sampleAccount 9) 11) sampleCommitment.1
      (.updateApplication [[1]] [9]) = .ok (sampleInstalled (sampleAccount 9) [9]) ∧
    (sampleInstalled (sampleAccount 8) [0]).clearStateProgram ≠
      (sampleInstalled (sampleAccount 9) [9]).clearStateProgram :=
  ⟨sampleCommitment_run, sampleInstalled_first, sampleInstalled_second,
    sampleInstalled_evaluated.2.2.2⟩

def sampleProgramStrings : List Bytes :=
  [programString [[1]], [1], pageDigestString (sha256 (programString [[1]])) (sha256 [1])]

/-- The approval program is the one that was committed to, whoever installs it. -/
theorem sampleInstalled_same : (sampleInstalled (sampleAccount 8) [0]).approvalProgram =
    (sampleInstalled (sampleAccount 9) [9]).approvalProgram := by
  have hevaluated : (Word.zero :: sampleProgramStrings.map sha256).Nodup ∧
      programString [[1]] ∈ {string | string ∈ sampleProgramStrings} ∧
      (∀ page ∈ [[1]], page ∈ {string | string ∈ sampleProgramStrings}) ∧
      HashChain.strings sha256 pageDigestString (sha256 (programString [[1]]))
        ([[1]].map sha256) ⊆ {string | string ∈ sampleProgramStrings} := by
    decide +kernel
  have hideal : Ideal {string | string ∈ sampleProgramStrings} := .of_list hevaluated.1
  have hstrings : programStrings [[1]] ⊆ {string | string ∈ sampleProgramStrings} :=
    programStrings_subset.mpr hevaluated.2
  exact ((same_commitment_installs_iff hideal).2.1 hstrings hstrings sampleInstalled_first
    sampleInstalled_second rfl).1

end Sample

end PaymentRollup.Contract
