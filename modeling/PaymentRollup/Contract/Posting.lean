import PaymentRollup.Contract.Playing
import PaymentRollup.Contract.Bookkeeping
import PaymentRollup.Lib.Cutting

/-! # Posted chunks and the guest's commitment are the same computation

The guest folds over a batch it holds whole; the contract folds over the chunks as they
arrive, and the declared length decides where each one ends. When the length has been posted
there is only one way the bytes can have been cut.
-/
namespace PaymentRollup.Contract
open Cutting (Cut cut_concat cut_of_next)

def Call.EndsBatch : Call → Prop
  | .verifyBatch _ _ _ => True
  | .abandonBatch => True
  | .executeEscape => True
  | .securityCouncilEscape => True
  | _ => False

/-- `bytes.chunks(CHUNK_SIZE)` is the cut the length of `bytes` fixes. -/
theorem chunks_cut (bytes : Bytes) : Cut PaymentRollup.chunkSize bytes.length (chunks bytes) :=
  cut_of_next fun _ _ _ h => chunks_next h

theorem chunks_length (bytes : Bytes) : (chunks bytes).length = chunkCount bytes.length := by
  simp only [chunks, List.length_map, List.length_range]

section Posting
variable [Crypto] {app : App} {env : Env} {s s' : State} {call : Call} {log log' : Log} {n : UInt64}
  {round round' : UInt64}

theorem Effect.batchLength_kept (h : Effect app env s call s') (hopen : s.batchLength = some n)
    (hends : ¬call.EndsBatch) : s'.batchLength = some n := by
  cases h with
  | escape _ _ _ hcall =>
    rcases hcall with ⟨rfl, -⟩ | ⟨rfl, -⟩ <;> exact absurd True.intro hends
  | abandon => exact absurd True.intro hends
  | openBatch _ _ hclosed => cases hclosed.symm.trans hopen
  | settle => exact absurd True.intro hends
  | _ => exact hopen

/-- One call posts the next piece of the cut, starts a new one or leaves it as it is. -/
theorem Effect.cut (h : Effect app env s call s') (hkept : Kept app s (arrivals app log) (posted log))
    (hcut : ∀ n, s.batchLength = some n → Cut PaymentRollup.chunkSize n.toNat (posted log))
    (hopen : s'.batchLength = some n) :
    Cut PaymentRollup.chunkSize n.toNat (posted (⟨s, env, call, s'⟩ :: log)) := by
  have hquiet : call.IsQuiet → s.batchLength = some n →
      Cut PaymentRollup.chunkSize n.toNat (posted (⟨s, env, call, s'⟩ :: log)) := by
    intro hcall hn
    rw [(projections_quiet app ⟨s, env, call, s'⟩ hcall log).2.1]
    exact hcut n hn
  cases h with
  | inert hcall => exact hquiet hcall.isQuiet hopen
  | deposit => exact hcut n hopen
  | request => exact hcut n hopen
  | prune _ hcall =>
    rcases hcall with ⟨rfl, -⟩ | ⟨rfl, -⟩ <;> exact hcut n hopen
  | reclaim => exact hcut n hopen
  | pay => exact hcut n hopen
  | exit => exact hcut n hopen
  | signal => exact hcut n hopen
  | escape dropped hdropped =>
    subst hdropped
    split_ifs at hopen with hsome
    · cases hopen
    · have hnone := Option.not_isSome_iff_eq_none.mp hsome
      cases hnone.symm.trans hopen
  | abandon => cases hopen
  | openBatch => exact True.intro
  | @chunk chunk batchLength postedLength _ _ _ hlength hposted hmore hchunk =>
    cases hlength.symm.trans hopen
    obtain ⟨c, hposting⟩ := hkept.batch.posting hlength
    obtain ⟨_, hposted', htotal, -⟩ := hposting.posted
    cases hposted.symm.trans hposted'
    rw [UInt64.lt_iff_toNat_lt, htotal] at hmore
    rw [htotal] at hchunk
    exact cut_concat.mpr ⟨hcut n hlength, hmore, hchunk⟩
  | settle => cases hopen

/-- The chunks posted for the open batch are cut where its declared length says. -/
theorem Run.cut {funds : ℕ} (h : Run app funds round s log) (hopen : s.batchLength = some n) :
    Cut PaymentRollup.chunkSize n.toNat (posted log) := by
  induction h generalizing n with
  | create => cases hopen
  | call hrun env call hround hok ih => exact (exec_effect hok).cut hrun.kept (fun _ => ih) hopen

theorem Later.batchLength_kept
    (h : Later app (fun _ _ call => ¬call.EndsBatch) round s log round' s' log')
    (hopen : s.batchLength = some n) : s'.batchLength = some n := by
  induction h with
  | start => exact hopen
  | call _ env call hmay _ hok ih => exact (exec_effect hok).batchLength_kept ih hmay

theorem openBatch_opens {target : UInt64} (hok : exec app env s (.openBatch n target) = .ok s') :
    s.batchLength = none ∧ s'.batchLength = some n ∧ s'.dropBatch = s.dropBatch := by
  cases exec_effect hok with
  | inert hcall => exact hcall.elim
  | prune _ hcall => simp at hcall
  | escape _ _ _ hcall => simp at hcall
  | openBatch _ _ hclosed => exact ⟨hclosed, rfl, rfl⟩

theorem settles_posted {verifier : PaymentTxn} {signals : List Word} {p : PublicValues}
    (hopen : s.batchLength = some n)
    (hok : exec app env s (.verifyBatch verifier signals p) = .ok s') :
    s.postedLength = some n := by
  cases exec_effect hok with
  | inert hcall => exact hcall.elim
  | prune _ hcall => simp at hcall
  | escape _ _ _ hcall => simp at hcall
  | settle _ _ _ hlength hposted =>
    cases hlength.symm.trans hopen
    exact hposted

end Posting

section Results
variable [Crypto]

/-- What stands posted of a batch declared as `n` bytes. -/
structure PostedFor (app : App) (n : UInt64) (s : State) (log : Log) : Prop where
  declared : s.batchLength = some n
  within : ∃ length, s.postedLength = some length ∧ length ≤ n ∧
    length.toNat = (posted log).flatten.length
  whole : s.postedLength = some n → (posted log).flatten.length = n.toNat ∧
    posted log = chunks (posted log).flatten ∧ (posted log).length = chunkCount n.toNat ∧
    s.chunkAccumulator = some (batchCommitment (deploymentDomain app) (posted log).flatten)
  short : s.postedLength ≠ some n → ∀ env verifier signals p s',
    exec app env s (.verifyBatch verifier signals p) ≠ .ok s'

theorem Run.postedFor {app : App} {funds : ℕ} {round : UInt64} {s : State} {log : Log}
    {n : UInt64} (h : Run app funds round s log) (hopen : s.batchLength = some n) :
    PostedFor app n s log := by
  obtain ⟨c, hposting⟩ := h.kept.batch.posting hopen
  obtain ⟨length, hlength, htotal, hle⟩ := hposting.posted
  refine ⟨hopen, ⟨length, hlength, hle, htotal⟩, ?_, ?_⟩
  · intro hwhole
    cases hlength.symm.trans hwhole
    have hcut := h.cut hopen
    rw [htotal] at hcut
    have hchunks : posted log = chunks (posted log).flatten := by
      apply hcut.unique (by decide) (chunks_cut _)
      rw [chunks_flatten]
    refine ⟨htotal.symm, hchunks, ?_, ?_⟩
    · rw [htotal, ← chunks_length, ← hchunks]
    · rw [batchCommitment_eq, ← hchunks, ← htotal, UInt64.ofNat_toNat]
      exact hposting.accumulator
  · intro hshort env verifier signals p s' hok
    exact hshort (settles_posted hopen hok)

/-- From the call that opens a batch until it ends, whatever else is called: the chunks that
went through are the guest's own cut of the declared length, the accumulator arrives at the
guest's commitment to them, and nothing settles before. On strings that do not collide a
commitment belongs to one deployment and one string of bytes. -/
theorem posted_chunks_are_the_commitment :
    (∀ {app : App} {funds : ℕ} {round : UInt64} {s₀ : State} {log₀ : Log} {env : Env}
      {n target : UInt64} {s₁ : State} {round' : UInt64} {s : State} {log : Log},
      Run app funds round s₀ log₀ → round ≤ env.round →
      exec app env s₀ (.openBatch n target) = .ok s₁ →
      Later app (fun _ _ call => ¬call.EndsBatch) env.round s₁
        (⟨s₀, env, .openBatch n target, s₁⟩ :: log₀) round' s log →
      PostedFor app n s log) ∧
    ∀ {Q : Set Bytes} {d₁ d₂ : DeploymentDomain} {b₁ b₂ : Bytes}, Ideal Q →
      commitStrings d₁ (UInt64.ofNat b₁.length) (chunks b₁) ⊆ Q →
      commitStrings d₂ (UInt64.ofNat b₂.length) (chunks b₂) ⊆ Q →
      batchCommitment d₁ b₁ = batchCommitment d₂ b₂ → d₁ = d₂ ∧ b₁ = b₂ := by
  constructor
  · intro app funds round s₀ log₀ env n target s₁ round' s log hrun hround hok hlater
    obtain ⟨-, hopened, -⟩ := openBatch_opens hok
    exact (hlater.run (hrun.call env _ hround hok)).postedFor (hlater.batchLength_kept hopened)
  · intro Q d₁ d₂ b₁ b₂ hQ h₁ h₂ heq
    rw [batchCommitment_eq, batchCommitment_eq] at heq
    obtain ⟨hdomain, -, hchunks⟩ := commitChunks_inj hQ h₁ h₂ heq
    constructor
    · exact hdomain
    · rw [← chunks_flatten b₁, hchunks, chunks_flatten]

end Results

section Sample
attribute [local instance] Crypto.unsigned

def sampleFiled : State × Log := samplePlayed 100000 [sampleDeposit]

def sampleOpened : State :=
  (exec sampleApp (sampleEnv (sampleAccount 1) 6) sampleFiled.1 (.openBatch 5 1)).toOption.getD
    sampleFiled.1

def samplePosted : State :=
  (exec sampleApp (sampleEnv (sampleAccount 1) 7) sampleOpened
    (.accumulateChunk [1, 0, 0, 0, 0])).toOption.getD sampleFiled.1

theorem samplePosted_evaluated :
    (play sampleApp (sampleStart 100000) [] [sampleDeposit]).isOk = true ∧
    (exec sampleApp (sampleEnv (sampleAccount 1) 6) sampleFiled.1 (.openBatch 5 1)).isOk = true ∧
    (exec sampleApp (sampleEnv (sampleAccount 1) 7) sampleOpened
      (.accumulateChunk [1, 0, 0, 0, 0])).isOk = true ∧
    samplePosted.postedLength = some 5 := by
  decide +kernel

theorem sampleFiled_run : Run sampleApp 100000 5 sampleFiled.1 sampleFiled.2 :=
  samplePlayed_run 100000 [sampleDeposit] samplePosted_evaluated.1 (by decide)

theorem sampleOpened_ok : exec sampleApp (sampleEnv (sampleAccount 1) 6) sampleFiled.1
    (.openBatch 5 1) = .ok sampleOpened :=
  eq_ok_getD samplePosted_evaluated.2.1

theorem samplePosted_ok : exec sampleApp (sampleEnv (sampleAccount 1) 7) sampleOpened
    (.accumulateChunk [1, 0, 0, 0, 0]) = .ok samplePosted :=
  eq_ok_getD samplePosted_evaluated.2.2.1

def sampleCommitted : List Bytes :=
  let seed := PaymentRollup.seedString Word.zero 1
  [seed, [1], PaymentRollup.chunkString (sha256 seed) (chunkDigest [1]), [2],
    PaymentRollup.chunkString (sha256 seed) (chunkDigest [2])]

theorem sampleCommitted_ideal : Ideal {string | string ∈ sampleCommitted} ∧
    ∀ byte : UInt8, byte = 1 ∨ byte = 2 →
      commitStrings Word.zero 1 (chunks [byte]) ⊆ {string | string ∈ sampleCommitted} := by
  have hevaluated : (Word.zero :: sampleCommitted.map sha256).Nodup ∧ ∀ byte ∈ [(1 : UInt8), 2],
      PaymentRollup.seedString Word.zero 1 ∈ {string | string ∈ sampleCommitted} ∧
      (∀ chunk ∈ chunks [byte], chunk ∈ {string | string ∈ sampleCommitted}) ∧
      HashChain.strings sha256 PaymentRollup.chunkString
        (sha256 (PaymentRollup.seedString Word.zero 1)) ((chunks [byte]).map chunkDigest) ⊆
          {string | string ∈ sampleCommitted} := by
    decide +kernel
  refine ⟨.of_list hevaluated.1, fun byte hbyte => ?_⟩
  exact commitStrings_subset.mpr (hevaluated.2 byte (by simpa using hbyte))

theorem samplePosted_whole : samplePosted.postedLength = some 5 ∧
    (∃ log, PostedFor sampleApp 5 samplePosted log) ∧
    batchCommitment Word.zero [1] ≠ batchCommitment Word.zero [2] := by
  have hstart := @Later.start _ sampleApp (fun _ _ call => ¬call.EndsBatch) 6 sampleOpened
    (⟨sampleFiled.1, sampleEnv (sampleAccount 1) 6, .openBatch 5 1, sampleOpened⟩ :: sampleFiled.2)
  have hlater := hstart.call (sampleEnv (sampleAccount 1) 7) (.accumulateChunk [1, 0, 0, 0, 0]) id
    (by decide) samplePosted_ok
  obtain ⟨hideal, hcommitted⟩ := sampleCommitted_ideal
  refine ⟨samplePosted_evaluated.2.2.2,
    ⟨_, posted_chunks_are_the_commitment.1 sampleFiled_run (by decide) sampleOpened_ok hlater⟩, ?_⟩
  intro hsame
  have hinj : Word.zero = Word.zero ∧ ([1] : Bytes) = [2] :=
    posted_chunks_are_the_commitment.2 hideal (hcommitted 1 (.inl rfl)) (hcommitted 2 (.inr rfl))
      hsame
  exact absurd hinj.2 (by decide)

end Sample

end PaymentRollup.Contract
