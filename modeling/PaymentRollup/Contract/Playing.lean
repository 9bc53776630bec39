import PaymentRollup.Contract.History
import PaymentRollup.Rollup.Checking
import PaymentRollup.Rollup.HostSettlement

/-! # Playing a list of calls

A run is any sequence of calls that went through, so a list of calls can be played against
the contract; what comes out, if every call goes through, is the end of a run.
-/
namespace PaymentRollup.Contract

section Plays
variable [Crypto] (app : App)

/-- Make the calls one after another; the log grows as L1 records them. -/
def play : State → Log → List (Env × Call) → Except Reject (State × Log)
  | s, log, [] => .ok (s, log)
  | s, log, (env, call) :: rest => do
    let s' ← exec app env s call
    play s' (⟨s, env, call, s'⟩ :: log) rest

def lastRound (round : UInt64) (calls : List (Env × Call)) : UInt64 :=
  calls.foldl (fun _ call => call.1.round) round

def InOrder : UInt64 → List (Env × Call) → Prop
  | _, [] => True
  | round, (env, _) :: rest => round ≤ env.round ∧ InOrder env.round rest

instance : (round : UInt64) → (calls : List (Env × Call)) → Decidable (InOrder round calls)
  | _, [] => .isTrue True.intro
  | _, (env, _) :: rest =>
    have : Decidable (InOrder env.round rest) := instDecidableInOrder env.round rest
    inferInstanceAs (Decidable (_ ∧ _))

variable {app}

theorem play_run {funds : ℕ} {round : UInt64} {s s' : State} {log log' : Log}
    {calls : List (Env × Call)} (h : Run app funds round s log) (horder : InOrder round calls)
    (hok : play app s log calls = .ok (s', log')) :
    Run app funds (lastRound round calls) s' log' := by
  induction calls generalizing round s log with
  | nil =>
    cases hok
    exact h
  | cons first rest ih =>
    rcases first with ⟨env, call⟩
    simp only [play, bind_eq_ok] at hok
    obtain ⟨s₁, hexec, hrest⟩ := hok
    exact ih (h.call env call horder.1 hexec) horder.2 hrest

theorem played_run {funds : ℕ} {round : UInt64} {s : State} {calls : List (Env × Call)}
    (h : Run app funds round s []) (horder : InOrder round calls)
    (hok : (play app s [] calls).isOk = true) :
    Run app funds (lastRound round calls) ((play app s [] calls).toOption.getD (s, [])).1
      ((play app s [] calls).toOption.getD (s, [])).2 :=
  play_run h horder (eq_ok_getD hok)

end Plays

section Deciding
variable [Crypto] {Q : Set Bytes}

instance : (call : Call) → Decidable call.IsUpdate := fun call =>
  match call with
  | .updateApplication _ _ => .isTrue True.intro
  | .fund _ => .isFalse id
  | .securityCouncilEscape => .isFalse id
  | .scheduleVerifierUpdate _ _ _ => .isFalse id
  | .executeVerifierUpdate => .isFalse id
  | .scheduleApplicationUpdate _ => .isFalse id
  | .deposit _ _ => .isFalse id
  | .requestWithdrawal _ _ _ _ _ _ _ => .isFalse id
  | .pruneRequest _ => .isFalse id
  | .pruneDeposit _ => .isFalse id
  | .reclaimDeposit _ => .isFalse id
  | .payWithdrawal _ _ _ => .isFalse id
  | .forceExit _ _ _ _ _ _ _ _ _ => .isFalse id
  | .opUp _ => .isFalse id
  | .signalEscape => .isFalse id
  | .executeEscape => .isFalse id
  | .abandonBatch => .isFalse id
  | .openBatch _ _ => .isFalse id
  | .accumulateChunk _ => .isFalse id
  | .verifyBatch _ _ _ => .isFalse id

theorem chunkStrings_subset {s : State} {chunk : Bytes} :
    ({chunk} ∪ {string | ∃ accumulator, s.chunkAccumulator = some accumulator ∧
        string = chunkString accumulator chunk}) ⊆ Q ↔
      chunk ∈ Q ∧ ∀ accumulator ∈ s.chunkAccumulator, chunkString accumulator chunk ∈ Q := by
  rw [Set.union_subset_iff, Set.singleton_subset_iff]
  refine and_congr_right fun _ => ⟨?_, ?_⟩
  · exact fun h accumulator hsome => h ⟨accumulator, hsome, rfl⟩
  · rintro h string ⟨accumulator, hsome, rfl⟩
    exact h accumulator hsome

def Call.settles? : Call → Option PublicValues
  | .verifyBatch _ _ p => some p
  | _ => none

theorem Call.sound_iff {app : App} {usize : ℕ} {guest : PublicValues → Execution} {s : State}
    {call : Call} : call.Sound app usize guest Q s ↔
      (¬call.IsUpdate ∧ callStrings app s call ⊆ Q ∧ ∀ p ∈ call.settles?,
        (guest p).Commits usize p.bytes ∧ (guest p).strings usize ⊆ Q) := by
  constructor
  · rintro ⟨hprogram, hhashed, hproved⟩
    refine ⟨hprogram, hhashed, ?_⟩
    intro p hp
    cases call <;> cases hp
    exact hproved _ _ p rfl
  · rintro ⟨hprogram, hhashed, hproved⟩
    refine ⟨hprogram, hhashed, ?_⟩
    rintro verifier signals p rfl
    exact hproved p rfl

variable [DecidablePred (· ∈ Q)]

instance (string : Bytes) : Decidable ({string} ⊆ Q) :=
  decidable_of_iff _ Set.singleton_subset_iff.symm

instance (a b : Bytes) : Decidable ({a, b} ⊆ Q) := by
  have : Decidable ({b} ⊆ Q) := inferInstance
  exact decidable_of_iff (a ∈ Q ∧ {b} ⊆ Q) Set.insert_subset_iff.symm

instance (app : App) (s : State) (call : Call) : Decidable (callStrings app s call ⊆ Q) :=
  match call with
  | .deposit _ _ => inferInstanceAs (Decidable ({_} ⊆ Q))
  | .requestWithdrawal _ _ _ _ _ _ _ => inferInstanceAs (Decidable ({_} ⊆ Q))
  | .payWithdrawal _ _ _ => inferInstanceAs (Decidable ({_, _} ⊆ Q))
  | .forceExit _ _ _ _ _ _ _ _ _ => inferInstanceAs (Decidable (rootStrings _ _ _ ⊆ Q))
  | .openBatch _ _ => inferInstanceAs (Decidable ({_} ⊆ Q))
  | .accumulateChunk chunk =>
    have : Decidable (∀ accumulator ∈ s.chunkAccumulator, chunkString accumulator chunk ∈ Q) :=
      Option.decidableForallMem _
    decidable_of_iff _ chunkStrings_subset.symm
  | .verifyBatch _ _ _ => inferInstanceAs (Decidable ({_, _} ⊆ Q))
  | .fund _ => .isTrue (Set.empty_subset Q)
  | .securityCouncilEscape => .isTrue (Set.empty_subset Q)
  | .scheduleVerifierUpdate _ _ _ => .isTrue (Set.empty_subset Q)
  | .executeVerifierUpdate => .isTrue (Set.empty_subset Q)
  | .scheduleApplicationUpdate _ => .isTrue (Set.empty_subset Q)
  | .updateApplication _ _ => .isTrue (Set.empty_subset Q)
  | .pruneRequest _ => .isTrue (Set.empty_subset Q)
  | .pruneDeposit _ => .isTrue (Set.empty_subset Q)
  | .reclaimDeposit _ => .isTrue (Set.empty_subset Q)
  | .opUp _ => .isTrue (Set.empty_subset Q)
  | .signalEscape => .isTrue (Set.empty_subset Q)
  | .executeEscape => .isTrue (Set.empty_subset Q)
  | .abandonBatch => .isTrue (Set.empty_subset Q)

instance (app : App) (usize : ℕ) (guest : PublicValues → Execution) (e : Step) :
    Decidable (e.Sound app usize guest Q) :=
  have : Decidable (∀ p ∈ e.call.settles?,
      (guest p).Commits usize p.bytes ∧ (guest p).strings usize ⊆ Q) :=
    Option.decidableForallMem _
  decidable_of_iff _ Call.sound_iff.symm

end Deciding

section Sample

/-! A deployment small enough to evaluate: the sample block settles and its withdrawal is paid
out. -/

attribute [local instance] Crypto.unsigned

def sampleApp : App where
  creator := sampleAccount 1
  address := sampleAccount 2
  appId := 7
  genesisHash := sampleAccount 3
  testDeployment := false
  inboxMbr := 60000
  exitMbr := 30000
  baseMinBalance := 100000

def sampleStart (funds : ℕ) : State :=
  createApplication sampleApp (sampleAccount 10) (sampleAccount 11) (sampleAccount 12) 100 1000
    (sampleAccount 13) 10 [] [] funds

def sampleEnv (sender : L1Address) (round : UInt64) : Env := ⟨sender, round, fun _ _ => true⟩

def sampleBuilt : Option (Block × Ledger) :=
  (Ledger.withDomain (deploymentDomain sampleApp)).getBlock sampleTxns

def sampleBlock : Block :=
  (sampleBuilt.map Prod.fst).getD ⟨Word.zero, Word.zero, Word.zero, Word.zero, Word.zero, Word.zero,
    ⟨[]⟩, ⟨[]⟩⟩

def samplePublicValues : PublicValues :=
  match Settlement.forBlock (2 ^ 32) sampleBlock with
  | .ok x => if h : x.publicValues.length = 192 then ⟨x.publicValues, h⟩ else ⟨List.replicate 192 0, rfl⟩
  | .error _ => ⟨List.replicate 192 0, rfl⟩

def sampleDeposit : Env × Call :=
  (sampleEnv (sampleAccount 9) 5, .deposit ⟨sampleAccount 9, sampleAccount 2, 360000⟩ sampleAddress)

/-- The sequencer's calls for `sampleBlock`, and the payout it orders. -/
def sampleSettlement : List (Env × Call) :=
  let batchBytes := sampleBlock.batch.encode
  [(sampleEnv (sampleAccount 1) 6, .openBatch (UInt64.ofNat batchBytes.length) 1),
    (sampleEnv (sampleAccount 1) 7, .accumulateChunk batchBytes),
    (sampleEnv (sampleAccount 1) 8, .verifyBatch ⟨sampleAccount 10, sampleAccount 10, 0⟩
      [sampleAccount 11, signalOf (sha256 samplePublicValues.bytes), Word.zero, sampleAccount 12,
        Word.zero] samplePublicValues),
    (sampleEnv (sampleAccount 8) 9, .payWithdrawal (sampleAccount 5) 250000
      (withdrawalTerminal sampleApp))]

def samplePlayed (funds : ℕ) (calls : List (Env × Call)) : State × Log :=
  (play sampleApp (sampleStart funds) [] calls).toOption.getD (sampleStart funds, [])

def sampleStrings : List Bytes :=
  let batchBytes := sampleBlock.batch.encode
  let seed := seedString sampleApp (UInt64.ofNat batchBytes.length)
  [domainString sampleApp, depositString Word.zero sampleAddress 300000, seed, batchBytes,
    chunkString (sha256 seed) batchBytes, samplePublicValues.bytes, terminalString sampleApp,
    payoutString (withdrawalTerminal sampleApp) (sampleAccount 5) 250000,
    leafString sampleAddress 0 300000 sampleAddress, leafString sampleAddress 1 50000 sampleAddress]

def sampleGuest : PublicValues → Execution := fun _ => sampleBlock.execution

theorem samplePlayed_run (funds : ℕ) (calls : List (Env × Call))
    (hok : (play sampleApp (sampleStart funds) [] calls).isOk = true) (horder : InOrder 0 calls) :
    Run sampleApp funds (lastRound 0 calls) (samplePlayed funds calls).1
      (samplePlayed funds calls).2 :=
  played_run (.create 0 ..) horder hok

def sampleEnd : State × Log := samplePlayed 100000 (sampleDeposit :: sampleSettlement)

-- In one go, so that the calls are played once and not for each part.
theorem sample_evaluated :
    ((play sampleApp (sampleStart 100000) [] (sampleDeposit :: sampleSettlement)).isOk = true ∧
      InOrder 0 (sampleDeposit :: sampleSettlement)) ∧
    (Word.zero :: sampleStrings.map sha256).Nodup ∧
    ∀ e ∈ sampleEnd.2, e.Sound sampleApp (2 ^ 32) sampleGuest
      {string | string ∈ sampleStrings} := by
  decide +kernel

theorem sample_run : Run sampleApp 100000 9 sampleEnd.1 sampleEnd.2 := by
  obtain ⟨⟨hplays, horder⟩, -⟩ := sample_evaluated
  exact samplePlayed_run 100000 (sampleDeposit :: sampleSettlement) hplays horder

theorem sample_ideal : Ideal {string | string ∈ sampleStrings} := .of_list sample_evaluated.2.1

theorem sample_sound : ∀ e ∈ sampleEnd.2,
    e.Sound sampleApp (2 ^ 32) sampleGuest {string | string ∈ sampleStrings} :=
  sample_evaluated.2.2

/-- The sequencer is accused over the deposit and opens a batch for it. -/
def sampleWatched : State × Log :=
  samplePlayed 100000 [sampleDeposit, (sampleEnv (sampleAccount 8) 200, .signalEscape),
    (sampleEnv (sampleAccount 1) 300, .openBatch 10 1)]

theorem sampleWatched_run : Run sampleApp 100000 300 sampleWatched.1 sampleWatched.2 :=
  samplePlayed_run 100000 [sampleDeposit, (sampleEnv (sampleAccount 8) 200, .signalEscape),
    (sampleEnv (sampleAccount 1) 300, .openBatch 10 1)] (by decide +kernel) (by decide)

end Sample

section Departure

/-! Two holders of real keys: one asks to be let out and is paid, the other leaves after the council
has given the sequencer up. -/

def leaverKey : Word :=
  ⟨[0xd7, 0x5a, 0x98, 0x01, 0x82, 0xb1, 0x0a, 0xb7, 0xd5, 0x4b, 0xfe, 0xd3, 0xc9, 0x64, 0x07, 0x3a,
    0x0e, 0xe1, 0x72, 0xf3, 0xda, 0xa6, 0x23, 0x25, 0xaf, 0x02, 0x1a, 0x68, 0xf7, 0x07, 0x51, 0x1a],
    rfl⟩

def leaverSignature : Bytes :=
  [0x44, 0x14, 0xed, 0xa7, 0x69, 0x87, 0xfe, 0x17, 0x43, 0x9f, 0x9f, 0x9f, 0xea, 0x21, 0x6b, 0x79,
    0xca, 0xeb, 0x77, 0xb6, 0xa4, 0xa3, 0xa9, 0x7e, 0xb0, 0x54, 0xe3, 0x94, 0xa4, 0x1e, 0xc7, 0x53,
    0x9b, 0x6f, 0x6e, 0x3e, 0x38, 0x19, 0x56, 0xbc, 0x79, 0xba, 0xe9, 0x5d, 0xa9, 0x5a, 0x94, 0x57,
    0x7c, 0xc8, 0xd2, 0xa6, 0x08, 0x00, 0xcf, 0xdd, 0x65, 0x47, 0xf0, 0x03, 0xcd, 0xc2, 0xcd, 0x03]

def askerKey : Word :=
  ⟨[0x3d, 0x40, 0x17, 0xc3, 0xe8, 0x43, 0x89, 0x5a, 0x92, 0xb7, 0x0a, 0xa7, 0x4d, 0x1b, 0x7e, 0xbc,
    0x9c, 0x98, 0x2c, 0xcf, 0x2e, 0xc4, 0x96, 0x8c, 0xc0, 0xcd, 0x55, 0xf1, 0x2a, 0xf4, 0x66, 0x0c],
    rfl⟩

def askerSignature : Bytes :=
  [0xd2, 0xc2, 0x5e, 0x85, 0x0f, 0xa0, 0x08, 0x9f, 0xb3, 0x90, 0x3a, 0xf1, 0xe3, 0x78, 0xb6, 0xcd,
    0x90, 0x6c, 0x66, 0x28, 0xef, 0x71, 0xee, 0xd4, 0xb2, 0x00, 0x75, 0x6b, 0xc7, 0x56, 0x58, 0x05,
    0xeb, 0x8d, 0x0e, 0x08, 0xe1, 0x71, 0x69, 0xc7, 0x5e, 0xab, 0xdb, 0x9b, 0xd6, 0x26, 0x8b, 0xbf,
    0xe2, 0x1d, 0xa1, 0x99, 0x7e, 0x77, 0x69, 0xa4, 0xfa, 0xf8, 0x82, 0x42, 0x49, 0x4a, 0x27, 0x01]

/-- SHA-256, and two Ed25519 signatures anybody can check: the leaver's over its exit to account
eight, and the asker's over the first request, to account six. -/
@[reducible] def Crypto.leaver : Crypto where
  sha256 bytes := ⟨Sha256.digest bytes, Sha256.digest_length bytes⟩
  ed25519Key _ := false
  ed25519VerifyStrict _ _ _ := false
  falconVerifyCompressed _ _ _ := false
  ed25519VerifyBare message signature key :=
    let domain := Sha256.digest (domainString sampleApp)
    let address (key : Word) := Sha256.digest (keyString schemeEd25519 key)
    (key, signature, message) ∈
      [(leaverKey.bytes, leaverSignature, ascii ['E', 'X', 'I', 'T'] ++ domain ++
        address leaverKey ++ (sampleAccount 8).bytes),
      (askerKey.bytes, askerSignature, ascii ['W', 'R', 'E', 'Q'] ++ domain ++ itob 0 ++
        address askerKey ++ (sampleAccount 6).bytes)]

attribute [local instance] Crypto.leaver

/-- The sample deployment, on a network that charges `2500 + 400 * (key + value)` for a box. -/
def samplePriced : App := { sampleApp with inboxMbr := 64100, exitMbr := 18900 }

def leaver : Address := sha256 (keyString schemeEd25519 leaverKey)

def asker : Address := sha256 (keyString schemeEd25519 askerKey)

def departingTxns : List SignedTransaction :=
  [.deposit ⟨leaver, 300000⟩, .deposit ⟨asker, 200000⟩, .forcedWithdrawal ⟨asker, sampleAccount 6⟩]

def departingBlock : Block :=
  (((Ledger.withDomain (deploymentDomain samplePriced)).getBlock departingTxns).map Prod.fst).getD
    ⟨Word.zero, Word.zero, Word.zero, Word.zero, Word.zero, Word.zero, ⟨[]⟩, ⟨[]⟩⟩

def departingValues : PublicValues :=
  match Settlement.forBlock (2 ^ 32) departingBlock with
  | .ok x =>
    if h : x.publicValues.length = 192 then ⟨x.publicValues, h⟩ else ⟨List.replicate 192 0, rfl⟩
  | .error _ => ⟨List.replicate 192 0, rfl⟩

/-- Two accounts are filled and one asks to be let out, the block over all that settles, the asker
is paid, and the council pulls the plug. -/
def departingCalls : List (Env × Call) :=
  let batchBytes := departingBlock.batch.encode
  [(sampleEnv (sampleAccount 9) 5, .deposit ⟨sampleAccount 9, sampleAccount 2, 364100⟩ leaver),
    (sampleEnv (sampleAccount 9) 5, .deposit ⟨sampleAccount 9, sampleAccount 2, 264100⟩ asker),
    (sampleEnv (sampleAccount 6) 5, .requestWithdrawal ⟨sampleAccount 6, sampleAccount 2, 64100⟩ 0
      asker (sampleAccount 6) schemeEd25519 askerKey askerSignature),
    (sampleEnv (sampleAccount 1) 6, .openBatch (UInt64.ofNat batchBytes.length) 3),
    (sampleEnv (sampleAccount 1) 7, .accumulateChunk batchBytes),
    (sampleEnv (sampleAccount 1) 8, .verifyBatch ⟨sampleAccount 10, sampleAccount 10, 0⟩
      [sampleAccount 11, signalOf (sha256 departingValues.bytes), Word.zero, sampleAccount 12,
        Word.zero] departingValues),
    (sampleEnv (sampleAccount 8) 9, .payWithdrawal (sampleAccount 6) 200000
      (withdrawalTerminal samplePriced)),
    (sampleEnv (sampleAccount 13) 10, .securityCouncilEscape)]

def departingStart : State :=
  createApplication samplePriced (sampleAccount 10) (sampleAccount 11) (sampleAccount 12) 100 1000
    (sampleAccount 13) 10 [] [] 100000

def departed : State × Log :=
  (play samplePriced departingStart [] departingCalls).toOption.getD (departingStart, [])

/-- Every string hashed on the way. The two addresses part at their third bit. -/
def departingStrings : List Bytes :=
  let batchBytes := departingBlock.batch.encode
  let seed := seedString samplePriced (UInt64.ofNat batchBytes.length)
  let first := depositString Word.zero leaver 300000
  let second := depositString (sha256 first) asker 200000
  let deep (account : Account) :=
    PaymentRollup.nodeString (leafHash asker account) (leafHash leaver ⟨0, 300000, leaver⟩)
  let middle (account : Account) := PaymentRollup.nodeString (sha256 (deep account)) emptySubtree
  let top (account : Account) := PaymentRollup.nodeString (sha256 (middle account)) emptySubtree
  let filled : Account := ⟨0, 200000, asker⟩
  let emptied : Account := ⟨1, 0, asker⟩
  [domainString samplePriced, first, second, requestString (sha256 second) asker (sampleAccount 6),
    seed, batchBytes, chunkString (sha256 seed) batchBytes, departingValues.bytes,
    terminalString samplePriced,
    payoutString (withdrawalTerminal samplePriced) (sampleAccount 6) 200000,
    leafString leaver 0 300000 leaver, leafString asker 0 200000 asker, leafString asker 1 0 asker,
    deep filled, middle filled, top filled, deep emptied, middle emptied, top emptied]

def departingGuest : PublicValues → Execution := fun _ => departingBlock.execution

/-- The leaver's proof: two empty subtrees, and the emptied account of the asker. -/
def leaverSiblings : List Word := [emptySubtree, emptySubtree, leafHash asker ⟨1, 0, asker⟩]

def leaverCall : Call :=
  .forceExit leaver 0 300000 leaver schemeEd25519 leaverKey leaverSignature (sampleAccount 8)
    (leaverSiblings.flatMap Word.bytes)

def leaverLeft : State :=
  (exec samplePriced (sampleEnv (sampleAccount 9) 11) departed.1 leaverCall).toOption.getD
    departed.1

def leaverStep : Step := ⟨departed.1, sampleEnv (sampleAccount 9) 11, leaverCall, leaverLeft⟩

theorem departing_evaluated :
    (InOrder 0 departingCalls ∧ (play samplePriced departingStart [] departingCalls).isOk = true ∧
      departed.1.escaped = true) ∧ (Word.zero :: departingStrings.map sha256).Nodup ∧
    (∀ e ∈ departed.2,
      e.Sound samplePriced (2 ^ 32) departingGuest {string | string ∈ departingStrings}) ∧
    (exec samplePriced (sampleEnv (sampleAccount 9) 11) departed.1 leaverCall).isOk = true ∧
    leaverStep.Sound samplePriced (2 ^ 32) departingGuest {string | string ∈ departingStrings} := by
  decide +kernel

theorem departed_run : Run samplePriced 100000 10 departed.1 departed.2 := by
  obtain ⟨⟨horder, hplays, -⟩, -⟩ := departing_evaluated
  exact played_run (.create 0 ..) horder hplays

theorem departing_ideal : Ideal {string | string ∈ departingStrings} :=
  .of_list departing_evaluated.2.1

theorem departed_sound : ∀ e ∈ departed.2,
    e.Sound samplePriced (2 ^ 32) departingGuest {string | string ∈ departingStrings} :=
  departing_evaluated.2.2.1

theorem departed_escaped : departed.1.escaped = true := departing_evaluated.1.2.2

theorem leaverLeft_ok :
    exec samplePriced (sampleEnv (sampleAccount 9) 11) departed.1 leaverCall = .ok leaverLeft :=
  eq_ok_getD departing_evaluated.2.2.2.1

theorem leaverStep_sound : leaverStep.Sound samplePriced (2 ^ 32) departingGuest
    {string | string ∈ departingStrings} := departing_evaluated.2.2.2.2

end Departure

end PaymentRollup.Contract
