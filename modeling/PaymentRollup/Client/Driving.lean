import PaymentRollup.Client.Messages
import PaymentRollup.Contract.Posting
import PaymentRollup.Contract.Wedged
import PaymentRollup.Lib.Grouping
import PaymentRollup.Rollup.Stdin

/-! # The client settles a block

The client cuts the batch, puts the calls into groups the network takes, and sends one group after
another; a group goes through whole or not at all, and anybody may call in between. What the client
reads of the contract it reads once, before it sends anything.
-/
namespace PaymentRollup.Client
open Contract (App Call Effect Env Follows Idle Kept Log Move OnCourse PaymentTxn Planned
  PublicValues Reject Run State Step Due Timely arrivals callStrings exec moves play
  posted)

section Verifiers
variable [Crypto]

structure Sp1Groth16Proof where
  encodedProof : Bytes
  publicInputs : List String
deriving DecidableEq

/-- `verify` gives the payment and the signals of the settlement call. -/
structure BatchProofVerifier where
  address : L1Address
  validate : Option Sp1Groth16Proof → Except String Unit
  verify : App → PublicValues → Option Sp1Groth16Proof → Except String (PaymentTxn × List Word)

/-- `decodeGnarkGroth16Bn254Proof` and `BigInt` are the libraries' own. -/
def witness (decodeProof : Bytes → Except String Unit) (bigInt : String → Except String Word)
    (proof : Option Sp1Groth16Proof) : Except String (List Word) := do
  let proof ← demand proof "an SP1 Groth16 proof is required"
  require (proof.encodedProof.length = 352) "SP1's encoded Groth16 proof must be exactly 352 bytes"
  require (proof.publicInputs.length = 5) "SP1 Groth16 proofs must have exactly five public inputs"
  decodeProof (proof.encodedProof.drop 96)
  proof.publicInputs.mapM bigInt

def lsigBatchProofVerifier (lsigAccount : L1Address) (decodeProof : Bytes → Except String Unit)
    (bigInt : String → Except String Word) : BatchProofVerifier where
  address := lsigAccount
  validate proof := (witness decodeProof bigInt proof).map fun _ => ()
  verify app _ proof := do
    let signals ← witness decodeProof bigInt proof
    .ok (⟨lsigAccount, app.address, 0⟩, signals)

def mockBatchProofVerifier (signer : L1Address) : BatchProofVerifier where
  address := signer
  validate _ := .ok ()
  verify app publicValues _ := .ok (⟨signer, app.address, 0⟩,
    [Word.zero, Contract.signalOf (sha256 publicValues.bytes), Word.zero, Word.zero, Word.zero])

omit [Crypto] in
/-- A proof whose parts can be read is all the LogicSig's client asks for; whether it is a proof of
these public values is for L1 to check. -/
theorem lsigBatchProofVerifier_ok {lsigAccount : L1Address}
    {decodeProof : Bytes → Except String Unit} {bigInt : String → Except String Word}
    {proof : Option Sp1Groth16Proof} {signals : List Word}
    (h : witness decodeProof bigInt proof = .ok signals) (app : App) :
    (lsigBatchProofVerifier lsigAccount decodeProof bigInt).validate proof = .ok () ∧
      ∀ p, (lsigBatchProofVerifier lsigAccount decodeProof bigInt).verify app p proof =
        .ok (⟨lsigAccount, app.address, 0⟩, signals) := by
  constructor
  · simp only [lsigBatchProofVerifier, h, Except.map]
  · intro p
    simp only [lsigBatchProofVerifier, h, ok_bind]

end Verifiers

section Driver
variable [Crypto]

/-- Must equal `CHUNK_SIZE` in the contract and in the guest. -/
def chunkSize : ℕ := 4094

/-- Largest group the network will accept, and so the most chunks one send can carry. -/
def maxGroupSize : ℕ := 16

/-- The groups a function of the client sends, in order, and what it throws in the end. -/
structure Sent where
  groups : List (List Call)
  thrown : Option String

structure RollupVerifier where
  proofVerifier : Option BatchProofVerifier
  testDeployment : Bool

def RollupVerifier.checked (client : RollupVerifier) (publicValues : Bytes)
    (proof : Option Sp1Groth16Proof) : Except String (BatchProofVerifier × PublicValues) :=
  if h : publicValues.length = 192 then do
    let verifier ← demand client.proofVerifier
      "this client has no proof verifier; use RollupVerifier.create or connect"
    verifier.validate proof
    .ok (verifier, ⟨publicValues, h⟩)
  else .error "public values must be exactly 192 bytes"

def RollupVerifier.settlePostedBatch (client : RollupVerifier) (app : App) (publicValues : Bytes)
    (proof : Option Sp1Groth16Proof) : Sent :=
  match client.checked publicValues proof with
  | .error message => ⟨[], some message⟩
  | .ok (verifier, p) =>
    match verifier.verify app p proof with
    | .error message => ⟨[], some message⟩
    | .ok (payment, signals) => ⟨[[.verifyBatch payment signals p]], none⟩

/-- The loop that cuts a batch, from offset `i` on. -/
def cutFrom (batchBytes : Bytes) (i : ℕ) : List Bytes :=
  if i < batchBytes.length then
    (batchBytes.drop i).take chunkSize :: cutFrom batchBytes (i + chunkSize)
  else []
termination_by batchBytes.length - i
decreasing_by
  simp only [chunkSize]
  omega

/-- Post a batch and settle it, in the state `s` that the client reads the cursors of. -/
def RollupVerifier.verifyBatch (client : RollupVerifier) (app : App) (s : State)
    (batchBytes publicValues : Bytes) (inboxCursor : Option UInt64)
    (proof : Option Sp1Groth16Proof) : Sent :=
  match client.checked publicValues proof with
  | .error message => ⟨[], some message⟩
  | .ok _ =>
    let targetInboxCursor := inboxCursor.getD s.inboxCursor
    let posting := Grouping.groups maxGroupSize (cutFrom batchBytes 0)
    let settling := client.settlePostedBatch app publicValues proof
    { groups := [.openBatch (UInt64.ofNat batchBytes.length) targetInboxCursor] ::
        posting.map (List.map .accumulateChunk) ++ settling.groups
      thrown := settling.thrown }

def drainWithdrawals (links : List WithdrawalLink) : Sent where
  groups := links.map fun link => [.payWithdrawal link.recipient link.amount link.tail]
  thrown := none

end Driver

section Cutting

theorem cutFrom_cut (batchBytes : Bytes) (i : ℕ) :
    Cutting.Cut chunkSize (batchBytes.length - i) (cutFrom batchBytes i) ∧
      (cutFrom batchBytes i).flatten = batchBytes.drop i := by
  fun_induction cutFrom batchBytes i with
  | case1 i hlt ih =>
    obtain ⟨hcut, hflatten⟩ := ih
    have hlength : ((batchBytes.drop i).take chunkSize).length =
        min chunkSize (batchBytes.length - i) := by
      rw [List.length_take, List.length_drop]
    constructor
    · rw [Cutting.cut_cons]
      refine ⟨by omega, hlength, ?_⟩
      by_cases hfull : chunkSize ≤ batchBytes.length - i
      · rw [hlength, min_eq_left hfull, Nat.sub_sub]
        exact hcut
      · have hend : ¬i + chunkSize < batchBytes.length := by omega
        rw [cutFrom, if_neg hend]
        exact True.intro
    · rw [List.flatten_cons, hflatten, ← List.drop_drop, List.take_append_drop]
  | case2 i hge =>
    refine ⟨True.intro, ?_⟩
    rw [List.flatten_nil, List.drop_eq_nil_of_le (Nat.not_lt.mp hge)]

theorem cutFrom_eq (batchBytes : Bytes) : cutFrom batchBytes 0 = chunks batchBytes := by
  obtain ⟨hcut, hflatten⟩ := cutFrom_cut batchBytes 0
  apply hcut.unique (by decide) (Contract.chunks_cut batchBytes)
  rw [hflatten, chunks_flatten, List.drop_zero]

end Cutting

section Sending
variable [Crypto]

/-- The runs on from `s` in which some of the groups of `plan` have been sent and the others are
still to be sent, and others have called what they may. A group is of one round. -/
inductive Sending (app : App) (Q : Set Bytes) (round : UInt64) (s : State) (log : Log)
    (plan : List (List Call)) : UInt64 → State → Log → List (List Call) → Prop
  | start : Sending app Q round s log plan round s log plan
  | other {round' : UInt64} {s' s'' : State} {log' : Log} {left : List (List Call)}
      (h : Sending app Q round s log plan round' s' log' left) (env : Env) (call : Call)
      (hround : round' ≤ env.round) (hcall : call.IsBystander)
      (hstrings : callStrings app s' call ⊆ Q) (hok : exec app env s' call = .ok s'') :
      Sending app Q round s log plan env.round s'' (⟨s', env, call, s''⟩ :: log') left
  | send {round' : UInt64} {s' s'' : State} {log' log'' : Log} {group : List Call}
      {left : List (List Call)}
      (h : Sending app Q round s log plan round' s' log' (group :: left)) (env : Env)
      (hround : round' ≤ env.round) (hcreator : env.sender = app.creator)
      (hok : play app s' log' (group.map (Prod.mk env)) = .ok (s'', log''))
      (hstrings : ∀ e ∈ log'', callStrings app e.before e.call ⊆ Q) :
      Sending app Q round s log plan env.round s'' log'' left

variable {app : App} {usize : ℕ} {Q : Set Bytes} {funds : ℕ} {round round' : UInt64} {s s' : State}
  {log log' : Log} {plan left : List (List Call)} {ms : List Move} {payment : PaymentTxn}
  {signals : List Word}

theorem Sending.suffix (h : Sending app Q round s log plan round' s' log' left) :
    left <:+ plan := by
  induction h with
  | start => exact List.suffix_refl _
  | other _ _ _ _ _ _ _ ih => exact ih
  | send _ _ _ _ _ _ ih => exact (List.suffix_cons _ _).trans ih

theorem Sending.follows (h : Sending app Q round s log plan round' s' log' left)
    (hplan : plan.flatten = ms.map (Move.send payment signals)) :
    ∃ last rest, last ≤ round' ∧ left.flatten = rest.map (Move.send payment signals) ∧
      Follows app Q round s log ms last s' log' rest := by
  induction h with
  | start => exact ⟨round, ms, UInt64.le_refl _, hplan, .start⟩
  | other h env call hround hcall hstrings hok ih =>
    obtain ⟨last, rest, hlast, hleft, hfollows⟩ := ih
    exact ⟨env.round, rest, UInt64.le_refl _, hleft,
      hfollows.other env call (UInt64.le_trans hlast hround) hcall hstrings hok⟩
  | @send _ _ _ _ _ group left h env hround hcreator hok hstrings ih =>
    obtain ⟨last, rest, hlast, hleft, hfollows⟩ := ih
    rw [List.flatten_cons] at hleft
    obtain ⟨first, later, rfl, rfl, hlater⟩ := List.map_eq_append_iff.mp hleft.symm
    rw [List.map_map] at hok
    obtain ⟨last', hlast', hfollows'⟩ :=
      hfollows.plays env (UInt64.le_trans hlast hround) hcreator hok hstrings
    exact ⟨last', later, hlast', hlater.symm, hfollows'⟩

end Sending

section Groups
variable [Crypto] {app : App} {usize : ℕ} {Q : Set Bytes} {funds : ℕ} {round : UInt64} {env : Env}
  {s₀ s : State} {items : List InboxItem} {x : Settlement} {target : UInt64} {p : PublicValues}
  {log : Log} {left : List Move}

theorem chunk_ok (hplan : Planned app usize Q s₀ items x target p) {chunk : Bytes}
    (h : OnCourse app s₀ items x target p s log (.accumulateChunk chunk :: left))
    (hkept : Kept app s (arrivals app log) (posted log)) (hcreator : env.sender = app.creator) :
    ∃ s', exec app env s (.accumulateChunk chunk) = .ok s' := by
  cases h.ahead with
  | chunk _ hlength _ hchunks => exact hplan.posts hkept hcreator hlength hchunks

theorem chunks_play (hQ : Ideal Q) (hplan : Planned app usize Q s₀ items x target p)
    {group : List Bytes} (hrun : Run app funds round s log)
    (h : OnCourse app s₀ items x target p s log (group.map .accumulateChunk ++ left))
    (hround : round ≤ env.round) (hcreator : env.sender = app.creator) :
    ∃ result, play app s log (group.map fun chunk => (env, .accumulateChunk chunk)) =
      .ok result := by
  induction group generalizing round s log with
  | nil => exact ⟨_, rfl⟩
  | cons chunk rest ih =>
    obtain ⟨s', hok⟩ := chunk_ok hplan h hrun.kept hcreator
    have hown := h.own hQ hplan (Contract.exec_effect hok) .accumulateChunk
    obtain ⟨result, hresult⟩ := ih (hrun.call env _ hround hok) hown (UInt64.le_refl _)
    refine ⟨result, ?_⟩
    rw [List.map_cons, play, hok, ok_bind]
    exact hresult

end Groups

section Plans
variable [Crypto] {app : App} {usize : ℕ} {guest : PublicValues → Execution} {Q : Set Bytes}
  {funds : ℕ} {round : UInt64} {s : State} {log : Log} {target : UInt64} {l l' : Ledger}
  {block : Block} {payment : PaymentTxn} {signals : List Word}

theorem due_courses (hrun : Run app funds round s log) (hfunds : app.baseMinBalance ≤ funds)
    (hQ : Ideal Q) (hlog : ∀ e ∈ log, e.Sound app usize guest Q)
    (hdue : Due app s log l l' block target) (husize : usize ≤ 2 ^ 64)
    (hbatch : block.batch.encode.length < usize) (hsidecar : block.sidecar.encode.length < usize)
    (hhashed : block.execution.strings usize ⊆ Q) :
    ∃ x p, Settlement.forBlock usize block = .ok x ∧ p.bytes = x.publicValues ∧
      x.Hosts usize block ∧ Planned app usize Q s (arrivals app log) x target p ∧
      ∀ {round' s' log' rest}, Follows app Q round s log (moves x target p) round' s' log' rest →
        Run app funds round' s' log' ∧
        OnCourse app s (arrivals app log) x target p s' log' rest ∧
        ∃ S batches lists owed, Contract.Ledgered app usize Q s' log' S batches lists owed ∧
          Contract.Solvent app s' S owed (arrivals app log') (Contract.reclaimed log') := by
  obtain ⟨x, hx, hhosts⟩ := Settlement.forBlock_hosts hdue.proves husize hbatch hsidecar
  have hsize : x.publicValues.length = 192 := by
    rw [hhosts.publicValues]
    simp only [publicValues, List.length_append, Word.size]
  let p : PublicValues := ⟨x.publicValues, hsize⟩
  have hpayouts : payoutStrings block.domain (withdrawalPayouts block.batch block.sidecar) ⊆ Q := by
    intro string hstring
    exact hhashed ⟨_, _, hhosts.decoded, hhosts.witnessed, .inr (.inr (.inl hstring))⟩
  have hplan : Planned app usize Q s (arrivals app log) x target p :=
    hdue.planned hrun.kept hhosts (hbatch.trans_le husize) hpayouts rfl
  let guest' := Function.update guest p block.execution
  have hcommits : (guest' p).Commits usize p.bytes ∧ (guest' p).strings usize ⊆ Q := by
    simp only [guest', Function.update_self]
    exact ⟨hhosts.commits, hhashed⟩
  have hlog' : ∀ e ∈ log, e.Sound app usize guest' Q := by
    intro e he
    obtain ⟨hprogram, hstrings, hproved⟩ := hlog e he
    refine ⟨hprogram, hstrings, ?_⟩
    intro verifier signals q hcall
    by_cases hq : q = p
    · exact hq ▸ hcommits
    · simp only [guest', Function.update_of_ne hq]
      exact hproved verifier signals q hcall
  refine ⟨x, p, hx, rfl, hhosts, hplan, ?_⟩
  intro round' s' log' rest hfollows
  have hrun' := hfollows.run hrun
  have hsound := hfollows.sound hlog' hcommits.1 hcommits.2
  exact ⟨hrun', hfollows.course hQ hdue.idle hplan, hrun'.solvent hQ hfunds hsound⟩

omit [Crypto] in
theorem send_injective : Function.Injective (Move.send payment signals) := by
  intro move move' h
  cases move with
  | payWithdrawal link =>
    cases move' with
    | payWithdrawal link' =>
      rcases link with ⟨recipient, amount, tail⟩
      rcases link' with ⟨recipient', amount', tail'⟩
      cases h
      rfl
    | _ => cases h
  | _ =>
    cases move' <;> cases h
    rfl

theorem send_timely {x : Settlement} {p : PublicValues} {env : Env} {move : Move}
    (hmove : move ∈ moves x target p)
    (h : .verifyBatch payment signals p ∈ [move.send payment signals] →
      Timely app env s payment signals p) (payment' : PaymentTxn) (signals' : List Word)
    (hcall : move.send payment signals = .verifyBatch payment' signals' p) :
    Timely app env s payment' signals' p := by
  cases move with
  | verifyBatch q =>
    cases hcall
    exact h (List.mem_singleton_self _)
  | _ => cases hcall

def settlementGroups (x : Settlement) (target : UInt64) (p : PublicValues) (payment : PaymentTxn)
    (signals : List Word) : List (List Call) :=
  [.openBatch (UInt64.ofNat x.batchLength) target] ::
    ((Grouping.groups maxGroupSize x.chunks).map (List.map .accumulateChunk) ++
      [.verifyBatch payment signals p] :: (drainWithdrawals x.withdrawalLinks).groups)

theorem settlementGroups_flatten (x : Settlement) (target : UInt64) (p : PublicValues) :
    (settlementGroups x target p payment signals).flatten =
      (moves x target p).map (Move.send payment signals) := by
  have hposting : ((Grouping.groups maxGroupSize x.chunks).map
      (List.map Call.accumulateChunk)).flatten = x.chunks.map .accumulateChunk := by
    rw [← List.map_flatten, Grouping.groups_flatten]
  have hchunks : (x.chunks.map Move.accumulateChunk).map (Move.send payment signals) =
      x.chunks.map .accumulateChunk := by
    rw [List.map_map]
    rfl
  have hpayouts : (drainWithdrawals x.withdrawalLinks).groups.flatten =
      (x.withdrawalLinks.map Move.payWithdrawal).map (Move.send payment signals) := by
    rw [drainWithdrawals, List.map_map]
    induction x.withdrawalLinks with
    | nil => rfl
    | cons link rest ih => rw [List.map_cons, List.flatten_cons, ih, List.map_cons]; rfl
  rw [settlementGroups, List.flatten_cons, List.flatten_append, hposting, List.flatten_cons,
    hpayouts, moves, List.map_cons, List.map_append, List.map_cons, hchunks]
  rfl

theorem mem_settlementGroups {x : Settlement} {p : PublicValues} {group : List Call}
    (h : group ∈ settlementGroups x target p payment signals) :
    (∃ call, group = [call]) ∨
      ∃ chunks ∈ Grouping.groups maxGroupSize x.chunks, group = chunks.map .accumulateChunk := by
  simp only [settlementGroups, drainWithdrawals, List.mem_append, List.mem_cons, List.mem_map] at h
  rcases h with rfl | ⟨chunks, hchunks, rfl⟩ | rfl | ⟨link, -, rfl⟩
  · exact .inl ⟨_, rfl⟩
  · exact .inr ⟨chunks, hchunks, rfl⟩
  · exact .inl ⟨_, rfl⟩
  · exact .inl ⟨_, rfl⟩

theorem settlementGroups_bounds {x : Settlement} {p : PublicValues} (hbytes : x.batchBytes ≠ []) :
    ∀ group ∈ settlementGroups x target p payment signals,
      group ≠ [] ∧ group.length ≤ maxGroupSize := by
  intro group hgroup
  rcases mem_settlementGroups hgroup with ⟨call, rfl⟩ | ⟨chunks, hchunks, rfl⟩
  · exact ⟨List.cons_ne_nil _ _, Nat.le_add_left 1 15⟩
  · have hsome : x.chunks ≠ [] := by
      intro hnone
      apply hbytes
      rw [← chunks_flatten x.batchBytes, ← Settlement.chunks, hnone, List.flatten_nil]
    obtain ⟨hne, hle⟩ := Grouping.groups_bounds (by decide) hsome chunks hchunks
    rw [List.length_map]
    exact ⟨fun hnil => hne (List.map_eq_nil_iff.mp hnil), hle⟩

/-- What the client sends for a settlement, once its checks are passed. -/
theorem verifyBatch_sent {client : RollupVerifier} {verifier : BatchProofVerifier} {x : Settlement}
    {p : PublicValues} {proof : Option Sp1Groth16Proof} (hp : p.bytes = x.publicValues)
    (hverifier : client.proofVerifier = some verifier) (hvalid : verifier.validate proof = .ok ())
    (hproof : verifier.verify app p proof = .ok (payment, signals)) (inboxCursor : Option UInt64) :
    let sent := client.verifyBatch app s x.batchBytes x.publicValues inboxCursor proof
    sent.thrown = none ∧ sent.groups ++ (drainWithdrawals x.withdrawalLinks).groups =
      settlementGroups x (inboxCursor.getD s.inboxCursor) p payment signals := by
  have hsize : x.publicValues.length = 192 := by
    rw [← hp]
    exact p.size
  have hsame : (⟨x.publicValues, hsize⟩ : PublicValues) = p := by
    rcases p with ⟨bytes, hlength⟩
    cases hp
    rfl
  have hchecked : client.checked x.publicValues proof = .ok (verifier, p) := by
    rw [RollupVerifier.checked, dif_pos hsize, hverifier, demand, ok_bind, hvalid, ok_bind, hsame]
  have hsettled : client.settlePostedBatch app x.publicValues proof =
      ⟨[[.verifyBatch payment signals p]], none⟩ := by
    rw [RollupVerifier.settlePostedBatch, hchecked]
    simp only [hproof]
  simp only [RollupVerifier.verifyBatch, hchecked, hsettled, cutFrom_eq]
  refine ⟨trivial, ?_⟩
  rw [settlementGroups, List.cons_append, List.cons_append, List.append_assoc,
    List.singleton_append]
  rfl

end Plans

section Results
variable [Crypto] {app : App} {usize : ℕ} {guest : PublicValues → Execution} {Q : Set Bytes}
  {funds : ℕ} {round : UInt64} {s : State} {log : Log} {target : UInt64} {l l' : Ledger}
  {block : Block}

/-- From the ledger to L1: the guest, fed by the host, commits the values that the client settles
on; no group the client sends is empty or too long for the network; and whatever others file, prune,
signal or fund between the groups, each goes through as a whole if its proof is timely, until the
contract stands where the ledger does. A payout made by somebody else is not among that: the
client's group for the same payout would then fail. -/
theorem client_settles_what_is_due (hrun : Run app funds round s log)
    (hfunds : app.baseMinBalance ≤ funds) (hQ : Ideal Q)
    (hlog : ∀ e ∈ log, e.Sound app usize guest Q) (hdue : Due app s log l l' block target)
    (husize : usize ≤ 2 ^ 64) (hbatch : block.batch.encode.length < usize)
    (hsidecar : block.sidecar.encode.length < usize) (hhashed : block.execution.strings usize ⊆ Q)
    {client : RollupVerifier} {verifier : BatchProofVerifier} {proof : Option Sp1Groth16Proof}
    (hverifier : client.proofVerifier = some verifier) (hvalid : verifier.validate proof = .ok ())
    (hproof : ∀ p, ∃ sent, verifier.verify app p proof = .ok sent) :
    ∃ x p payment signals, Settlement.forBlock usize block = .ok x ∧
      Guest.main usize x.stdin = some p.bytes ∧
      verifier.verify app p proof = .ok (payment, signals) ∧
      let sent := client.verifyBatch app s x.batchBytes p.bytes (some target) proof
      let plan := sent.groups ++ (drainWithdrawals x.withdrawalLinks).groups
      sent.thrown = none ∧
      (target = s.inboxCursor → client.verifyBatch app s x.batchBytes p.bytes none proof = sent) ∧
      (∀ group ∈ plan, group ≠ [] ∧ group.length ≤ maxGroupSize) ∧
      ∀ {round' s' log' left}, Sending app Q round s log plan round' s' log' left →
        (∀ {group rest env}, left = group :: rest → round' ≤ env.round →
          env.sender = app.creator →
          (.verifyBatch payment signals p ∈ group → Timely app env s' payment signals p) →
          (∀ account amount, minWithdrawal ≤ amount → env.accepts account amount = true) →
          (∀ move ∈ moves x target p, move.send payment signals ∈ group → move.Fits target s') →
          ∃ result, play app s' log' (group.map (Prod.mk env)) = .ok result) ∧
        (left = [] → Idle s' ∧ Contract.InStep app l' s' ∧ s'.settledInboxCursor = target) := by
  obtain ⟨x, p, hx, hp, hhosts, hplan, hcourses⟩ :=
    due_courses hrun hfunds hQ hlog hdue husize hbatch hsidecar hhashed
  obtain ⟨⟨payment, signals⟩, hverify⟩ := hproof p
  obtain ⟨hthrown, hgroups⟩ := verifyBatch_sent (s := s) hp hverifier hvalid hverify (some target)
  have hbytes : x.batchBytes ≠ [] := by
    rw [hhosts.batchBytes]
    exact List.cons_ne_nil _ _
  refine ⟨x, p, payment, signals, hx, ?_, hverify, ?_⟩
  · rw [hp]
    exact (Settlement.forBlock_stdin hx).2
  · simp only [hp] at hthrown hgroups ⊢
    rw [hgroups, Option.getD_some]
    refine ⟨hthrown, ?_, settlementGroups_bounds hbytes, ?_⟩
    · rintro rfl
      rfl
    · intro round' s' log' left hsending
      obtain ⟨last, rest, hlast, hleft, hfollows⟩ :=
        hsending.follows (settlementGroups_flatten x target p)
      obtain ⟨hrun', hcourse, S, batches, lists, owed, hledgered, hsolvent⟩ := hcourses hfollows
      constructor
      · rintro group others env rfl hround hcreator htimely haccepts hfits
        have hround := UInt64.le_trans hlast hround
        have hmem := hsending.suffix.subset (List.mem_cons_self ..)
        obtain ⟨first, later, rfl, hfirst, -⟩ := List.map_eq_append_iff.mp hleft.symm
        rcases mem_settlementGroups hmem with ⟨call, rfl⟩ | ⟨chunks, -, rfl⟩
        · obtain ⟨move, rfl, rfl⟩ := List.map_eq_singleton_iff.mp hfirst
          have hmove : move ∈ moves x target p := hfollows.made.1.subset (List.mem_cons_self ..)
          obtain ⟨s'', hok⟩ := hcourse.next hplan hrun'.kept hcreator hQ hledgered hsolvent
            move.makes_send (send_timely hmove htimely) haccepts
            (hfits move hmove (List.mem_singleton_self _))
          refine ⟨(s'', ⟨s', env, move.send payment signals, s''⟩ :: log'), ?_⟩
          rw [List.map_singleton, play, hok, ok_bind, play]
        · have hsame : (chunks.map Move.accumulateChunk).map (Move.send payment signals) =
              chunks.map Call.accumulateChunk := by
            rw [List.map_map]
            rfl
          cases List.map_injective_iff.mpr send_injective (hfirst.trans hsame.symm)
          rw [List.map_map]
          exact chunks_play hQ hplan hrun' hcourse hround hcreator
      · rintro rfl
        obtain rfl := List.map_eq_nil_iff.mp hleft.symm
        obtain ⟨hidle', hroot, hchain, hcursor⟩ := hcourse.finished
        obtain ⟨-, hnewRoot, -, -, hnewChain, -⟩ :=
          PublicValues.words (hp.trans hhosts.publicValues)
        have hproves := hdue.proves
        refine ⟨hidle', ⟨?_, ?_, ?_⟩, hcursor⟩
        · exact hproves.domain'.trans hdue.inStep.domain
        · exact hproves.newRoot.symm.trans (hnewRoot.symm.trans hroot.symm)
        · exact hproves.newInboxChain.symm.trans (hnewChain.symm.trans hchain.symm)

end Results

section Sample
attribute [local instance] Crypto.unsigned
open Contract (sampleApp sampleArrived sampleBlock sampleEnv)

def sampleClient : RollupVerifier := ⟨some (mockBatchProofVerifier (sampleAccount 10)), false⟩

/-- A client as `create` makes them, on inputs as small as they can be. -/
def sampleVerifier : BatchProofVerifier :=
  lsigBatchProofVerifier (sampleAccount 10) (fun _ => .ok ())
    fun text => if text = "0" then .ok Word.zero else .error "not a number"

def sampleProof : Sp1Groth16Proof := ⟨List.replicate 352 0, List.replicate 5 "0"⟩

theorem sample_client_opens : ∃ (x : Settlement) (p : PublicValues) (group : List Call)
    (rest : List (List Call)),
    Settlement.forBlock (2 ^ 32) sampleBlock = .ok x ∧ Guest.main (2 ^ 32) x.stdin = some p.bytes ∧
    ((⟨some sampleVerifier, false⟩ : RollupVerifier).verifyBatch sampleApp (sampleArrived 100000).1
      x.batchBytes p.bytes (some 1) (some sampleProof)).groups ++
        (drainWithdrawals x.withdrawalLinks).groups = group :: rest ∧
    ∃ result, play sampleApp (sampleArrived 100000).1 (sampleArrived 100000).2
      (group.map (Prod.mk (sampleEnv (sampleAccount 1) 6))) = .ok result := by
  have hplayed : (sampleBlock.batch.encode.length < 2 ^ 32 ∧
        sampleBlock.sidecar.encode.length < 2 ^ 32 ∧
        sampleBlock.execution.strings (2 ^ 32) ⊆ {string | string ∈ Contract.sampleStrings}) ∧
      ∀ e ∈ (sampleArrived 100000).2, e.Sound sampleApp (2 ^ 32) Contract.sampleGuest
        {string | string ∈ Contract.sampleStrings} := by
    decide +kernel
  obtain ⟨⟨hbatch, hsidecar, hhashed⟩, hlog⟩ := hplayed
  let client : RollupVerifier := ⟨some sampleVerifier, false⟩
  have hverifier : client.proofVerifier = some sampleVerifier := rfl
  have hwitness : witness (fun _ => .ok ()) (fun text => if text = "0" then .ok Word.zero else
      .error "not a number") (some sampleProof) = .ok (List.replicate 5 Word.zero) := by
    decide +kernel
  obtain ⟨hvalid, hproof⟩ := lsigBatchProofVerifier_ok hwitness sampleApp
  obtain ⟨x, p, payment, signals, hx, hguest, hverify, -, -, -, hnext⟩ :=
    client_settles_what_is_due (Contract.sampleArrived_run 100000 (by decide)) (by decide)
      Contract.sample_ideal hlog (Contract.sampleArrived_due 100000 (by decide)) (by decide) hbatch
      hsidecar hhashed hverifier hvalid fun p => ⟨_, hproof p⟩
  have hp : p.bytes = x.publicValues :=
    Option.some.inj (hguest.symm.trans (Settlement.forBlock_stdin hx).2)
  have hgroups := (verifyBatch_sent (s := (sampleArrived 100000).1) hp hverifier hvalid hverify
    (some 1)).2
  rw [← hp] at hgroups
  refine ⟨x, p, _, _, hx, hguest, hgroups, ?_⟩
  refine (hnext .start).1 hgroups (by decide) rfl ?_ (fun _ _ _ => rfl) ?_
  · intro hmem
    cases List.mem_singleton.mp hmem
  · rintro move - hsend
    cases move with
    | openBatch n target => exact True.intro
    | _ => cases List.mem_singleton.mp hsend

end Sample

end PaymentRollup.Client
