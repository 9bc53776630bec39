import PaymentRollup.Contract.State
import PaymentRollup.Rollup.Merkle

/-! # The methods of the settlement contract

One definition for each entry point, in the order its checks are made. A call that fails
leaves no trace, so a method gives either a rejection or the next state.
-/
namespace PaymentRollup.Contract

variable [Crypto]

section Hashes

/-- The AVM's `itob`. -/
def itob (x : UInt64) : Bytes := toBeBytes x

def testDomain : Word where
  bytes := [
    0x0b, 0x3b, 0xf7, 0x4f, 0xb8, 0x7b, 0x14, 0x78, 0x20, 0x88, 0xe6, 0x06, 0xf3, 0x8c, 0x5f, 0x1a,
    0x58, 0x25, 0x2c, 0xf7, 0xd1, 0xfc, 0x3c, 0xe1, 0x90, 0x46, 0xfd, 0xfd, 0xaa, 0xa3, 0x79, 0xef]
  size := rfl

def domainString (app : App) : Bytes :=
  ascii ['P', 'A', 'Y', 'M', 'E', 'N', 'T', '_', 'R', 'O', 'L', 'L', 'U', 'P', '_', 'V', '1'] ++
    app.genesisHash.bytes ++ itob app.appId

/-- The network- and application-specific domain shared with the guest and signing clients. -/
def deploymentDomain (app : App) : Word :=
  if app.testDeployment then testDomain else sha256 (domainString app)

def terminalString (app : App) : Bytes :=
  ascii ['W', 'E', 'N', 'D'] ++ (deploymentDomain app).bytes

def withdrawalTerminal (app : App) : Word := sha256 (terminalString app)

def programString (pages : List Bytes) : Bytes :=
  ascii ['A', 'P', 'R', 'O', 'G'] ++ itob (UInt64.ofNat pages.length)

def pageString (commitment : Word) (page : Bytes) : Bytes :=
  ascii ['A', 'P', 'A', 'G', 'E'] ++ commitment.bytes ++ (sha256 page).bytes

def approvalProgramCommitment (pages : List Bytes) : Word :=
  pages.foldl (fun commitment page => sha256 (pageString commitment page))
    (sha256 (programString pages))

def depositString (inboxChain : Word) (recipient : Address) (amount : UInt64) : Bytes :=
  ascii ['I', 'N', 'B', 'O', 'X', 'D'] ++ inboxChain.bytes ++ recipient.bytes ++ itob amount

def requestString (inboxChain : Word) (address : Address) (recipient : L1Address) : Bytes :=
  ascii ['I', 'N', 'B', 'O', 'X', 'W'] ++ inboxChain.bytes ++ address.bytes ++ recipient.bytes

def keyString (scheme : Bytes) (pubKey : Word) : Bytes :=
  ascii ['A', 'D', 'D', 'R'] ++ scheme ++ pubKey.bytes

/-- What the holder of `address` signs to be let out. -/
def requestMessage (app : App) (nonce : UInt64) (address : Address) (recipient : L1Address) :
    Bytes :=
  ascii ['W', 'R', 'E', 'Q'] ++ (deploymentDomain app).bytes ++ itob nonce ++ address.bytes ++
    recipient.bytes

/-- What the holder of `address` signs to leave a frozen rollup. -/
def exitMessage (app : App) (address : Address) (recipient : L1Address) : Bytes :=
  ascii ['E', 'X', 'I', 'T'] ++ (deploymentDomain app).bytes ++ address.bytes ++ recipient.bytes

def payoutString (tail : Word) (recipient : L1Address) (amount : UInt64) : Bytes :=
  ascii ['W', 'P', 'A', 'Y'] ++ tail.bytes ++ recipient.bytes ++ itob amount

def leafString (address : Address) (nonce amount : UInt64) (authAddress : Address) : Bytes :=
  ascii ['L', 'E', 'A', 'F'] ++ address.bytes ++ itob nonce ++ itob amount ++ authAddress.bytes

def nodeString (left right : Bytes) : Bytes := ascii ['N', 'O', 'D', 'E'] ++ left ++ right

def seedString (app : App) (batchLength : UInt64) : Bytes :=
  ascii ['B', 'A', 'T', 'C', 'H'] ++ (deploymentDomain app).bytes ++ itob batchLength

def chunkString (accumulator : Word) (chunk : Bytes) : Bytes :=
  ascii ['C', 'H', 'U', 'N', 'K'] ++ accumulator.bytes ++ (sha256 chunk).bytes

/-- The AVM's `getBit` on a byte string, from the most significant bit of the first byte. -/
def getBit (bytes : Bytes) (i : ℕ) : UInt8 :=
  (bytes.getD (i / 8) 0 >>> UInt8.ofNat (7 - i % 8)) &&& 1

end Hashes

def chunkSize : UInt64 := 4094

def escapeProgressTranche : UInt64 := 256

def schemeEd25519 : Bytes := ascii ['e', 'd', 'd']

def maxProofDepth : ℕ := 256

/-- The 192 bytes the guest commits. -/
structure PublicValues where
  bytes : Bytes
  size : bytes.length = 192
deriving DecidableEq

namespace PublicValues

def word (p : PublicValues) (i : ℕ) (hi : i < 6) : Word :=
  ⟨(p.bytes.drop (32 * i)).take 32, by
    rw [List.length_take, List.length_drop, p.size]
    omega⟩

def oldRoot (p : PublicValues) : Word := p.word 0 (by omega)
def newRoot (p : PublicValues) : Word := p.word 1 (by omega)
def batchCommitment (p : PublicValues) : Word := p.word 2 (by omega)
def oldInboxChain (p : PublicValues) : Word := p.word 3 (by omega)
def newInboxChain (p : PublicValues) : Word := p.word 4 (by omega)
def withdrawalChain (p : PublicValues) : Word := p.word 5 (by omega)

end PublicValues

/-- `bitwiseAnd` with `1fff..ff`: the part of a digest a BN254 signal can hold. -/
def signalOf (digest : Word) : Word where
  bytes := (digest.bytes.headD 0 &&& 0x1f) :: digest.bytes.tail
  size := by
    rw [List.length_cons, List.length_tail, digest.size]

variable (app : App) (env : Env)

/-- Genesis: the empty ledger. `balance` is what the app account is funded with. -/
def createApplication (verifierAddress : L1Address) (programVkeyHash recursionVkeyRoot : Word)
    (inboxTimeout escapeGrace : UInt64) (securityCouncil : L1Address) (updateDelay : UInt64)
    (approvalProgram : List Bytes) (clearStateProgram : Bytes) (balance : ℕ) : State where
  verifierAddress := verifierAddress
  programVkeyHash := programVkeyHash
  recursionVkeyRoot := recursionVkeyRoot
  stateRoot := Word.zero
  chunkAccumulator := none
  batchLength := none
  postedLength := none
  inboxChain := Word.zero
  inboxCursor := 0
  settledInboxChain := Word.zero
  settledInboxCursor := 0
  sealedInboxChain := none
  sealedInboxCursor := none
  requestCursor := 0
  inbox := fun _ => none
  pendingWithdrawals := none
  exits := fun _ => none
  escaped := false
  escapeDeadline := none
  escapeInboxTarget := none
  escapeProgress := none
  inboxTimeout := inboxTimeout
  escapeGrace := escapeGrace
  securityCouncil := securityCouncil
  updateDelay := updateDelay
  pendingVerifierAddress := none
  pendingProgramVkeyHash := none
  pendingRecursionVkeyRoot := none
  verifierUpdateAfter := none
  applicationUpdateAfter := none
  pendingApprovalProgramHash := none
  approvalProgram := approvalProgram
  clearStateProgram := clearStateProgram
  balance := balance
  minBalance := app.baseMinBalance

def State.dropBatch (s : State) : State :=
  { s with
    chunkAccumulator := none
    batchLength := none
    postedLength := none
    sealedInboxChain := none
    sealedInboxCursor := none }

def State.clearSignal (s : State) : State :=
  { s with escapeDeadline := none, escapeInboxTarget := none, escapeProgress := none }

section Council

def State.assertSecurityCouncil (s : State) : Except Reject Unit :=
  assert (env.sender = s.securityCouncil) "only the security council may call this method"

def securityCouncilEscape (s : State) : Except Reject State := do
  s.assertSecurityCouncil env
  assert (!s.escaped) "the rollup has already escaped"
  let s := { s.clearSignal with
    escaped := true
    pendingVerifierAddress := none
    pendingProgramVkeyHash := none
    pendingRecursionVkeyRoot := none
    verifierUpdateAfter := none
    applicationUpdateAfter := none
    pendingApprovalProgramHash := none }
  .ok (if s.batchLength.isSome then s.dropBatch else s)

def scheduleVerifierUpdate (verifierAddress : L1Address)
    (programVkeyHash recursionVkeyRoot : Word) (s : State) : Except Reject State := do
  s.assertSecurityCouncil env
  assert (!s.escaped) "the rollup has escaped"
  assert (s.batchLength = none) "a batch is being posted"
  let after ← add env.round s.updateDelay
  .ok { s with
    pendingVerifierAddress := some verifierAddress
    pendingProgramVkeyHash := some programVkeyHash
    pendingRecursionVkeyRoot := some recursionVkeyRoot
    verifierUpdateAfter := some after }

def executeVerifierUpdate (s : State) : Except Reject State := do
  assert (!s.escaped) "the rollup has escaped"
  assert s.verifierUpdateAfter.isSome "no verifier update is scheduled"
  let after ← demand s.verifierUpdateAfter .missingValue
  assert (after ≤ env.round) "the verifier update delay has not elapsed"
  let verifierAddress ← demand s.pendingVerifierAddress .missingValue
  let programVkeyHash ← demand s.pendingProgramVkeyHash .missingValue
  let recursionVkeyRoot ← demand s.pendingRecursionVkeyRoot .missingValue
  .ok { s with
    verifierAddress
    programVkeyHash
    recursionVkeyRoot
    pendingVerifierAddress := none
    pendingProgramVkeyHash := none
    pendingRecursionVkeyRoot := none
    verifierUpdateAfter := none }

def scheduleApplicationUpdate (approvalProgramHash : Word) (s : State) : Except Reject State := do
  s.assertSecurityCouncil env
  assert (!s.escaped) "the rollup has escaped"
  let after ← add env.round s.updateDelay
  .ok { s with
    pendingApprovalProgramHash := some approvalProgramHash
    applicationUpdateAfter := some after }

/-- The pages and the clear-state program are those of the calling transaction, which the
network installs when the call is approved. -/
def updateApplication (pages : List Bytes) (clearStateProgram : Bytes) (s : State) :
    Except Reject State := do
  assert (!s.escaped) "the rollup has escaped"
  assert s.applicationUpdateAfter.isSome "no application update is scheduled"
  let after ← demand s.applicationUpdateAfter .missingValue
  assert (after ≤ env.round) "the application update delay has not elapsed"
  let hash ← demand s.pendingApprovalProgramHash .missingValue
  assert (approvalProgramCommitment pages = hash)
    "the approval program does not match the scheduled update"
  .ok { s with
    applicationUpdateAfter := none
    pendingApprovalProgramHash := none
    approvalProgram := pages
    clearStateProgram }

end Council

section Inbox

def deposit (payment : PaymentTxn) (recipient : Address) (s : State) : Except Reject State := do
  let s ← s.receive app payment
  assert (!s.escaped) "the rollup has escaped"
  let index := s.inboxCursor
  -- Allocated before its contents are known: the credited amount depends on what it cost.
  let boxMbr := s.boxCost app index
  let s := s.createInboxBox app index
  assert (payment.receiver = app.address ∧ boxMbr < payment.amount)
    "the deposit must pay this app more than the box minimum balance"
  let amount ← sub payment.amount boxMbr
  let chainAfter := sha256 (depositString s.inboxChain recipient amount)
  let next ← add index 1
  State.checkMinBalance
    { s with
      inbox := Function.update s.inbox index
        (some ⟨.deposit, recipient, Word.zero, amount, payment.sender, env.round, chainAfter⟩)
      inboxChain := chainAfter
      inboxCursor := next }

def requestWithdrawal (payment : PaymentTxn) (expectedNonce : UInt64) (address : Address)
    (recipient : L1Address) (scheme : Bytes) (pubKey : Word) (signature : Bytes) (s : State) :
    Except Reject State := do
  let s ← s.receive app payment
  assert (!s.escaped) "the rollup has escaped"
  let index := s.inboxCursor
  let boxMbr := s.boxCost app index
  let s := s.createInboxBox app index
  assert (payment.receiver = app.address ∧ payment.amount = boxMbr)
    "the request must cover its box minimum balance exactly"
  let nonce := s.requestCursor
  assert (nonce = expectedNonce) "a request arrived first"
  assert (scheme = schemeEd25519) "unsupported signature scheme"
  assert (sha256 (keyString scheme pubKey) = address) "the key does not derive this account"
  assert (Crypto.ed25519VerifyBare (requestMessage app nonce address recipient) signature
    pubKey.bytes) "the request is not signed by the account's key"
  let chainAfter := sha256 (requestString s.inboxChain address recipient)
  let next ← add index 1
  let nextNonce ← add nonce 1
  State.checkMinBalance
    { s with
      inbox := Function.update s.inbox index
        (some ⟨.request, address, recipient, 0, payment.sender, env.round, chainAfter⟩)
      inboxChain := chainAfter
      inboxCursor := next
      requestCursor := nextNonce }

def pruneRequest (index : UInt64) (s : State) : Except Reject State := do
  let record ← demand (s.inbox index) .missingValue
  assert (record.kind = .request) "the inbox entry is not a request"
  assert (index < s.settledInboxCursor ∨ s.escaped)
    "a request cannot be pruned before the batch that answered it has settled"
  (s.deleteInboxBox app index).pay app env record.payer app.inboxMbr

def pruneDeposit (index : UInt64) (s : State) : Except Reject State := do
  let record ← demand (s.inbox index) .missingValue
  assert (record.kind = .deposit) "the inbox entry is not a deposit"
  assert (index < s.settledInboxCursor)
    "a deposit cannot be pruned before the batch that consumed it has settled"
  (s.deleteInboxBox app index).pay app env record.payer app.inboxMbr

def reclaimDeposit (index : UInt64) (s : State) : Except Reject State := do
  assert s.escaped "deposits can only be reclaimed after an escape"
  assert (s.settledInboxCursor ≤ index) "this deposit was credited by a batch that settled"
  assert (index < s.inboxCursor) "no such inbox entry"
  let record ← demand (s.inbox index) .missingValue
  assert (record.kind = .deposit) "the inbox entry is not a deposit"
  let amount ← add record.amount app.inboxMbr
  (s.deleteInboxBox app index).pay app env record.payer amount

end Inbox

section Escape

/-- Credit discharged obligations against a pending accusation, one window per call at most. -/
def State.creditEscapeProgress (s : State) (discharged : UInt64) : Except Reject State :=
  match s.escapeDeadline with
  | none => .ok s
  | some deadline => do
    let progress ← demand s.escapeProgress .missingValue
    let progress ← add progress discharged
    if escapeProgressTranche ≤ progress then do
      let deadline ← add deadline s.escapeGrace
      .ok { s with escapeDeadline := some deadline, escapeProgress := some 0 }
    else .ok { s with escapeProgress := some progress }

/-- The next payout of the settled batch. Anyone may make it; only the creator's is progress. -/
def payWithdrawal (recipient : L1Address) (amount : UInt64) (tail : Word) (s : State) :
    Except Reject State := do
  assert s.pendingWithdrawals.isSome "no payouts are outstanding"
  let head ← demand s.pendingWithdrawals .missingValue
  assert (sha256 (payoutString tail recipient amount) = head)
    "this is not the next payout the batch committed"
  let s := { s with
    pendingWithdrawals := if tail = withdrawalTerminal app then none else some tail }
  let s ← (if env.sender = app.creator then s.creditEscapeProgress 1 else .ok s)
  s.pay app env recipient amount

/-- The Merkle part of a forced exit: hash up from the leaf, deepest level first. -/
def exitRoot (address : Address) (nonce amount : UInt64) (authAddress : Address)
    (siblings : Bytes) : Word :=
  (List.range (siblings.length / 32)).reverse.foldl
    (fun current level =>
      let sibling := (siblings.drop (level * 32)).take 32
      if getBit address.bytes level = 0 then sha256 (nodeString current.bytes sibling)
      else sha256 (nodeString sibling current.bytes))
    (sha256 (leafString address nonce amount authAddress))

def forceExit (address : Address) (nonce amount : UInt64) (authAddress : Address)
    (scheme : Bytes) (pubKey : Word) (signature : Bytes) (recipient : L1Address)
    (siblings : Bytes) (s : State) : Except Reject State := do
  assert s.escaped "the rollup has not escaped"
  assert (s.exits address = none) "this account has already exited"
  assert (scheme = schemeEd25519) "unsupported signature scheme"
  assert (sha256 (keyString scheme pubKey) = authAddress) "the key does not control this account"
  assert (Crypto.ed25519VerifyBare (exitMessage app address recipient) signature pubKey.bytes)
    "the exit is not signed by the account's key"
  assert (siblings.length % 32 = 0) "the proof is not a whole number of siblings"
  assert (siblings.length / 32 ≤ maxProofDepth)
    "the proof is deeper than the address space allows"
  assert (exitRoot address nonce amount authAddress siblings = s.stateRoot)
    "the account does not prove against the settled root"
  -- The record is written before the balance is checked against the cost of writing it.
  let s := { s with
    exits := Function.update s.exits address (some amount)
    minBalance := s.minBalance + app.exitMbr.toNat }
  assert (app.exitMbr < amount) "the balance does not cover the cost of recording the exit"
  let paid ← sub amount app.exitMbr
  s.pay app env recipient paid

def signalEscape (s : State) : Except Reject State := do
  assert (!s.escaped) "the rollup has already escaped"
  assert (s.escapeDeadline = none) "an escape has already been signalled"
  assert (s.settledInboxCursor < s.inboxCursor) "nothing is pending"
  let record ← demand (s.inbox s.settledInboxCursor) .missingValue
  let stale ← add record.round s.inboxTimeout
  assert (stale < env.round) "nothing has been waiting long enough"
  let deadline ← add env.round s.escapeGrace
  .ok { s with
    escapeInboxTarget := some s.inboxCursor
    escapeProgress := some 0
    escapeDeadline := some deadline }

def executeEscape (s : State) : Except Reject State := do
  assert (!s.escaped) "the rollup has already escaped"
  assert s.escapeDeadline.isSome "no escape has been signalled"
  let deadline ← demand s.escapeDeadline .missingValue
  assert (deadline < env.round) "the grace period has not run out"
  let s := { s.clearSignal with escaped := true }
  .ok (if s.batchLength.isSome then s.dropBatch else s)

end Escape

section Batches

def abandonBatch (s : State) : Except Reject State := do
  assert (env.sender = app.creator) "only the creator may abandon"
  assert s.batchLength.isSome "no batch is being posted"
  .ok s.dropBatch

def State.checkpoint (s : State) (target : UInt64) : Except Reject Word :=
  if target = s.settledInboxCursor then .ok s.settledInboxChain
  else do
    let last ← sub target 1
    let record ← demand (s.inbox last) .missingValue
    .ok record.chainAfter

def openBatch (batchLength targetInboxCursor : UInt64) (s : State) : Except Reject State := do
  assert (env.sender = app.creator) "only the creator may open a batch"
  assert (!s.escaped) "the rollup has escaped"
  assert (s.batchLength = none) "a batch is already being posted"
  assert (s.pendingWithdrawals = none) "the last batch's payouts have not all been made"
  assert (s.settledInboxCursor ≤ targetInboxCursor)
    "the batch cannot move the inbox cursor backwards"
  assert (targetInboxCursor ≤ s.inboxCursor)
    "the batch cannot consume an inbox entry that has not arrived"
  let sealedInboxChain ← s.checkpoint targetInboxCursor
  .ok { s with
    chunkAccumulator := some (sha256 (seedString app batchLength))
    batchLength := some batchLength
    postedLength := some 0
    sealedInboxChain := some sealedInboxChain
    sealedInboxCursor := some targetInboxCursor }

def accumulateChunk (chunk : Bytes) (s : State) : Except Reject State := do
  assert (env.sender = app.creator) "only the creator may post a chunk"
  assert s.batchLength.isSome "no batch is being posted"
  let batchLength ← demand s.batchLength .missingValue
  let postedLength ← demand s.postedLength .missingValue
  assert (postedLength < batchLength) "the batch is already fully posted"
  let remaining ← sub batchLength postedLength
  let expected := if remaining < chunkSize then remaining else chunkSize
  assert (chunk.length = expected.toNat) "chunk is not the size its position allows"
  let accumulator ← demand s.chunkAccumulator .missingValue
  let posted ← add postedLength expected
  .ok { s with
    chunkAccumulator := some (sha256 (chunkString accumulator chunk))
    postedLength := some posted }

/-- What `verifyBatch` checks about the proof: the LogicSig that signed the payment before it,
and the five signals that LogicSig verified. -/
def checkProof (verifier : PaymentTxn) (signals : List Word) (publicValues : PublicValues)
    (s : State) : Except Reject Unit := do
  assert (verifier.sender = s.verifierAddress) "invalid proof verifier"
  assert (signals.length = 5) "SP1 proofs have five public inputs"
  assert (signals[0]? = some s.programVkeyHash) "the proof is for a different program"
  assert (signals[1]? = some (signalOf (sha256 publicValues.bytes)))
    "the proof commits different public values"
  assert (signals[2]? = some Word.zero) "the guest execution failed"
  assert (signals[3]? = some s.recursionVkeyRoot) "the proof is from a different SP1 verifier set"

/-- The end of a settlement: a signal is answered, or credited with what was consumed. -/
def State.answerSignal (s : State) (oldSettledInboxCursor : UInt64) : Except Reject State :=
  match s.escapeInboxTarget with
  | none => .ok s
  | some target =>
    if target ≤ s.settledInboxCursor then .ok s.clearSignal
    else do
      let consumed ← sub s.settledInboxCursor oldSettledInboxCursor
      s.creditEscapeProgress consumed

instance decidableInTime (deadline : Option UInt64) (round : UInt64) :
    Decidable (∀ d ∈ deadline, round ≤ d) :=
  Option.decidableForallMem deadline

def verifyBatch (verifier : PaymentTxn) (signals : List Word) (publicValues : PublicValues)
    (s : State) : Except Reject State := do
  let s ← s.receive app verifier
  assert (env.sender = app.creator) "only the creator may settle a batch"
  assert (!s.escaped) "the rollup has escaped"
  assert (∀ deadline ∈ s.escapeDeadline, env.round ≤ deadline) "the escape deadline has passed"
  assert s.batchLength.isSome "no batch is being posted"
  let batchLength ← demand s.batchLength .missingValue
  let postedLength ← demand s.postedLength .missingValue
  assert (postedLength = batchLength) "the batch is not fully posted"
  checkProof verifier signals publicValues s
  assert (publicValues.oldRoot = s.stateRoot) "the proof does not start from the current root"
  let accumulator ← demand s.chunkAccumulator .missingValue
  assert (publicValues.batchCommitment = accumulator)
    "the proof is not for the batch that was posted"
  assert (publicValues.oldInboxChain = s.settledInboxChain)
    "the proof does not start from the settled inbox chain"
  let sealedInboxChain ← demand s.sealedInboxChain .missingValue
  assert (publicValues.newInboxChain = sealedInboxChain)
    "the batch does not consume exactly the selected inbox prefix"
  let sealedInboxCursor ← demand s.sealedInboxCursor .missingValue
  let settled := { s.dropBatch with
    stateRoot := publicValues.newRoot
    settledInboxChain := sealedInboxChain
    settledInboxCursor := sealedInboxCursor
    pendingWithdrawals :=
      if publicValues.withdrawalChain ≠ withdrawalTerminal app then
        some publicValues.withdrawalChain
      else s.pendingWithdrawals }
  settled.answerSignal s.settledInboxCursor

end Batches

/-- The entry points, with the payment of the group where a method takes one. -/
inductive Call where
  | fund (payment : PaymentTxn)
  | securityCouncilEscape
  | scheduleVerifierUpdate (verifierAddress : L1Address) (programVkeyHash recursionVkeyRoot : Word)
  | executeVerifierUpdate
  | scheduleApplicationUpdate (approvalProgramHash : Word)
  | updateApplication (pages : List Bytes) (clearStateProgram : Bytes)
  | deposit (payment : PaymentTxn) (recipient : Address)
  | requestWithdrawal (payment : PaymentTxn) (expectedNonce : UInt64) (address : Address)
      (recipient : L1Address) (scheme : Bytes) (pubKey : Word) (signature : Bytes)
  | pruneRequest (index : UInt64)
  | pruneDeposit (index : UInt64)
  | reclaimDeposit (index : UInt64)
  | payWithdrawal (recipient : L1Address) (amount : UInt64) (tail : Word)
  | forceExit (address : Address) (nonce amount : UInt64) (authAddress : Address) (scheme : Bytes)
      (pubKey : Word) (signature : Bytes) (recipient : L1Address) (siblings : Bytes)
  | opUp (nonce : UInt64)
  | signalEscape
  | executeEscape
  | abandonBatch
  | openBatch (batchLength targetInboxCursor : UInt64)
  | accumulateChunk (chunk : Bytes)
  | verifyBatch (verifier : PaymentTxn) (signals : List Word) (publicValues : PublicValues)
deriving DecidableEq

/-- Run one call; `fund` is a plain payment and `opUp` does nothing. -/
def exec (s : State) : Call → Except Reject State
  | .fund payment => s.receive app payment
  | .securityCouncilEscape => securityCouncilEscape env s
  | .scheduleVerifierUpdate v p r => scheduleVerifierUpdate env v p r s
  | .executeVerifierUpdate => executeVerifierUpdate env s
  | .scheduleApplicationUpdate h => scheduleApplicationUpdate env h s
  | .updateApplication pages clear => updateApplication env pages clear s
  | .deposit payment recipient => deposit app env payment recipient s
  | .requestWithdrawal payment n a r scheme key sig =>
    requestWithdrawal app env payment n a r scheme key sig s
  | .pruneRequest index => pruneRequest app env index s
  | .pruneDeposit index => pruneDeposit app env index s
  | .reclaimDeposit index => reclaimDeposit app env index s
  | .payWithdrawal recipient amount tail => payWithdrawal app env recipient amount tail s
  | .forceExit a n x auth scheme key sig r siblings =>
    forceExit app env a n x auth scheme key sig r siblings s
  | .opUp _ => .ok s
  | .signalEscape => signalEscape env s
  | .executeEscape => executeEscape env s
  | .abandonBatch => abandonBatch app env s
  | .openBatch batchLength target => openBatch app env batchLength target s
  | .accumulateChunk chunk => accumulateChunk app env chunk s
  | .verifyBatch verifier signals publicValues =>
    verifyBatch app env verifier signals publicValues s

end PaymentRollup.Contract
