import PaymentRollup.Client.Driving
import PaymentRollup.Contract.Evacuation
import PaymentRollup.Rollup.Ownership

/-! # The client gets an account out of a frozen rollup

The client signs the exit, lays the siblings out in a buffer and pads the group with calls that do
nothing, one for each share of the opcode budget it reckons a proof of that depth to need. So there
is a depth at which the group is longer than the network takes.
-/
namespace PaymentRollup.Client
open Contract (App Call Env Evacuable Ledgered Log PublicValues Run State balanceAfter emptyLedger
  exec exited keyString play replayBatches schemeEd25519 settledBatches)

section Builders
variable [Crypto]

def exitBoxMbr : ℕ := 18900

def opcodeBudgetPerCall : ℕ := 700

/-- What `forceExit` spends, near enough to size the filler calls from. -/
def forceExitOpcodeCost (depth : ℕ) : ℕ := 1900 + 35 * (depth + 2) + 400

/-- `Math.ceil(forceExitOpcodeCost(depth) / OPCODE_BUDGET_PER_CALL) - 1`. -/
def fillers (depth : ℕ) : ℕ :=
  (forceExitOpcodeCost depth + (opcodeBudgetPerCall - 1)) / opcodeBudgetPerCall - 1

def deploymentDomain (genesisHash : Bytes) (appId : ℤ) : Except RangeError Bytes := do
  let tag := ascii
    ['P', 'A', 'Y', 'M', 'E', 'N', 'T', '_', 'R', 'O', 'L', 'L', 'U', 'P', '_', 'V', '1']
  let preimage := uint8Array (tag.length + 32 + 8)
  let preimage ← set preimage tag 0
  let preimage ← set preimage genesisHash tag.length
  let preimage ← setBigUint64 preimage (tag.length + 32) appId
  .ok (sha256 preimage).bytes

/-- The genesis hash is what the network suggests. -/
def RollupVerifier.deploymentDomain (client : RollupVerifier) (app : App) :
    Except RangeError Bytes :=
  if client.testDeployment then Client.deploymentDomain (uint8Array 32) 0
  else Client.deploymentDomain app.genesisHash.bytes app.appId.toNat

structure Exit where
  address : Address
  pubKey : Word
  nonce : UInt64
  amount : UInt64
  authAddress : Address
  siblings : List Bytes
deriving DecidableEq

/-- `exit.siblings.forEach((s, i) => siblings.set(s, i * 32))`, from index `i` on. -/
def setSiblings (buffer : Bytes) (i : ℕ) : List Bytes → Except RangeError Bytes
  | [] => .ok buffer
  | s :: rest => do
    let buffer ← set buffer s (i * 32)
    setSiblings buffer (i + 1) rest

def siblingBytes (siblings : List Bytes) : Except RangeError Bytes :=
  setSiblings (uint8Array (siblings.length * 32)) 0 siblings

/-- The group that gets the account out, and what the client says is paid. `sign` is
`nacl.sign.detached` under the holder's secret key. -/
def RollupVerifier.forceExit (client : RollupVerifier) (app : App) (exit : Exit)
    (recipient : L1Address) (sign : Bytes → Bytes) : Except RangeError (List Call × ℤ) := do
  let domain ← client.deploymentDomain app
  let message ← exitMessage domain exit.address.bytes recipient
  let siblings ← siblingBytes exit.siblings
  let opUps := (List.range (fillers exit.siblings.length)).map fun i => .opUp (UInt64.ofNat i)
  .ok (opUps ++ [.forceExit exit.address exit.nonce exit.amount exit.authAddress schemeEd25519
    exit.pubKey (sign message) recipient siblings], exit.amount.toNat - exitBoxMbr)

/-- The network takes the client's group. -/
def RollupVerifier.Exits (client : RollupVerifier) (app : App) (env : Env) (s : State) (log : Log)
    (exit : Exit) (recipient : L1Address) (sign : Bytes → Bytes) (s' : State) (returned : ℤ) :
    Prop :=
  ∃ group log', client.forceExit app exit recipient sign = .ok (group, returned) ∧
    group.length ≤ maxGroupSize ∧ play app s log (group.map (Prod.mk env)) = .ok (s', log')

/-- The exit is recorded, the balance less the price of the record is paid, and the client says so
where it knows the price. -/
structure PaidOut (app : App) (s s' : State) (exit : Exit) (recipient : L1Address)
    (returned : ℤ) : Prop where
  recorded : s'.exits = Function.update s.exits exit.address (some exit.amount)
  paid : s'.balance = balanceAfter app s.balance recipient (exit.amount - app.exitMbr)
  told : app.exitMbr.toNat = exitBoxMbr → returned = (exit.amount - app.exitMbr).toNat

end Builders

section Domains
variable [Crypto]

theorem deploymentDomain_eq (genesisHash : Word) (appId : UInt64) :
    deploymentDomain genesisHash.bytes appId.toNat = .ok (sha256 (ascii
      ['P', 'A', 'Y', 'M', 'E', 'N', 'T', '_', 'R', 'O', 'L', 'L', 'U', 'P', '_', 'V', '1'] ++
        genesisHash.bytes ++ toBeBytes appId)).bytes := by
  have htag : (ascii ['P', 'A', 'Y', 'M', 'E', 'N', 'T', '_', 'R', 'O', 'L', 'L', 'U', 'P', '_',
      'V', '1']).length = 17 := rfl
  rw [deploymentDomain, htag, set_first (by omega), ok_bind, htag,
    set_next htag (by simp [Word.size]), ok_bind, Word.size,
    setBigUint64_next appId (by simp [htag, Word.size]) (by omega), ok_bind]
  exact congrArg (fun preimage => Except.ok (sha256 preimage).bytes) (List.append_nil _)

/-- What a test deployment hashes where another hashes its network and its own number. -/
def testString : Bytes :=
  ascii ['P', 'A', 'Y', 'M', 'E', 'N', 'T', '_', 'R', 'O', 'L', 'L', 'U', 'P', '_', 'V', '1'] ++
    Word.zero.bytes ++ toBeBytes 0

theorem domain_eq {client : RollupVerifier} {app : App}
    (htest : client.testDeployment = app.testDeployment)
    (hconstant : app.testDeployment = true → sha256 testString = Contract.testDomain) :
    client.deploymentDomain app = .ok (Contract.deploymentDomain app).bytes := by
  unfold RollupVerifier.deploymentDomain Contract.deploymentDomain
  rw [htest]
  split_ifs with h
  · have hzero := deploymentDomain_eq Word.zero 0
    rw [← testString, hconstant h] at hzero
    exact hzero
  · exact deploymentDomain_eq app.genesisHash app.appId

/-- The contract's constant is what SHA-256 makes of it. -/
example : @sha256 Crypto.unsigned testString = Contract.testDomain := by decide +kernel

end Domains

section Siblings

theorem setSiblings_length {siblings : List Bytes} {buffer written : Bytes} {i : ℕ}
    (h : setSiblings buffer i siblings = .ok written) : written.length = buffer.length := by
  induction siblings generalizing buffer i with
  | nil =>
    cases h
    rfl
  | cons s rest ih =>
    simp only [setSiblings, bind_eq_ok] at h
    obtain ⟨next, hset, hrest⟩ := h
    rw [ih hrest, set_length hset]

theorem siblingBytes_length {siblings : List Bytes} {written : Bytes}
    (h : siblingBytes siblings = .ok written) : written.length = siblings.length * 32 := by
  rw [setSiblings_length h, uint8Array, List.length_replicate]

end Siblings

section Groups
variable [Crypto] {app : App} {env : Env} {s s' : State} {log : Log} {call : Call}

omit [Crypto] in
theorem fillers_fit {depth : ℕ} : fillers depth + 1 ≤ maxGroupSize ↔ depth ≤ 252 := by
  simp only [fillers, forceExitOpcodeCost, opcodeBudgetPerCall, maxGroupSize]
  omega

theorem play_fillers (indices : List ℕ) :
    (∃ log', play app s log ((indices.map (fun i => Call.opUp (UInt64.ofNat i)) ++ [call]).map
      (Prod.mk env)) = .ok (s', log')) ↔ exec app env s call = .ok s' := by
  induction indices generalizing log with
  | nil =>
    constructor
    · rintro ⟨log', hok⟩
      simp only [List.map_nil, List.nil_append, List.map_cons, play, bind_eq_ok, Except.ok.injEq,
        Prod.mk.injEq] at hok
      obtain ⟨s₁, hexec, rfl, -⟩ := hok
      exact hexec
    · intro hok
      refine ⟨⟨s, env, call, s'⟩ :: log, ?_⟩
      rw [List.map_nil, List.nil_append, List.map_singleton, play, hok, ok_bind, play]
  | cons i rest ih =>
    rw [← ih, List.map_cons, List.cons_append, List.map_cons]
    rfl

end Groups

section Exits
variable [Crypto] {app : App} {usize : ℕ} {Q : Set Bytes} {funds : ℕ} {round : UInt64} {env : Env}
  {s s' : State} {log : Log} {client : RollupVerifier} {exit : Exit} {recipient : L1Address}
  {sign : Bytes → Bytes}

theorem forceExit_eq (htest : client.testDeployment = app.testDeployment)
    (hconstant : app.testDeployment = true → sha256 testString = Contract.testDomain)
    {siblings : Bytes} (hsiblings : siblingBytes exit.siblings = .ok siblings) :
    client.forceExit app exit recipient sign =
      .ok ((List.range (fillers exit.siblings.length)).map (fun i => .opUp (UInt64.ofNat i)) ++
        [.forceExit exit.address exit.nonce exit.amount exit.authAddress schemeEd25519 exit.pubKey
          (sign (Contract.exitMessage app exit.address recipient)) recipient siblings],
        exit.amount.toNat - exitBoxMbr) := by
  have hmessage : exitMessage (Contract.deploymentDomain app).bytes exit.address.bytes recipient =
      .ok (Contract.exitMessage app exit.address recipient) := by
    rw [Contract.exitMessage_eq]
    exact exitMessage_eq _ exit.address recipient
  rw [RollupVerifier.forceExit, domain_eq htest hconstant, ok_bind, hmessage, ok_bind, hsiblings,
    ok_bind]

theorem exits_of_siblings (htest : client.testDeployment = app.testDeployment)
    (hconstant : app.testDeployment = true → sha256 testString = Contract.testDomain)
    {siblings : Bytes} (hsiblings : siblingBytes exit.siblings = .ok siblings) {returned : ℤ} :
    client.Exits app env s log exit recipient sign s' returned ↔
      fillers exit.siblings.length + 1 ≤ maxGroupSize ∧
      exec app env s (.forceExit exit.address exit.nonce exit.amount exit.authAddress schemeEd25519
        exit.pubKey (sign (Contract.exitMessage app exit.address recipient)) recipient siblings) =
          .ok s' ∧
      returned = exit.amount.toNat - exitBoxMbr := by
  have hlength : ∀ call : Call, ((List.range (fillers exit.siblings.length)).map
      (fun i => Call.opUp (UInt64.ofNat i)) ++ [call]).length =
        fillers exit.siblings.length + 1 := by
    intro call
    rw [List.length_append, List.length_map, List.length_range, List.length_singleton]
  rw [RollupVerifier.Exits, forceExit_eq htest hconstant hsiblings]
  constructor
  · rintro ⟨group, log', hbuilt, hfits, hplay⟩
    cases hbuilt
    rw [hlength] at hfits
    exact ⟨hfits, (play_fillers _).mp ⟨log', hplay⟩, rfl⟩
  · rintro ⟨hfits, hexec, rfl⟩
    obtain ⟨log', hplay⟩ := (play_fillers (List.range (fillers exit.siblings.length))).mpr hexec
    refine ⟨_, log', rfl, ?_, hplay⟩
    rw [hlength]
    exact hfits

theorem RollupVerifier.Exits.siblings {returned : ℤ}
    (h : client.Exits app env s log exit recipient sign s' returned) :
    ∃ siblings, siblingBytes exit.siblings = .ok siblings := by
  obtain ⟨group, log', hbuilt, -⟩ := h
  simp only [RollupVerifier.forceExit, bind_eq_ok] at hbuilt
  obtain ⟨-, -, -, -, siblings, hsiblings, -⟩ := hbuilt
  exact ⟨siblings, hsiblings⟩

/-- With the frozen ledger's own siblings, the group is as long as the account is hard to tell from
others. -/
theorem fits_iff {S : AccountMap} {account : Account} (haccount : S exit.address = some account)
    (hsiblings : siblingBytes exit.siblings =
      .ok (((treeOf S).proof exit.address).siblings.flatMap Word.bytes)) :
    fillers exit.siblings.length + 1 ≤ maxGroupSize ↔ ∀ other, other ≠ exit.address →
      S other ≠ none → commonPrefixLen exit.address other < 252 := by
  have hlength := siblingBytes_length hsiblings
  rw [Reader.flatMap_bytes_length] at hlength
  have hsame : exit.siblings.length = ((treeOf S).proof exit.address).siblings.length := by omega
  rw [fillers_fit, hsame]
  exact (holds_treeOf S).proof_length_iff haccount 252

theorem exits_iff (hrun : Run app funds round s log) (hQ : Ideal Q)
    (hevacuable : Evacuable app usize Q s) {S : AccountMap} {batches : List Batch}
    {lists : List (List Payout)} {owed : List Payout}
    (hledgered : Ledgered app usize Q s log S batches lists owed)
    (htest : client.testDeployment = app.testDeployment)
    (hconstant : app.testDeployment = true → sha256 testString = Contract.testDomain)
    (hstrings : ∀ siblings, siblingBytes exit.siblings = .ok siblings →
      rootStrings exit.address (some ⟨exit.nonce, exit.amount, exit.authAddress⟩)
        (Contract.exitProof siblings) ⊆ Q) :
    (∃ s' returned, client.Exits app env s log exit recipient sign s' returned) ↔
      S exit.address = some ⟨exit.nonce, exit.amount, exit.authAddress⟩ ∧
      siblingBytes exit.siblings =
        .ok (((treeOf S).proof exit.address).siblings.flatMap Word.bytes) ∧
      exit.address ∉ exited log ∧ sha256 (keyString schemeEd25519 exit.pubKey) = exit.authAddress ∧
      Crypto.ed25519VerifyBare (Contract.exitMessage app exit.address recipient)
        (sign (Contract.exitMessage app exit.address recipient)) exit.pubKey.bytes = true ∧
      app.exitMbr < exit.amount ∧ env.accepts recipient (exit.amount - app.exitMbr) = true ∧
      ∀ other, other ≠ exit.address → S other ≠ none →
        commonPrefixLen exit.address other < 252 := by
  constructor
  · rintro ⟨s', returned, hexits⟩
    obtain ⟨siblings, hsiblings⟩ := hexits.siblings
    obtain ⟨hfits, hexec, -⟩ := (exits_of_siblings htest hconstant hsiblings).mp hexits
    obtain ⟨⟨haccount, rfl, hfresh, -, hkey, hsig, hcovers, haccepts⟩, -⟩ :=
      (hevacuable.exits hQ hledgered (hstrings _ hsiblings)).mp hexec
    exact ⟨haccount, hsiblings, (hrun.exits_iff _).mp hfresh, hkey, hsig, hcovers, haccepts,
      (fits_iff haccount hsiblings).mp hfits⟩
  · rintro ⟨haccount, hsiblings, hfresh, hkey, hsig, hcovers, haccepts, hparted⟩
    have hexec := (hevacuable.exits hQ hledgered (hstrings _ hsiblings)).mpr
      ⟨⟨haccount, rfl, (hrun.exits_iff _).mpr hfresh, rfl, hkey, hsig, hcovers, haccepts⟩, rfl⟩
    exact ⟨_, _, (exits_of_siblings htest hconstant hsiblings).mpr
      ⟨(fits_iff haccount hsiblings).mpr hparted, hexec, rfl⟩⟩

theorem exits_paid (hQ : Ideal Q) (hevacuable : Evacuable app usize Q s) {S : AccountMap}
    {batches : List Batch} {lists : List (List Payout)} {owed : List Payout}
    (hledgered : Ledgered app usize Q s log S batches lists owed)
    (htest : client.testDeployment = app.testDeployment)
    (hconstant : app.testDeployment = true → sha256 testString = Contract.testDomain)
    (hstrings : ∀ siblings, siblingBytes exit.siblings = .ok siblings →
      rootStrings exit.address (some ⟨exit.nonce, exit.amount, exit.authAddress⟩)
        (Contract.exitProof siblings) ⊆ Q) {returned : ℤ}
    (h : client.Exits app env s log exit recipient sign s' returned) :
    PaidOut app s s' exit recipient returned := by
  obtain ⟨siblings, hsiblings⟩ := h.siblings
  obtain ⟨-, hexec, rfl⟩ := (exits_of_siblings htest hconstant hsiblings).mp h
  obtain ⟨⟨-, -, -, -, -, -, hcovers, -⟩, rfl⟩ :=
    (hevacuable.exits hQ hledgered (hstrings _ hsiblings)).mp hexec
  refine ⟨rfl, rfl, fun hmbr => ?_⟩
  have hle := UInt64.le_of_lt hcovers
  have hle' := UInt64.le_iff_toNat_le.mp hle
  rw [UInt64.toNat_sub_of_le _ _ hle, ← hmbr]
  omega

end Exits

section Barring

def twin (address : Address) : Address :=
  ⟨address.bytes.set 31 (address.bytes.getD 31 0 ^^^ 1), by rw [List.length_set, address.size]⟩

theorem twin_getD (address : Address) (j : ℕ) : (twin address).bytes.getD j 0 =
    if j = 31 then address.bytes.getD 31 0 ^^^ 1 else address.bytes.getD j 0 := by
  have hlast : 31 < address.bytes.length := by
    rw [address.size]
    decide
  simp only [twin, List.getD_eq_getElem?_getD, List.getElem?_set, hlast, if_true]
  split_ifs with h h'
  · rfl
  · exact absurd h.symm h'
  · exact absurd (by assumption) (Ne.symm h)
  · rfl

theorem xor_one_parts (x : UInt8) : x ≠ x ^^^ 1 ∧ leadingZeros (x ^^^ (x ^^^ 1)) = 7 := by
  revert x
  decide +kernel

theorem twin_ne (address : Address) : twin address ≠ address := by
  intro heq
  have hlast := twin_getD address 31
  rw [heq, if_pos rfl] at hlast
  exact (xor_one_parts _).1 hlast

theorem commonPrefixLen_twin (address : Address) :
    commonPrefixLen address (twin address) = 255 := by
  obtain ⟨j, -, -, hne, hlength⟩ := commonPrefixLen_of_ne (twin_ne address).symm
  have hlast : j = 31 := by
    by_contra hother
    rw [twin_getD, if_neg hother] at hne
    exact hne rfl
  subst hlast
  rw [hlength, twin_getD, if_pos rfl, (xor_one_parts _).2]

end Barring

section Deposits
variable {S S' : AccountMap} {recipient : Address} {amount : UInt64}

theorem replay_deposited {txns : List Transaction} {payouts : List Payout}
    (h : replay S txns = some (S', payouts))
    (hdeposit : .deposit recipient amount ∈ inboxItems txns) :
    S' recipient ≠ none := by
  induction txns generalizing S payouts with
  | nil => cases hdeposit
  | cons txn rest ih =>
    obtain ⟨S₁, paid, later, hstep, hrest, -⟩ := replay_cons_eq_some.mp h
    obtain ⟨first, hfirst, hitem⟩ := List.mem_filterMap.mp hdeposit
    rcases List.mem_cons.mp hfirst with rfl | hlater
    · cases first with
      | deposit d =>
        cases hitem
        cases Replay.step_cases hstep with
        | deposit hcredit =>
          obtain ⟨account, -, rfl⟩ := Replay.credit_eq_some.mp hcredit
          obtain ⟨account', haccount', -⟩ :=
            (replay_rewrites hrest).owner (Function.update_self d.receiver (some account) S)
          rw [haccount']
          exact Option.some_ne_none account'
      | _ => cases hitem
    · exact ih hrest (List.mem_filterMap.mpr ⟨first, hlater, hitem⟩)

variable [Crypto] {app : App} {usize : ℕ} {Q : Set Bytes} {s : State} {log : Log}

theorem deposited {batches : List Batch} {lists : List (List Payout)} {owed : List Payout}
    (h : Ledgered app usize Q s log S batches lists owed)
    (hdeposit : .deposit recipient amount ∈
      (Contract.arrivals app log).take s.settledInboxCursor.toNat) : S recipient ≠ none := by
  rw [← h.consumed] at hdeposit
  obtain ⟨batch, hbatch, hitem⟩ := List.mem_flatMap.mp hdeposit
  obtain ⟨txn, htxn, hsome⟩ := List.mem_filterMap.mp hitem
  exact replay_deposited (Contract.replayBatches_flat h.replayed)
    (List.mem_filterMap.mpr ⟨txn, List.mem_flatMap.mpr ⟨batch, hbatch, htxn⟩, hsome⟩)

end Deposits

section Results
variable [Crypto] {app : App} {usize : ℕ} {guest : PublicValues → Execution} {Q : Set Bytes}
  {funds : ℕ} {round : UInt64} {s : State} {log : Log} {client : RollupVerifier}

/-- The client's group gets an account out of a frozen rollup when the account is proved and signed
for, and no other account of the frozen ledger shares the first 252 bits of its address. What goes
through pays what the client says it does. -/
theorem client_exit_iff (hrun : Run app funds round s log) (hfunds : app.baseMinBalance ≤ funds)
    (hQ : Ideal Q) (hlog : ∀ e ∈ log, e.Sound app usize guest Q) (hescaped : s.escaped = true)
    (htest : client.testDeployment = app.testDeployment)
    (hconstant : app.testDeployment = true → sha256 testString = Contract.testDomain) :
    ∃ batches S lists, (settledBatches log).mapM (Batch.decode usize) = .ok batches ∧
      replayBatches emptyLedger batches = some (S, lists) ∧
      ∀ (env : Env) (exit : Exit) (recipient : L1Address) (sign : Bytes → Bytes),
        (∀ siblings, siblingBytes exit.siblings = .ok siblings →
          rootStrings exit.address (some ⟨exit.nonce, exit.amount, exit.authAddress⟩)
            (Contract.exitProof siblings) ⊆ Q) →
        ((∃ s' returned, client.Exits app env s log exit recipient sign s' returned) ↔
          S exit.address = some ⟨exit.nonce, exit.amount, exit.authAddress⟩ ∧
          siblingBytes exit.siblings =
            .ok (((treeOf S).proof exit.address).siblings.flatMap Word.bytes) ∧
          exit.address ∉ exited log ∧
          sha256 (keyString schemeEd25519 exit.pubKey) = exit.authAddress ∧
          Crypto.ed25519VerifyBare (Contract.exitMessage app exit.address recipient)
            (sign (Contract.exitMessage app exit.address recipient)) exit.pubKey.bytes = true ∧
          app.exitMbr < exit.amount ∧
          env.accepts recipient (exit.amount - app.exitMbr) = true ∧
          ∀ other, other ≠ exit.address → S other ≠ none →
            commonPrefixLen exit.address other < 252) ∧
        ∀ s' returned, client.Exits app env s log exit recipient sign s' returned →
          PaidOut app s s' exit recipient returned := by
  have hevacuable := hrun.evacuable hfunds hQ hlog hescaped
  obtain ⟨S, batches, lists, owed, hledgered⟩ := hrun.ledgered hQ hlog
  refine ⟨batches, S, lists, hledgered.decoded, hledgered.replayed, ?_⟩
  intro env exit recipient sign hstrings
  exact ⟨exits_iff hrun hQ hevacuable hledgered htest hconstant hstrings,
    fun s' returned => exits_paid hQ hevacuable hledgered htest hconstant hstrings⟩

/-- One settled deposit to an address that parts from an account's only in its last four bits, from
anybody and of any amount, keeps the client from ever getting the account out; and every address has
such a neighbour. -/
theorem deposit_bars_client_exit (hrun : Run app funds round s log)
    (hfunds : app.baseMinBalance ≤ funds) (hQ : Ideal Q)
    (hlog : ∀ e ∈ log, e.Sound app usize guest Q) (hescaped : s.escaped = true)
    (htest : client.testDeployment = app.testDeployment)
    (hconstant : app.testDeployment = true → sha256 testString = Contract.testDomain)
    (address : Address) :
    (twin address ≠ address ∧ 252 ≤ commonPrefixLen address (twin address)) ∧
      ∀ (other : Address) (amount : UInt64), other ≠ address →
        252 ≤ commonPrefixLen address other →
        .deposit other amount ∈ (Contract.arrivals app log).take s.settledInboxCursor.toNat →
        ∀ (env : Env) (exit : Exit) (recipient : L1Address) (sign : Bytes → Bytes) (s' : State)
          (returned : ℤ), exit.address = address →
          (∀ siblings, siblingBytes exit.siblings = .ok siblings →
            rootStrings exit.address (some ⟨exit.nonce, exit.amount, exit.authAddress⟩)
              (Contract.exitProof siblings) ⊆ Q) →
          ¬client.Exits app env s log exit recipient sign s' returned := by
  have hevacuable := hrun.evacuable hfunds hQ hlog hescaped
  obtain ⟨S, batches, lists, owed, hledgered⟩ := hrun.ledgered hQ hlog
  refine ⟨⟨twin_ne address, ?_⟩, ?_⟩
  · rw [commonPrefixLen_twin]
    decide
  · rintro other amount hother hshared hdeposit env exit recipient sign s' returned rfl hstrings
      hexits
    obtain ⟨-, -, -, -, -, -, -, hparted⟩ :=
      (exits_iff hrun hQ hevacuable hledgered htest hconstant hstrings).mp ⟨s', returned, hexits⟩
    exact absurd (hparted other hother (deposited hledgered hdeposit)) (Nat.not_lt.mpr hshared)

end Results

section Sample
attribute [local instance] Contract.Crypto.leaver
open Contract (departed departed_escaped departed_run departed_sound departing_ideal
  departingStrings leaver leaverKey leaverLeft leaverLeft_ok leaverSiblings leaverSignature
  leaverStep leaverStep_sound samplePriced)

def leaverExit : Exit where
  address := leaver
  pubKey := leaverKey
  nonce := 0
  amount := 300000
  authAddress := leaver
  siblings := leaverSiblings.map Word.bytes

theorem leaverExit_siblings :
    siblingBytes leaverExit.siblings = .ok (leaverSiblings.flatMap Word.bytes) := by
  decide +kernel

theorem leaverExit_strings (siblings : Bytes)
    (h : siblingBytes leaverExit.siblings = .ok siblings) :
    rootStrings leaver (some ⟨0, 300000, leaver⟩) (Contract.exitProof siblings) ⊆
      {string | string ∈ departingStrings} := by
  rw [leaverExit_siblings] at h
  cases h
  obtain ⟨-, hstrings, -⟩ := leaverStep_sound
  exact hstrings

theorem sample_client_exits : ∃ s', sampleClient.Exits samplePriced leaverStep.env departed.1
      departed.2 leaverExit (sampleAccount 8) (fun _ => leaverSignature) s' 281100 ∧
    PaidOut samplePriced departed.1 s' leaverExit (sampleAccount 8) 281100 ∧
    ∃ batches S lists, (settledBatches departed.2).mapM (Batch.decode (2 ^ 32)) = .ok batches ∧
      replayBatches emptyLedger batches = some (S, lists) ∧
      S leaver = some ⟨0, 300000, leaver⟩ ∧
      ∀ other, other ≠ leaver → S other ≠ none → commonPrefixLen leaver other < 252 := by
  have htest : sampleClient.testDeployment = samplePriced.testDeployment := rfl
  have hconstant : samplePriced.testDeployment = true → sha256 testString = Contract.testDomain :=
    fun h => absurd h (by decide)
  obtain ⟨batches, S, lists, hdecoded, hreplayed, hall⟩ := client_exit_iff departed_run le_rfl
    departing_ideal departed_sound departed_escaped htest hconstant
  obtain ⟨hiff, hpaid⟩ := hall leaverStep.env leaverExit (sampleAccount 8)
    (fun _ => leaverSignature) leaverExit_strings
  have hexits : sampleClient.Exits samplePriced leaverStep.env departed.1 departed.2 leaverExit
      (sampleAccount 8) (fun _ => leaverSignature) leaverLeft 281100 :=
    (exits_of_siblings htest hconstant leaverExit_siblings).mpr ⟨by decide, leaverLeft_ok, rfl⟩
  obtain ⟨haccount, -, -, -, -, -, -, hparted⟩ := hiff.mp ⟨_, _, hexits⟩
  exact ⟨leaverLeft, hexits, hpaid _ _ hexits, batches, S, lists, hdecoded, hreplayed, haccount,
    hparted⟩

/-- An account next to the leaver's. -/
def barredExit : Exit :=
  { leaverExit with address := twin leaver, authAddress := twin leaver, siblings := [] }

def barredStrings : List Bytes :=
  leafString (twin leaver) ⟨0, 300000, twin leaver⟩ :: departingStrings

theorem sample_exit_barred : .deposit leaver 300000 ∈ (Contract.arrivals samplePriced
      departed.2).take departed.1.settledInboxCursor.toNat ∧
    252 ≤ commonPrefixLen (twin leaver) leaver ∧
    ∀ (env : Env) (recipient : L1Address) (sign : Bytes → Bytes) (s' : State) (returned : ℤ),
      ¬sampleClient.Exits samplePriced env departed.1 departed.2 barredExit recipient sign s'
        returned := by
  have hevaluated : (Word.zero :: barredStrings.map sha256).Nodup ∧
      .deposit leaver 300000 ∈ (Contract.arrivals samplePriced departed.2).take
        departed.1.settledInboxCursor.toNat ∧
      rootStrings (twin leaver) (some ⟨0, 300000, twin leaver⟩) (Contract.exitProof []) ⊆
        {string | string ∈ barredStrings} ∧
      252 ≤ commonPrefixLen (twin leaver) leaver := by
    decide +kernel
  obtain ⟨hnodup, hdeposit, hpath, hshared⟩ := hevaluated
  have hsound : ∀ e ∈ departed.2, e.Sound samplePriced (2 ^ 32) Contract.departingGuest
      {string | string ∈ barredStrings} :=
    fun e he => (departed_sound e he).mono fun string hstring => List.mem_cons_of_mem _ hstring
  have htest : sampleClient.testDeployment = samplePriced.testDeployment := rfl
  have hconstant : samplePriced.testDeployment = true → sha256 testString = Contract.testDomain :=
    fun h => absurd h (by decide)
  have hstrings : ∀ siblings, siblingBytes barredExit.siblings = .ok siblings →
      rootStrings (twin leaver) (some ⟨0, 300000, twin leaver⟩) (Contract.exitProof siblings) ⊆
        {string | string ∈ barredStrings} := by
    rintro siblings ⟨⟩
    exact hpath
  have hother : leaver ≠ twin leaver := (twin_ne leaver).symm
  obtain ⟨-, hbars⟩ := deposit_bars_client_exit departed_run le_rfl (.of_list hnodup) hsound
    departed_escaped htest hconstant (twin leaver)
  refine ⟨hdeposit, hshared, ?_⟩
  intro env recipient sign s' returned
  exact hbars leaver 300000 hother hshared hdeposit env barredExit recipient sign s' returned rfl
    hstrings

end Sample

end PaymentRollup.Client
