import PaymentRollup.Client.Leaving
import PaymentRollup.Client.Naming
import PaymentRollup.Contract.Progress

/-! # The client files a deposit or a request

The client pays for a box before the box exists and names it by a cursor it has read, so it has to
predict a price and a place. The price it gets right from the record's layout; the place it gets
right unless somebody else files first, and then nothing but asking again will do.
-/
namespace PaymentRollup.Client
open Contract (App Box Call Effect Env InboxRecord Log PaymentTxn Run State Later assert_eq_ok
  deposit_ok exec exec_effect exists_add itob keyString play sampleEnv schemeEd25519)

section Prices

def inboxBoxMbr : ℕ := 64100

def kindByte : Contract.EntryKind → Bytes
  | .deposit => ascii ['d']
  | .request => ascii ['w']

def recordBytes (record : InboxRecord) : Bytes :=
  kindByte record.kind ++ record.address.bytes ++ record.recipient.bytes ++ itob record.amount ++
    record.payer.bytes ++ itob record.round ++ record.chainAfter.bytes

/-- `2500 + 400 * (key + value)`: what the network charges for a box. -/
def price (name value : Bytes) : ℕ := 2500 + 400 * (name.length + value.length)

/-- The contract measures the network's prices. -/
structure Priced (app : App) : Prop where
  inbox : ∀ index record, app.inboxMbr.toNat = price (Box.inbox index).name (recordBytes record)
  exit : ∀ address amount, app.exitMbr.toNat = price (Box.exit address).name (itob amount)

theorem inbox_price (index : UInt64) (record : InboxRecord) :
    price (Box.inbox index).name (recordBytes record) = inboxBoxMbr := by
  have hkind : (kindByte record.kind).length = 1 := by
    cases record.kind <;> rfl
  simp only [price, Box.name, recordBytes, itob, List.length_append, hkind, Word.size,
    toBeBytes_length]
  rfl

theorem exit_price (address : Address) (amount : UInt64) :
    price (Box.exit address).name (itob amount) = exitBoxMbr := by
  simp only [price, Box.name, itob, List.length_append, Word.size, toBeBytes_length]
  rfl

theorem priced_iff {app : App} :
    Priced app ↔ app.inboxMbr.toNat = inboxBoxMbr ∧ app.exitMbr.toNat = exitBoxMbr := by
  constructor
  · intro h
    exact ⟨(h.inbox 0 ⟨.deposit, Word.zero, Word.zero, 0, Word.zero, 0, Word.zero⟩).trans
      (inbox_price _ _), (h.exit Word.zero 0).trans (exit_price _ _)⟩
  · rintro ⟨hinbox, hexit⟩
    exact ⟨fun index record => hinbox.trans (inbox_price index record).symm,
      fun address amount => hexit.trans (exit_price address amount).symm⟩

end Prices

section Builders
variable [Crypto]

/-- The group that deposits `amount` microALGO, and the boxes named with it, in the state `s` that
the client reads the cursor of. -/
def deposit (app : App) (s : State) (sender : L1Address) (recipient : Address) (amount : ℕ) :
    Except RangeError (List Call × List Bytes) := do
  let index := s.inboxCursor
  let name ← inboxBoxName index.toNat
  .ok ([.deposit ⟨sender, app.address, UInt64.ofNat (amount + inboxBoxMbr)⟩ recipient], [name])

/-- The group that demands to be let out, and the boxes named with it. `sign` is
`nacl.sign.detached` under the holder's secret key. -/
def RollupVerifier.requestWithdrawal (client : RollupVerifier) (app : App) (s : State)
    (sender : L1Address) (address : Address) (pubKey : Word) (recipient : L1Address)
    (sign : Bytes → Bytes) : Except RangeError (List Call × List Bytes) := do
  let nonce := s.requestCursor
  let index := s.inboxCursor
  let domain ← client.deploymentDomain app
  let message ← withdrawalRequestMessage domain nonce.toNat address.bytes recipient
  let opUps := (List.range 3).map fun i => .opUp (UInt64.ofNat i)
  let name ← inboxBoxName index.toNat
  .ok (opUps ++ [.requestWithdrawal ⟨sender, app.address, UInt64.ofNat inboxBoxMbr⟩ nonce address
    recipient schemeEd25519 pubKey (sign message)], [name])

/-- The network takes the group, whose calls may touch the boxes in `names` only. -/
def Taken (app : App) (env : Env) (names : List Bytes) (s : State) (group : List Call)
    (s' : State) : Prop :=
  (∀ call ∈ group, ∀ box ∈ call.box? s, box.name ∈ names) ∧
    ∃ log', play app s [] (group.map (Prod.mk env)) = .ok (s', log')

/-- One entry more was filed, and beyond its box what the entry brought with it came in. -/
structure Filed (s s' : State) (record : InboxRecord) : Prop where
  inbox : s'.inbox = Function.update s.inbox s.inboxCursor (some record)
  cursor : s'.inboxCursor.toNat = s.inboxCursor.toNat + 1
  funds : s'.balance + s.minBalance = s.balance + s'.minBalance + record.amount.toNat

end Builders

section Funds
variable [Crypto] {app : App} {env : Env} {s s' : State} {call : Call} {funds : ℕ}
  {round : UInt64} {log : Log}

omit [Crypto] in
theorem pay_funded {receiver : L1Address} {amount : UInt64}
    (h : s.pay app env receiver amount = .ok s') : s'.minBalance ≤ s'.balance := by
  obtain ⟨-, -, hmin, rfl⟩ := State.pay_eq_ok.mp h
  exact hmin

theorem exec_funded (h : s.minBalance ≤ s.balance) (hok : exec app env s call = .ok s') :
    s'.minBalance ≤ s'.balance := by
  cases exec_effect hok with
  | inert _ hbalance => exact h.trans hbalance
  | deposit _ _ hamount =>
    simp only
    omega
  | request _ hamount =>
    simp only [hamount]
    omega
  | prune _ hcall =>
    rcases hcall with ⟨rfl, -⟩ | ⟨rfl, -⟩
    · simp only [exec, Contract.pruneRequest, bind_eq_ok] at hok
      obtain ⟨record, -, -, -, -, -, hpaid⟩ := hok
      exact pay_funded hpaid
    · simp only [exec, Contract.pruneDeposit, bind_eq_ok] at hok
      obtain ⟨record, -, -, -, -, -, hpaid⟩ := hok
      exact pay_funded hpaid
  | reclaim =>
    simp only [exec, Contract.reclaimDeposit, bind_eq_ok] at hok
    obtain ⟨-, -, -, -, -, -, record, -, -, -, amount, -, hpaid⟩ := hok
    exact pay_funded hpaid
  | pay =>
    simp only [exec, Contract.payWithdrawal, bind_eq_ok] at hok
    obtain ⟨-, -, head, -, -, -, credited, -, hpaid⟩ := hok
    exact pay_funded hpaid
  | exit =>
    simp only [exec, Contract.forceExit, bind_eq_ok] at hok
    obtain ⟨-, -, -, -, -, -, -, -, -, -, -, -, -, -, -, -, -, -, paid, -, hpaid⟩ := hok
    exact pay_funded hpaid
  | signal => exact h
  | escape dropped hdropped =>
    subst hdropped
    split_ifs <;> exact h
  | abandon => exact h
  | openBatch => exact h
  | chunk => exact h
  | settle _ _ _ _ _ _ _ _ _ _ _ _ hbalance => exact h.trans hbalance

theorem run_funded (hrun : Run app funds round s log) (hfunds : app.baseMinBalance ≤ funds) :
    s.minBalance ≤ s.balance := by
  induction hrun with
  | create => exact hfunds
  | call _ env call _ hok ih => exact exec_funded ih hok

end Funds

section Cursors
variable [Crypto] {app : App} {env : Env} {s s' : State} {call : Call} {funds : ℕ}
  {round round' : UInt64} {log log' : Log} {may : State → Env → Call → Prop}

theorem filed_cases (h : Effect app env s call s') :
    (s'.inboxCursor = s.inboxCursor ∧ s'.requestCursor = s.requestCursor) ∨
      (s'.inboxCursor.toNat = s.inboxCursor.toNat + 1 ∧
        s'.requestCursor.toNat ≤ s.requestCursor.toNat + 1) := by
  cases h with
  | deposit _ _ _ hnext => exact .inr ⟨hnext, Nat.le_succ _⟩
  | request _ _ hnonce _ _ hnext hnextNonce =>
    subst hnonce
    exact .inr ⟨hnext, hnextNonce.le⟩
  | escape dropped hdropped =>
    subst hdropped
    split_ifs <;> exact .inl ⟨rfl, rfl⟩
  | _ => exact .inl ⟨rfl, rfl⟩

theorem run_requests_le (hrun : Run app funds round s log) :
    s.requestCursor.toNat ≤ s.inboxCursor.toNat := by
  induction hrun with
  | create => exact Nat.le_refl _
  | call _ env call _ hok ih =>
    rcases filed_cases (exec_effect hok) with ⟨hinbox, hrequests⟩ | ⟨hinbox, hrequests⟩
    · rw [hinbox, hrequests]
      exact ih
    · omega

theorem later_same (hlater : Later app may round s log round' s' log') :
    s.inboxCursor.toNat ≤ s'.inboxCursor.toNat ∧
      (s'.inboxCursor = s.inboxCursor → s'.requestCursor = s.requestCursor) := by
  induction hlater with
  | start => exact ⟨Nat.le_refl _, fun _ => rfl⟩
  | call _ env call _ _ hok ih =>
    obtain ⟨hle, hsame⟩ := ih
    rcases filed_cases (exec_effect hok) with ⟨hinbox, hrequests⟩ | ⟨hinbox, -⟩
    · rw [hinbox, hrequests]
      exact ⟨hle, hsame⟩
    · refine ⟨by omega, fun heq => ?_⟩
      rw [heq] at hinbox
      omega

end Cursors

section Groups
variable [Crypto] {app : App} {env : Env} {s s' : State} {call : Call} {funds : ℕ}
  {round : UInt64} {log : Log} {names : List Bytes}

theorem taken_iff (indices : List ℕ) :
    Taken app env names s (indices.map (fun i => Call.opUp (UInt64.ofNat i)) ++ [call]) s' ↔
      (∀ box ∈ call.box? s, box.name ∈ names) ∧ exec app env s call = .ok s' := by
  refine and_congr ?_ (play_fillers indices)
  constructor
  · intro h
    exact h call (List.mem_append_right _ (List.mem_singleton_self call))
  · intro h other hother
    rcases List.mem_append.mp hother with hfiller | hlast
    · obtain ⟨i, -, rfl⟩ := List.mem_map.mp hfiller
      rintro box ⟨⟩
    · cases List.mem_singleton.mp hlast
      exact h

omit [Crypto] in
theorem named_iff {i j : UInt64} :
    (∀ box ∈ some (Box.inbox i), box.name ∈ [(Box.inbox j).name]) ↔ i = j := by
  rw [same_box_iff]
  refine forall₂_congr fun box _ => ?_
  rw [List.mem_singleton, name_injective.eq_iff, Option.some.injEq]
  exact eq_comm

theorem run_boxCost (hrun : Run app funds round s log) :
    s.boxCost app s.inboxCursor = app.inboxMbr := by
  have hnone : s.inbox s.inboxCursor = none := by
    cases hbox : s.inbox s.inboxCursor with
    | none => rfl
    | some record =>
      have hitem := (hrun.kept.inbox.box s.inboxCursor record hbox).item
      have hlt := (List.getElem?_eq_some_iff.mp hitem).1
      rw [hrun.kept.inbox.length] at hlt
      exact absurd hlt (Nat.lt_irrefl _)
  rw [State.boxCost, hnone]
  rfl

end Groups

section Results
variable [Crypto] {app : App} {funds : ℕ} {round round' : UInt64} {s s' : State} {log log' : Log}
  {may : State → Env → Call → Prop}

/-- A deposit the client built in one state goes through in a later one if the rollup is live and
nobody filed anything in between; it credits what was asked for and pays for its box exactly. -/
theorem client_deposit_iff (hrun : Run app funds round s log)
    (hlater : Later app may round s log round' s' log') (hfunds : app.baseMinBalance ≤ funds)
    (hpriced : Priced app) {sender : L1Address} (hsender : sender ≠ app.address) {amount : ℕ}
    (hsize : amount + inboxBoxMbr < 2 ^ 64) (recipient : Address) (env : Env) :
    ∃ group names, deposit app s sender recipient amount = .ok (group, names) ∧
      ((∃ s'', Taken app env names s' group s'') ↔
        s'.escaped = false ∧ s'.inboxCursor = s.inboxCursor ∧ 0 < amount ∧
          s.inboxCursor.toNat + 1 < 2 ^ 64) ∧
      ∀ s'', Taken app env names s' group s'' →
        Filed s' s'' ⟨.deposit, recipient, Word.zero, UInt64.ofNat amount, sender, env.round,
          s''.inboxChain⟩ := by
  have hrun' := hlater.run hrun
  have hcost := run_boxCost hrun'
  have hmbr : app.inboxMbr.toNat = inboxBoxMbr := (priced_iff.mp hpriced).1
  have hpays : (UInt64.ofNat (amount + inboxBoxMbr)).toNat = amount + inboxBoxMbr :=
    UInt64.toNat_ofNat_of_lt hsize
  have hbuilt : deposit app s sender recipient amount = .ok ([.deposit ⟨sender, app.address,
      UInt64.ofNat (amount + inboxBoxMbr)⟩ recipient], [(Box.inbox s.inboxCursor).name]) := by
    rw [deposit, inboxBoxName_eq]
    rfl
  refine ⟨_, _, hbuilt, ?_, ?_⟩
  · constructor
    · rintro ⟨s'', htaken⟩
      obtain ⟨hnamed, hok⟩ := (taken_iff []).mp htaken
      have hsame : s'.inboxCursor = s.inboxCursor := named_iff.mp hnamed
      cases exec_effect hok with
      | inert hcall => exact hcall.elim
      | prune _ hcall => simp at hcall
      | escape _ _ _ hcall => simp at hcall
      | deposit hlive hpos hamount hnext =>
        rw [hpays, hcost, hmbr] at hamount
        refine ⟨hlive, hsame, by omega, ?_⟩
        rw [← hsame, ← hnext]
        exact toNat_lt _
    · rintro ⟨hlive, hsame, hpos, hnext⟩
      have hcovers : s'.boxCost app s'.inboxCursor < UInt64.ofNat (amount + inboxBoxMbr) := by
        rw [hcost, UInt64.lt_iff_toNat_lt, hpays, hmbr]
        omega
      have hnext' : s'.inboxCursor.toNat + 1 < 2 ^ 64 := by
        rw [hsame]
        exact hnext
      obtain ⟨s'', hok⟩ : ∃ s'', Contract.deposit app env ⟨sender, app.address,
          UInt64.ofNat (amount + inboxBoxMbr)⟩ recipient s' = .ok s'' :=
        deposit_ok hsender rfl hlive hcovers hnext' (run_funded hrun' hfunds)
      exact ⟨s'', (taken_iff []).mpr ⟨named_iff.mpr hsame, hok⟩⟩
  · intro s'' htaken
    obtain ⟨-, hok⟩ := (taken_iff []).mp htaken
    cases exec_effect hok with
    | inert hcall => exact hcall.elim
    | prune _ hcall => simp at hcall
    | escape _ _ _ hcall => simp at hcall
    | @deposit _ _ credited _ hlive hpos hamount hnext =>
      rw [hpays, hcost, hmbr] at hamount
      have hcredited : credited = UInt64.ofNat amount := by
        have hsum : amount = credited.toNat := by omega
        rw [hsum, UInt64.ofNat_toNat]
      subst hcredited
      refine ⟨rfl, hnext, ?_⟩
      simp only [hpays, hcost, hmbr]
      omega

theorem requestWithdrawal_ok {env : Env} {payment : PaymentTxn} {address : Address}
    {recipient : L1Address} {pubKey : Word} {signature : Bytes}
    (hsender : payment.sender ≠ app.address) (hself : payment.receiver = app.address)
    (hlive : s.escaped = false) (hpays : payment.amount = s.boxCost app s.inboxCursor)
    (hkey : sha256 (keyString schemeEd25519 pubKey) = address)
    (hsig : Crypto.ed25519VerifyBare (Contract.requestMessage app s.requestCursor address recipient)
      signature pubKey.bytes = true)
    (hnext : s.inboxCursor.toNat + 1 < 2 ^ 64) (hnextNonce : s.requestCursor.toNat + 1 < 2 ^ 64)
    (hfunds : s.minBalance ≤ s.balance) :
    ∃ s', Contract.requestWithdrawal app env payment s.requestCursor address recipient schemeEd25519
      pubKey signature s = .ok s' := by
  obtain ⟨next, hcursor⟩ := exists_add (a := s.inboxCursor) (b := 1) hnext
  obtain ⟨nextNonce, hnonce⟩ := exists_add (a := s.requestCursor) (b := 1) hnextNonce
  simp only [Contract.requestWithdrawal, State.createInboxBox, bind_eq_ok, assert_eq_ok,
    State.checkMinBalance_eq_ok, State.receive_eq_ok]
  exact ⟨_, _, ⟨hsender, .inl ⟨hself, by omega, rfl⟩⟩, (), by simp [hlive], (), ⟨hself, hpays⟩, (),
    assert_eq_ok.mpr rfl, (), trivial, (), hkey, (), assert_eq_ok.mpr hsig, next, hcursor,
    nextNonce, hnonce, by simp only [hpays, State.boxCost]; omega, rfl⟩

/-- A request the client built in one state goes through in a later one if the rollup is live, the
key is the account's and signed, and nobody filed anything in between. -/
theorem client_request_iff (hrun : Run app funds round s log)
    (hlater : Later app may round s log round' s' log') (hfunds : app.baseMinBalance ≤ funds)
    (hpriced : Priced app) {client : RollupVerifier}
    (htest : client.testDeployment = app.testDeployment)
    (hconstant : app.testDeployment = true → sha256 testString = Contract.testDomain)
    {sender : L1Address} (hsender : sender ≠ app.address) (address : Address) (pubKey : Word)
    (recipient : L1Address) (sign : Bytes → Bytes) (env : Env) :
    ∃ group names, client.requestWithdrawal app s sender address pubKey recipient sign =
        .ok (group, names) ∧ group.length ≤ maxGroupSize ∧
      ((∃ s'', Taken app env names s' group s'') ↔
        s'.escaped = false ∧ s'.inboxCursor = s.inboxCursor ∧ s.inboxCursor.toNat + 1 < 2 ^ 64 ∧
          sha256 (keyString schemeEd25519 pubKey) = address ∧
          Crypto.ed25519VerifyBare (Contract.requestMessage app s.requestCursor address recipient)
            (sign (Contract.requestMessage app s.requestCursor address recipient)) pubKey.bytes =
              true) ∧
      ∀ s'', Taken app env names s' group s'' →
        Filed s' s'' ⟨.request, address, recipient, 0, sender, env.round, s''.inboxChain⟩ := by
  have hrun' := hlater.run hrun
  have hcost := run_boxCost hrun'
  have hmbr : app.inboxMbr.toNat = inboxBoxMbr := (priced_iff.mp hpriced).1
  have hpays : UInt64.ofNat inboxBoxMbr = app.inboxMbr := by
    rw [← hmbr, UInt64.ofNat_toNat]
  have hmessage : withdrawalRequestMessage (Contract.deploymentDomain app).bytes
      s.requestCursor.toNat address.bytes recipient =
        .ok (Contract.requestMessage app s.requestCursor address recipient) := by
    rw [Contract.requestMessage_eq]
    exact withdrawalRequestMessage_eq _ s.requestCursor address recipient
  refine ⟨_, _, by
    rw [RollupVerifier.requestWithdrawal, domain_eq htest hconstant, ok_bind, hmessage, ok_bind,
      inboxBoxName_eq]
    rfl, by simp [maxGroupSize], ?_, ?_⟩
  · constructor
    · rintro ⟨s'', htaken⟩
      obtain ⟨hnamed, hok⟩ := (taken_iff (List.range 3)).mp htaken
      have hsame : s'.inboxCursor = s.inboxCursor := named_iff.mp hnamed
      cases exec_effect hok with
      | inert hcall => exact hcall.elim
      | prune _ hcall => simp at hcall
      | escape _ _ _ hcall => simp at hcall
      | request hlive hamount hnonce hkey hsig hnext =>
        refine ⟨hlive, hsame, ?_, hkey, hsig⟩
        rw [← hsame, ← hnext]
        exact toNat_lt _
    · rintro ⟨hlive, hsame, hnext, hkey, hsig⟩
      have hnonce : s'.requestCursor = s.requestCursor := (later_same hlater).2 hsame
      rw [← hsame] at hnext
      have hnextNonce : s'.requestCursor.toNat + 1 < 2 ^ 64 :=
        (Nat.succ_le_succ (run_requests_le hrun')).trans_lt hnext
      obtain ⟨s'', hok⟩ : ∃ s'', Contract.requestWithdrawal app env ⟨sender, app.address,
          UInt64.ofNat inboxBoxMbr⟩ s'.requestCursor address recipient schemeEd25519 pubKey
          (sign (Contract.requestMessage app s.requestCursor address recipient)) s' = .ok s'' := by
        refine requestWithdrawal_ok hsender rfl hlive (hpays.trans hcost.symm) hkey ?_ hnext
          hnextNonce (run_funded hrun' hfunds)
        rw [hnonce]
        exact hsig
      rw [hnonce] at hok
      exact ⟨s'', (taken_iff (List.range 3)).mpr ⟨named_iff.mpr hsame, hok⟩⟩
  · intro s'' htaken
    obtain ⟨-, hok⟩ := (taken_iff (List.range 3)).mp htaken
    cases exec_effect hok with
    | inert hcall => exact hcall.elim
    | prune _ hcall => simp at hcall
    | escape _ _ _ hcall => simp at hcall
    | request hlive hamount hnonce hkey hsig hnext =>
      refine ⟨rfl, hnext, ?_⟩
      simp only [hpays, hcost, UInt64.toNat_zero]
      omega

end Results

section Sample
attribute [local instance] Contract.Crypto.leaver
open Contract (asker askerKey askerSignature departingStart leaver samplePriced)

/-- The creator opens a batch after the client has read the cursors. -/
def sampleOpening : Env × Call := (sampleEnv (sampleAccount 1) 4, .openBatch 5 0)

def sampleOpened : State :=
  (exec samplePriced sampleOpening.1 departingStart sampleOpening.2).toOption.getD departingStart

theorem sampleOpened_later : Later samplePriced (fun _ _ _ => True) 0 departingStart [] 4
    sampleOpened [⟨departingStart, sampleOpening.1, sampleOpening.2, sampleOpened⟩] :=
  Later.start.call sampleOpening.1 sampleOpening.2 True.intro (by decide)
    (eq_ok_getD (by decide +kernel))

theorem departingStart_run : Run samplePriced 100000 0 departingStart [] := .create 0 ..

theorem sample_client_deposits : ∃ group names s',
    deposit samplePriced departingStart (sampleAccount 9) leaver 300000 = .ok (group, names) ∧
    Taken samplePriced (sampleEnv (sampleAccount 9) 5) names sampleOpened group s' ∧
    Filed sampleOpened s' ⟨.deposit, leaver, Word.zero, 300000, sampleAccount 9, 5,
      s'.inboxChain⟩ := by
  have hsender : sampleAccount 9 ≠ samplePriced.address := by decide
  have hsize : 300000 + inboxBoxMbr < 2 ^ 64 := by decide
  obtain ⟨group, names, hbuilt, hiff, hfiled⟩ := client_deposit_iff departingStart_run
    sampleOpened_later le_rfl (priced_iff.mpr ⟨rfl, rfl⟩) hsender hsize leaver
    (sampleEnv (sampleAccount 9) 5)
  obtain ⟨s', htaken⟩ := hiff.mpr (by decide +kernel)
  exact ⟨group, names, s', hbuilt, htaken, hfiled s' htaken⟩

theorem sample_client_requests : ∃ group names s',
    sampleClient.requestWithdrawal samplePriced departingStart (sampleAccount 6) asker askerKey
      (sampleAccount 6) (fun _ => askerSignature) = .ok (group, names) ∧
    group.length ≤ maxGroupSize ∧
    Taken samplePriced (sampleEnv (sampleAccount 6) 5) names sampleOpened group s' ∧
    Filed sampleOpened s' ⟨.request, asker, sampleAccount 6, 0, sampleAccount 6, 5,
      s'.inboxChain⟩ := by
  have hsender : sampleAccount 6 ≠ samplePriced.address := by decide
  have htest : sampleClient.testDeployment = samplePriced.testDeployment := rfl
  have hconstant : samplePriced.testDeployment = true → sha256 testString = Contract.testDomain :=
    fun h => absurd h (by decide)
  obtain ⟨group, names, hbuilt, hfits, hiff, hfiled⟩ := client_request_iff departingStart_run
    sampleOpened_later le_rfl (priced_iff.mpr ⟨rfl, rfl⟩) htest hconstant hsender asker askerKey
    (sampleAccount 6) (fun _ => askerSignature) (sampleEnv (sampleAccount 6) 5)
  obtain ⟨s', htaken⟩ := hiff.mpr (by decide +kernel)
  exact ⟨group, names, s', hbuilt, hfits, htaken, hfiled s' htaken⟩

end Sample

end PaymentRollup.Client
