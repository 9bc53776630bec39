import PaymentRollup.Contract.ExitProofs
import PaymentRollup.Contract.Frozen
import PaymentRollup.Contract.Watchdog
import PaymentRollup.Contract.Solvency
import PaymentRollup.Lib.Independence

/-! # Everybody can leave

What a frozen rollup can still pay out is a set of rights: an account's balance, a box's
deposit, the next payout. Each is used once, and using one leaves every other as it was, so
nobody's way out depends on who else leaves, or when.
-/
namespace PaymentRollup.Contract

section Statements
variable [Crypto]

/-- What a call that pays somebody uses up. -/
inductive Right where
  | account (address : Address)
  | box (index : UInt64)
  | payout
deriving DecidableEq

omit [Crypto] in
def Call.right? : Call → Option Right
  | .forceExit address _ _ _ _ _ _ _ _ => some (.account address)
  | .pruneRequest index => some (.box index)
  | .pruneDeposit index => some (.box index)
  | .reclaimDeposit index => some (.box index)
  | .payWithdrawal _ _ _ => some .payout
  | _ => none

inductive Take where
  | exit (address : Address) (amount : UInt64)
  | box (index : UInt64)
  | payout (tail : Word)

def Take.right : Take → Right
  | .exit address _ => .account address
  | .box index => .box index
  | .payout _ => .payout

def State.take (app : App) (s : State) : Take → State
  | .exit address amount =>
    { s with
      exits := Function.update s.exits address (some amount)
      minBalance := s.minBalance + app.exitMbr.toNat }
  | .box index => s.deleteInboxBox app index
  | .payout tail =>
    { s with pendingWithdrawals := if tail = withdrawalTerminal app then none else some tail }

def State.taken (app : App) (s : State) (take : Take) (receiver : L1Address) (amount : UInt64) :
    State :=
  { s.take app take with balance := balanceAfter app s.balance receiver amount }

/-- In a frozen state the call is good for a right, and for a payment. -/
inductive Claims (app : App) (s : State) : Call → Take → L1Address → UInt64 → Prop
  | exit {address : Address} {nonce amount : UInt64} {authAddress : Address} {pubKey : Word}
      {signature : Bytes} {recipient : L1Address} {siblings : Bytes} {paid : UInt64}
      (hfresh : s.exits address = none)
      (hkey : sha256 (keyString schemeEd25519 pubKey) = authAddress)
      (hsig : Crypto.ed25519VerifyBare (exitMessage app address recipient) signature
        pubKey.bytes = true)
      (hproof : checkExit s.stateRoot address nonce amount authAddress siblings = .ok ())
      (hcovers : app.exitMbr < amount) (hpaid : sub amount app.exitMbr = .ok paid) :
      Claims app s
        (.forceExit address nonce amount authAddress schemeEd25519 pubKey signature recipient
          siblings) (.exit address amount) recipient paid
  | pruneRequest {index : UInt64} {record : InboxRecord} (hbox : s.inbox index = some record)
      (hkind : record.kind = .request) :
      Claims app s (.pruneRequest index) (.box index) record.payer app.inboxMbr
  | pruneDeposit {index : UInt64} {record : InboxRecord} (hbox : s.inbox index = some record)
      (hkind : record.kind = .deposit) (hsettled : index < s.settledInboxCursor) :
      Claims app s (.pruneDeposit index) (.box index) record.payer app.inboxMbr
  | reclaimDeposit {index amount : UInt64} {record : InboxRecord}
      (hbox : s.inbox index = some record) (hkind : record.kind = .deposit)
      (hpending : s.settledInboxCursor ≤ index) (harrived : index < s.inboxCursor)
      (hamount : add record.amount app.inboxMbr = .ok amount) :
      Claims app s (.reclaimDeposit index) (.box index) record.payer amount
  | payWithdrawal {recipient : L1Address} {amount : UInt64} {tail : Word}
      (hhead : s.pendingWithdrawals = some (sha256 (payoutString tail recipient amount))) :
      Claims app s (.payWithdrawal recipient amount tail) (.payout tail) recipient amount

end Statements

section Claims
variable [Crypto] {app : App} {env : Env} {s s' : State} {call : Call} {take take' : Take}
  {receiver receiver' : L1Address} {amount amount' : UInt64}

theorem Claims.right (h : Claims app s call take receiver amount) :
    call.right? = some take.right := by
  cases h <;> rfl

theorem Claims.paysOut (h : Claims app s call take receiver amount) : call.PaysOut := by
  cases h <;> exact True.intro

omit [Crypto] in
theorem assert_pos {p : Prop} [Decidable p] (message : String) (h : p) :
    assert p message = .ok () :=
  if_pos h

omit [Crypto] in
theorem creditEscapeProgress_quiet {discharged : UInt64} (h : s.escapeDeadline = none) :
    s.creditEscapeProgress discharged = .ok s := by
  rw [State.creditEscapeProgress, h]

theorem Claims.exec (h : Claims app s call take receiver amount) (hescaped : s.escaped = true)
    (hquiet : s.escapeDeadline = none) :
    exec app env s call = (s.take app take).pay app env receiver amount := by
  cases h with
  | exit hfresh hkey hsig hproof hcovers hpaid =>
    rw [Contract.exec, forceExit_eq, assert_pos _ hescaped, assert_pos _ hfresh, assert_pos _ rfl,
      assert_pos _ hkey, assert_pos _ hsig, hproof, assert_pos _ hcovers, hpaid]
    rfl
  | pruneRequest hbox hkind =>
    rw [Contract.exec, Contract.pruneRequest, hbox, demand, ok_bind, assert_pos _ hkind, ok_bind,
      assert_pos _ (.inr hescaped)]
    rfl
  | pruneDeposit hbox hkind hsettled =>
    rw [Contract.exec, Contract.pruneDeposit, hbox, demand, ok_bind, assert_pos _ hkind,
      assert_pos _ hsettled]
    rfl
  | reclaimDeposit hbox hkind hpending harrived hamount =>
    rw [Contract.exec, Contract.reclaimDeposit, assert_pos _ hescaped, assert_pos _ hpending,
      assert_pos _ harrived, hbox, ok_bind, ok_bind, ok_bind, demand, ok_bind, assert_pos _ hkind,
      ok_bind, hamount]
    rfl
  | @payWithdrawal _ _ tail hhead =>
    have hcredit := @creditEscapeProgress_quiet { s with
      pendingWithdrawals := if tail = withdrawalTerminal app then none else some tail } 1 hquiet
    rw [Contract.exec, Contract.payWithdrawal, hhead, assert_pos _ Option.isSome_some, demand,
      ok_bind, ok_bind, assert_pos _ rfl, ok_bind]
    simp only [hcredit, ite_self, ok_bind]
    rfl

theorem claims_of_ok (hescaped : s.escaped = true) (hok : exec app env s call = .ok s')
    (hcall : call.PaysOut) : ∃ take receiver amount, Claims app s call take receiver amount := by
  cases exec_effect hok with
  | inert hinert => cases call <;> first | exact hinert.elim | exact hcall.elim
  | prune hbox hprune =>
    rcases hprune with ⟨rfl, hkind, -⟩ | ⟨rfl, hkind, hsettled⟩
    · exact ⟨_, _, _, .pruneRequest hbox hkind⟩
    · exact ⟨_, _, _, .pruneDeposit hbox hkind hsettled⟩
  | reclaim _ hpending harrived hbox hkind hamount =>
    exact ⟨_, _, _, .reclaimDeposit hbox hkind hpending harrived (add_eq_ok.mpr hamount)⟩
  | pay hhead => exact ⟨_, _, _, .payWithdrawal hhead⟩
  | exit _ hfresh hkey hsig hwhole hdepth hroot hpos hpaid =>
    refine ⟨_, _, _, .exit hfresh hkey hsig (checkExit_eq_ok.mpr ⟨hwhole, hdepth, hroot⟩) ?_
      (sub_eq_ok.mpr hpaid)⟩
    rw [UInt64.lt_iff_toNat_lt]
    omega
  | escape _ _ hlive => exact absurd (hlive.symm.trans hescaped) (by decide)
  | _ => exact hcall.elim

theorem Claims.stays (h : Claims app s call take receiver amount)
    (hother : take'.right ≠ take.right) :
    Claims app (s.taken app take' receiver' amount') call take receiver amount := by
  have hbox : ∀ index record, take.right = .box index → s.inbox index = some record →
      (s.taken app take' receiver' amount').inbox index = some record := by
    intro index record hright hrecord
    rw [hright] at hother
    cases take' with
    | exit => exact hrecord
    | payout => exact hrecord
    | box other =>
      have hne : index ≠ other := fun heq => hother (congrArg Right.box heq.symm)
      exact (Function.update_of_ne hne _ _).trans hrecord
  cases h with
  | @exit address nonce amount authAddress pubKey signature recipient siblings paid hfresh hkey hsig
      hproof hcovers hpaid =>
    have hstill : (s.taken app take' receiver' amount').exits address = none := by
      cases take' with
      | exit other =>
        have hne : address ≠ other := fun heq => hother (congrArg Right.account heq.symm)
        exact (Function.update_of_ne hne _ _).trans hfresh
      | _ => exact hfresh
    cases take' <;> exact .exit hstill hkey hsig hproof hcovers hpaid
  | pruneRequest hrecord hkind => exact .pruneRequest (hbox _ _ rfl hrecord) hkind
  | pruneDeposit hrecord hkind hsettled =>
    have hstill := hbox _ _ rfl hrecord
    cases take' <;> exact .pruneDeposit hstill hkind hsettled
  | reclaimDeposit hrecord hkind hpending harrived hamount =>
    have hstill := hbox _ _ rfl hrecord
    cases take' <;> exact .reclaimDeposit hstill hkind hpending harrived hamount
  | payWithdrawal hhead =>
    cases take' with
    | payout => exact absurd rfl hother
    | _ => exact .payWithdrawal hhead

theorem Claims.box (h : Claims app s call take receiver amount) {index : UInt64}
    (htake : take = .box index) : ∃ record, s.inbox index = some record := by
  cases h <;> cases htake <;> exact ⟨_, ‹_›⟩

/-- What two rights are used up for does not depend on which goes first. -/
theorem taken_comm (hother : take.right ≠ take'.right)
    (hmin : ∀ index, take = .box index ∨ take' = .box index → app.inboxMbr.toNat ≤ s.minBalance) :
    (s.taken app take receiver amount).taken app take' receiver' amount' =
      (s.taken app take' receiver' amount').taken app take receiver amount := by
  have hbalance : balanceAfter app (balanceAfter app s.balance receiver amount) receiver' amount' =
      balanceAfter app (balanceAfter app s.balance receiver' amount') receiver amount := by
    simp only [balanceAfter]
    split_ifs <;> omega
  cases take with
  | exit address x =>
    cases take' with
    | exit other y =>
      have hne : address ≠ other := fun heq => hother (congrArg Right.account heq)
      have hexits := Function.update_comm hne (some x) (some y) s.exits
      simp only [State.taken, State.take, hbalance, hexits]
    | box index =>
      have hmin := hmin index (.inr rfl)
      have hcost : s.minBalance + app.exitMbr.toNat - app.inboxMbr.toNat =
          s.minBalance - app.inboxMbr.toNat + app.exitMbr.toNat := by omega
      simp only [State.taken, State.take, State.deleteInboxBox, hbalance, hcost]
    | payout tail => simp only [State.taken, State.take, hbalance]
  | box index =>
    have hmin := hmin index (.inl rfl)
    cases take' with
    | exit other y =>
      have hcost : s.minBalance - app.inboxMbr.toNat + app.exitMbr.toNat =
          s.minBalance + app.exitMbr.toNat - app.inboxMbr.toNat := by omega
      simp only [State.taken, State.take, State.deleteInboxBox, hbalance, hcost]
    | box other =>
      have hne : index ≠ other := fun heq => hother (congrArg Right.box heq)
      have hboxes := Function.update_comm hne none none s.inbox
      simp only [State.taken, State.take, State.deleteInboxBox, hbalance, hboxes]
    | payout tail => simp only [State.taken, State.take, State.deleteInboxBox, hbalance]
  | payout tail =>
    cases take' with
    | payout => exact absurd rfl hother
    | exit => simp only [State.taken, State.take, hbalance]
    | box => simp only [State.taken, State.take, State.deleteInboxBox, hbalance]

end Claims

section Evacuable
variable [Crypto] {app : App} {usize : ℕ} {guest : PublicValues → Execution} {Q : Set Bytes}
  {env env' : Env} {s s' sc sd : State} {call call' : Call} {take take' : Take}
  {receiver receiver' : L1Address} {amount amount' : UInt64}

/-- A frozen rollup that can pay what it owes. -/
structure Evacuable (app : App) (usize : ℕ) (Q : Set Bytes) (s : State) : Prop where
  escaped : s.escaped = true
  quiet : s.escapeDeadline = none
  backed : ∃ log S batches lists owed, Kept app s (arrivals app log) (posted log) ∧
    Ledgered app usize Q s log S batches lists owed ∧
    Solvent app s S owed (arrivals app log) (reclaimed log)

theorem Effect.quiet (h : Effect app env s call s')
    (hs : s.escaped = true → s.escapeDeadline = none) :
    s'.escaped = true → s'.escapeDeadline = none := by
  cases h with
  | pay _ hcredit =>
    intro hescaped
    have hquiet := hs hescaped
    split_ifs at hcredit
    · rw [hquiet] at hcredit
      cases hcredit
      rfl
    · exact hcredit.1.trans hquiet
  | signal hlive => exact fun hescaped => absurd (hlive.symm.trans hescaped) (by decide)
  | escape => exact fun _ => rfl
  | settle _ hlive => exact fun hescaped => absurd (hlive.symm.trans hescaped) (by decide)
  | abandon => exact hs
  | _ => exact hs

theorem Run.quiet {funds : ℕ} {round : UInt64} {log : Log} (h : Run app funds round s log) :
    s.escaped = true → s.escapeDeadline = none := by
  induction h with
  | create => exact fun _ => rfl
  | call hrun env call hround hok ih => exact (exec_effect hok).quiet ih

theorem Run.evacuable {funds : ℕ} {round : UInt64} {log : Log} (hrun : Run app funds round s log)
    (hfunds : app.baseMinBalance ≤ funds) (hQ : Ideal Q)
    (hlog : ∀ e ∈ log, e.Sound app usize guest Q) (hescaped : s.escaped = true) :
    Evacuable app usize Q s := by
  obtain ⟨S, batches, lists, owed, hledgered, hsolvent⟩ := hrun.solvent hQ hfunds hlog
  exact ⟨hescaped, hrun.quiet hescaped, log, S, batches, lists, owed, hrun.kept, hledgered,
    hsolvent⟩

theorem Evacuable.step (hQ : Ideal Q) (h : Evacuable app usize Q s)
    (hsound : call.Sound app usize guest Q s) (hok : exec app env s call = .ok s') :
    Evacuable app usize Q s' := by
  obtain ⟨log, S, batches, lists, owed, hkept, hledgered, hsolvent⟩ := h.backed
  have heffect := exec_effect hok
  obtain ⟨S', batches', lists', owed', hledgered', hmoves⟩ :=
    hledgered.step hQ hkept heffect hsound
  have hescaped := heffect.escaped_stays h.escaped
  exact ⟨hescaped, heffect.quiet (fun _ => h.quiet) hescaped, _, S', batches', lists', owed',
    hkept.step heffect, hledgered', hsolvent.step hQ hkept hledgered heffect hsound hmoves⟩

omit [Crypto] in
theorem pay_of_accepts (hshort : NeverShort (s.pay app env receiver amount))
    (haccepts : env.accepts receiver amount = true) : s.pay app env receiver amount =
      .ok { s with balance := balanceAfter app s.balance receiver amount } := by
  cases hpay : s.pay app env receiver amount with
  | ok t =>
    obtain ⟨-, -, -, rfl⟩ := State.pay_eq_ok.mp hpay
    rfl
  | error e =>
    have hfails := hshort e hpay
    simp only [State.pay, State.checkMinBalance, bind_eq_error, require_eq_error, haccepts,
      not_true, false_and, false_or, reduceCtorEq, and_false, exists_false, or_false] at hpay
    obtain ⟨-, rfl⟩ | ⟨-, -, -, -, -, rfl⟩ := hpay
    · exact absurd True.intro hfails
    · exact absurd True.intro hfails

/-- A claim is paid in full by a call that whoever it pays accepts. -/
theorem Evacuable.pays (hQ : Ideal Q) (h : Evacuable app usize Q s)
    (hclaims : Claims app s call take receiver amount) (hstrings : callStrings app s call ⊆ Q)
    (haccepts : env.accepts receiver amount = true) :
    exec app env s call = .ok (s.taken app take receiver amount) := by
  obtain ⟨log, S, batches, lists, owed, hkept, hledgered, hsolvent⟩ := h.backed
  have hshort : NeverShort (exec app env s call) :=
    hsolvent.neverShort hQ hkept hledgered hclaims.paysOut hstrings
  have hbalance : (s.take app take).balance = s.balance := by
    cases take <;> rfl
  rw [hclaims.exec h.escaped h.quiet] at hshort ⊢
  rw [pay_of_accepts hshort haccepts, hbalance]
  rfl

theorem Evacuable.claims (h : Evacuable app usize Q s) (hcall : call.PaysOut)
    (hok : exec app env s call = .ok s') : ∃ take receiver amount,
      Claims app s call take receiver amount ∧ env.accepts receiver amount = true ∧
        s' = s.taken app take receiver amount := by
  obtain ⟨take, receiver, amount, hclaims⟩ := claims_of_ok h.escaped hok hcall
  have hbalance : (s.take app take).balance = s.balance := by
    cases take <;> rfl
  rw [hclaims.exec h.escaped h.quiet, State.pay_eq_ok, hbalance] at hok
  obtain ⟨-, haccepts, -, rfl⟩ := hok
  exact ⟨take, receiver, amount, hclaims, haccepts, rfl⟩

omit [Crypto] in
theorem callStrings_taken [Crypto] (hcall : call.PaysOut) (s t : State) :
    callStrings app s call = callStrings app t call := by
  cases call <;> first | rfl | exact hcall.elim

theorem Evacuable.boxed (h : Evacuable app usize Q s) {index : UInt64} {record : InboxRecord}
    (hbox : s.inbox index = some record) : app.inboxMbr.toNat ≤ s.minBalance := by
  obtain ⟨log, S, batches, lists, owed, -, -, hsolvent⟩ := h.backed
  have hcost := inboxCost_delete app hbox
  have hboxes := hsolvent.boxes
  omega

/-- Two calls that are good for different rights do not get in each other's way. -/
theorem Evacuable.independent (hQ : Ideal Q) (h : Evacuable app usize Q s) (hcall : call.PaysOut)
    (hcall' : call'.PaysOut) (hother : call.right? ≠ call'.right?)
    (hsound : call.Sound app usize guest Q s) (hsound' : call'.Sound app usize guest Q s)
    (hok : exec app env s call = .ok sc) (hok' : exec app env' s call' = .ok sd) :
    ∃ t, exec app env' sc call' = .ok t ∧ exec app env sd call = .ok t := by
  obtain ⟨take, receiver, amount, hclaims, haccepts, rfl⟩ := h.claims hcall hok
  obtain ⟨take', receiver', amount', hclaims', haccepts', rfl⟩ := h.claims hcall' hok'
  rw [hclaims.right, hclaims'.right, ne_eq, Option.some.injEq] at hother
  have hpaid := (h.step hQ hsound hok).pays hQ (hclaims'.stays hother)
    ((callStrings_taken hcall' _ _).subset.trans hsound'.hashed) haccepts'
  have hpaid' := (h.step hQ hsound' hok').pays hQ (hclaims.stays (Ne.symm hother))
    ((callStrings_taken hcall _ _).subset.trans hsound.hashed) haccepts
  refine ⟨_, hpaid, ?_⟩
  rw [hpaid', taken_comm hother]
  rintro index (rfl | rfl)
  · obtain ⟨record, hbox⟩ := hclaims.box rfl
    exact h.boxed hbox
  · obtain ⟨record, hbox⟩ := hclaims'.box rfl
    exact h.boxed hbox

theorem Call.PaysOut.sound (hcall : call.PaysOut) (hstrings : callStrings app s call ⊆ Q)
    (t : State) : call.Sound app usize guest Q t := by
  refine ⟨?_, (callStrings_taken hcall t s).subset.trans hstrings, ?_⟩
  · intro hupdate
    cases call <;> first | exact hcall | exact hupdate
  · rintro verifier signals p rfl
    exact hcall.elim

theorem Evacuable.other (h : Evacuable app usize Q s) (hcall : ¬call.PaysOut)
    (hok : exec app env s call = .ok s') : ∃ balance, s' = { s with balance } := by
  obtain ⟨log, -, -, -, -, hkept, -, -⟩ := h.backed
  have hdead : s.escaped = false → False := by
    intro hlive
    exact absurd (hlive.symm.trans h.escaped) (by decide)
  have hclosed : s.batchLength ≠ none → False := by
    intro hopen
    obtain ⟨n, hn⟩ := Option.ne_none_iff_exists'.mp hopen
    obtain ⟨c, hposting⟩ := hkept.batch.posting hn
    exact hdead hposting.live
  cases exec_effect hok with
  | inert hinert => exact inert_frozen h.escaped hinert hok
  | deposit hlive => exact (hdead hlive).elim
  | request hlive => exact (hdead hlive).elim
  | prune _ hprune => rcases hprune with ⟨rfl, -⟩ | ⟨rfl, -⟩ <;> exact absurd True.intro hcall
  | reclaim => exact absurd True.intro hcall
  | pay => exact absurd True.intro hcall
  | exit => exact absurd True.intro hcall
  | signal hlive => exact (hdead hlive).elim
  | escape _ _ hlive => exact (hdead hlive).elim
  | abandon _ hopen =>
    rw [Option.isSome_iff_ne_none] at hopen
    exact (hclosed hopen).elim
  | openBatch _ hlive => exact (hdead hlive).elim
  | chunk _ hlength => exact (hclosed (hlength ▸ Option.some_ne_none _)).elim
  | settle _ hlive => exact (hdead hlive).elim

theorem Claims.funded (h : Claims app s call take receiver amount) (balance : ℕ) :
    Claims app { s with balance } call take receiver amount := by
  cases h with
  | exit hfresh hkey hsig hproof hcovers hpaid => exact .exit hfresh hkey hsig hproof hcovers hpaid
  | pruneRequest hbox hkind => exact .pruneRequest hbox hkind
  | pruneDeposit hbox hkind hsettled => exact .pruneDeposit hbox hkind hsettled
  | reclaimDeposit hbox hkind hpending harrived hamount =>
    exact .reclaimDeposit hbox hkind hpending harrived hamount
  | payWithdrawal hhead => exact .payWithdrawal hhead

/-- After any other call a right is still good for what it was. -/
theorem Evacuable.survives (hQ : Ideal Q) (h : Evacuable app usize Q s) (hcall : call.PaysOut)
    (hother : call'.right? ≠ call.right?) (hsound : call.Sound app usize guest Q s)
    (hsound' : call'.Sound app usize guest Q s) (hok : exec app env s call = .ok sc)
    (hok' : exec app env' s call' = .ok sd) : ∃ t, exec app env sd call = .ok t := by
  by_cases hpays : call'.PaysOut
  · obtain ⟨t, -, hlater⟩ := h.independent hQ hcall hpays hother.symm hsound hsound' hok hok'
    exact ⟨t, hlater⟩
  · obtain ⟨balance, hsame⟩ := h.other hpays hok'
    obtain ⟨take, receiver, amount, hclaims, haccepts, -⟩ := h.claims hcall hok
    have hafter := h.step hQ hsound' hok'
    rw [hsame] at hafter ⊢
    exact ⟨_, hafter.pays hQ (hclaims.funded balance)
      ((callStrings_taken hcall _ _).subset.trans hsound.hashed) haccepts⟩

end Evacuable

section Results
variable [Crypto] {app : App} {usize : ℕ} {guest : PublicValues → Execution} {Q : Set Bytes}
  {funds : ℕ} {round round' : UInt64} {s s' : State} {log log' : Log}

/-- Once the rollup has escaped, whoever could be paid out stays able to be, whatever else is
called by anyone and whoever else leaves meanwhile: only using the same right again takes it
away. -/
theorem rights_survive (hrun : Run app funds round s log) (hfunds : app.baseMinBalance ≤ funds)
    (hQ : Ideal Q) (hlog : ∀ e ∈ log, e.Sound app usize guest Q) (hescaped : s.escaped = true)
    {env : Env} {call : Call} (hcall : call.PaysOut) (hstrings : callStrings app s call ⊆ Q)
    (hok : ∃ s₁, exec app env s call = .ok s₁)
    (hlater : Later app (fun s _ call' => call'.right? ≠ call.right? ∧
      call'.Sound app usize guest Q s) round s log round' s' log') :
    ∃ s₁, exec app env s' call = .ok s₁ := by
  have hstays : Evacuable app usize Q s' ∧ ∃ s₁, exec app env s' call = .ok s₁ := by
    induction hlater with
    | start => exact ⟨hrun.evacuable hfunds hQ hlog hescaped, hok⟩
    | call _ env' call' hmay _ hok' ih =>
      obtain ⟨hevacuable, s₁, hok⟩ := ih
      obtain ⟨hother, hsound⟩ := hmay
      exact ⟨hevacuable.step hQ hsound hok',
        hevacuable.survives hQ hcall hother (hcall.sound hstrings _) hsound hok hok'⟩
  exact hstays.2

/-- Payments that each go through on their own all go through one after another, in any order and
to the same state, if no two of them use the same right. -/
theorem evacuation_in_any_order (hrun : Run app funds round s log)
    (hfunds : app.baseMinBalance ≤ funds) (hQ : Ideal Q)
    (hlog : ∀ e ∈ log, e.Sound app usize guest Q) (hescaped : s.escaped = true)
    {claims others : List (Env × Call)}
    (hclaims : ∀ c ∈ claims, c.2.PaysOut ∧ callStrings app s c.2 ⊆ Q)
    (hrights : (claims.map fun c => c.2.right?).Nodup)
    (hready : ∀ c ∈ claims, ∃ s', exec app c.1 s c.2 = .ok s') (hperm : claims.Perm others) :
    ∃ t, claims.foldlM (fun s c => exec app c.1 s c.2) s = .ok t ∧
      others.foldlM (fun s c => exec app c.1 s c.2) s = .ok t := by
  have hevacuable := hrun.evacuable hfunds hQ hlog hescaped
  have hsound : ∀ c ∈ claims, ∀ t, c.2.Sound app usize guest Q t := by
    intro c hc
    exact (hclaims c hc).1.sound (hclaims c hc).2
  have hkeeps : ∀ c ∈ claims, Independence.Keeps (fun s c => exec app c.1 s c.2)
      (Evacuable app usize Q) c := fun c hc t t' ht hok => ht.step hQ (hsound c hc t) hok
  have hind : claims.Pairwise (Independence.Independent (fun s c => exec app c.1 s c.2)
      (Evacuable app usize Q)) := by
    refine (List.pairwise_map.mp hrights).imp_of_mem ?_
    intro c d hc hd hother t tc td ht hok hok'
    exact ht.independent hQ (hclaims c hc).1 (hclaims d hd).1 hother (hsound c hc t) (hsound d hd t)
      hok hok'
  obtain ⟨t, ht⟩ := Independence.foldlM_ok hevacuable hkeeps hind hready
  exact ⟨t, ht, Independence.foldlM_perm hperm hevacuable hkeeps hind hready ▸ ht⟩

theorem Run.exits_iff (hrun : Run app funds round s log) (address : Address) :
    s.exits address = none ↔ address ∉ Contract.exited log := by
  induction hrun with
  | create =>
    constructor
    · exact fun _ => List.not_mem_nil
    · exact fun _ => rfl
  | @call round s s' log hrun env call hround hok ih =>
    rcases (exec_effect hok).exits with ⟨hquiet, hsame⟩ | ⟨other, amount, hexit, -, hupdate⟩
    · have hlog : Contract.exited (⟨s, env, call, s'⟩ :: log) = Contract.exited log :=
        List.filterMap_cons_none hquiet
      rw [hsame, hlog]
      exact ih
    · have hlog : Contract.exited (⟨s, env, call, s'⟩ :: log) = other :: Contract.exited log :=
        List.filterMap_cons_some hexit
      rw [hupdate, hlog, List.mem_cons, not_or, ← ih]
      by_cases heq : address = other
      · rw [heq, Function.update_self]
        simp
      · rw [Function.update_of_ne heq]
        simp [heq]

theorem Evacuable.exits (hQ : Ideal Q) (h : Evacuable app usize Q s) {S : AccountMap}
    {batches : List Batch} {lists : List (List Payout)} {owed : List Payout}
    (hledgered : Ledgered app usize Q s log S batches lists owed) {env : Env} {address : Address}
    {nonce amount : UInt64} {authAddress : Address} {scheme : Bytes} {pubKey : Word}
    {signature : Bytes} {recipient : L1Address} {siblings : Bytes}
    (hstrings : rootStrings address (some ⟨nonce, amount, authAddress⟩) (exitProof siblings) ⊆ Q) :
    exec app env s (.forceExit address nonce amount authAddress scheme pubKey signature recipient
        siblings) = .ok s' ↔
      (S address = some ⟨nonce, amount, authAddress⟩ ∧
        siblings = ((treeOf S).proof address).siblings.flatMap Word.bytes ∧
        s.exits address = none ∧ scheme = schemeEd25519 ∧
        sha256 (keyString scheme pubKey) = authAddress ∧
        Crypto.ed25519VerifyBare (exitMessage app address recipient) signature pubKey.bytes = true ∧
        app.exitMbr < amount ∧ env.accepts recipient (amount - app.exitMbr) = true) ∧
      s' = s.taken app (.exit address amount) recipient (amount - app.exitMbr) := by
  constructor
  · intro hok
    have hcall : Call.PaysOut (.forceExit address nonce amount authAddress scheme pubKey signature
      recipient siblings) := True.intro
    obtain ⟨take, receiver, paid, hclaims, haccepts, hafter⟩ := h.claims hcall hok
    cases hclaims with
    | exit hfresh hkey hsig hproof hcovers hpaid =>
      obtain ⟨hwhole, hdepth, hroot⟩ := checkExit_eq_ok.mp hproof
      have hreached := exitRoot_eq address nonce amount authAddress hdepth
      rw [hroot, hledgered.root] at hreached
      obtain ⟨haccount, hpins⟩ := pins_of_root hQ hledgered.tree hstrings hreached
      have hprover := hpins.eq_proof fun _ => rfl
      have hdifference : amount - app.exitMbr = paid := sub_eq_of_toNat (sub_eq_ok.mp hpaid)
      rw [hdifference]
      refine ⟨⟨haccount.symm, ?_, hfresh, rfl, hkey, hsig, hcovers, haccepts⟩, hafter⟩
      rw [hprover]
      exact (exitProof_bytes hwhole).symm
  · rintro ⟨⟨haccount, rfl, hfresh, rfl, hkey, hsig, hcovers, haccepts⟩, rfl⟩
    have hslot := (holds_treeOf S).proof_slot haccount
    have hreached := (pins_proof S address).root
    rw [haccount, ← hledgered.root] at hreached
    have hproof : checkExit s.stateRoot address nonce amount authAddress
        (((treeOf S).proof address).siblings.flatMap Word.bytes) = .ok () := by
      refine checkExit_iff.mpr ⟨_, rfl, ?_⟩
      rw [← hslot]
      exact decide_eq_true hreached
    obtain ⟨paid, hpaid⟩ := exists_sub (UInt64.le_of_lt hcovers)
    have hdifference : amount - app.exitMbr = paid := sub_eq_of_toNat (sub_eq_ok.mp hpaid)
    have hclaims : Claims app s _ _ recipient paid := .exit hfresh hkey hsig hproof hcovers hpaid
    rw [hdifference] at haccepts ⊢
    exact h.pays hQ hclaims hstrings haccepts

/-- Whoever leaves a frozen rollup by force proves the balance the last settled batch left: with
the frozen ledger's own siblings, once, under the key that controls the account, and for more than
its record costs. Nothing else stands in the way. -/
theorem forced_exit_iff (hrun : Run app funds round s log) (hfunds : app.baseMinBalance ≤ funds)
    (hQ : Ideal Q) (hlog : ∀ e ∈ log, e.Sound app usize guest Q) (hescaped : s.escaped = true) :
    ∃ batches S lists, (settledBatches log).mapM (Batch.decode usize) = .ok batches ∧
      replayBatches emptyLedger batches = some (S, lists) ∧
      ∀ (env : Env) (address : Address) (nonce amount : UInt64) (authAddress : Address)
        (scheme : Bytes) (pubKey : Word) (signature : Bytes) (recipient : L1Address)
        (siblings : Bytes),
        rootStrings address (some ⟨nonce, amount, authAddress⟩) (exitProof siblings) ⊆ Q →
        ((∃ s', exec app env s (.forceExit address nonce amount authAddress scheme pubKey signature
            recipient siblings) = .ok s') ↔
          S address = some ⟨nonce, amount, authAddress⟩ ∧
          siblings = ((treeOf S).proof address).siblings.flatMap Word.bytes ∧
          address ∉ exited log ∧ scheme = schemeEd25519 ∧
          sha256 (keyString scheme pubKey) = authAddress ∧
          Crypto.ed25519VerifyBare (exitMessage app address recipient) signature
            pubKey.bytes = true ∧
          app.exitMbr < amount ∧ env.accepts recipient (amount - app.exitMbr) = true) := by
  have hevacuable := hrun.evacuable hfunds hQ hlog hescaped
  obtain ⟨S, batches, lists, owed, hledgered⟩ := hrun.ledgered hQ hlog
  refine ⟨batches, S, lists, hledgered.decoded, hledgered.replayed, ?_⟩
  intro env address nonce amount authAddress scheme pubKey signature recipient siblings hstrings
  simp only [hevacuable.exits hQ hledgered hstrings, exists_and_left, exists_eq, and_true,
    hrun.exits_iff address]

end Results

section Sample
attribute [local instance] Crypto.unsigned

/-- One deposit settles, another is pending when the council pulls the plug. -/
def sampleFrozenCalls : List (Env × Call) :=
  sampleDeposit :: sampleSettlement ++ [(sampleEnv (sampleAccount 9) 10, sampleDeposit.2),
    (sampleEnv (sampleAccount 13) 11, .securityCouncilEscape)]

def sampleFrozen : State × Log := samplePlayed 100000 sampleFrozenCalls

def sampleFrozenStrings : List Bytes :=
  depositString (sha256 (depositString Word.zero sampleAddress 300000)) sampleAddress 300000 ::
    sampleStrings

def samplePruning : Env × Call := (sampleEnv (sampleAccount 8) 12, .pruneDeposit 0)

def sampleReclaiming : Env × Call := (sampleEnv (sampleAccount 9) 12, .reclaimDeposit 1)

theorem sampleFrozen_evaluated :
    ((play sampleApp (sampleStart 100000) [] sampleFrozenCalls).isOk = true ∧
      InOrder 0 sampleFrozenCalls ∧ sampleFrozen.1.escaped = true) ∧
    (Word.zero :: sampleFrozenStrings.map sha256).Nodup ∧
    (∀ e ∈ sampleFrozen.2,
      e.Sound sampleApp (2 ^ 32) sampleGuest {string | string ∈ sampleFrozenStrings}) ∧
    (exec sampleApp samplePruning.1 sampleFrozen.1 samplePruning.2).isOk = true ∧
    (exec sampleApp sampleReclaiming.1 sampleFrozen.1 sampleReclaiming.2).isOk = true := by
  decide +kernel

theorem sampleFrozen_run : Run sampleApp 100000 11 sampleFrozen.1 sampleFrozen.2 := by
  obtain ⟨⟨hplays, horder, -⟩, -⟩ := sampleFrozen_evaluated
  exact samplePlayed_run 100000 sampleFrozenCalls hplays horder

theorem sampleFrozen_ideal : Ideal {string | string ∈ sampleFrozenStrings} :=
  .of_list sampleFrozen_evaluated.2.1

theorem sampleFrozen_sound : ∀ e ∈ sampleFrozen.2,
    e.Sound sampleApp (2 ^ 32) sampleGuest {string | string ∈ sampleFrozenStrings} :=
  sampleFrozen_evaluated.2.2.1

theorem sampleFrozen_escaped : sampleFrozen.1.escaped = true := sampleFrozen_evaluated.1.2.2

theorem samplePruning_ok :
    ∃ s', exec sampleApp samplePruning.1 sampleFrozen.1 samplePruning.2 = .ok s' :=
  ⟨_, eq_ok_getD (a := sampleFrozen.1) sampleFrozen_evaluated.2.2.2.1⟩

theorem sampleReclaiming_ok :
    ∃ s', exec sampleApp sampleReclaiming.1 sampleFrozen.1 sampleReclaiming.2 = .ok s' :=
  ⟨_, eq_ok_getD (a := sampleFrozen.1) sampleFrozen_evaluated.2.2.2.2⟩

/-- The box of the settled deposit can be let go of after the other deposit was taken back. -/
theorem samplePruning_survives : ∃ s' s₁, exec sampleApp sampleReclaiming.1 sampleFrozen.1
    sampleReclaiming.2 = .ok s' ∧ exec sampleApp samplePruning.1 s' samplePruning.2 = .ok s₁ := by
  obtain ⟨s', hreclaim⟩ := sampleReclaiming_ok
  have hcall : samplePruning.2.PaysOut := True.intro
  have hpays : sampleReclaiming.2.PaysOut := True.intro
  have hstart := @Later.start _ sampleApp (fun s _ call' => call'.right? ≠ samplePruning.2.right? ∧
    call'.Sound sampleApp (2 ^ 32) sampleGuest {string | string ∈ sampleFrozenStrings} s) 11
    sampleFrozen.1 sampleFrozen.2
  have hlater := hstart.call sampleReclaiming.1 sampleReclaiming.2
    ⟨by decide, hpays.sound (s := sampleFrozen.1) (Set.empty_subset _) _⟩ (by decide) hreclaim
  obtain ⟨s₁, hok⟩ := rights_survive sampleFrozen_run le_rfl sampleFrozen_ideal sampleFrozen_sound
    sampleFrozen_escaped hcall (Set.empty_subset _) samplePruning_ok hlater
  exact ⟨s', s₁, hreclaim, hok⟩

theorem sampleFrozen_evacuated : ∃ t,
    [samplePruning, sampleReclaiming].foldlM (fun s c => exec sampleApp c.1 s c.2) sampleFrozen.1 =
        .ok t ∧
      [sampleReclaiming, samplePruning].foldlM (fun s c => exec sampleApp c.1 s c.2)
        sampleFrozen.1 = .ok t := by
  apply evacuation_in_any_order sampleFrozen_run le_rfl sampleFrozen_ideal sampleFrozen_sound
    sampleFrozen_escaped
  · simp only [List.forall_mem_cons, List.not_mem_nil, false_implies, implies_true, and_true]
    exact ⟨⟨True.intro, Set.empty_subset _⟩, True.intro, Set.empty_subset _⟩
  · decide
  · simp only [List.forall_mem_cons, List.not_mem_nil, false_implies, implies_true, and_true]
    exact ⟨samplePruning_ok, sampleReclaiming_ok⟩
  · exact List.Perm.swap _ _ _

end Sample

section Departure
attribute [local instance] Crypto.leaver

/-- The leaver gets out with a proof of three siblings, which is the one the settled ledger has for
its account. -/
theorem departed_exits : ∃ batches S lists,
    (settledBatches departed.2).mapM (Batch.decode (2 ^ 32)) = .ok batches ∧
      replayBatches emptyLedger batches = some (S, lists) ∧
      (∃ s', exec samplePriced leaverStep.env departed.1 leaverCall = .ok s') ∧
      S leaver = some ⟨0, 300000, leaver⟩ ∧
      leaverSiblings.flatMap Word.bytes = ((treeOf S).proof leaver).siblings.flatMap Word.bytes ∧
      leaver ∉ exited departed.2 := by
  obtain ⟨batches, S, lists, hdecoded, hreplayed, hiff⟩ :=
    forced_exit_iff departed_run le_rfl departing_ideal departed_sound departed_escaped
  have hleaves : ∃ s', exec samplePriced leaverStep.env departed.1 leaverCall = .ok s' :=
    ⟨leaverLeft, leaverLeft_ok⟩
  obtain ⟨-, hstrings, -⟩ := leaverStep_sound
  obtain ⟨haccount, hsiblings, hfresh, -⟩ := (hiff leaverStep.env leaver 0 300000 leaver
    schemeEd25519 leaverKey leaverSignature (sampleAccount 8) _ hstrings).mp hleaves
  exact ⟨batches, S, lists, hdecoded, hreplayed, hleaves, haccount, hsiblings, hfresh⟩

end Departure

end PaymentRollup.Contract
