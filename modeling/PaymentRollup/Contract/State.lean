import PaymentRollup.Lib.Outcome
import PaymentRollup.Rollup.Transaction

/-! # The settlement contract's state, and what the AVM does around it

Globals that are always present are plain fields and those that get deleted are optional.
The app account's balance and minimum balance belong to the state because the methods
measure and move them.
-/
namespace PaymentRollup.Contract

/-- `"d"` or `"w"`. -/
inductive EntryKind where
  | deposit
  | request
deriving DecidableEq, Repr

structure InboxRecord where
  kind : EntryKind
  address : Address
  recipient : L1Address
  amount : UInt64
  payer : L1Address
  round : UInt64
  chainAfter : Word
deriving DecidableEq, Repr

structure State where
  verifierAddress : L1Address
  programVkeyHash : Word
  recursionVkeyRoot : Word
  stateRoot : Word
  chunkAccumulator : Option Word
  batchLength : Option UInt64
  postedLength : Option UInt64
  inboxChain : Word
  inboxCursor : UInt64
  settledInboxChain : Word
  settledInboxCursor : UInt64
  sealedInboxChain : Option Word
  sealedInboxCursor : Option UInt64
  requestCursor : UInt64
  inbox : UInt64 → Option InboxRecord
  pendingWithdrawals : Option Word
  exits : Address → Option UInt64
  escaped : Bool
  escapeDeadline : Option UInt64
  escapeInboxTarget : Option UInt64
  escapeProgress : Option UInt64
  inboxTimeout : UInt64
  escapeGrace : UInt64
  securityCouncil : L1Address
  updateDelay : UInt64
  pendingVerifierAddress : Option L1Address
  pendingProgramVkeyHash : Option Word
  pendingRecursionVkeyRoot : Option Word
  verifierUpdateAfter : Option UInt64
  applicationUpdateAfter : Option UInt64
  pendingApprovalProgramHash : Option Word
  /-- The pages of the approval program the application runs, and its clear-state program. -/
  approvalProgram : List Bytes
  clearStateProgram : Bytes
  balance : ℕ
  minBalance : ℕ

/-- What is fixed when an application is deployed. -/
structure App where
  creator : L1Address
  address : L1Address
  appId : UInt64
  genesisHash : Word
  testDeployment : Bool
  /-- What the network charges the app's minimum balance for one inbox box. -/
  inboxMbr : UInt64
  exitMbr : UInt64
  /-- The app account's minimum balance with no boxes. -/
  baseMinBalance : ℕ
deriving DecidableEq

/-- What one call sees of the chain around it. -/
structure Env where
  sender : L1Address
  round : UInt64
  /-- Whether an account would stand at or above its own minimum after receiving a payment. -/
  accepts : L1Address → UInt64 → Bool

structure PaymentTxn where
  sender : L1Address
  receiver : L1Address
  amount : UInt64
deriving DecidableEq, Repr

inductive Reject where
  | assertion (message : String)
  /-- A global or box that is read holds nothing. -/
  | missingValue
  /-- The AVM fails on sums and differences that leave 64 bits. -/
  | overflow
  | paymentSender
  | overspend
  | belowMinBalance
  | paymentReceiver
deriving DecidableEq, Repr

/-- A sum as the AVM computes it. -/
def add (a b : UInt64) : Except Reject UInt64 := demand (checkedAdd a b) .overflow

def sub (a b : UInt64) : Except Reject UInt64 := demand (checkedSub a b) .overflow

def assert (p : Prop) [Decidable p] (message : String) : Except Reject Unit :=
  require p (.assertion message)

theorem add_eq_ok {a b c : UInt64} : add a b = .ok c ↔ c.toNat = a.toNat + b.toNat := by
  rw [add, demand_eq_ok, checkedAdd_eq_some]

theorem sub_eq_ok {a b c : UInt64} : sub a b = .ok c ↔ a.toNat = c.toNat + b.toNat := by
  rw [sub, demand_eq_ok, checkedSub_eq_some]

@[simp] theorem assert_eq_ok {p : Prop} [Decidable p] {message : String} {u : Unit} :
    assert p message = .ok u ↔ p := require_eq_ok

section Payments
variable (app : App)

/-- Every account a transaction touched must stand at its minimum balance when it ends. -/
def State.checkMinBalance (s : State) : Except Reject State := do
  require (s.minBalance ≤ s.balance) .belowMinBalance
  .ok s

/-- A payment of the group takes effect before the call; nobody can sign for the app account. -/
def State.receive (s : State) (payment : PaymentTxn) : Except Reject State := do
  require (payment.sender ≠ app.address) .paymentSender
  if payment.receiver = app.address then
    State.checkMinBalance { s with balance := s.balance + payment.amount.toNat }
  else .ok s

/-- An inner payment with fee 0. -/
def State.pay (env : Env) (s : State) (receiver : L1Address) (amount : UInt64) :
    Except Reject State := do
  require (amount.toNat ≤ s.balance) .overspend
  require (env.accepts receiver amount) .paymentReceiver
  State.checkMinBalance
    (if receiver = app.address then s else { s with balance := s.balance - amount.toNat })

variable {app}

@[simp] theorem State.checkMinBalance_eq_ok {s s' : State} :
    s.checkMinBalance = .ok s' ↔ s.minBalance ≤ s.balance ∧ s = s' := by
  simp [State.checkMinBalance]

theorem State.receive_eq_ok {s s' : State} {payment : PaymentTxn} :
    s.receive app payment = .ok s' ↔ payment.sender ≠ app.address ∧
      ((payment.receiver = app.address ∧ s.minBalance ≤ s.balance + payment.amount.toNat ∧
          { s with balance := s.balance + payment.amount.toNat } = s') ∨
        (payment.receiver ≠ app.address ∧ s = s')) := by
  by_cases h : payment.receiver = app.address <;> simp [State.receive, h]

def balanceAfter (app : App) (balance : ℕ) (receiver : L1Address) (amount : UInt64) : ℕ :=
  if receiver = app.address then balance else balance - amount.toNat

theorem State.pay_eq_ok {env : Env} {s s' : State} {receiver : L1Address} {amount : UInt64} :
    s.pay app env receiver amount = .ok s' ↔ amount.toNat ≤ s.balance ∧
      env.accepts receiver amount = true ∧
      s.minBalance ≤ balanceAfter app s.balance receiver amount ∧
      { s with balance := balanceAfter app s.balance receiver amount } = s' := by
  by_cases h : receiver = app.address <;> simp [State.pay, balanceAfter, h]

end Payments

section Boxes

/-- What `appMinBalance` rises by when the inbox box at `index` is created. -/
def State.boxCost (app : App) (s : State) (index : UInt64) : UInt64 :=
  if (s.inbox index).isNone then app.inboxMbr else 0

def State.createInboxBox (app : App) (s : State) (index : UInt64) : State :=
  { s with minBalance := s.minBalance + (s.boxCost app index).toNat }

/-- Delete an inbox box that exists; the minimum balance falls by what the box had cost. -/
def State.deleteInboxBox (app : App) (s : State) (index : UInt64) : State :=
  { s with
    inbox := Function.update s.inbox index none
    minBalance := s.minBalance - app.inboxMbr.toNat }

end Boxes

end PaymentRollup.Contract
