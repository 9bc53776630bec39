import PaymentRollup.Rollup.Chains

/-! # Replay without witnesses

What a batch means: transactions applied in order to a map of accounts, with nothing
about trees, proofs or signatures. The verifier and the sequencer are compared with this.
-/
namespace PaymentRollup

/-- The account after spending `amount` and `fee` and using up one nonce. -/
def Account.debited (a : Account) (amount fee : UInt64) : Option Account := do
  let nonce ← checkedAdd a.nonce 1
  let balance ← checkedSub a.amount amount
  let balance ← checkedSub balance fee
  some ⟨nonce, balance, a.authAddress⟩

def Account.credited (a : Account) (amount : UInt64) : Option Account := do
  let balance ← checkedAdd a.amount amount
  some ⟨a.nonce, balance, a.authAddress⟩

/-- The account after L1 has ordered its whole balance out. -/
def Account.emptied (a : Account) : Option Account := do
  let nonce ← checkedAdd a.nonce 1
  some ⟨nonce, 0, a.authAddress⟩

theorem Account.bumpNonce_eq_ok {a b : Account} :
    a.bumpNonce = .ok b ↔ ∃ nonce, checkedAdd a.nonce 1 = some nonce ∧ b = { a with nonce } := by
  unfold bumpNonce
  cases checkedAdd a.nonce 1 with
  | none => simp
  | some nonce => simp [eq_comm]

theorem Account.debited_eq_some {a post : Account} {amount fee : UInt64} :
    a.debited amount fee = some post ↔ ∃ nonce balance, checkedAdd a.nonce 1 = some nonce ∧
      ((checkedSub a.amount amount).bind fun balance => checkedSub balance fee) = some balance ∧
      post = ⟨nonce, balance, a.authAddress⟩ := by
  simp only [debited, Option.bind_eq_bind, Option.bind_eq_some_iff, Option.some.injEq]
  constructor
  · rintro ⟨nonce, hn, b, hb, b', hb', rfl⟩
    exact ⟨nonce, b', hn, ⟨b, hb, hb'⟩, rfl⟩
  · rintro ⟨nonce, b', hn, ⟨b, hb, hb'⟩, rfl⟩
    exact ⟨nonce, hn, b, hb, b', hb', rfl⟩

theorem Account.credited_eq_some {a post : Account} {amount : UInt64} :
    a.credited amount = some post ↔ ∃ balance, checkedAdd a.amount amount = some balance ∧
      post = ⟨a.nonce, balance, a.authAddress⟩ := by
  simp only [credited, Option.bind_eq_bind, Option.bind_eq_some_iff, Option.some.injEq]
  exact exists_congr fun balance => and_congr_right fun _ => eq_comm

theorem Account.emptied_eq_some {a post : Account} :
    a.emptied = some post ↔ ∃ nonce, checkedAdd a.nonce 1 = some nonce ∧
      post = ⟨nonce, 0, a.authAddress⟩ := by
  simp only [emptied, Option.bind_eq_bind, Option.bind_eq_some_iff, Option.some.injEq]
  exact exists_congr fun nonce => and_congr_right fun _ => eq_comm

namespace Replay

def debit (S : AccountMap) (sender : Address) (amount fee : UInt64) : Option AccountMap := do
  let account ← S sender
  let account ← account.debited amount fee
  some (Function.update S sender (some account))

/-- A credit to an absent address starts from the empty account. -/
def credit (S : AccountMap) (receiver : Address) (amount : UInt64) : Option AccountMap := do
  let account ← ((S receiver).getD (Account.empty receiver)).credited amount
  some (Function.update S receiver (some account))

def creditFee (S : AccountMap) (fee : UInt64) : Option AccountMap :=
  if fee = 0 then some S else credit S feeSink fee

/-- A forced withdrawal below the minimum, or of no account, changes nothing. -/
def force (S : AccountMap) (address : Address) (recipient : L1Address) :
    Option (AccountMap × List Payout) :=
  match S address with
  | none => some (S, [])
  | some account =>
    if minWithdrawal ≤ account.amount then do
      let emptied ← account.emptied
      some (Function.update S address (some emptied), [(recipient, account.amount)])
    else some (S, [])

def step (S : AccountMap) : Transaction → Option (AccountMap × List Payout)
  | .payment p => do
    let S ← debit S p.header.sender p.amount p.header.fee
    let S ← credit S p.receiver p.amount
    let S ← creditFee S p.header.fee
    some (S, [])
  | .deposit d => do
    let S ← credit S d.receiver d.amount
    some (S, [])
  | .withdrawal w =>
    if minWithdrawal ≤ w.amount then do
      let S ← debit S w.header.sender w.amount w.header.fee
      let S ← creditFee S w.header.fee
      some (S, [(w.recipient, w.amount)])
    else none
  | .forcedWithdrawal f => force S f.address f.recipient

section Inversion
variable {S S' : AccountMap}

theorem debit_eq_some {sender : Address} {amount fee : UInt64} :
    debit S sender amount fee = some S' ↔ ∃ account post, S sender = some account ∧
      account.debited amount fee = some post ∧ S' = Function.update S sender (some post) := by
  simp only [debit, Option.bind_eq_bind, Option.bind_eq_some_iff, Option.some.injEq]
  constructor
  · rintro ⟨account, haccount, post, hpost, rfl⟩
    exact ⟨account, post, haccount, hpost, rfl⟩
  · rintro ⟨account, post, haccount, hpost, rfl⟩
    exact ⟨account, haccount, post, hpost, rfl⟩

theorem credit_eq_some {receiver : Address} {amount : UInt64} :
    credit S receiver amount = some S' ↔ ∃ post,
      ((S receiver).getD (Account.empty receiver)).credited amount = some post ∧
        S' = Function.update S receiver (some post) := by
  simp only [credit, Option.bind_eq_bind, Option.bind_eq_some_iff, Option.some.injEq]
  exact exists_congr fun post => and_congr_right fun _ => eq_comm

theorem creditFee_eq_some {fee : UInt64} : creditFee S fee = some S' ↔
    (fee = 0 ∧ S' = S) ∨ (fee ≠ 0 ∧ credit S feeSink fee = some S') := by
  by_cases hfee : fee = 0 <;> simp [creditFee, hfee, eq_comm]

/-- Every way a transaction can apply, with the writes it consists of. -/
inductive Stepped (S : AccountMap) : Transaction → AccountMap → List Payout → Prop
  | payment {p : Payment} {S₁ S₂ S₃ : AccountMap}
      (hdebit : debit S p.header.sender p.amount p.header.fee = some S₁)
      (hcredit : credit S₁ p.receiver p.amount = some S₂)
      (hfee : creditFee S₂ p.header.fee = some S₃) : Stepped S (.payment p) S₃ []
  | deposit {d : Deposit} {S₁ : AccountMap} (hcredit : credit S d.receiver d.amount = some S₁) :
      Stepped S (.deposit d) S₁ []
  | withdrawal {w : Withdrawal} {S₁ S₂ : AccountMap} (hmin : minWithdrawal ≤ w.amount)
      (hdebit : debit S w.header.sender w.amount w.header.fee = some S₁)
      (hfee : creditFee S₁ w.header.fee = some S₂) :
      Stepped S (.withdrawal w) S₂ [(w.recipient, w.amount)]
  | emptied {f : ForcedWithdrawal} {account : Account} {nonce : UInt64}
      (haccount : S f.address = some account) (hmin : minWithdrawal ≤ account.amount)
      (hnonce : checkedAdd account.nonce 1 = some nonce) :
      Stepped S (.forcedWithdrawal f)
        (Function.update S f.address (some ⟨nonce, 0, account.authAddress⟩))
        [(f.recipient, account.amount)]
  | spared {f : ForcedWithdrawal}
      (hdust : ∀ account, S f.address = some account → account.amount < minWithdrawal) :
      Stepped S (.forcedWithdrawal f) S []

theorem step_cases {txn : Transaction} {paid : List Payout}
    (h : step S txn = some (S', paid)) : Stepped S txn S' paid := by
  cases txn with
  | payment p =>
    simp only [step, Option.bind_eq_bind, Option.bind_eq_some_iff, Option.some.injEq,
      Prod.mk.injEq] at h
    obtain ⟨S₁, hdebit, S₂, hcredit, S₃, hfee, rfl, rfl⟩ := h
    exact .payment hdebit hcredit hfee
  | deposit d =>
    simp only [step, Option.bind_eq_bind, Option.bind_eq_some_iff, Option.some.injEq,
      Prod.mk.injEq] at h
    obtain ⟨S₁, hcredit, rfl, rfl⟩ := h
    exact .deposit hcredit
  | withdrawal w =>
    simp only [step] at h
    split_ifs at h with hmin
    simp only [Option.bind_eq_bind, Option.bind_eq_some_iff, Option.some.injEq,
      Prod.mk.injEq] at h
    obtain ⟨S₁, hdebit, S₂, hfee, rfl, rfl⟩ := h
    exact .withdrawal hmin hdebit hfee
  | forcedWithdrawal f =>
    simp only [step, force] at h
    cases haccount : S f.address with
    | none =>
      simp only [haccount, Option.some.injEq, Prod.mk.injEq] at h
      obtain ⟨rfl, rfl⟩ := h
      exact .spared fun account hsome => nomatch haccount.symm.trans hsome
    | some account =>
      simp only [haccount] at h
      split_ifs at h with hmin
      · simp only [Option.bind_eq_bind, Option.bind_eq_some_iff, Option.some.injEq,
          Prod.mk.injEq] at h
        obtain ⟨post, hpost, rfl, rfl⟩ := h
        obtain ⟨nonce, hnonce, rfl⟩ := Account.emptied_eq_some.mp hpost
        exact .emptied haccount hmin hnonce
      · cases h
        refine .spared fun other hother => ?_
        cases haccount.symm.trans hother
        exact UInt64.not_le.mp hmin

end Inversion

end Replay

/-- The accounts a list of transactions leads to, and the payouts it authorizes. -/
def replay : AccountMap → List Transaction → Option (AccountMap × List Payout)
  | S, [] => some (S, [])
  | S, txn :: rest => do
    let (S, paid) ← Replay.step S txn
    let (S, later) ← replay S rest
    some (S, paid ++ later)

@[simp] theorem replay_nil (S : AccountMap) : replay S [] = some (S, []) := rfl

theorem replay_cons_eq_some {S S' : AccountMap} {txn : Transaction} {rest : List Transaction}
    {payouts : List Payout} : replay S (txn :: rest) = some (S', payouts) ↔
      ∃ S₁ paid later, Replay.step S txn = some (S₁, paid) ∧ replay S₁ rest = some (S', later) ∧
        payouts = paid ++ later := by
  simp only [replay, Option.bind_eq_bind, Option.bind_eq_some_iff, Option.some.injEq,
    Prod.mk.injEq, Prod.exists]
  constructor
  · rintro ⟨S₁, paid, hstep, S₂, later, hrest, rfl, rfl⟩
    exact ⟨S₁, paid, later, hstep, hrest, rfl⟩
  · rintro ⟨S₁, paid, later, hstep, hrest, rfl⟩
    exact ⟨S₁, paid, hstep, S', later, hrest, rfl, rfl⟩

theorem replay_append_eq_some {S S' : AccountMap} {xs ys : List Transaction}
    {payouts : List Payout} : replay S (xs ++ ys) = some (S', payouts) ↔
      ∃ S₁ paid later, replay S xs = some (S₁, paid) ∧ replay S₁ ys = some (S', later) ∧
        payouts = paid ++ later := by
  induction xs generalizing S payouts with
  | nil => simp
  | cons txn rest ih =>
    simp only [List.cons_append, replay_cons_eq_some, ih]
    constructor
    · rintro ⟨S₁, p, _, hstep, ⟨S₂, p', later, hrest, hys, rfl⟩, rfl⟩
      exact ⟨S₂, p ++ p', later, ⟨S₁, p, p', hstep, hrest, rfl⟩, hys, (List.append_assoc ..).symm⟩
    · rintro ⟨S₂, _, later, ⟨S₁, p, p', hstep, hrest, rfl⟩, hys, rfl⟩
      exact ⟨S₁, p, p' ++ later, hstep, ⟨S₂, p', later, hrest, hys, rfl⟩, List.append_assoc ..⟩

end PaymentRollup
