import PaymentRollup.Contract.Solvency

/-! # When the sequencer's calls go through

The converse of the effects: what suffices for a batch to be opened, posted and settled and
for a payout to be made.
-/
namespace PaymentRollup.Contract

variable [Crypto]

section Signals

/-- Crediting a live signal, if there is one, does not leave 64 bits. -/
def State.CreditFits (s : State) (discharged : ℕ) : Prop :=
  ∀ deadline ∈ s.escapeDeadline, ∀ progress ∈ s.escapeProgress,
    progress.toNat + discharged < 2 ^ 64 ∧
      (escapeProgressTranche.toNat ≤ progress.toNat + discharged →
        deadline.toNat + s.escapeGrace.toNat < 2 ^ 64)

omit [Crypto] in
theorem State.creditFits_of_short {s : State} {progress : UInt64} {discharged : ℕ}
    (hprogress : s.escapeProgress = some progress)
    (hshort : progress.toNat + discharged < escapeProgressTranche.toNat) :
    s.CreditFits discharged := by
  intro deadline hdeadline count hcount
  cases hprogress.symm.trans hcount
  have htranche : escapeProgressTranche.toNat = 256 := rfl
  constructor
  · omega
  · intro hfull
    exact absurd hfull (Nat.not_le.mpr hshort)

omit [Crypto] in
theorem exists_add {a b : UInt64} (h : a.toNat + b.toNat < 2 ^ 64) : ∃ c, add a b = .ok c := by
  refine ⟨a + b, add_eq_ok.mpr ?_⟩
  rw [UInt64.toNat_add, Nat.mod_eq_of_lt h]

omit [Crypto] in
theorem exists_sub {a b : UInt64} (h : b ≤ a) : ∃ c, sub a b = .ok c := by
  have hle := UInt64.le_iff_toNat_le.mp h
  refine ⟨a - b, sub_eq_ok.mpr ?_⟩
  rw [UInt64.toNat_sub_of_le _ _ h]
  omega

/-- Progress short of a tranche, whenever there is any. -/
def ProgressShort (progress : Option UInt64) : Prop :=
  ∀ p ∈ progress, p < escapeProgressTranche

omit [Crypto] in
theorem Credited.progressShort {grace discharged : UInt64}
    {deadline progress deadline' progress' : Option UInt64}
    (h : Credited grace discharged deadline progress deadline' progress')
    (hs : ProgressShort progress) : ProgressShort progress' := by
  cases h with
  | quiet => exact hs
  | counted hsum hshort =>
    rintro p ⟨⟩
    exact hshort
  | extended =>
    rintro p ⟨⟩
    decide

omit [Crypto] in
theorem Answered.progressShort {grace old cursor : UInt64}
    {deadline target progress deadline' target' progress' : Option UInt64}
    (h : Answered grace old cursor deadline target progress deadline' target' progress')
    (hs : ProgressShort progress) : ProgressShort progress' := by
  cases h with
  | quiet => exact hs
  | reached => exact fun p hp => nomatch hp
  | credited _ _ hcredit => exact hcredit.progressShort hs

theorem Effect.progressShort {app : App} {env : Env} {s s' : State} {call : Call}
    (h : Effect app env s call s') (hs : ProgressShort s.escapeProgress) :
    ProgressShort s'.escapeProgress := by
  cases h with
  | pay _ hcredit =>
    split_ifs at hcredit
    · exact hcredit.progressShort hs
    · rw [hcredit.2]
      exact hs
  | signal =>
    rintro p ⟨⟩
    decide
  | escape => exact fun p hp => nomatch hp
  | settle _ _ _ _ _ _ _ _ _ _ _ hanswer => exact hanswer.progressShort hs
  | _ => exact hs

theorem Run.progressShort {app : App} {funds : ℕ} {round : UInt64} {s : State} {log : Log}
    (h : Run app funds round s log) : ProgressShort s.escapeProgress := by
  induction h with
  | create => exact fun p hp => nomatch hp
  | call hrun env call hround hok ih => exact (exec_effect hok).progressShort ih

omit [Crypto] in
theorem creditEscapeProgress_ok {s : State} {discharged : UInt64}
    (hsignal : Signalled s.escapeDeadline s.escapeInboxTarget s.escapeProgress)
    (hfits : s.CreditFits discharged.toNat) : ∃ s', s.creditEscapeProgress discharged = .ok s' := by
  unfold State.creditEscapeProgress
  generalize hdeadline : s.escapeDeadline = deadline at hsignal
  generalize htarget : s.escapeInboxTarget = target at hsignal
  generalize hcount : s.escapeProgress = progress at hsignal
  cases hsignal with
  | quiet => exact ⟨s, rfl⟩
  | live deadline target progress =>
    obtain ⟨hsum, hgrace⟩ := hfits deadline hdeadline progress hcount
    obtain ⟨total, htotal⟩ := exists_add hsum
    simp only [demand, ok_bind, htotal]
    split_ifs with htranche
    · rw [UInt64.le_iff_toNat_le, add_eq_ok.mp htotal] at htranche
      obtain ⟨later, hlater⟩ := exists_add (hgrace htranche)
      rw [hlater]
      exact ⟨_, rfl⟩
    · exact ⟨_, rfl⟩

omit [Crypto] in
theorem answerSignal_ok {s : State} {old : UInt64}
    (hsignal : Signalled s.escapeDeadline s.escapeInboxTarget s.escapeProgress)
    (hfrom : old ≤ s.settledInboxCursor)
    (hfits : (∀ target ∈ s.escapeInboxTarget, s.settledInboxCursor < target) →
      s.CreditFits (s.settledInboxCursor.toNat - old.toNat)) :
    ∃ s', s.answerSignal old = .ok s' := by
  unfold State.answerSignal
  cases htarget : s.escapeInboxTarget with
  | none => exact ⟨s, rfl⟩
  | some target =>
    simp only
    split_ifs with hreached
    · exact ⟨_, rfl⟩
    · obtain ⟨consumed, hconsumed⟩ := exists_sub hfrom
      have hsum := sub_eq_ok.mp hconsumed
      rw [hconsumed, ok_bind]
      refine creditEscapeProgress_ok hsignal ?_
      have hshort : ∀ t ∈ s.escapeInboxTarget, s.settledInboxCursor < t := by
        intro t ht
        cases htarget.symm.trans ht
        exact UInt64.not_le.mp hreached
      have hdifference : consumed.toNat = s.settledInboxCursor.toNat - old.toNat := by omega
      rw [hdifference]
      exact hfits hshort

end Signals

section Depositing
variable {app : App} {env : Env} {s : State}

theorem deposit_ok {payment : PaymentTxn} {recipient : Address}
    (hsender : payment.sender ≠ app.address) (hself : payment.receiver = app.address)
    (hlive : s.escaped = false) (hcovers : s.boxCost app s.inboxCursor < payment.amount)
    (hnext : s.inboxCursor.toNat + 1 < 2 ^ 64) (hfunds : s.minBalance ≤ s.balance) :
    ∃ s', deposit app env payment recipient s = .ok s' := by
  obtain ⟨amount, hamount⟩ := exists_sub (UInt64.le_of_lt hcovers)
  obtain ⟨next, hcursor⟩ := exists_add (a := s.inboxCursor) (b := 1) hnext
  have hless := UInt64.lt_iff_toNat_lt.mp hcovers
  simp only [deposit, State.createInboxBox, bind_eq_ok, assert_eq_ok, State.checkMinBalance_eq_ok,
    State.receive_eq_ok]
  exact ⟨_, _, ⟨hsender, .inl ⟨hself, by omega, rfl⟩⟩, (), by simp [hlive], (), ⟨hself, hcovers⟩,
    amount, hamount, next, hcursor, by simp only [State.boxCost] at hless ⊢; omega, rfl⟩

end Depositing

section Posting
variable {app : App} {env : Env} {s : State} {items : List InboxItem}

theorem checkpoint_ok (h : s.inboxKeys.Represents items) (hlive : s.escaped = false)
    {target : UInt64} (hfrom : s.settledInboxCursor ≤ target) (hto : target ≤ s.inboxCursor) :
    ∃ chain, s.checkpoint target = .ok chain := by
  have hfrom := UInt64.le_iff_toNat_le.mp hfrom
  have hto := UInt64.le_iff_toNat_le.mp hto
  have hlength : items.length = s.inboxCursor.toNat := h.length
  unfold State.checkpoint
  split_ifs with heq
  · exact ⟨_, rfl⟩
  · have hne : target.toNat ≠ s.settledInboxCursor.toNat := fun hn => heq (UInt64.toNat_inj.mp hn)
    have hone : (1 : UInt64).toNat = 1 := rfl
    obtain ⟨last, hlast⟩ := exists_sub (UInt64.le_iff_toNat_le.mpr (by omega : _ ≤ target.toNat))
      (b := 1)
    have hnext := sub_eq_ok.mp hlast
    have hbox := h.kept hlive last (by simp only [State.inboxKeys]; omega) (by omega)
    obtain ⟨record, hrecord⟩ := Option.ne_none_iff_exists'.mp hbox
    have hrecord : s.inbox last = some record := hrecord
    exact ⟨record.chainAfter, by simp only [hlast, ok_bind, hrecord, demand]⟩

theorem openBatch_ok (hcreator : env.sender = app.creator) (hlive : s.escaped = false)
    (hclosed : s.batchLength = none) (hunpaid : s.pendingWithdrawals = none)
    (hinbox : s.inboxKeys.Represents items) {n target : UInt64}
    (hfrom : s.settledInboxCursor ≤ target) (hto : target ≤ s.inboxCursor) :
    ∃ s', openBatch app env n target s = .ok s' := by
  obtain ⟨chain, hchain⟩ := checkpoint_ok hinbox hlive hfrom hto
  simp only [openBatch, bind_eq_ok, assert_eq_ok, Except.ok.injEq]
  exact ⟨_, (), hcreator, (), by simp [hlive], (), hclosed, (), hunpaid, (), hfrom, (), hto, chain,
    hchain, rfl⟩

theorem accumulateChunk_ok (hcreator : env.sender = app.creator) {settled : ℕ} {n target : UInt64}
    {bytes chunk : Bytes} {before after : List Bytes} (hn : n.toNat = bytes.length)
    (hposting : s.batchKeys.Posting app items settled before n target)
    (hchunks : before ++ chunk :: after = chunks bytes) :
    ∃ s', accumulateChunk app env chunk s = .ok s' := by
  obtain ⟨posted, hposted, hsum, hle⟩ := hposting.posted
  obtain ⟨hmore, hsize⟩ := chunks_next hchunks
  have hlt : posted < n := UInt64.lt_iff_toNat_lt.mpr (by omega)
  obtain ⟨remaining, hremaining⟩ := exists_sub hle
  have hleft := sub_eq_ok.mp hremaining
  have hchunkSize : Contract.chunkSize.toNat = PaymentRollup.chunkSize := rfl
  have hexpected : chunk.length =
      (if remaining < Contract.chunkSize then remaining else Contract.chunkSize).toNat := by
    split_ifs with hlast
    · rw [UInt64.lt_iff_toNat_lt] at hlast
      omega
    · rw [UInt64.not_lt, UInt64.le_iff_toNat_le] at hlast
      omega
  obtain ⟨total, htotal⟩ := exists_add (a := posted)
    (b := if remaining < Contract.chunkSize then remaining else Contract.chunkSize) (by
      have hbound := toNat_lt n
      omega)
  have hlength : s.batchLength = some n := hposting.length
  have haccumulator := hposting.accumulator
  simp only [State.batchKeys] at hposted haccumulator
  simp only [accumulateChunk, bind_eq_ok, assert_eq_ok, demand_eq_ok, Except.ok.injEq]
  exact ⟨_, (), hcreator, (), by simp [hlength], n, hlength, posted, hposted, (), hlt, remaining,
    hremaining, (), hexpected, _, haccumulator, total, htotal, rfl⟩

end Posting

section Settling
variable {app : App} {env : Env} {s : State} {items : List InboxItem}

/-- A fully posted batch settles on a proof of it, unless a deadline has passed or crediting
the signal would overflow. -/
theorem verifyBatch_ok (hcreator : env.sender = app.creator) {settled : ℕ} {n target : UInt64}
    {posted : List Bytes} {verifier : PaymentTxn} {signals : List Word} {p : PublicValues}
    (hsignal : Signalled s.escapeDeadline s.escapeInboxTarget s.escapeProgress)
    (hposting : s.batchKeys.Posting app items settled posted n target)
    (hfull : posted.flatten.length = n.toNat)
    (hfrom : s.settledInboxCursor ≤ target)
    (hreceive : ∃ s', s.receive app verifier = .ok s')
    (hproof : checkProof verifier signals p s = .ok ())
    (hround : ∀ deadline ∈ s.escapeDeadline, env.round ≤ deadline)
    (hroot : p.oldRoot = s.stateRoot)
    (hbatch : p.batchCommitment = commitChunks (deploymentDomain app) n posted)
    (holdChain : p.oldInboxChain = s.settledInboxChain)
    (hnewChain : p.newInboxChain = checkpointAt items target.toNat)
    (hfits : (∀ t ∈ s.escapeInboxTarget, target < t) →
      s.CreditFits (target.toNat - s.settledInboxCursor.toNat)) :
    ∃ s', verifyBatch app env verifier signals p s = .ok s' := by
  obtain ⟨s₁, hreceived⟩ := hreceive
  have hsame : ∃ balance, s₁ = { s with balance := balance } := by
    obtain ⟨-, ⟨-, -, rfl⟩ | ⟨-, rfl⟩⟩ := State.receive_eq_ok.mp hreceived
    · exact ⟨_, rfl⟩
    · exact ⟨s.balance, rfl⟩
  obtain ⟨balance, rfl⟩ := hsame
  obtain ⟨count, hposted, hsum, -⟩ := hposting.posted
  cases UInt64.toNat_inj.mp (hsum.trans hfull)
  have hlength := hposting.length
  have haccumulator := hposting.accumulator
  have hsealedChain := hposting.sealedChain
  have hsealedCursor := hposting.sealedCursor
  have hlive : s.escaped = false := hposting.live
  simp only [State.batchKeys] at hlength hposted haccumulator hsealedChain hsealedCursor
  let settled : State := { State.dropBatch { s with balance := balance } with
    stateRoot := p.newRoot
    settledInboxChain := checkpointAt items target.toNat
    settledInboxCursor := target
    pendingWithdrawals :=
      if p.withdrawalChain ≠ withdrawalTerminal app then some p.withdrawalChain
      else s.pendingWithdrawals }
  obtain ⟨s', hanswer⟩ : ∃ s', settled.answerSignal s.settledInboxCursor = .ok s' :=
    answerSignal_ok hsignal hfrom hfits
  simp only [verifyBatch, bind_eq_ok, assert_eq_ok, demand_eq_ok]
  exact ⟨s', _, hreceived, (), hcreator, (), by simp [hlive], (), hround, (), by simp [hlength],
    n, hlength, n, hposted, (), rfl, (), hproof, (), hroot, _, haccumulator, (), hbatch, (),
    holdChain, _, hsealedChain, (), hnewChain, target, hsealedCursor, hanswer⟩

theorem payWithdrawal_ok (hcreator : env.sender = app.creator)
    (hsignal : Signalled s.escapeDeadline s.escapeInboxTarget s.escapeProgress)
    (hfits : s.CreditFits 1) {recipient : L1Address} {amount : UInt64} {tail : Word}
    (hhead : s.pendingWithdrawals = some (sha256 (payoutString tail recipient amount)))
    (haccepts : env.accepts recipient amount = true)
    (hfunds : s.minBalance + amount.toNat ≤ s.balance) :
    ∃ s', payWithdrawal app env recipient amount tail s = .ok s' := by
  let advanced : State := { s with
    pendingWithdrawals := if tail = withdrawalTerminal app then none else some tail }
  obtain ⟨s₁, hcredit⟩ : ∃ s₁, advanced.creditEscapeProgress 1 = .ok s₁ :=
    creditEscapeProgress_ok hsignal hfits
  have hpaid : ∃ s', s₁.pay app env recipient amount = .ok s' := by
    obtain ⟨deadline, progress, -, rfl⟩ := creditEscapeProgress_eq_ok hcredit
    simp only [State.pay_eq_ok]
    refine ⟨_, le_trans (Nat.le_add_left _ _) hfunds, haccepts, ?_, rfl⟩
    simp only [advanced, balanceAfter]
    split_ifs <;> omega
  obtain ⟨s', hpay⟩ := hpaid
  simp only [payWithdrawal, bind_eq_ok, assert_eq_ok, demand_eq_ok]
  exact ⟨s', (), by simp [hhead], _, hhead, (), rfl, s₁, by rw [if_pos hcreator]; exact hcredit,
    hpay⟩

end Settling

end PaymentRollup.Contract
