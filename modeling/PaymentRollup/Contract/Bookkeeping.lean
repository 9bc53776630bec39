import PaymentRollup.Contract.History

/-! # What the contract's counters, boxes and chains stand for

Three invariants of every run, none of which rests on the hash: the inbox keys and boxes
represent the arrivals, the batch keys represent the chunks posted so far, and the keys of
an escape signal come and go together.
-/
namespace PaymentRollup.Contract

section Statements

/-- The globals and boxes that the inbox consists of. -/
structure InboxKeys where
  chain : Word
  cursor : UInt64
  settledChain : Word
  settledCursor : UInt64
  box : UInt64 → Option InboxRecord
  escaped : Bool

def State.inboxKeys (s : State) : InboxKeys :=
  ⟨s.inboxChain, s.inboxCursor, s.settledInboxChain, s.settledInboxCursor, s.inbox, s.escaped⟩

/-- The five keys of the batch being posted, and what has to be clear of one. -/
structure BatchKeys where
  accumulator : Option Word
  length : Option UInt64
  posted : Option UInt64
  sealedChain : Option Word
  sealedCursor : Option UInt64
  pending : Option Word
  escaped : Bool

def State.batchKeys (s : State) : BatchKeys :=
  ⟨s.chunkAccumulator, s.batchLength, s.postedLength, s.sealedInboxChain, s.sealedInboxCursor,
    s.pendingWithdrawals, s.escaped⟩

def InboxRecord.item (record : InboxRecord) : InboxItem :=
  match record.kind with
  | .deposit => .deposit record.address record.amount
  | .request => .forcedWithdrawal record.address record.recipient

variable [Crypto]

def checkpointAt (items : List InboxItem) (n : ℕ) : Word :=
  foldInbox inboxChainGenesis (items.take n)

/-- The box at `i` holds the entry that arrived there and the chain word after it. -/
structure InboxRecord.Records (record : InboxRecord) (items : List InboxItem) (i : ℕ) :
    Prop where
  item : items[i]? = some record.item
  chain : record.chainAfter = checkpointAt items (i + 1)

structure InboxKeys.Represents (k : InboxKeys) (items : List InboxItem) : Prop where
  length : items.length = k.cursor.toNat
  chain : k.chain = foldInbox inboxChainGenesis items
  settled : k.settledCursor.toNat ≤ items.length
  settledChain : k.settledChain = checkpointAt items k.settledCursor.toNat
  box : ∀ i record, k.box i = some record → record.Records items i.toNat
  kept : k.escaped = false → ∀ i : UInt64, k.settledCursor.toNat ≤ i.toNat →
    i.toNat < items.length → k.box i ≠ none

/-- A batch of `n` bytes is being posted, sealed at an inbox prefix of `c` entries. -/
structure BatchKeys.Posting (app : App) (k : BatchKeys) (items : List InboxItem) (settled : ℕ)
    (chunks : List Bytes) (n c : UInt64) : Prop where
  length : k.length = some n
  posted : ∃ posted, k.posted = some posted ∧ posted.toNat = chunks.flatten.length ∧ posted ≤ n
  accumulator : k.accumulator = some (commitChunks (deploymentDomain app) n chunks)
  sealedCursor : k.sealedCursor = some c
  sealedFrom : settled ≤ c.toNat
  sealedTo : c.toNat ≤ items.length
  sealedChain : k.sealedChain = some (checkpointAt items c.toNat)
  unpaid : k.pending = none
  live : k.escaped = false

/-- No batch is being posted and none of its five keys exist. -/
def BatchKeys.Closed (k : BatchKeys) : Prop :=
  k.accumulator = none ∧ k.length = none ∧ k.posted = none ∧ k.sealedChain = none ∧
    k.sealedCursor = none

def BatchKeys.Represents (app : App) (k : BatchKeys) (items : List InboxItem) (settled : ℕ)
    (chunks : List Bytes) : Prop :=
  k.Closed ∨ ∃ n c, k.Posting app items settled chunks n c

/-- The keys of an escape signal exist together or not at all. -/
inductive Signalled : Option UInt64 → Option UInt64 → Option UInt64 → Prop
  | quiet : Signalled none none none
  | live (deadline target progress : UInt64) :
      Signalled (some deadline) (some target) (some progress)

/-- Everything a run keeps without any assumption on the hash. -/
structure Kept (app : App) (s : State) (items : List InboxItem) (chunks : List Bytes) :
    Prop where
  inbox : s.inboxKeys.Represents items
  batch : s.batchKeys.Represents app items s.settledInboxCursor.toNat chunks
  signal : Signalled s.escapeDeadline s.escapeInboxTarget s.escapeProgress

end Statements

variable [Crypto]

section Inbox
variable {k : InboxKeys} {items : List InboxItem}

theorem checkpointAt_append {n : ℕ} (h : n ≤ items.length) (later : List InboxItem) :
    checkpointAt (items ++ later) n = checkpointAt items n := by
  rw [checkpointAt, List.take_append_of_le_length h, checkpointAt]

theorem InboxRecord.Records.append {record : InboxRecord} {i : ℕ}
    (h : record.Records items i) (later : List InboxItem) :
    record.Records (items ++ later) i := by
  have hi : i < items.length := (List.getElem?_eq_some_iff.mp h.item).1
  refine ⟨?_, ?_⟩
  · rw [List.getElem?_append_left hi]
    exact h.item
  · rw [checkpointAt_append hi]
    exact h.chain

theorem InboxKeys.Represents.create (escaped : Bool) :
    InboxKeys.Represents ⟨Word.zero, 0, Word.zero, 0, fun _ => none, escaped⟩ [] := by
  refine ⟨rfl, rfl, Nat.zero_le _, rfl, ?_, ?_⟩
  · intro i record h
    cases h
  · intro _ i _ h
    exact absurd h (Nat.not_lt_zero _)

theorem InboxKeys.Represents.fresh (h : k.Represents items) :
    k.box k.cursor = none := by
  cases hbox : k.box k.cursor with
  | none => rfl
  | some record =>
    have hlt := (List.getElem?_eq_some_iff.mp (h.box _ _ hbox).item).1
    exact absurd hlt (h.length ▸ Nat.lt_irrefl _)

theorem InboxKeys.Represents.push (h : k.Represents items) {item : InboxItem}
    {record : InboxRecord} {word : Word} {next : UInt64} (hitem : record.item = item)
    (hword : record.chainAfter = word) (hchain : word = sha256 (item.string k.chain))
    (hnext : next.toNat = k.cursor.toNat + 1) :
    InboxKeys.Represents { k with
      chain := word
      cursor := next
      box := Function.update k.box k.cursor (some record) } (items ++ [item]) := by
  have hfold : word = foldInbox inboxChainGenesis (items ++ [item]) := by
    rw [foldInbox_append, ← h.chain, hchain]
    rfl
  have hlength : (items ++ [item]).length = items.length + 1 := List.length_append
  refine ⟨?_, hfold, ?_, ?_, ?_, ?_⟩
  · rw [hlength, h.length]
    exact hnext.symm
  · exact h.settled.trans (hlength ▸ Nat.le_succ _)
  · exact h.settledChain.trans (checkpointAt_append h.settled _).symm
  · intro i found hfound
    simp only [Function.update_apply] at hfound
    split_ifs at hfound with hi
    · cases hfound
      rw [hi]
      refine ⟨?_, ?_⟩
      · rw [← h.length, List.getElem?_append_right le_rfl, Nat.sub_self, hitem]
        rfl
      · rw [hword, hfold, ← h.length, checkpointAt, List.take_of_length_le hlength.le]
    · exact (h.box i found hfound).append _
  · intro hlive i hfrom hto
    simp only [Function.update_apply]
    split_ifs with hi
    · exact Option.some_ne_none _
    · refine h.kept hlive i hfrom ?_
      have hne : i.toNat ≠ k.cursor.toNat := fun heq => hi (UInt64.toNat_inj.mp heq)
      rw [hlength, h.length] at hto
      rw [h.length]
      omega

/-- A box may go once its entry is settled or nothing will settle any more. -/
theorem InboxKeys.Represents.erase (h : k.Represents items) {index : UInt64}
    (hdone : index < k.settledCursor ∨ k.escaped = true) :
    InboxKeys.Represents { k with box := Function.update k.box index none } items := by
  refine ⟨h.length, h.chain, h.settled, h.settledChain, ?_, ?_⟩
  · intro i record hrecord
    simp only [Function.update_apply] at hrecord
    split_ifs at hrecord
    exact h.box i record hrecord
  · intro hlive i hfrom hto
    have hi : i ≠ index := by
      rintro rfl
      rcases hdone with hsettled | hescaped
      · exact absurd hfrom (Nat.not_le.mpr (UInt64.lt_iff_toNat_lt.mp hsettled))
      · exact absurd (hlive.symm.trans hescaped) (by decide)
    simp only [Function.update_of_ne hi]
    exact h.kept hlive i hfrom hto

theorem InboxKeys.Represents.settle (h : k.Represents items) {cursor : UInt64}
    (hfrom : k.settledCursor.toNat ≤ cursor.toNat) (hto : cursor.toNat ≤ items.length) :
    InboxKeys.Represents { k with
      settledChain := checkpointAt items cursor.toNat
      settledCursor := cursor } items :=
  ⟨h.length, h.chain, hto, rfl, h.box, fun hlive i hi => h.kept hlive i (hfrom.trans hi)⟩

theorem InboxKeys.Represents.freeze (h : k.Represents items) :
    InboxKeys.Represents { k with escaped := true } items :=
  ⟨h.length, h.chain, h.settled, h.settledChain, h.box, fun hlive => by cases hlive⟩

theorem checkpoint_eq_ok {s : State} (h : s.inboxKeys.Represents items) {target : UInt64}
    {chain : Word} (hok : s.checkpoint target = .ok chain) :
    chain = checkpointAt items target.toNat := by
  unfold State.checkpoint at hok
  split_ifs at hok with heq
  · cases hok
    rw [heq]
    exact h.settledChain
  · simp only [bind_eq_ok, sub_eq_ok, demand_eq_ok, Except.ok.injEq] at hok
    obtain ⟨last, hlast, record, hbox, rfl⟩ := hok
    rw [(h.box last record hbox).chain, hlast]
    rfl

end Inbox

section Batch
variable {app : App} {k : BatchKeys} {items : List InboxItem} {settled : ℕ} {chunks : List Bytes}

theorem BatchKeys.Posting.arrive {n c : UInt64}
    (h : k.Posting app items settled chunks n c) (later : List InboxItem) :
    k.Posting app (items ++ later) settled chunks n c := by
  have hto : c.toNat ≤ (items ++ later).length := by
    rw [List.length_append]
    exact h.sealedTo.trans (Nat.le_add_right ..)
  refine ⟨h.length, h.posted, h.accumulator, h.sealedCursor, h.sealedFrom, hto, ?_, h.unpaid,
    h.live⟩
  rw [checkpointAt_append h.sealedTo]
  exact h.sealedChain

theorem BatchKeys.Represents.arrive (h : k.Represents app items settled chunks)
    (later : List InboxItem) : k.Represents app (items ++ later) settled chunks := by
  rcases h with hclosed | ⟨n, c, hposting⟩
  · exact .inl hclosed
  · exact .inr ⟨n, c, hposting.arrive later⟩

theorem BatchKeys.Posting.push {n c posted posted' : UInt64} {accumulator : Word}
    {chunk : Bytes} (h : k.Posting app items settled chunks n c)
    (hposted : k.posted = some posted) (haccumulator : k.accumulator = some accumulator)
    (hfits : posted.toNat + chunk.length ≤ n.toNat)
    (hsum : posted'.toNat = posted.toNat + chunk.length) :
    BatchKeys.Posting app { k with
      accumulator := some (sha256 (chunkString accumulator chunk))
      posted := some posted' } items settled (chunks ++ [chunk]) n c := by
  obtain ⟨_, hposted', hlength, -⟩ := h.posted
  cases hposted.symm.trans hposted'
  have haccumulated := Option.some.inj (haccumulator.symm.trans h.accumulator)
  refine ⟨h.length, ⟨posted', rfl, ?_, ?_⟩, ?_, h.sealedCursor, h.sealedFrom, h.sealedTo,
    h.sealedChain, h.unpaid, h.live⟩
  · rw [hsum, hlength]
    simp
  · rw [UInt64.le_iff_toNat_le]
    omega
  · rw [haccumulated, commitChunks_concat]
    rfl

end Batch

omit [Crypto] in
theorem Credited.signalled {grace discharged : UInt64}
    {deadline progress deadline' progress' target : Option UInt64}
    (h : Credited grace discharged deadline progress deadline' progress')
    (hs : Signalled deadline target progress) : Signalled deadline' target progress' := by
  cases h with
  | quiet => exact hs
  | counted => cases hs; exact .live ..
  | extended => cases hs; exact .live ..

omit [Crypto] in
theorem Answered.signalled {grace old cursor : UInt64}
    {deadline target progress deadline' target' progress' : Option UInt64}
    (h : Answered grace old cursor deadline target progress deadline' target' progress')
    (hs : Signalled deadline target progress) : Signalled deadline' target' progress' := by
  cases h with
  | quiet => exact hs
  | reached => exact .quiet
  | credited _ _ hcredit => exact hcredit.signalled hs

omit [Crypto] in
theorem BatchKeys.Closed.length_eq {k : BatchKeys} (h : k.Closed) : k.length = none := h.2.1

theorem BatchKeys.Represents.closed {app : App} {k : BatchKeys} {items : List InboxItem}
    {settled : ℕ} {chunks : List Bytes} (h : k.Represents app items settled chunks)
    (hnone : k.length = none) : k.Closed := by
  rcases h with hclosed | ⟨n, c, hposting⟩
  · exact hclosed
  · exact absurd (hposting.length.symm.trans hnone) (Option.some_ne_none _)

theorem BatchKeys.Represents.posting {app : App} {k : BatchKeys} {items : List InboxItem}
    {settled : ℕ} {chunks : List Bytes} (h : k.Represents app items settled chunks) {n : UInt64}
    (hsome : k.length = some n) : ∃ c, k.Posting app items settled chunks n c := by
  rcases h with hclosed | ⟨n', c, hposting⟩
  · exact absurd (hsome.symm.trans hclosed.length_eq) (Option.some_ne_none _)
  · cases hsome.symm.trans hposting.length
    exact ⟨c, hposting⟩

section Runs
variable {app : App} {env : Env} {s s' : State} {call : Call} {log : Log}

theorem Kept.create {verifierAddress : L1Address} {programVkeyHash recursionVkeyRoot : Word}
    {inboxTimeout escapeGrace : UInt64} {securityCouncil : L1Address} {updateDelay : UInt64}
    {approvalProgram : List Bytes} {clearStateProgram : Bytes} {balance : ℕ} :
    Kept app (createApplication app verifierAddress programVkeyHash recursionVkeyRoot inboxTimeout
      escapeGrace securityCouncil updateDelay approvalProgram clearStateProgram balance) [] [] :=
  ⟨InboxKeys.Represents.create false, .inl ⟨rfl, rfl, rfl, rfl, rfl⟩, .quiet⟩

theorem Kept.quiet (hquiet : call.IsQuiet)
    (hinbox : s'.inboxKeys.Represents (arrivals app log))
    (hbatch : s'.batchKeys.Represents app (arrivals app log) s'.settledInboxCursor.toNat
      (posted log))
    (hsignal : Signalled s'.escapeDeadline s'.escapeInboxTarget s'.escapeProgress) :
    Kept app s' (arrivals app (⟨s, env, call, s'⟩ :: log)) (posted (⟨s, env, call, s'⟩ :: log)) := by
  obtain ⟨harrivals, hposted, -⟩ :=
    projections_quiet app ⟨s, env, call, s'⟩ hquiet log
  rw [harrivals, hposted]
  exact ⟨hinbox, hbatch, hsignal⟩

theorem Kept.step (h : Kept app s (arrivals app log) (posted log))
    (heffect : Effect app env s call s') :
    Kept app s' (arrivals app (⟨s, env, call, s'⟩ :: log)) (posted (⟨s, env, call, s'⟩ :: log)) := by
  cases heffect with
  | inert hcall hbalance => exact Kept.quiet hcall.isQuiet h.inbox h.batch h.signal
  | deposit hlive hpos hamount hnext =>
    simp only [arrivals, sub_eq_of_toNat hamount]
    exact ⟨h.inbox.push rfl rfl rfl hnext, h.batch.arrive _, h.signal⟩
  | request hlive hamount hnonce hkey hsig hnext hnextNonce =>
    exact ⟨h.inbox.push rfl rfl rfl hnext, h.batch.arrive _, h.signal⟩
  | @prune call index record hbox hcall hfunds =>
    have hquiet : call.IsQuiet := by
      rcases hcall with ⟨rfl, -⟩ | ⟨rfl, -⟩ <;> exact True.intro
    have hdone : index < s.settledInboxCursor ∨ s.escaped = true := by
      rcases hcall with ⟨-, -, hdone⟩ | ⟨-, -, hsettled⟩
      · exact hdone
      · exact .inl hsettled
    exact Kept.quiet hquiet (h.inbox.erase hdone) h.batch h.signal
  | reclaim hescaped =>
    exact Kept.quiet True.intro (h.inbox.erase (.inr hescaped)) h.batch h.signal
  | pay hhead hcredit hfunds =>
    refine ⟨h.inbox, ?_, ?_⟩
    · rcases h.batch with hclosed | ⟨n, c, hposting⟩
      · exact .inl hclosed
      · exact absurd (hhead.symm.trans hposting.unpaid) (Option.some_ne_none _)
    · split_ifs at hcredit with hcreator
      · exact hcredit.signalled h.signal
      · obtain ⟨rfl, rfl⟩ := hcredit
        exact h.signal
  | exit => exact Kept.quiet True.intro h.inbox h.batch h.signal
  | signal => exact Kept.quiet True.intro h.inbox h.batch (.live ..)
  | @escape call dropped hdropped hlive hcall =>
    have hquiet : call.IsQuiet := by
      rcases hcall with ⟨rfl, -⟩ | ⟨rfl, -⟩ <;> exact True.intro
    by_cases hopen : s.batchLength.isSome
    · rw [if_pos hopen] at hdropped
      subst hdropped
      exact Kept.quiet hquiet h.inbox.freeze (.inl ⟨rfl, rfl, rfl, rfl, rfl⟩) .quiet
    · rw [if_neg hopen] at hdropped
      subst hdropped
      have hclosed := h.batch.closed (Option.not_isSome_iff_eq_none.mp hopen)
      exact Kept.quiet hquiet h.inbox.freeze (.inl hclosed) .quiet
  | abandon => exact Kept.quiet True.intro h.inbox (.inl ⟨rfl, rfl, rfl, rfl, rfl⟩) h.signal
  | @openBatch n target chain hcreator hlive hclosed hpaid hfrom hto hchain =>
    have harrived : target.toNat ≤ (arrivals app log).length := by
      rw [h.inbox.length]
      exact UInt64.le_iff_toNat_le.mp hto
    exact ⟨h.inbox, .inr ⟨n, target, rfl, ⟨0, rfl, rfl, UInt64.le_iff_toNat_le.mpr (Nat.zero_le _)⟩,
      rfl, rfl, UInt64.le_iff_toNat_le.mp hfrom, harrived,
      congrArg some (checkpoint_eq_ok h.inbox hchain), hpaid, hlive⟩, h.signal⟩
  | @chunk chunk n postedLength posted accumulator hcreator hlength hposted hmore hchunk hacc hsum =>
    obtain ⟨c, hposting⟩ := h.batch.posting hlength
    rw [UInt64.lt_iff_toNat_lt] at hmore
    exact ⟨h.inbox, .inr ⟨n, c, hposting.push hposted hacc (by omega) hsum⟩, h.signal⟩
  | @settle verifier signals p balance n c deadline target progress hcreator hlive hround hlength
      hposted hproof hroot hacc hfrom hto hcursor hanswer =>
    obtain ⟨c', hposting⟩ := h.batch.posting hlength
    cases hcursor.symm.trans hposting.sealedCursor
    have hchain := Option.some.inj (hto.symm.trans hposting.sealedChain)
    refine ⟨?_, .inl ⟨rfl, rfl, rfl, rfl, rfl⟩, hanswer.signalled h.signal⟩
    have hsettled := h.inbox.settle hposting.sealedFrom hposting.sealedTo
    rw [← hchain] at hsettled
    exact hsettled

theorem Run.kept {funds : ℕ} {round : UInt64} (h : Run app funds round s log) :
    Kept app s (arrivals app log) (posted log) := by
  induction h with
  | create => exact Kept.create
  | call h env call hround hok ih => exact ih.step (exec_effect hok)

end Runs

end PaymentRollup.Contract
