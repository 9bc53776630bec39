import Mathlib.Data.FinEnum
import PaymentRollup.Contract.Exits
import PaymentRollup.Rollup.Conservation

/-! # The app can pay everything it owes

The balance covers the minimum balance, every balance on the rollup that has not been exited,
every payout still to be made and every deposit that neither settled nor was reclaimed. Each
call moves both sides of that inequality by the same amount or leaves the app better off.
-/
namespace PaymentRollup.Contract
open Finset

section Statements

/-- What the network holds back for the live inbox boxes. -/
noncomputable def inboxCost (app : App) (box : UInt64 → Option InboxRecord) : ℕ :=
  ∑ i, if (box i).isSome then app.inboxMbr.toNat else 0

noncomputable def exitCost (app : App) (exits : Address → Option UInt64) : ℕ :=
  ∑ a, if (exits a).isSome then app.exitMbr.toNat else 0

/-- The rollup balances of accounts that have not been force-exited. -/
noncomputable def unexited (exits : Address → Option UInt64) (S : AccountMap) : ℕ :=
  ∑ a, if (exits a).isNone then S.balance a else 0

def reclaimed : Log → List UInt64
  | [] => []
  | e :: log =>
    match e.call with
    | .reclaimDeposit index => index :: reclaimed log
    | _ => reclaimed log

/-- The deposits at or above the settled cursor that were not reclaimed. -/
def unclaimed (items : List InboxItem) (settled : UInt64) (gone : List UInt64) : ℕ :=
  ∑ n ∈ range items.length, if settled.toNat ≤ n ∧ UInt64.ofNat n ∉ gone then
    (items[n]?).elim 0 InboxItem.amount else 0

/-- What the app has to be able to pay out. -/
noncomputable def liabilities (s : State) (S : AccountMap) (owed : List Payout)
    (items : List InboxItem) (gone : List UInt64) : ℕ :=
  unexited s.exits S + payoutTotal owed + unclaimed items s.settledInboxCursor gone

/-- The app is funded beyond its minimum balance, which is the base and the live boxes. -/
structure Solvent (app : App) (s : State) (S : AccountMap) (owed : List Payout)
    (items : List InboxItem) (gone : List UInt64) : Prop where
  boxes : s.minBalance = app.baseMinBalance + (inboxCost app s.inbox + exitCost app s.exits)
  covers : s.minBalance + liabilities s S owed items gone ≤ s.balance
  unexited : s.escaped = false → ∀ a, s.exits a = none
  unreclaimed : s.escaped = false → gone = []
  erased : ∀ i ∈ gone, s.inbox i = none

end Statements

section Sums
variable (app : App)

theorem inboxCost_create {box : UInt64 → Option InboxRecord} {i : UInt64} (h : box i = none)
    (record : InboxRecord) : inboxCost app (Function.update box i (some record)) =
      inboxCost app box + app.inboxMbr.toNat := by
  have hsum := sum_update (fun _ (entry : Option InboxRecord) =>
    if entry.isSome then app.inboxMbr.toNat else 0) box i (some record)
  simp only [h, Option.isSome_none, Option.isSome_some, if_true, Bool.false_eq_true, if_false,
    add_zero] at hsum
  exact hsum

theorem inboxCost_delete {box : UInt64 → Option InboxRecord} {i : UInt64} {record : InboxRecord}
    (h : box i = some record) : inboxCost app (Function.update box i none) + app.inboxMbr.toNat =
      inboxCost app box := by
  have hsum := sum_update (fun _ (entry : Option InboxRecord) =>
    if entry.isSome then app.inboxMbr.toNat else 0) box i none
  simp only [h, Option.isSome_none, Option.isSome_some, if_true, Bool.false_eq_true, if_false,
    add_zero] at hsum
  exact hsum

theorem exitCost_create {exits : Address → Option UInt64} {a : Address} (h : exits a = none)
    (amount : UInt64) : exitCost app (Function.update exits a (some amount)) =
      exitCost app exits + app.exitMbr.toNat := by
  have hsum := sum_update (fun _ (entry : Option UInt64) =>
    if entry.isSome then app.exitMbr.toNat else 0) exits a (some amount)
  simp only [h, Option.isSome_none, Option.isSome_some, if_true, Bool.false_eq_true, if_false,
    add_zero] at hsum
  exact hsum

theorem unexited_create {exits : Address → Option UInt64} {a : Address} (h : exits a = none)
    (amount : UInt64) (S : AccountMap) :
    unexited (Function.update exits a (some amount)) S + S.balance a = unexited exits S := by
  have hsum := sum_update (fun b (entry : Option UInt64) =>
    if entry.isNone then S.balance b else 0) exits a (some amount)
  simp only [h, Option.isNone_none, Option.isNone_some, if_true, Bool.false_eq_true, if_false,
    add_zero] at hsum
  exact hsum

theorem unexited_none {exits : Address → Option UInt64} (h : ∀ a, exits a = none)
    (S : AccountMap) : unexited exits S = S.total := by
  simp [unexited, h, AccountMap.total]

theorem unclaimed_nil (items : List InboxItem) (settled : UInt64) :
    unclaimed items settled [] = depositTotal (items.drop settled.toNat) := by
  simp only [unclaimed, List.not_mem_nil, not_false_iff, and_true]
  induction items using List.reverseRecOn with
  | nil => simp
  | append_singleton items item ih =>
    have hrest : (∑ n ∈ range items.length, if settled.toNat ≤ n then
        ((items ++ [item])[n]?).elim 0 InboxItem.amount else 0) =
        depositTotal (items.drop settled.toNat) := by
      rw [← ih]
      refine sum_congr rfl fun n hn => ?_
      rw [List.getElem?_append_left (mem_range.mp hn)]
    rw [List.length_append, List.length_singleton, sum_range_succ, hrest, List.drop_append,
      depositTotal_append]
    by_cases hle : settled.toNat ≤ items.length
    · simp [hle, depositTotal]
    · have hpos : [item].length ≤ settled.toNat - items.length := Nat.sub_pos_of_lt (by omega)
      simp [hle, List.drop_eq_nil_of_le hpos]

theorem unclaimed_reclaim {items : List InboxItem} {settled index : UInt64} {gone : List UInt64}
    (hlength : items.length < 2 ^ 64) (hpending : settled.toNat ≤ index.toNat)
    (harrived : index.toNat < items.length) (hfresh : index ∉ gone) :
    unclaimed items settled (index :: gone) + (items[index.toNat]?).elim 0 InboxItem.amount =
      unclaimed items settled gone := by
  have hmem : index.toNat ∈ range items.length := mem_range.mpr harrived
  have hnew := add_sum_erase (range items.length) (fun n =>
    if settled.toNat ≤ n ∧ UInt64.ofNat n ∉ index :: gone then
      (items[n]?).elim 0 InboxItem.amount else 0) hmem
  have hold := add_sum_erase (range items.length) (fun n =>
    if settled.toNat ≤ n ∧ UInt64.ofNat n ∉ gone then
      (items[n]?).elim 0 InboxItem.amount else 0) hmem
  have hrest : (∑ n ∈ (range items.length).erase index.toNat,
      if settled.toNat ≤ n ∧ UInt64.ofNat n ∉ index :: gone then
        (items[n]?).elim 0 InboxItem.amount else 0) =
      ∑ n ∈ (range items.length).erase index.toNat,
        if settled.toNat ≤ n ∧ UInt64.ofNat n ∉ gone then
          (items[n]?).elim 0 InboxItem.amount else 0 := by
    refine sum_congr rfl fun n hn => ?_
    obtain ⟨hne, hn⟩ := mem_erase.mp hn
    have hlt : n < 2 ^ 64 := (mem_range.mp hn).trans hlength
    have hindex : UInt64.ofNat n ≠ index := by
      rintro rfl
      exact hne (UInt64.toNat_ofNat_of_lt' hlt).symm
    simp only [List.mem_cons, hindex, false_or]
  simp only [UInt64.ofNat_toNat, List.mem_cons, true_or, not_true_eq_false, and_false, if_false,
    hpending, hfresh, not_false_iff, and_true, if_true] at hnew hold
  rw [unclaimed, unclaimed]
  simp only [List.mem_cons] at hrest hnew ⊢
  omega

end Sums

section Step
variable [Crypto] {app : App} {usize : ℕ} {guest : PublicValues → Execution} {Q : Set Bytes} {env : Env}
  {s s' : State} {call : Call} {log : Log} {S S' : AccountMap} {batches : List Batch}
  {lists : List (List Payout)} {owed owed' : List Payout} {items : List InboxItem}
  {gone : List UInt64}

omit [Crypto] in
theorem reclaimed_cons {e : Step} (h : ∀ index, e.call ≠ .reclaimDeposit index) :
    reclaimed (e :: log) = reclaimed log := by
  rcases e with ⟨before, env, call, after⟩
  cases call <;> first | rfl | exact absurd rfl (h _)

omit [Crypto] in
theorem balanceAfter_add (app : App) (balance : ℕ) (receiver : L1Address) {amount : UInt64}
    (h : amount.toNat ≤ balance) :
    balance ≤ balanceAfter app balance receiver amount + amount.toNat := by
  unfold balanceAfter
  split_ifs <;> omega

theorem unclaimed_push (hkept : s.inboxKeys.Represents items) (item : InboxItem) :
    unclaimed (items ++ [item]) s.settledInboxCursor [] =
      unclaimed items s.settledInboxCursor [] + item.amount := by
  have hsettled : s.settledInboxCursor.toNat ≤ items.length := hkept.settled
  rw [unclaimed_nil, unclaimed_nil, List.drop_append_of_le_length hsettled, depositTotal_append]
  simp [depositTotal]

theorem Solvent.arrive (h : Solvent app s S owed items gone) (hlive : s.escaped = false)
    (hkept : s.inboxKeys.Represents items) {item : InboxItem} {record : InboxRecord}
    {next requests : UInt64} {word : Word} {received : ℕ}
    (hreceived : received = item.amount + (s.boxCost app s.inboxCursor).toNat) :
    Solvent app { s with
      balance := s.balance + received
      minBalance := s.minBalance + (s.boxCost app s.inboxCursor).toNat
      inbox := Function.update s.inbox s.inboxCursor (some record)
      inboxChain := word
      inboxCursor := next
      requestCursor := requests } S owed (items ++ [item]) gone := by
  have hfresh : s.inbox s.inboxCursor = none := hkept.fresh
  have hcost : s.boxCost app s.inboxCursor = app.inboxMbr := by simp [State.boxCost, hfresh]
  have hgone := h.unreclaimed hlive
  subst hgone
  have hboxes := h.boxes
  have hcovers := h.covers
  have hcreated := inboxCost_create app hfresh record
  have hpushed := unclaimed_push hkept item
  refine ⟨?_, ?_, h.unexited, fun _ => rfl, fun i hi => nomatch hi⟩
  · simp only [hcost, hcreated]
    omega
  · simp only [liabilities] at hcovers ⊢
    rw [hpushed, hreceived]
    omega

omit [Crypto] in
/-- Deleting a box pays back at most what the network releases for it, and more than that
only for a deposit that leaves the liabilities with it. -/
theorem Solvent.erase (h : Solvent app s S owed items gone) {index : UInt64}
    {record : InboxRecord} {amount : UInt64} {gone' : List UInt64}
    (hbox : s.inbox index = some record) (hfunds : amount.toNat ≤ s.balance)
    (hgone' : ∀ i ∈ gone', i = index ∨ i ∈ gone) (hlive : s.escaped = false → gone' = [])
    (hpaid : amount.toNat + unclaimed items s.settledInboxCursor gone' =
      app.inboxMbr.toNat + unclaimed items s.settledInboxCursor gone) :
    Solvent app { s with
      inbox := Function.update s.inbox index none
      minBalance := s.minBalance - app.inboxMbr.toNat
      balance := balanceAfter app s.balance record.payer amount } S owed items gone' := by
  have hboxes := h.boxes
  have hcovers := h.covers
  have hdeleted := inboxCost_delete app hbox
  have hafter := balanceAfter_add app s.balance record.payer hfunds
  refine ⟨?_, ?_, h.unexited, hlive, ?_⟩
  · simp only
    omega
  · simp only [liabilities] at hcovers ⊢
    omega
  · intro i hi
    simp only [Function.update_apply]
    split_ifs with heq
    · rfl
    · exact h.erased i ((hgone' i hi).resolve_left heq)

theorem Solvent.reclaim (h : Solvent app s S owed items gone)
    (hkept : s.inboxKeys.Represents items) (hescaped : s.escaped = true) {index : UInt64}
    (hpending : s.settledInboxCursor ≤ index) {record : InboxRecord}
    (hbox : s.inbox index = some record) (hkind : record.kind = .deposit) {amount : UInt64}
    (hamount : amount.toNat = record.amount.toNat + app.inboxMbr.toNat)
    (hfunds : amount.toNat ≤ s.balance) :
    Solvent app { s with
      inbox := Function.update s.inbox index none
      minBalance := s.minBalance - app.inboxMbr.toNat
      balance := balanceAfter app s.balance record.payer amount } S owed items (index :: gone) := by
  have hitem := (hkept.box index record hbox).item
  have hlt := (List.getElem?_eq_some_iff.mp hitem).1
  have hfresh : index ∉ gone := fun hmem =>
    absurd (hbox.symm.trans (h.erased index hmem)) (Option.some_ne_none _)
  have hlength : items.length < 2 ^ 64 := by
    rw [hkept.length]
    exact toNat_lt _
  have hsum := unclaimed_reclaim hlength (UInt64.le_iff_toNat_le.mp hpending) hlt hfresh
  rw [hitem] at hsum
  simp only [Option.elim_some, InboxRecord.item, hkind, InboxItem.amount] at hsum
  refine h.erase hbox hfunds (fun i hi => List.mem_cons.mp hi) ?_ ?_
  · intro hlive
    exact absurd (hlive.symm.trans hescaped) (by decide)
  · omega

omit [Crypto] in
theorem Solvent.exit (h : Solvent app s S owed items gone) (hescaped : s.escaped = true)
    {address : Address} (hfresh : s.exits address = none) {amount paid : UInt64}
    {recipient : L1Address} (hbalance : S.balance address = amount.toNat)
    (hpaid : amount.toNat = paid.toNat + app.exitMbr.toNat) (hfunds : paid.toNat ≤ s.balance) :
    Solvent app { s with
      exits := Function.update s.exits address (some amount)
      minBalance := s.minBalance + app.exitMbr.toNat
      balance := balanceAfter app s.balance recipient paid } S owed items gone := by
  have hboxes := h.boxes
  have hcovers := h.covers
  have hexits := unexited_create hfresh amount S
  have hcost := exitCost_create app hfresh amount
  have hafter := balanceAfter_add app s.balance recipient hfunds
  refine ⟨?_, ?_, ?_, h.unreclaimed, h.erased⟩
  · simp only [hcost]
    omega
  · simp only [liabilities] at hcovers ⊢
    omega
  · intro hlive
    exact absurd (hlive.symm.trans hescaped) (by decide)

omit [Crypto] in
/-- A settlement turns deposits into balances and balances into payouts. -/
theorem Solvent.settle (h : Solvent app s S [] items gone) (hlive : s.escaped = false)
    {batch : Batch} {payouts : List Payout} {cursor : UInt64}
    (hreplay : replay S batch.txns = some (S', payouts))
    (hconsumed : items.take cursor.toNat =
      items.take s.settledInboxCursor.toNat ++ inboxItems batch.txns) :
    liabilities { s with settledInboxCursor := cursor } S' payouts items gone =
      liabilities s S [] items gone := by
  have hgone := h.unreclaimed hlive
  subst hgone
  have htotal := (replay_total hreplay).1
  have hdrop : items.drop s.settledInboxCursor.toNat =
      inboxItems batch.txns ++ items.drop cursor.toNat := by
    have hsplit := List.take_append_drop cursor.toNat items
    rw [hconsumed, List.append_assoc] at hsplit
    exact List.append_cancel_left ((List.take_append_drop _ items).trans hsplit.symm)
  simp only [liabilities, unexited_none (h.unexited hlive), unclaimed_nil, hdrop,
    depositTotal_append, payoutTotal_nil]
  omega

omit [Crypto] in
theorem Solvent.keep (h : Solvent app s S owed items gone) (hinbox : s'.inbox = s.inbox)
    (hexits : s'.exits = s.exits) (hmin : s'.minBalance = s.minBalance)
    (hsettled : s'.settledInboxCursor = s.settledInboxCursor) (hbalance : s.balance ≤ s'.balance)
    (hlive : s'.escaped = false → s.escaped = false) : Solvent app s' S owed items gone := by
  have hcovers := h.covers
  refine ⟨?_, ?_, ?_, fun hlive' => h.unreclaimed (hlive hlive'), ?_⟩
  · rw [hmin, hinbox, hexits]
    exact h.boxes
  · simp only [liabilities] at hcovers ⊢
    rw [hmin, hexits, hsettled]
    exact hcovers.trans hbalance
  · rw [hexits]
    exact fun hlive' => h.unexited (hlive hlive')
  · rw [hinbox]
    exact h.erased

omit [Crypto] in
theorem Solvent.pay {recipient : L1Address} {amount : UInt64}
    (h : Solvent app s S ((recipient, amount) :: owed) items gone)
    (hfunds : amount.toNat ≤ s.balance) {pending : Option Word}
    {deadline progress : Option UInt64} :
    Solvent app { s with
      pendingWithdrawals := pending
      escapeDeadline := deadline
      escapeProgress := progress
      balance := balanceAfter app s.balance recipient amount } S owed items gone := by
  have hcovers := h.covers
  have hafter := balanceAfter_add app s.balance recipient hfunds
  refine ⟨h.boxes, ?_, h.unexited, h.unreclaimed, h.erased⟩
  simp only [liabilities, payoutTotal, List.map_cons, List.sum_cons] at hcovers ⊢
  omega

theorem Solvent.quiet (h : Solvent app s' S owed (arrivals app log) (reclaimed log))
    (hquiet : call.IsQuiet) (hother : ∀ index, call ≠ .reclaimDeposit index)
    (hmoves : Moves app usize guest Q (arrivals app log) s s' call S owed S' owed') :
    Solvent app s' S' owed' (arrivals app (⟨s, env, call, s'⟩ :: log))
      (reclaimed (⟨s, env, call, s'⟩ :: log)) := by
  obtain ⟨rfl, rfl⟩ := hmoves.quiet_eq hquiet
  rw [(projections_quiet app _ hquiet log).1, reclaimed_cons hother]
  exact h

theorem Solvent.step (hQ : Ideal Q) (h : Solvent app s S owed (arrivals app log) (reclaimed log))
    (hkept : Kept app s (arrivals app log) (posted log))
    (hledgered : Ledgered app usize Q s log S batches lists owed)
    (heffect : Effect app env s call s')
    (hsound : call.Sound app usize guest Q s)
    (hmoves : Moves app usize guest Q (arrivals app log) s s' call S owed S' owed') :
    Solvent app s' S' owed' (arrivals app (⟨s, env, call, s'⟩ :: log))
      (reclaimed (⟨s, env, call, s'⟩ :: log)) := by
  cases heffect with
  | inert hcall hbalance =>
    refine .quiet (h.keep rfl rfl rfl rfl hbalance id) hcall.isQuiet ?_ hmoves
    rintro index rfl
    exact hcall
  | @deposit payment recipient amount next hlive hpos hamount hnext =>
    cases hmoves
    simp only [arrivals, sub_eq_of_toNat hamount]
    exact h.arrive hlive hkept.inbox hamount
  | @request payment nonce address recipient pubKey signature next nextNonce hlive hamount =>
    cases hmoves
    refine h.arrive hlive hkept.inbox ?_
    rw [hamount]
    exact (Nat.zero_add _).symm
  | @prune call index record hbox hcall hfunds =>
    refine .quiet (h.erase hbox hfunds (fun i hi => .inr hi) h.unreclaimed rfl) ?_ ?_ hmoves
    · rcases hcall with ⟨rfl, -⟩ | ⟨rfl, -⟩ <;> exact True.intro
    · rintro index rfl
      simp at hcall
  | @reclaim index record amount hescaped hpending harrived hbox hkind hamount hfunds =>
    obtain ⟨rfl, rfl⟩ := hmoves.quiet_eq True.intro
    exact h.reclaim hkept.inbox hescaped hpending hbox hkind hamount hfunds
  | @pay recipient amount tail deadline progress hhead hcredit hfunds =>
    cases hmoves with
    | pay => exact h.pay hfunds
    | stay _ hpay => exact absurd rfl (hpay _ _ _)
  | @exit address nonce amount authAddress pubKey signature recipient siblings paid hescaped hfresh
      hkey hsig hwhole hdepth hroot hpos hpaid hfunds =>
    obtain ⟨rfl, rfl⟩ := hmoves.quiet_eq True.intro
    have haccount := exit_account hQ hledgered.tree hdepth (hroot.trans hledgered.root)
      hsound.hashed
    exact h.exit hescaped hfresh (AccountMap.balance_some haccount) hpaid hfunds
  | signal =>
    refine .quiet (h.keep rfl rfl rfl rfl (Nat.le_refl _) id) True.intro ?_ hmoves
    rintro index ⟨⟩
  | @escape call dropped hdropped hlive hcall =>
    have hkeep : Solvent app dropped S owed (arrivals app log) (reclaimed log) := by
      subst hdropped
      split_ifs
      · exact h.keep rfl rfl rfl rfl (Nat.le_refl _) id
      · exact h
    refine .quiet (hkeep.keep rfl rfl rfl rfl (Nat.le_refl _) (by rintro ⟨⟩)) ?_ ?_ hmoves
    · rcases hcall with ⟨rfl, -⟩ | ⟨rfl, -⟩ <;> exact True.intro
    · rintro index rfl
      simp at hcall
  | abandon =>
    refine .quiet (h.keep rfl rfl rfl rfl (Nat.le_refl _) id) True.intro ?_ hmoves
    rintro index ⟨⟩
  | openBatch =>
    cases hmoves
    exact h.keep rfl rfl rfl rfl (Nat.le_refl _) id
  | chunk =>
    cases hmoves
    exact h.keep rfl rfl rfl rfl (Nat.le_refl _) id
  | @settle verifier signals p balance n c deadline target progress hcreator hlive hround hlength
      hposted hproof hroot hacc hfrom hto hcursor hanswer hbalance =>
    cases hmoves with
    | settle hsettles hdomain hconsumed =>
      refine ⟨h.boxes, ?_, h.unexited, h.unreclaimed, h.erased⟩
      have hequal := h.settle hlive hsettles.replayed hconsumed
      exact (hequal ▸ h.covers).trans hbalance
    | stay hsettle => exact absurd rfl (hsettle _ _ _)

end Step

section Payments
variable [Crypto]

/-- The ways a transaction can fail for want of money in the app account. -/
def Reject.IsShortfall : Reject → Prop
  | .overspend => True
  | .belowMinBalance => True
  | _ => False

def NeverShort {α : Type} (x : Except Reject α) : Prop := ∀ e, x = .error e → ¬e.IsShortfall

omit [Crypto]

theorem NeverShort.bind {α β : Type} {x : Except Reject α} {f : α → Except Reject β}
    (hx : NeverShort x) (hf : ∀ a, x = .ok a → NeverShort (f a)) : NeverShort (x >>= f) := by
  intro e he
  rcases bind_eq_error.mp he with hleft | ⟨a, ha, hright⟩
  · exact hx e hleft
  · exact hf a ha e hright

theorem neverShort_assert {p : Prop} [Decidable p] (message : String) :
    NeverShort (assert p message) := by
  intro e he
  obtain ⟨-, rfl⟩ := require_eq_error.mp he
  exact id

theorem neverShort_demand {α : Type} (x : Option α) : NeverShort (demand x .missingValue) := by
  intro e he
  obtain ⟨-, rfl⟩ := demand_eq_error.mp he
  exact id

theorem neverShort_add (a b : UInt64) : NeverShort (add a b) := by
  intro e he
  obtain ⟨-, rfl⟩ := demand_eq_error.mp he
  exact id

theorem neverShort_sub (a b : UInt64) : NeverShort (sub a b) := by
  intro e he
  obtain ⟨-, rfl⟩ := demand_eq_error.mp he
  exact id

theorem neverShort_ok {α : Type} (a : α) : NeverShort (.ok a) := fun _ he => nomatch he

theorem neverShort_pay {app : App} {env : Env} {s : State} {receiver : L1Address}
    {amount : UInt64} (h : s.minBalance + amount.toNat ≤ s.balance) :
    NeverShort (s.pay app env receiver amount) := by
  refine .bind ?_ fun _ _ => .bind ?_ fun _ _ => .bind ?_ fun _ _ => neverShort_ok _
  · intro e he
    obtain ⟨hshort, -⟩ := require_eq_error.mp he
    omega
  · intro e he
    obtain ⟨-, rfl⟩ := require_eq_error.mp he
    exact id
  · intro e he
    obtain ⟨hshort, -⟩ := require_eq_error.mp he
    split_ifs at hshort
    · omega
    · simp only at hshort
      omega

theorem neverShort_credit (s : State) (discharged : UInt64) :
    NeverShort (s.creditEscapeProgress discharged) := by
  unfold State.creditEscapeProgress
  cases s.escapeDeadline with
  | none => exact neverShort_ok _
  | some deadline =>
    refine .bind (neverShort_demand _) fun _ _ => .bind (neverShort_add _ _) fun _ _ => ?_
    split_ifs
    · exact .bind (neverShort_add _ _) fun _ _ => neverShort_ok _
    · exact neverShort_ok _

end Payments

section Results
variable [Crypto] {app : App} {usize : ℕ} {guest : PublicValues → Execution} {Q : Set Bytes}
  {funds : ℕ} {round : UInt64} {s : State} {log : Log} {S : AccountMap}
  {batches : List Batch} {lists : List (List Payout)} {owed : List Payout}

omit [Crypto] in
theorem Solvent.create (hfunds : app.baseMinBalance ≤ funds) {verifierAddress : L1Address}
    {programVkeyHash recursionVkeyRoot : Word} {inboxTimeout escapeGrace : UInt64}
    {securityCouncil : L1Address} {updateDelay : UInt64} {approvalProgram : List Bytes}
    {clearStateProgram : Bytes} :
    Solvent app (createApplication app verifierAddress programVkeyHash recursionVkeyRoot
      inboxTimeout escapeGrace securityCouncil updateDelay approvalProgram clearStateProgram
      funds) emptyLedger [] [] [] := by
  refine ⟨?_, ?_, fun _ _ => rfl, fun _ => rfl, fun i hi => nomatch hi⟩
  · simp [createApplication, inboxCost, exitCost]
  · simp [createApplication, liabilities, Contract.unexited, unclaimed, emptyLedger,
      AccountMap.balance, hfunds]

theorem Run.solvent (hQ : Ideal Q) (hfunds : app.baseMinBalance ≤ funds)
    (h : Run app funds round s log) (hlog : ∀ e ∈ log, e.Sound app usize guest Q) :
    ∃ S batches lists owed, Ledgered app usize Q s log S batches lists owed ∧
      Solvent app s S owed (arrivals app log) (reclaimed log) := by
  induction h with
  | create => exact ⟨_, _, _, _, Ledgered.create, Solvent.create hfunds⟩
  | call hrun env call hround hok ih =>
    obtain ⟨hsound, hrest⟩ := List.forall_mem_cons.mp hlog
    obtain ⟨S, batches, lists, owed, hledgered, hsolvent⟩ := ih hrest
    obtain ⟨S', batches', lists', owed', hstep, hmoves⟩ :=
      hledgered.step hQ hrun.kept (exec_effect hok) hsound
    exact ⟨S', batches', lists', owed', hstep,
      hsolvent.step hQ hrun.kept hledgered (exec_effect hok) hsound hmoves⟩

def Call.PaysOut : Call → Prop
  | .payWithdrawal _ _ _ => True
  | .pruneDeposit _ => True
  | .pruneRequest _ => True
  | .reclaimDeposit _ => True
  | .forceExit _ _ _ _ _ _ _ _ _ => True
  | _ => False

omit [Crypto] in
theorem neverShort_delete (h : Solvent app s S owed (arrivals app log) (reclaimed log))
    {env : Env} {index : UInt64} {record : InboxRecord} {amount : UInt64} {extra : ℕ}
    (hbox : s.inbox index = some record) (hamount : amount.toNat = extra + app.inboxMbr.toNat)
    (hextra : s.minBalance + extra ≤ s.balance) :
    NeverShort ((s.deleteInboxBox app index).pay app env record.payer amount) := by
  have hboxes := h.boxes
  have hdeleted := inboxCost_delete app hbox
  refine neverShort_pay ?_
  simp only [State.deleteInboxBox]
  omega

theorem neverShort_reclaim (h : Solvent app s S owed (arrivals app log) (reclaimed log))
    (hkept : s.inboxKeys.Represents (arrivals app log)) {env : Env} {index : UInt64} :
    NeverShort (reclaimDeposit app env index s) := by
  have hcovers := h.covers
  simp only [liabilities] at hcovers
  refine .bind (neverShort_assert _) fun _ _ => .bind (neverShort_assert _) fun _ hpending =>
    .bind (neverShort_assert _) fun _ _ => .bind (neverShort_demand _) fun record hbox =>
    .bind (neverShort_assert _) fun _ hkind => .bind (neverShort_add _ _) fun amount hamount => ?_
  have hpending := assert_eq_ok.mp hpending
  have hkind := assert_eq_ok.mp hkind
  have hbox := demand_eq_ok.mp hbox
  have hitem := (hkept.box index record hbox).item
  have hlt := (List.getElem?_eq_some_iff.mp hitem).1
  have hfresh : index ∉ reclaimed log := fun hmem =>
    absurd (hbox.symm.trans (h.erased index hmem)) (Option.some_ne_none _)
  have hlength : (arrivals app log).length < 2 ^ 64 := by
    rw [hkept.length]
    exact toNat_lt _
  have hsum := unclaimed_reclaim hlength (UInt64.le_iff_toNat_le.mp hpending) hlt hfresh
  rw [hitem] at hsum
  simp only [Option.elim_some, InboxRecord.item, hkind, InboxItem.amount] at hsum
  exact neverShort_delete h hbox (add_eq_ok.mp hamount) (by omega)

theorem neverShort_payWithdrawal (hQ : Ideal Q)
    (h : Solvent app s S owed (arrivals app log) (reclaimed log))
    (hledgered : Ledgered app usize Q s log S batches lists owed) {env : Env}
    {recipient : L1Address} {amount : UInt64} {tail : Word}
    (hstrings : callStrings app s (.payWithdrawal recipient amount tail) ⊆ Q) :
    NeverShort (payWithdrawal app env recipient amount tail s) := by
  have hcovers := h.covers
  simp only [liabilities] at hcovers
  refine .bind (neverShort_assert _) fun _ _ => .bind (neverShort_demand _) fun head hhead =>
    .bind (neverShort_assert _) fun _ hhash => .bind ?_ fun s₁ hcredit => ?_
  · by_cases hcreator : env.sender = app.creator
    · rw [if_pos hcreator]
      exact neverShort_credit _ _
    · rw [if_neg hcreator]
      exact neverShort_ok _
  have hhead := (demand_eq_ok.mp hhead).trans (congrArg some (assert_eq_ok.mp hhash).symm)
  obtain ⟨rest, rfl, -, -⟩ := hledgered.next hQ hhead (hstrings (.inl rfl))
  simp only [payoutTotal, List.map_cons, List.sum_cons] at hcovers
  refine neverShort_pay ?_
  by_cases hcreator : env.sender = app.creator
  · rw [if_pos hcreator] at hcredit
    obtain ⟨deadline, progress, -, rfl⟩ := creditEscapeProgress_eq_ok hcredit
    simp only
    omega
  · rw [if_neg hcreator] at hcredit
    cases hcredit
    simp only
    omega

theorem neverShort_forceExit (hQ : Ideal Q)
    (h : Solvent app s S owed (arrivals app log) (reclaimed log))
    (hledgered : Ledgered app usize Q s log S batches lists owed) {env : Env} {address : Address}
    {nonce amount : UInt64} {authAddress : Address} {scheme : Bytes} {pubKey : Word}
    {signature : Bytes} {recipient : L1Address} {siblings : Bytes}
    (hstrings : callStrings app s (.forceExit address nonce amount authAddress scheme pubKey
      signature recipient siblings) ⊆ Q) :
    NeverShort (forceExit app env address nonce amount authAddress scheme pubKey signature recipient
      siblings s) := by
  have hcovers := h.covers
  simp only [liabilities] at hcovers
  refine .bind (neverShort_assert _) fun _ _ => .bind (neverShort_assert _) fun _ hfresh =>
    .bind (neverShort_assert _) fun _ _ => .bind (neverShort_assert _) fun _ _ =>
    .bind (neverShort_assert _) fun _ _ => .bind (neverShort_assert _) fun _ _ =>
    .bind (neverShort_assert _) fun _ hdepth => .bind (neverShort_assert _) fun _ hroot =>
    .bind (neverShort_assert _) fun _ _ => .bind (neverShort_sub _ _) fun paid hpaid => ?_
  have hfresh := assert_eq_ok.mp hfresh
  have hroot := assert_eq_ok.mp hroot
  have hpaid := sub_eq_ok.mp hpaid
  have haccount := exit_account hQ hledgered.tree (assert_eq_ok.mp hdepth)
    (hroot.trans hledgered.root) hstrings
  have hbalance : S.balance address = amount.toNat := AccountMap.balance_some haccount
  have hexits := unexited_create hfresh amount S
  refine neverShort_pay ?_
  simp only
  omega

/-- No inner payment of a solvent app fails for want of money. -/
theorem Solvent.neverShort (hQ : Ideal Q)
    (h : Solvent app s S owed (arrivals app log) (reclaimed log))
    (hkept : Kept app s (arrivals app log) (posted log))
    (hledgered : Ledgered app usize Q s log S batches lists owed) {env : Env} {call : Call}
    (hcall : call.PaysOut) (hstrings : callStrings app s call ⊆ Q) :
    NeverShort (exec app env s call) := by
  have hcovers := h.covers
  cases call with
  | pruneRequest index =>
    refine .bind (neverShort_demand _) fun record hbox => .bind (neverShort_assert _) fun _ _ =>
      .bind (neverShort_assert _) fun _ _ => ?_
    exact neverShort_delete h (demand_eq_ok.mp hbox) (Nat.zero_add _).symm (by omega)
  | pruneDeposit index =>
    refine .bind (neverShort_demand _) fun record hbox => .bind (neverShort_assert _) fun _ _ =>
      .bind (neverShort_assert _) fun _ _ => ?_
    exact neverShort_delete h (demand_eq_ok.mp hbox) (Nat.zero_add _).symm (by omega)
  | reclaimDeposit index => exact neverShort_reclaim h hkept.inbox
  | payWithdrawal recipient amount tail =>
    exact neverShort_payWithdrawal hQ h hledgered hstrings
  | forceExit address nonce amount authAddress scheme pubKey signature recipient siblings =>
    exact neverShort_forceExit hQ h hledgered hstrings
  | _ => exact hcall.elim

/-- At every state a run reaches, before and after an escape, the app holds its minimum
balance, which is the base and its live boxes, and beyond it every balance not yet exited,
every payout still owed and every deposit neither settled nor reclaimed. So none of the
calls that pay someone can fail for want of money. -/
theorem app_stays_solvent (hrun : Run app funds round s log) (hfunds : app.baseMinBalance ≤ funds)
    (hQ : Ideal Q) (hlog : ∀ e ∈ log, e.Sound app usize guest Q) :
    ∃ batches S lists owed, (settledBatches log).mapM (Batch.decode usize) = .ok batches ∧
      replayBatches emptyLedger batches = some (S, lists) ∧ s.stateRoot = (treeOf S).root ∧
      lists.flatMap (withdrawalLinks (deploymentDomain app)) =
        paid log ++ withdrawalLinks (deploymentDomain app) owed ∧
      s.pendingWithdrawals = pendingOf (deploymentDomain app) owed ∧
      s.minBalance = app.baseMinBalance + (inboxCost app s.inbox + exitCost app s.exits) ∧
      s.minBalance + (unexited s.exits S + payoutTotal owed +
        unclaimed (arrivals app log) s.settledInboxCursor (reclaimed log)) ≤ s.balance ∧
      ∀ env call, call.PaysOut → callStrings app s call ⊆ Q →
        exec app env s call ≠ .error .overspend ∧
          exec app env s call ≠ .error .belowMinBalance := by
  obtain ⟨S, batches, lists, owed, hledgered, hsolvent⟩ := hrun.solvent hQ hfunds hlog
  refine ⟨batches, S, lists, owed, hledgered.decoded, hledgered.replayed, hledgered.root,
    hledgered.paid, hledgered.pending, hsolvent.boxes, hsolvent.covers, ?_⟩
  intro env call hcall hstrings
  have hshort : NeverShort (exec app env s call) :=
    hsolvent.neverShort hQ hrun.kept hledgered hcall hstrings
  exact ⟨fun h => hshort _ h True.intro, fun h => hshort _ h True.intro⟩

end Results

section Sample
attribute [local instance] Crypto.unsigned

theorem sample_solvent : ∃ batches S lists owed,
    (settledBatches sampleEnd.2).mapM (Batch.decode (2 ^ 32)) = .ok batches ∧
      replayBatches emptyLedger batches = some (S, lists) ∧
      sampleEnd.1.stateRoot = (treeOf S).root ∧
      lists.flatMap (withdrawalLinks (deploymentDomain sampleApp)) =
        paid sampleEnd.2 ++ withdrawalLinks (deploymentDomain sampleApp) owed ∧
      sampleEnd.1.pendingWithdrawals = pendingOf (deploymentDomain sampleApp) owed ∧
      sampleEnd.1.minBalance = sampleApp.baseMinBalance +
        (inboxCost sampleApp sampleEnd.1.inbox + exitCost sampleApp sampleEnd.1.exits) ∧
      sampleEnd.1.minBalance + (unexited sampleEnd.1.exits S + payoutTotal owed +
        unclaimed (arrivals sampleApp sampleEnd.2) sampleEnd.1.settledInboxCursor
          (reclaimed sampleEnd.2)) ≤ sampleEnd.1.balance ∧
      ∀ env call, call.PaysOut →
        callStrings sampleApp sampleEnd.1 call ⊆ {string | string ∈ sampleStrings} →
        exec sampleApp env sampleEnd.1 call ≠ .error .overspend ∧
          exec sampleApp env sampleEnd.1 call ≠ .error .belowMinBalance :=
  app_stays_solvent sample_run le_rfl sample_ideal sample_sound

end Sample

end PaymentRollup.Contract
