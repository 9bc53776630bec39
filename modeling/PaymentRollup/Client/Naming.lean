import PaymentRollup.Client.Messages
import PaymentRollup.Contract.Boxes
import PaymentRollup.Contract.Playing
import PaymentRollup.Contract.Watchdog

/-! # The boxes the client names

A call may touch no box that is not named with it. The client works the name out from cursors it
read before the call is made, so it names the right box unless a cursor has moved on meanwhile.
-/
namespace PaymentRollup.Client
open Contract (App Box Call Effect Env Log Run State Later exec exec_effect exec_graft sampleApp
  sampleDeposit sampleEnv sampleStart)

section Names

def boxName (tag : Bytes) (key : ℤ) : Except RangeError Bytes := do
  let name := uint8Array 9
  let name ← set name tag 0
  setBigUint64 name 1 key

def inboxBoxName (index : ℤ) : Except RangeError Bytes := boxName (ascii ['i']) index

def exitBoxName (address : Bytes) : Except RangeError Bytes := do
  let name := uint8Array 33
  let name ← set name (ascii ['e']) 0
  set name address 1

/-- What the client names with a call, in the state it reads the cursors of. -/
def boxReferences (s : State) : Call → Except RangeError (List Bytes)
  | .deposit _ _ => (inboxBoxName s.inboxCursor.toNat).map ([·])
  | .requestWithdrawal _ _ _ _ _ _ _ => (inboxBoxName s.inboxCursor.toNat).map ([·])
  | .pruneRequest index => (inboxBoxName index.toNat).map ([·])
  | .pruneDeposit index => (inboxBoxName index.toNat).map ([·])
  | .reclaimDeposit index => (inboxBoxName index.toNat).map ([·])
  | .forceExit address _ _ _ _ _ _ _ _ => (exitBoxName address.bytes).map ([·])
  | .signalEscape =>
    if s.settledInboxCursor < s.inboxCursor then
      (inboxBoxName s.settledInboxCursor.toNat).map ([·])
    else .ok []
  | .openBatch _ targetInboxCursor =>
    if s.settledInboxCursor < targetInboxCursor then
      (inboxBoxName (targetInboxCursor.toNat - 1)).map ([·])
    else .ok []
  | _ => .ok []

/-- The call touches a box in `s'`, and a cursor that decides which one has moved since the client
read it in `s`: for an accusation the settled one, or the other where nothing was pending then. -/
def Overtaken (s s' : State) : Call → Prop
  | .deposit _ _ => s'.inboxCursor ≠ s.inboxCursor
  | .requestWithdrawal _ _ _ _ _ _ _ => s'.inboxCursor ≠ s.inboxCursor
  | .signalEscape => s'.settledInboxCursor < s'.inboxCursor ∧
      (s.settledInboxCursor = s.inboxCursor ∨ s'.settledInboxCursor ≠ s.settledInboxCursor)
  | _ => False

end Names

section Layout

theorem inboxBoxName_eq (index : UInt64) :
    inboxBoxName index.toNat = .ok (Box.inbox index).name := by
  have htag : (ascii ['i']).length = 1 := rfl
  rw [inboxBoxName, boxName, set_first (by omega), ok_bind, htag,
    setBigUint64_next index htag (by omega)]
  exact congrArg Except.ok (List.append_nil _)

theorem exitBoxName_eq (address : Address) :
    exitBoxName address.bytes = .ok (Box.exit address).name := by
  have htag : (ascii ['e']).length = 1 := rfl
  rw [exitBoxName, set_first (by omega), ok_bind, htag, set_next htag (by simp [Word.size]),
    Word.size]
  exact congrArg Except.ok (List.append_nil _)

theorem name_injective : Function.Injective Box.name := by
  intro a b h
  cases a with
  | inbox i =>
    cases b with
    | inbox j => exact congrArg Box.inbox (toBeBytes_inj (List.append_cancel_left h))
    | exit b => cases List.head_eq_of_cons_eq h
  | exit a =>
    cases b with
    | inbox j => cases List.head_eq_of_cons_eq h
    | exit b => exact congrArg Box.exit (Word.ext (List.append_cancel_left h))

theorem references_if {p : Prop} [Decidable p] {name : Except RangeError Bytes} {box : Box}
    (h : p → name = .ok box.name) :
    (if p then name.map ([·]) else .ok []) =
      .ok ((if p then some box else none).toList.map Box.name) := by
  split_ifs with hp
  · rw [h hp]
    rfl
  · rfl

theorem boxReferences_eq (s : State) (call : Call) :
    boxReferences s call = .ok ((call.box? s).toList.map Box.name) := by
  cases call with
  | deposit => exact congrArg (Except.map ([·])) (inboxBoxName_eq s.inboxCursor)
  | requestWithdrawal => exact congrArg (Except.map ([·])) (inboxBoxName_eq s.inboxCursor)
  | pruneRequest index => exact congrArg (Except.map ([·])) (inboxBoxName_eq index)
  | pruneDeposit index => exact congrArg (Except.map ([·])) (inboxBoxName_eq index)
  | reclaimDeposit index => exact congrArg (Except.map ([·])) (inboxBoxName_eq index)
  | forceExit address => exact congrArg (Except.map ([·])) (exitBoxName_eq address)
  | signalEscape => exact references_if fun _ => inboxBoxName_eq s.settledInboxCursor
  | openBatch _ target =>
    refine references_if fun hlater => ?_
    have hpos := UInt64.lt_iff_toNat_lt.mp hlater
    have hle : (1 : UInt64) ≤ target := by
      rw [UInt64.le_iff_toNat_le, UInt64.toNat_one]
      omega
    have hpred : ((target - 1).toNat : ℤ) = target.toNat - 1 := by
      rw [UInt64.toNat_sub_of_le _ _ hle, UInt64.toNat_one]
      omega
    rw [← hpred]
    exact inboxBoxName_eq (target - 1)
  | _ => rfl

theorem covers_iff {s s' : State} {call : Call} :
    (∀ box ∈ call.box? s', box.name ∈ (call.box? s).toList.map Box.name) ↔
      ∀ box ∈ call.box? s', call.box? s = some box := by
  refine forall₂_congr fun box _ => ?_
  rw [List.mem_map_of_injective name_injective, Option.mem_toList]

end Layout

section Runs
variable [Crypto] {app : App} {funds : ℕ} {round round' : UInt64} {s s' : State} {log log' : Log}
  {may : State → Env → Call → Prop}

theorem later_settled_le (hlater : Later app may round s log round' s' log')
    (hrun : Run app funds round s log) : s.settledInboxCursor ≤ s'.settledInboxCursor := by
  induction hlater with
  | start => exact UInt64.le_refl _
  | call hlater env call _ _ hok ih =>
    exact UInt64.le_trans ih ((exec_effect hok).settled_le (hlater.run hrun).kept)

omit [Crypto] in
theorem same_box_iff {i j : UInt64} :
    i = j ↔ ∀ box ∈ some (Box.inbox i), some (Box.inbox j) = some box := by
  constructor
  · rintro rfl box hbox
    exact hbox
  · intro h
    cases h (.inbox i) rfl
    rfl

omit [Crypto] in
theorem overtaken_iff {call : Call} (hfiled : s.settledInboxCursor ≤ s.inboxCursor)
    (hsettled : s.settledInboxCursor ≤ s'.settledInboxCursor)  :
    Overtaken s s' call ↔ ¬∀ box ∈ call.box? s', call.box? s = some box := by
  cases call with
  | deposit => exact not_congr same_box_iff
  | requestWithdrawal => exact not_congr same_box_iff
  | signalEscape =>
    change _ ↔ ¬∀ box ∈ (if s'.settledInboxCursor < s'.inboxCursor then
      some (Box.inbox s'.settledInboxCursor) else none),
      (if s.settledInboxCursor < s.inboxCursor then
        some (Box.inbox s.settledInboxCursor) else none) = some box
    by_cases hpending' : s'.settledInboxCursor < s'.inboxCursor
    · rw [if_pos hpending']
      by_cases hpending : s.settledInboxCursor < s.inboxCursor
      · rw [if_pos hpending, ← same_box_iff]
        constructor
        · rintro ⟨-, hempty | hmoved⟩
          · exact absurd hempty (UInt64.ne_of_lt hpending)
          · exact hmoved
        · intro hmoved
          exact ⟨hpending', .inr hmoved⟩
      · have hempty : s.settledInboxCursor = s.inboxCursor :=
          UInt64.le_antisymm hfiled (UInt64.not_lt.mp hpending)
        rw [if_neg hpending]
        refine iff_of_true ⟨hpending', .inl hempty⟩ fun h => ?_
        cases h _ rfl
    · rw [if_neg hpending']
      refine iff_of_false (fun h => hpending' h.1) (not_not_intro ?_)
      rintro box ⟨⟩
  | openBatch _ target =>
    refine iff_of_false id (not_not_intro fun box hbox => ?_)
    change (if s'.settledInboxCursor < target then _ else none) = some box at hbox
    by_cases hlater : s'.settledInboxCursor < target
    · rw [if_pos hlater] at hbox
      exact (if_pos (UInt64.lt_of_le_of_lt hsettled hlater)).trans hbox
    · rw [if_neg hlater] at hbox
      cases hbox
  | _ => exact iff_of_false id (not_not_intro fun box hbox => hbox)

/-- Whatever anybody calls between the moment the client reads the cursors and its own call: the
client has named every box its call may touch, unless a cursor moved on. The call then does what it
does whatever any other box holds, and leaves it alone. -/
theorem client_names_its_box (hrun : Run app funds round s log)
    (hlater : Later app may round s log round' s' log') (call : Call) :
    ∃ names, boxReferences s call = .ok names ∧
      (Overtaken s s' call ↔ ∃ box ∈ call.box? s', box.name ∉ names) ∧
      (¬Overtaken s s' call → ∀ (env : Env) (other : State),
        exec app env (s'.graft (·.name ∈ names) other) call =
          (exec app env s' call).map (·.graft (·.name ∈ names) other)) := by
  have hfiled : s.settledInboxCursor ≤ s.inboxCursor := by
    have hle := hrun.kept.inbox.settled
    rw [hrun.kept.inbox.length] at hle
    exact UInt64.le_iff_toNat_le.mpr hle
  have hiff : Overtaken s s' call ↔ ¬∀ box ∈ call.box? s', call.box? s = some box :=
    overtaken_iff hfiled (later_settled_le hlater hrun)
  rw [← covers_iff] at hiff
  refine ⟨_, boxReferences_eq s call, ?_, ?_⟩
  · rw [hiff]
    push Not
    rfl
  · intro hcurrent env other
    exact exec_graft (not_not.mp (mt hiff.mpr hcurrent))

end Runs

section Sample
attribute [local instance] Crypto.unsigned

/-- Two deposits built in the state after creation: once one is in, the other names no box of its
own. -/
theorem sampleDeposit_names_its_box : ∃ s' log', Later sampleApp (fun _ _ _ => True) 0
    (sampleStart 100000) [] 5 s' log' ∧ Overtaken (sampleStart 100000) s' sampleDeposit.2 ∧
      ∃ names, boxReferences (sampleStart 100000) sampleDeposit.2 = .ok names ∧
        ∃ box ∈ sampleDeposit.2.box? s', box.name ∉ names := by
  have hdeposit := eq_ok_getD (a := sampleStart 100000) (x := exec sampleApp sampleDeposit.1
    (sampleStart 100000) sampleDeposit.2) (by decide +kernel)
  have hrun : Run sampleApp 100000 0 (sampleStart 100000) [] := .create 0 ..
  have hlater : Later sampleApp (fun _ _ _ => True) 0 (sampleStart 100000) [] 5 _ _ :=
    Later.start.call sampleDeposit.1 sampleDeposit.2 True.intro (by decide) hdeposit
  have hovertaken : Overtaken (sampleStart 100000) ((exec sampleApp sampleDeposit.1
      (sampleStart 100000) sampleDeposit.2).toOption.getD (sampleStart 100000))
      sampleDeposit.2 := by
    change State.inboxCursor _ ≠ State.inboxCursor _
    decide +kernel
  obtain ⟨names, hnames, hiff, -⟩ := client_names_its_box hrun hlater sampleDeposit.2
  exact ⟨_, _, hlater, hovertaken, names, hnames, hiff.mp hovertaken⟩

end Sample

end PaymentRollup.Client
