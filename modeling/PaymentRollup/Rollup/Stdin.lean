import PaymentRollup.Rollup.HostSettlement

/-! # What passes between the host and the guest

The host writes its inputs one slice after another and the guest reads them by position. The guest
commits something exactly when what it was given starts with the inputs of a run that does.
-/
namespace PaymentRollup

section Slices

/-- `try_into()` of a vector of bytes. -/
def toWord (bytes : Bytes) : Option Word := if h : bytes.length = 32 then some ⟨bytes, h⟩ else none

@[simp] theorem toWord_bytes (w : Word) : toWord w.bytes = some w := by
  rw [toWord, dif_pos w.size]

theorem toWord_eq_some {bytes : Bytes} {w : Word} : toWord bytes = some w ↔ bytes = w.bytes := by
  constructor
  · intro h
    unfold toWord at h
    split_ifs at h
    exact congrArg Word.bytes (Option.some.inj h)
  · rintro rfl
    exact toWord_bytes w

/-- `read_vec`: the next slice, and those after it. -/
def readVec : List Bytes → Option (Bytes × List Bytes)
  | [] => none
  | slice :: rest => some (slice, rest)

theorem readVec_eq_some {stdin rest : List Bytes} {slice : Bytes} :
    readVec stdin = some (slice, rest) ↔ stdin = slice :: rest := by
  cases stdin <;> simp [readVec]

end Slices

variable [Crypto]

/-- `stdin_for`: the slices the guest is fed. -/
def Settlement.stdin (x : Settlement) : List Bytes :=
  [x.domain.bytes, x.oldRoot.bytes, x.oldInboxChain.bytes, x.batchBytes, x.sidecarBytes]

/-- `main`: what the guest commits, or `none` if it panics. -/
def Guest.main (usize : ℕ) (stdin : List Bytes) : Option Bytes := do
  let (slice, stdin) ← readVec stdin
  let domain ← toWord slice
  let (slice, stdin) ← readVec stdin
  let oldRoot ← toWord slice
  let (slice, stdin) ← readVec stdin
  let inboxAnchor ← toWord slice
  let (batchBytes, stdin) ← readVec stdin
  let (sidecarBytes, _) ← readVec stdin
  (PaymentRollup.execute usize domain oldRoot inboxAnchor batchBytes sidecarBytes).toOption

def Execution.slices (x : Execution) : List Bytes :=
  [x.domain.bytes, x.oldRoot.bytes, x.inboxAnchor.bytes, x.batchBytes, x.sidecarBytes]

omit [Crypto] in
theorem toOption_eq_some {ε α : Type} {x : Except ε α} {a : α} :
    x.toOption = some a ↔ x = .ok a := by
  cases x <;> simp [Except.toOption]

theorem Guest.main_eq_some {usize : ℕ} {stdin : List Bytes} {bytes : Bytes} :
    Guest.main usize stdin = some bytes ↔
      ∃ x : Execution, x.slices <+: stdin ∧ x.Commits usize bytes := by
  simp only [Guest.main, Option.bind_eq_bind, Option.bind_eq_some_iff, Prod.exists,
    readVec_eq_some, toWord_eq_some, toOption_eq_some]
  constructor
  · rintro ⟨_, _, rfl, domain, rfl, _, _, rfl, oldRoot, rfl, _, _, rfl, anchor, rfl,
      batchBytes, _, rfl, sidecarBytes, rest, rfl, hok⟩
    exact ⟨⟨domain, oldRoot, anchor, batchBytes, sidecarBytes⟩, ⟨rest, rfl⟩, hok⟩
  · rintro ⟨x, ⟨rest, rfl⟩, hok⟩
    exact ⟨_, _, rfl, x.domain, rfl, _, _, rfl, x.oldRoot, rfl, _, _, rfl, x.inboxAnchor, rfl,
      x.batchBytes, _, rfl, x.sidecarBytes, rest, rfl, hok⟩

/-- Fed what the host writes, the guest commits what the host said it would. -/
theorem Settlement.forBlock_stdin {usize : ℕ} {block : Block} {x : Settlement}
    (h : Settlement.forBlock usize block = .ok x) :
    x.stdin = block.execution.slices ∧ Guest.main usize x.stdin = some x.publicValues := by
  simp only [forBlock, bind_eq_ok, require_eq_ok, Except.ok.injEq] at h
  obtain ⟨values, hexecute, _, -, batch, -, sidecar, -, rfl⟩ := h
  refine ⟨rfl, Guest.main_eq_some.mpr ⟨block.execution, List.prefix_refl _, hexecute⟩⟩

end PaymentRollup
