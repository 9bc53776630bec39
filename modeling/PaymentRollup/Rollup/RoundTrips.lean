import PaymentRollup.Rollup.CodecProofs

/-! # The wire loses nothing

Every batch comes back from its bytes, and every sidecar from its own: a sidecar's bytes carry
no tags, so what comes back is read in the shape the batch calls for, and nothing else is.
-/
namespace PaymentRollup
namespace Reader

section Alignment
variable {usize : ℕ} {x rest : Bytes}

theorem words_length {n : ℕ} {ws : List Word} (h : (words n).run x = .ok (ws, rest)) :
    ws.length = n := by
  induction n generalizing x ws with
  | zero =>
    obtain ⟨rfl, -⟩ := pure_run_eq_ok.mp h
    rfl
  | succ n ih =>
    simp only [words, bind_run_eq_ok, pure_run_eq_ok] at h
    obtain ⟨w, _, -, ws, _, hrest, rfl, rfl⟩ := h
    rw [List.length_cons, ih hrest]

theorem witness_depth {w : LeafWitness} (h : (witness usize).run x = .ok (w, rest)) :
    w.proof.siblings.length ≤ maxDepth := by
  simp only [witness, bind_run_eq_ok] at h
  obtain ⟨old, _, -, depth, _, -, h⟩ := h
  split_ifs at h with hdeep
  · exact (fail_run_eq_ok.mp h).elim
  · simp only [bind_run_eq_ok, pure_run_eq_ok] at h
    obtain ⟨ws, _, hwords, slot, _, -, rfl, -⟩ := h
    rw [words_length hwords]
    exact not_lt.mp hdeep

theorem feeSinkWitness_present {fee : UInt64} {w : Option LeafWitness}
    (h : (feeSinkWitness usize fee).run x = .ok (w, rest)) :
    (w.isSome ↔ fee ≠ 0) ∧ ∀ x ∈ w, x.proof.siblings.length ≤ maxDepth := by
  unfold feeSinkWitness at h
  split_ifs at h with hfee
  · simp only [bind_run_eq_ok, pure_run_eq_ok] at h
    obtain ⟨x, _, hwitness, rfl, -⟩ := h
    constructor
    · exact iff_of_true rfl hfee
    · rintro _ ⟨⟩
      exact witness_depth hwitness
  · obtain ⟨rfl, -⟩ := pure_run_eq_ok.mp h
    constructor
    · exact iff_of_false Bool.false_ne_true hfee
    · intro x hx
      cases hx

theorem entry_aligned {t : Transaction} {e : TxnSidecar}
    (h : (entry usize t).run x = .ok (e, rest)) : Aligned t e := by
  cases t with
  | payment p =>
    simp only [entry, bind_run_eq_ok, pure_run_eq_ok] at h
    obtain ⟨sig, _, -, sender, _, hsender, receiver, _, hreceiver, sink, _, hsink, rfl, -⟩ := h
    obtain ⟨hpresent, hdepth⟩ := feeSinkWitness_present hsink
    exact ⟨hpresent, witness_depth hsender, witness_depth hreceiver, hdepth⟩
  | deposit d =>
    simp only [entry, bind_run_eq_ok, pure_run_eq_ok] at h
    obtain ⟨receiver, _, hreceiver, rfl, -⟩ := h
    exact witness_depth hreceiver
  | withdrawal w =>
    simp only [entry, bind_run_eq_ok, pure_run_eq_ok] at h
    obtain ⟨sig, _, -, sender, _, hsender, sink, _, hsink, rfl, -⟩ := h
    obtain ⟨hpresent, hdepth⟩ := feeSinkWitness_present hsink
    exact ⟨hpresent, witness_depth hsender, hdepth⟩
  | forcedWithdrawal f =>
    simp only [entry, bind_run_eq_ok, pure_run_eq_ok] at h
    obtain ⟨sender, _, hsender, rfl, -⟩ := h
    exact witness_depth hsender

theorem entries_aligned {ts : List Transaction} {es : List TxnSidecar}
    (h : (entries usize ts).run x = .ok (es, rest)) : List.Forall₂ Aligned ts es := by
  induction ts generalizing x es with
  | nil =>
    obtain ⟨rfl, -⟩ := pure_run_eq_ok.mp h
    exact .nil
  | cons t ts ih =>
    simp only [entries, bind_run_eq_ok, pure_run_eq_ok] at h
    obtain ⟨e, _, hfirst, es, _, hrest, rfl, rfl⟩ := h
    exact .cons (entry_aligned hfirst) (ih hrest)

end Alignment

end Reader

theorem Sidecar.aligned_of_decode {usize : ℕ} {bytes : Bytes} {batch : Batch} {sidecar : Sidecar}
    (h : Sidecar.decode usize bytes batch = .ok sidecar) :
    List.Forall₂ Reader.Aligned batch.txns sidecar.entries := by
  unfold Sidecar.decode at h
  change (StateT.run _ _ >>= _) = _ at h
  simp only [bind_eq_ok, Prod.exists, Except.ok.injEq, Reader.bind_run_eq_ok] at h
  obtain ⟨found, rest, ⟨_, _, -, n, _, -, hread⟩, rfl⟩ := h
  split_ifs at hread with hlength
  · exact (Reader.fail_run_eq_ok.mp hread).elim
  · simp only [Reader.bind_run_eq_ok, Reader.pure_run_eq_ok] at hread
    obtain ⟨es, _, hentries, _, _, -, rfl, -⟩ := hread
    exact Reader.entries_aligned hentries

/-- Every batch whose encoding is a `Vec`, whose length its machine's word then holds, comes back
from its bytes. So no two batches share their bytes. -/
theorem batch_round_trip {usize : ℕ} (husize : usize ≤ 2 ^ 64) (batch : Batch)
    (hvec : batch.encode.length < usize) :
    Batch.decode usize batch.encode = .ok batch ∧
    ∀ other : Batch, other.encode = batch.encode → other = batch := by
  have hback := Batch.decode_encode husize batch hvec
  constructor
  · exact hback
  · intro other hsame
    have hother := Batch.decode_encode husize other (by rwa [hsame])
    rw [hsame, hback] at hother
    exact (Except.ok.inj hother).symm

/-- The sidecars that come back from their bytes are the aligned ones: each of them does, and
what bytes decode to is always one. -/
theorem sidecar_round_trip {usize : ℕ} (husize : usize ≤ 2 ^ 64) (batch : Batch) :
    (∀ sidecar : Sidecar, List.Forall₂ Reader.Aligned batch.txns sidecar.entries →
      sidecar.encode.length < usize → Sidecar.decode usize sidecar.encode batch = .ok sidecar) ∧
    ∀ (bytes : Bytes) (sidecar : Sidecar), Sidecar.decode usize bytes batch = .ok sidecar →
      List.Forall₂ Reader.Aligned batch.txns sidecar.entries := by
  constructor
  · intro sidecar haligned hvec
    exact Sidecar.decode_encode husize haligned hvec
  · intro bytes sidecar hdecode
    exact Sidecar.aligned_of_decode hdecode

section Sample

def sampleWire : Batch :=
  ⟨[.deposit ⟨feeSink, 300⟩, .payment ⟨⟨feeSink, 7⟩, zeroAddress, 18446744073709551615⟩,
    .withdrawal ⟨⟨zeroAddress, 0⟩, feeSink, 5⟩, .forcedWithdrawal ⟨feeSink, zeroAddress⟩]⟩

def sampleWireWitness : LeafWitness := ⟨none, ⟨[zeroAddress], .neighbor feeSink ⟨1, 2, feeSink⟩⟩⟩

def sampleWireSidecar : Sidecar :=
  ⟨[.deposit ⟨sampleWireWitness⟩,
    .payment ⟨⟨.managed, [1, 2], [3]⟩, sampleWireWitness, sampleWireWitness, some sampleWireWitness⟩,
    .withdrawal ⟨⟨.managed, [], []⟩, sampleWireWitness, none⟩, .forcedWithdrawal ⟨sampleWireWitness⟩]⟩

theorem sampleWire_back : Batch.decode (2 ^ 32) sampleWire.encode = .ok sampleWire ∧
    ∀ other : Batch, other.encode = sampleWire.encode → other = sampleWire :=
  batch_round_trip (by decide) sampleWire (by decide +kernel)

theorem sampleWireSidecar_back :
    Sidecar.decode (2 ^ 32) sampleWireSidecar.encode sampleWire = .ok sampleWireSidecar ∧
    List.Forall₂ Reader.Aligned sampleWire.txns sampleWireSidecar.entries := by
  obtain ⟨hthere, hback⟩ := sidecar_round_trip (show 2 ^ 32 ≤ 2 ^ 64 by decide) sampleWire
  have haligned : List.Forall₂ Reader.Aligned sampleWire.txns sampleWireSidecar.entries := by
    simp [sampleWire, sampleWireSidecar, sampleWireWitness, Reader.Aligned, maxDepth]
  have hdecode := hthere sampleWireSidecar haligned (by decide +kernel)
  exact ⟨hdecode, hback _ _ hdecode⟩

end Sample

end PaymentRollup
