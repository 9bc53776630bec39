import PaymentRollup.Rollup.HostSettlement

/-! # How long the halves of a block can get

Every field of the wire format has a longest encoding, signatures apart, so a block whose
signatures are short encodes to byte strings linear in its transactions.
-/
namespace PaymentRollup

section Fields

theorem putVarint_length_le (v : UInt64) : (putVarint v).length ≤ 10 :=
  (Reader.putVarint_varint v).1

theorem putAddress_length_le (positions : Dictionary) (a : Address) :
    (positions.put a).1.length ≤ 33 := by
  unfold Dictionary.put
  split
  · exact (putVarint_length_le _).trans (by decide)
  · rw [List.length_cons, a.size]

theorem putTxn_length_le (positions : Dictionary) (t : Transaction) :
    (putTxn positions t).1.length ≤ 87 := by
  cases t with
  | payment p =>
    have hsender := putAddress_length_le positions p.header.sender
    have hreceiver := putAddress_length_le (positions.put p.header.sender).2 p.receiver
    have hfee := putVarint_length_le p.header.fee
    have hamount := putVarint_length_le p.amount
    simp only [putTxn, List.length_cons, List.length_append]
    omega
  | deposit d =>
    have hreceiver := putAddress_length_le positions d.receiver
    have hamount := putVarint_length_le d.amount
    simp only [putTxn, List.length_cons, List.length_append]
    omega
  | withdrawal w =>
    have hsender := putAddress_length_le positions w.header.sender
    have hfee := putVarint_length_le w.header.fee
    have hamount := putVarint_length_le w.amount
    simp only [putTxn, List.length_cons, List.length_append, w.recipient.size]
    omega
  | forcedWithdrawal f =>
    have haddress := putAddress_length_le positions f.address
    simp only [putTxn, List.length_cons, List.length_append, f.recipient.size]
    omega

theorem putTxns_length_le (positions : Dictionary) (ts : List Transaction) :
    (putTxns positions ts).length ≤ 87 * ts.length := by
  induction ts generalizing positions with
  | nil => exact Nat.le_refl 0
  | cons t rest ih =>
    have hfirst := putTxn_length_le positions t
    have hrest := ih (putTxn positions t).2
    simp only [putTxns, List.length_append, List.length_cons]
    omega

theorem putWitness_length_le {w : LeafWitness} (h : w.proof.siblings.length ≤ maxDepth) :
    (putWitness w).length ≤ 8332 := by
  have haccount : (putOptionalAccount w.oldAccount).length ≤ 49 := by
    cases w.oldAccount with
    | none => decide
    | some a =>
      rw [putOptionalAccount, List.length_cons, a.encode_length]
      decide
  have hslot : (putSlot w.proof.slot).length ≤ 81 := by
    cases w.proof.slot with
    | own => decide
    | neighbor address account =>
      rw [putSlot, List.length_cons, List.length_append, address.size, account.encode_length]
      decide
  have hcount := putVarint_length_le (UInt64.ofNat w.proof.siblings.length)
  have hmax : maxDepth = 256 := rfl
  simp only [putWitness, List.length_append, Reader.flatMap_bytes_length]
  omega

theorem putOptionalWitness_length_le {w : Option LeafWitness}
    (h : ∀ x ∈ w, x.proof.siblings.length ≤ maxDepth) : (putOptionalWitness w).length ≤ 8332 := by
  cases w with
  | none => exact Nat.zero_le _
  | some x => exact putWitness_length_le (h x rfl)

end Fields

section Halves

def SignedTransaction.signature? : SignedTransaction → Option Signature
  | .payment _ sig => some sig
  | .deposit _ => none
  | .withdrawal _ sig => some sig
  | .forcedWithdrawal _ => none

def TxnSidecar.signature? : TxnSidecar → Option Signature
  | .payment e => some e.sig
  | .deposit _ => none
  | .withdrawal e => some e.sig
  | .forcedWithdrawal _ => none

theorem putEntry_length_le {t : Transaction} {e : TxnSidecar} (h : Reader.Aligned t e) {n : ℕ}
    (hsig : ∀ sig ∈ e.signature?, (putSignature sig).length ≤ n) :
    (putEntry e).length ≤ n + 24996 := by
  cases e with
  | payment e =>
    cases t with
    | payment p =>
      have hsig := hsig e.sig rfl
      have hsender := putWitness_length_le h.2.1
      have hreceiver := putWitness_length_le h.2.2.1
      have hfee := putOptionalWitness_length_le h.2.2.2
      simp only [putEntry, List.length_append]
      omega
    | _ => exact h.elim
  | deposit e =>
    cases t with
    | deposit d =>
      have hreceiver := putWitness_length_le h
      simp only [putEntry]
      omega
    | _ => exact h.elim
  | withdrawal e =>
    cases t with
    | withdrawal w =>
      have hsig := hsig e.sig rfl
      have hsender := putWitness_length_le h.2.1
      have hfee := putOptionalWitness_length_le h.2.2
      simp only [putEntry, List.length_append]
      omega
    | _ => exact h.elim
  | forcedWithdrawal e =>
    cases t with
    | forcedWithdrawal f =>
      have hsender := putWitness_length_le h
      simp only [putEntry]
      omega
    | _ => exact h.elim

theorem putEntries_length_le {ts : List Transaction} {es : List TxnSidecar}
    (h : List.Forall₂ Reader.Aligned ts es) {n : ℕ}
    (hsigs : ∀ e ∈ es, ∀ sig ∈ e.signature?, (putSignature sig).length ≤ n) :
    (es.flatMap putEntry).length ≤ (n + 24996) * es.length := by
  induction h with
  | nil => exact Nat.le_refl 0
  | cons hfirst hrest ih =>
    obtain ⟨hsig, hsigs⟩ := List.forall_mem_cons.mp hsigs
    have hle := putEntry_length_le hfirst hsig
    have hles := ih hsigs
    rw [List.flatMap_cons, List.length_append, List.length_cons, Nat.mul_succ]
    omega

variable [Crypto]

namespace Ledger

theorem Building.step_signature {b b' : Building} {stxn : SignedTransaction}
    (h : b.step stxn = some b') :
    ∃ entry, b'.entries = b.entries ++ [entry] ∧ entry.signature? = stxn.signature? := by
  cases stxn with
  | payment p sig =>
    simp only [step, Option.bind_eq_bind, Option.bind_eq_some_iff, Option.some.injEq,
      Prod.exists] at h
    obtain ⟨_, _, -, _, _, -, _, _, -, rfl⟩ := h
    exact ⟨_, rfl, rfl⟩
  | deposit d =>
    simp only [step, Option.bind_eq_bind, Option.bind_eq_some_iff, Option.some.injEq,
      Prod.exists] at h
    obtain ⟨_, _, -, rfl⟩ := h
    exact ⟨_, rfl, rfl⟩
  | withdrawal w sig =>
    simp only [step] at h
    split_ifs at h
    simp only [Option.bind_eq_bind, Option.bind_eq_some_iff, Option.some.injEq,
      Prod.exists] at h
    obtain ⟨_, _, -, _, _, -, rfl⟩ := h
    exact ⟨_, rfl, rfl⟩
  | forcedWithdrawal f =>
    simp only [step] at h
    split_ifs at h
    · simp only [Option.bind_eq_bind, Option.bind_eq_some_iff, Option.some.injEq] at h
      obtain ⟨_, -, _, -, rfl⟩ := h
      exact ⟨_, rfl, rfl⟩
    · cases h
      exact ⟨_, rfl, rfl⟩

theorem Building.steps_signatures {b b' : Building} {stxns : List SignedTransaction}
    (h : stxns.foldlM Building.step b = some b') :
    b'.entries.map TxnSidecar.signature? =
      b.entries.map TxnSidecar.signature? ++ stxns.map SignedTransaction.signature? := by
  induction stxns generalizing b with
  | nil =>
    cases h
    exact (List.append_nil _).symm
  | cons stxn rest ih =>
    simp only [List.foldlM_cons, Option.bind_eq_bind, Option.bind_eq_some_iff] at h
    obtain ⟨b₁, hstep, hrest⟩ := h
    obtain ⟨entry, hentries, hsig⟩ := Building.step_signature hstep
    rw [ih hrest, hentries, List.map_append, List.append_assoc, List.map_singleton, hsig,
      List.map_cons, List.singleton_append]

theorem getBlock_sizes {l l' : Ledger} (hl : l.Consistent) {stxns : List SignedTransaction}
    {block : Block} (h : l.getBlock stxns = some (block, l')) {n : ℕ}
    (hsigs : ∀ stxn ∈ stxns, ∀ sig ∈ stxn.signature?, (putSignature sig).length ≤ n) :
    block.batch.encode.length ≤ 11 + 87 * stxns.length ∧
      block.sidecar.encode.length ≤ 11 + (n + 24996) * stxns.length := by
  have hproves := getBlock_proves hl h
  have htxns : block.batch.txns.length = stxns.length := by
    rw [getBlock_txns h, List.length_map]
  have hentries : block.sidecar.entries.map TxnSidecar.signature? =
      stxns.map SignedTransaction.signature? := by
    simp only [getBlock, Option.bind_eq_bind, Option.bind_eq_some_iff, Option.some.injEq,
      Prod.mk.injEq] at h
    obtain ⟨b, hrun, rfl, -⟩ := h
    exact Building.steps_signatures hrun
  have hlength : block.sidecar.entries.length = stxns.length := by
    rw [← htxns, hproves.aligned.length_eq]
  have hshort : ∀ e ∈ block.sidecar.entries, ∀ sig ∈ e.signature?,
      (putSignature sig).length ≤ n := by
    intro e he sig hsig
    have hmem : e.signature? ∈ stxns.map SignedTransaction.signature? :=
      hentries ▸ List.mem_map_of_mem he
    obtain ⟨stxn, hstxn, heq⟩ := List.mem_map.mp hmem
    exact hsigs stxn hstxn sig (heq ▸ hsig)
  have hcount := putVarint_length_le (UInt64.ofNat block.batch.txns.length)
  have hcount' := putVarint_length_le (UInt64.ofNat block.sidecar.entries.length)
  have hbatch := putTxns_length_le [] block.batch.txns
  have hsidecar := putEntries_length_le hproves.aligned hshort
  rw [htxns] at hbatch
  rw [hlength] at hsidecar
  constructor
  · simp only [Batch.encode, List.length_cons, List.length_append]
    omega
  · simp only [Sidecar.encode, List.length_cons, List.length_append]
    omega

end Ledger

end Halves

end PaymentRollup
