import PaymentRollup.Lib.Leb128
import PaymentRollup.Rollup.Codec

/-! # What a reader has read

A reader succeeds on an input exactly if some front of it is a string for the value it
returns, and leaves the rest. Each lemma says so for one reader; the ones on runs put the
string in front of any further bytes.
-/
namespace PaymentRollup

/-- `varint`: at most ten bytes, for a number below `2 ^ 64`. -/
def Varint (w : Bytes) (v : UInt64) : Prop := w.length ≤ 10 ∧ Leb128 w v.toNat

theorem Varint.length_pos {w : Bytes} {v : UInt64} (h : Varint w v) : 0 < w.length := h.2.length_pos

namespace Reader
variable {α β : Type} {x rest : Bytes}

section Primitives

theorem run_take {len : ℕ} (b : Bytes) (h : b.length = len) (rest : Bytes) :
    (take len).run (b ++ rest) = .ok (⟨b, h⟩, rest) := by
  subst h
  simp [take, StateT.run]

@[simp] theorem run_byte (b : UInt8) (rest : Bytes) : byte.run (b :: rest) = .ok (b, rest) :=
  rfl

@[simp] theorem run_word (w : Word) (rest : Bytes) :
    word.run (w.bytes ++ rest) = .ok (w, rest) := by
  simp only [word, StateT.run_bind, run_take w.bytes w.size rest]
  rfl

@[simp] theorem run_account (a : Account) (rest : Bytes) :
    account.run (a.encode ++ rest) = .ok (a, rest) := by
  simp only [account, StateT.run_bind, run_take a.encode a.encode_length rest, ok_bind,
    Account.decode_encode]
  rfl

@[simp] theorem run_remaining (bytes : Bytes) : remaining.run bytes = .ok (bytes.length, bytes) :=
  rfl

@[simp] theorem run_expectVersion (version : UInt8) (rest : Bytes) :
    (expectVersion version).run (version :: rest) = .ok ((), rest) := by
  simp only [expectVersion, StateT.run_bind, run_byte, ok_bind, ↓reduceIte]
  rfl

@[simp] theorem run_finish : finish.run [] = .ok ((), []) := rfl

theorem bind_run_eq_ok {r : Reader α} {f : α → Reader β} {b : β} :
    (r >>= f).run x = .ok (b, rest) ↔
      ∃ a mid, r.run x = .ok (a, mid) ∧ (f a).run mid = .ok (b, rest) := by
  simp only [StateT.run_bind, bind_eq_ok, Prod.exists]

theorem pure_run_eq_ok {a b : α} : (pure a : Reader α).run x = .ok (b, rest) ↔ a = b ∧ x = rest := by
  change (Except.ok (a, x) : Except DecodeError _) = .ok (b, rest) ↔ _
  rw [Except.ok.injEq, Prod.mk.injEq]

theorem fail_run_eq_ok {e : DecodeError} {a : α} : (fail e : Reader α).run x = .ok (a, rest) ↔ False := by
  simp [StateT.run, fail]

theorem take_eq_ok {len : ℕ} {b : { b : Bytes // b.length = len }} :
    (take len).run x = .ok (b, rest) ↔ x = b.1 ++ rest := by
  constructor
  · intro h
    simp only [take, StateT.run] at h
    split_ifs at h with hshort
    simp only [Except.ok.injEq, Prod.mk.injEq] at h
    obtain ⟨rfl, rfl⟩ := h
    exact (List.take_append_drop len x).symm
  · rintro rfl
    exact run_take b.1 b.2 rest

theorem byte_eq_ok {b : UInt8} : byte.run x = .ok (b, rest) ↔ x = b :: rest := by
  constructor
  · intro h
    simp only [byte, bind_run_eq_ok, take_eq_ok, pure_run_eq_ok] at h
    obtain ⟨⟨head, hsize⟩, mid, rfl, rfl, rfl⟩ := h
    obtain ⟨c, rfl⟩ := List.length_eq_one_iff.mp hsize
    rfl
  · rintro rfl
    exact run_byte b rest

theorem word_eq_ok {w : Word} : word.run x = .ok (w, rest) ↔ x = w.bytes ++ rest := by
  constructor
  · intro h
    simp only [word, bind_run_eq_ok, take_eq_ok, pure_run_eq_ok] at h
    obtain ⟨b, mid, rfl, rfl, rfl⟩ := h
    rfl
  · rintro rfl
    exact run_word w rest

theorem finish_eq_ok {u : Unit} : finish.run x = .ok (u, rest) ↔ x = [] ∧ rest = [] := by
  simp only [finish, StateT.run]
  split_ifs with h <;> simp [h, eq_comm]

theorem expectVersion_eq_ok {version : UInt8} {u : Unit} :
    (expectVersion version).run x = .ok (u, rest) ↔ x = version :: rest := by
  simp only [expectVersion, bind_run_eq_ok, byte_eq_ok]
  constructor
  · rintro ⟨found, mid, rfl, h⟩
    split_ifs at h with hversion
    · rw [pure_run_eq_ok] at h
      rw [hversion, h.2]
    · rw [fail_run_eq_ok] at h
      exact h.elim
  · rintro rfl
    exact ⟨version, rest, rfl, by rw [if_pos rfl]; rfl⟩

end Primitives

section Varints

theorem shiftRight_seven (v : UInt64) : (v >>> 7).toNat = v.toNat / 128 := by
  rw [UInt64.toNat_shiftRight]
  exact Nat.shiftRight_eq_div_pow v.toNat 7

theorem low_seven (v : UInt64) : (v &&& 0x7f).toUInt8.toNat = v.toNat % 128 := by
  have hmask : (0x7f : UInt64).toNat = 2 ^ 7 - 1 := rfl
  rw [UInt64.toNat_toUInt8, UInt64.toNat_and, hmask, Nat.and_two_pow_sub_one_eq_mod]
  omega

theorem payload_toNat (b : UInt8) : (b &&& 0x7f).toUInt64.toNat = b.toNat % 128 := by
  have hmask : (0x7f : UInt8).toNat = 2 ^ 7 - 1 := rfl
  rw [UInt8.toNat_toUInt64, UInt8.toNat_and, hmask, Nat.and_two_pow_sub_one_eq_mod]

theorem continued_toNat {b : UInt8} (h : b.toNat < 128) : (b ||| 0x80).toNat = b.toNat + 128 := by
  have hbit := Nat.two_pow_add_eq_or_of_lt (show b.toNat < 2 ^ 7 from h) 1
  have hmask : (0x80 : UInt8).toNat = 2 ^ 7 * 1 := rfl
  rw [UInt8.toNat_or, hmask, Nat.or_comm, ← hbit]
  omega

theorem continuation_eq_zero (b : UInt8) : b &&& 0x80 = 0 ↔ b.toNat < 128 := by
  have hall : ∀ n < 256, UInt8.ofNat n &&& 0x80 = 0 ↔ n < 128 := by decide +kernel
  have h := hall b.toNat b.toNat_lt
  rwa [UInt8.ofNat_toNat] at h

theorem or_shiftLeft {value payload : UInt64} {shift : ℕ} (hshift : shift < 64)
    (hvalue : value.toNat < 2 ^ shift) (hpayload : payload.toNat * 2 ^ shift < 2 ^ 64) :
    (value ||| payload <<< UInt64.ofNat shift).toNat =
      value.toNat + payload.toNat * 2 ^ shift := by
  have hmod : (UInt64.ofNat shift).toNat % 64 = shift := by
    rw [UInt64.toNat_ofNat']
    omega
  rw [UInt64.toNat_or, UInt64.toNat_shiftLeft, hmod, Nat.shiftLeft_eq,
    Nat.mod_eq_of_lt hpayload, mul_comm payload.toNat, Nat.or_comm,
    ← Nat.two_pow_add_eq_or_of_lt hvalue, add_comm]

/-- The overflow test of the loop, as arithmetic. -/
theorem payload_fits {payload : UInt64} {shift : ℕ} (hshift : shift < 64) :
    0xffffffffffffffff >>> UInt64.ofNat shift < payload ↔
      2 ^ 64 ≤ payload.toNat * 2 ^ shift := by
  have hmod : (UInt64.ofNat shift).toNat % 64 = shift := by
    rw [UInt64.toNat_ofNat']
    omega
  have hpos : 0 < 2 ^ shift := Nat.two_pow_pos shift
  have hmax : (0xffffffffffffffff : UInt64).toNat = 2 ^ 64 - 1 := rfl
  rw [UInt64.lt_iff_toNat_lt, UInt64.toNat_shiftRight, hmod, Nat.shiftRight_eq_div_pow,
    Nat.div_lt_iff_lt_mul hpos, hmax]
  omega

/-- The loop of the writer cuts its value into groups of seven bits and stops at the last. -/
theorem putVarintLoop_minimal {fuel : ℕ} {v : UInt64} (hfuel : 0 < fuel) (hv : v.toNat < 128 ^ fuel) :
    Leb128.Minimal (putVarintLoop fuel v) v.toNat ∧ (putVarintLoop fuel v).length ≤ fuel := by
  induction fuel generalizing v with
  | zero => omega
  | succ fuel ih =>
    have hlow := low_seven v
    have hhigh := shiftRight_seven v
    by_cases hlast : v >>> 7 = 0
    · have hsmall : (v &&& 0x7f).toUInt8.toNat = v.toNat := by
        rw [hlast, UInt64.toNat_zero] at hhigh
        omega
      rw [putVarintLoop, if_pos hlast, ← hsmall]
      exact ⟨.last (by omega), by simp⟩
    · have hpos : 0 < (v >>> 7).toNat := Nat.pos_of_ne_zero fun h => hlast (UInt64.toNat_inj.mp h)
      have hcont := continued_toNat (show (v &&& 0x7f).toUInt8.toNat < 128 by omega)
      have hfuel' : 0 < fuel := by
        rcases Nat.eq_zero_or_pos fuel with rfl | h
        · omega
        · exact h
      have hv' : (v >>> 7).toNat < 128 ^ fuel := by
        rw [hhigh, Nat.div_lt_iff_lt_mul (by omega)]
        rwa [pow_succ] at hv
      obtain ⟨hmin, hlength⟩ := ih hfuel' hv'
      have hsplit : v.toNat = ((v &&& 0x7f).toUInt8 ||| 0x80).toNat - 128 + 128 * (v >>> 7).toNat := by
        omega
      rw [putVarintLoop, if_neg hlast, List.length_cons, hsplit]
      exact ⟨hmin.more (by omega) hpos, by omega⟩

theorem putVarint_minimal (v : UInt64) : Leb128.Minimal (putVarint v) v.toNat :=
  (putVarintLoop_minimal (by omega) (v.toNat_lt.trans (by decide))).1

theorem putVarint_varint (v : UInt64) : Varint (putVarint v) v :=
  ⟨(putVarintLoop_minimal (by omega) (v.toNat_lt.trans (by decide))).2, (putVarint_minimal v).1⟩

theorem putVarint_length_pos (v : UInt64) : 0 < (putVarint v).length := (putVarint_varint v).length_pos

theorem accumulate_toNat {value : UInt64} {shift : ℕ} {byte : UInt8}
    (hvalue : value.toNat < 2 ^ shift)
    (hgood : ¬(64 ≤ shift ∨ 0xffffffffffffffff >>> UInt64.ofNat shift < (byte &&& 0x7f).toUInt64)) :
    (value ||| (byte &&& 0x7f).toUInt64 <<< UInt64.ofNat shift).toNat =
        value.toNat + byte.toNat % 128 * 2 ^ shift ∧
      (value ||| (byte &&& 0x7f).toUInt64 <<< UInt64.ofNat shift).toNat < 2 ^ (shift + 7) := by
  obtain ⟨hshift, hfits⟩ := not_or.mp hgood
  rw [payload_fits (by omega), payload_toNat, not_le] at hfits
  have hnext := @or_shiftLeft _ (byte &&& 0x7f).toUInt64 _ (by omega) hvalue
    (by rwa [payload_toNat])
  rw [payload_toNat] at hnext
  have hroom : byte.toNat % 128 * 2 ^ shift + 2 ^ shift ≤ 128 * 2 ^ shift := by
    rw [← Nat.succ_mul]
    exact Nat.mul_le_mul_right _ (by omega)
  have hpow : 2 ^ (shift + 7) = 128 * 2 ^ shift := by
    rw [pow_add]
    ring
  exact ⟨hnext, by omega⟩

/-- The loop reads a string for the bits above `shift`, as long as these are below `2 ^ 64`. -/
theorem varintLoop_eq_ok {value v : UInt64} {shift : ℕ} (hvalue : value.toNat < 2 ^ shift) :
    varintLoop value shift x = .ok (v, rest) ↔
      ∃ w n, x = w ++ rest ∧ Leb128 w n ∧ v.toNat = value.toNat + n * 2 ^ shift ∧
        shift + 7 * (w.length - 1) < 64 := by
  induction x generalizing value shift with
  | nil =>
    simp only [varintLoop, reduceCtorEq, false_iff]
    rintro ⟨w, n, hx, hw, -⟩
    have := hw.length_pos
    rw [(List.append_eq_nil_iff.mp hx.symm).1, List.length_nil] at this
    omega
  | cons byte tail ih =>
    have hlt := byte.toNat_lt
    have hv := toNat_lt v
    by_cases hbad : 64 ≤ shift ∨ 0xffffffffffffffff >>> UInt64.ofNat shift < (byte &&& 0x7f).toUInt64
    · -- what the loop refuses does not fit sixty-four bits
      simp only [varintLoop, if_pos hbad, reduceCtorEq, false_iff]
      rintro ⟨w, n, hx, hw, hsum, hwidth⟩
      rw [payload_fits (by omega), payload_toNat] at hbad
      have hle : byte.toNat % 128 ≤ n := by
        rcases hw.split_cons hx with ⟨-, -, -, rfl⟩ | ⟨hmore, w', m, -, -, -, rfl⟩ <;> omega
      have := Nat.mul_le_mul_right (2 ^ shift) hle
      omega
    · obtain ⟨hnext, hvalue'⟩ := accumulate_toNat hvalue hbad
      by_cases hstop : byte &&& 0x80 = 0
      · simp only [varintLoop, if_neg hbad, if_pos hstop, Except.ok.injEq, Prod.mk.injEq]
        rw [continuation_eq_zero] at hstop
        rw [Nat.mod_eq_of_lt hstop] at hnext
        constructor
        · rintro ⟨rfl, rfl⟩
          exact ⟨[byte], byte.toNat, rfl, .last hstop, hnext, by simpa using by omega⟩
        · rintro ⟨w, n, hx, hw, hsum, -⟩
          rcases hw.split_cons hx with ⟨-, rfl, rfl, rfl⟩ | ⟨hmore, -⟩
          · exact ⟨UInt64.toNat_inj.mp (hnext.trans hsum.symm), rfl⟩
          · omega
      · simp only [varintLoop, if_neg hbad, if_neg hstop, ih hvalue', hnext]
        rw [continuation_eq_zero, not_lt] at hstop
        have hlow : byte.toNat % 128 = byte.toNat - 128 := by omega
        have hsplit : ∀ n, (byte.toNat - 128 + 128 * n) * 2 ^ shift =
            (byte.toNat - 128) * 2 ^ shift + n * 2 ^ (shift + 7) := fun n => by ring
        rw [hlow]
        constructor
        · rintro ⟨w, n, rfl, hw, hsum, hwidth⟩
          have := hw.length_pos
          refine ⟨byte :: w, _, rfl, .more hstop hw, ?_, ?_⟩
          · rw [hsum, hsplit, Nat.add_assoc]
          · rw [List.length_cons]
            omega
        · rintro ⟨w, n, hx, hw, hsum, hwidth⟩
          rcases hw.split_cons hx with ⟨hlast, -⟩ | ⟨-, w', m, rfl, rfl, hm, rfl⟩
          · omega
          · have := hm.length_pos
            refine ⟨w', m, rfl, hm, ?_, ?_⟩
            · rw [hsum, hsplit, Nat.add_assoc]
            · rw [List.length_cons] at hwidth
              omega

theorem varint_eq_ok {v : UInt64} :
    varint.run x = .ok (v, rest) ↔ ∃ w, x = w ++ rest ∧ Varint w v := by
  have hloop : varint.run x = .ok (v, rest) ↔ varintLoop 0 0 x = .ok (v, rest) := Iff.rfl
  rw [hloop, varintLoop_eq_ok (by decide)]
  constructor
  · rintro ⟨w, n, rfl, hw, hsum, hwidth⟩
    have hn : v.toNat = n := by simpa using hsum
    exact ⟨w, rfl, by omega, hn ▸ hw⟩
  · rintro ⟨w, rfl, hwidth, hw⟩
    exact ⟨w, v.toNat, rfl, hw, by simp, by omega⟩

theorem varint_run {w : Bytes} {v : UInt64} (h : Varint w v) (rest : Bytes) :
    varint.run (w ++ rest) = .ok (v, rest) := varint_eq_ok.mpr ⟨w, rfl, h⟩

@[simp] theorem run_varint (v : UInt64) (rest : Bytes) :
    varint.run (putVarint v ++ rest) = .ok (v, rest) := varint_run (putVarint_varint v) rest

end Varints

section Counts

theorem count_eq_ok {usize stride n : ℕ} :
    (count usize stride).run x = .ok (n, rest) ↔
      ∃ w v, x = w ++ rest ∧ Varint w v ∧ v.toNat = n ∧ n < usize ∧ n * stride < usize ∧
        n * stride ≤ rest.length := by
  simp only [count, bind_run_eq_ok, varint_eq_ok]
  constructor
  · rintro ⟨v, mid, ⟨w, rfl, hw⟩, h⟩
    split_ifs at h with hword
    · exact (fail_run_eq_ok.mp h).elim
    · simp only [bind_run_eq_ok, run_remaining, Except.ok.injEq, Prod.mk.injEq] at h
      obtain ⟨_, _, ⟨rfl, rfl⟩, h⟩ := h
      split_ifs at h with hplausible
      · exact (fail_run_eq_ok.mp h).elim
      · obtain ⟨rfl, rfl⟩ := pure_run_eq_ok.mp h
        exact ⟨w, v, rfl, hw, rfl, by omega, by omega, by omega⟩
  · rintro ⟨w, v, rfl, hw, rfl, hword, hproduct, hback⟩
    refine ⟨v, rest, ⟨w, rfl, hw⟩, ?_⟩
    have hplausible : ¬(usize ≤ v.toNat * stride ∨ rest.length < v.toNat * stride) := by omega
    simp only [not_le.mpr hword, ↓reduceIte, StateT.run_bind, run_remaining, ok_bind, hplausible]
    rfl

theorem run_count {usize stride n : ℕ} {rest : Bytes} (husize : usize ≤ 2 ^ 64)
    (hstride : 0 < stride) (hback : n * stride ≤ rest.length) (hfit : rest.length < usize) :
    (count usize stride).run (putVarint (UInt64.ofNat n) ++ rest) = .ok (n, rest) := by
  have hn : n ≤ n * stride := Nat.le_mul_of_pos_right n hstride
  have hto : (UInt64.ofNat n).toNat = n := by
    rw [UInt64.toNat_ofNat']
    exact Nat.mod_eq_of_lt (by omega)
  have hword : ¬usize ≤ n := by omega
  have hplausible : ¬(usize ≤ n * stride ∨ rest.length < n * stride) := by omega
  simp only [count, StateT.run_bind, run_varint, ok_bind, hto, hword, ↓reduceIte, run_remaining,
    hplausible]
  rfl

theorem run_bytes {usize : ℕ} {b rest : Bytes} (husize : usize ≤ 2 ^ 64)
    (hfit : (b ++ rest).length < usize) :
    (bytes usize).run (putBytes b ++ rest) = .ok (b, rest) := by
  have hback : b.length * 1 ≤ (b ++ rest).length := by simp
  simp only [bytes, putBytes, List.append_assoc, StateT.run_bind,
    run_count husize Nat.one_pos hback hfit, ok_bind, run_take b rfl rest]
  rfl

end Counts

end Reader

end PaymentRollup
