import Mathlib

/-!
# Bit fields of a 64-bit word

A packed record keeps each of its fields in a run of bits of a `u64`. `extractBits w s n` is the
field of `n` bits of `w` from bit `s` on, and `insertBits w s n v` writes the low `n` bits of `v`
there and keeps every other bit of `w`. A field read back after a write to it is the value
written (`extractBits_insertBits_self`), and a write leaves every field it does not overlap
(`extractBits_insertBits_of_le`, `extractBits_insertBits_of_ge`).

The loop `while v != 0 { f(v.trailing_zeros()); v &= v - 1 }` (`forEachSetBit`) visits the set
bits of a word lowest first: it is a fold over `setBits v` (`forEachSetBit_eq_foldlM`), a strictly
increasing list (`setBits_sorted`) of exactly the set bits (`mem_setBits`).
-/

namespace Nydus.Lib

/-- The `n` bits of `w` from bit `s` on. -/
def extractBits (w : UInt64) (s n : Nat) : Nat := w.toNat / 2 ^ s % 2 ^ n

/-- `w` with its `n` bits from bit `s` on replaced by the low `n` bits of `v`. -/
def insertBits (w : UInt64) (s n v : Nat) : UInt64 :=
  UInt64.ofBitVec ((w.toBitVec &&& ~~~(BitVec.ofNat 64 (2 ^ n - 1) <<< s)) |||
    (BitVec.ofNat 64 (v % 2 ^ n) <<< s))

theorem getLsbD_eq_testBit (w : UInt64) (i : Nat) : w.toBitVec.getLsbD i = w.toNat.testBit i := by
  rw [← UInt64.toNat_toBitVec, BitVec.testBit_toNat]

theorem testBit_extractBits (w : UInt64) (s n i : Nat) :
    (extractBits w s n).testBit i = (decide (i < n) && w.toBitVec.getLsbD (s + i)) := by
  rw [extractBits, Nat.testBit_mod_two_pow, Nat.testBit_div_two_pow, getLsbD_eq_testBit,
    Nat.add_comm i s]

theorem extractBits_lt (w : UInt64) (s n : Nat) : extractBits w s n < 2 ^ n :=
  Nat.mod_lt _ (Nat.two_pow_pos n)

theorem getLsbD_insertBits (w : UInt64) (s n v i : Nat) :
    (insertBits w s n v).toBitVec.getLsbD i =
      if s ≤ i ∧ i < s + n then decide (i < 64) && v.testBit (i - s)
      else w.toBitVec.getLsbD i := by
  simp only [insertBits, UInt64.toBitVec_ofBitVec, BitVec.getLsbD_or, BitVec.getLsbD_and,
    BitVec.getLsbD_not, BitVec.getLsbD_shiftLeft, BitVec.getLsbD_ofNat, Nat.testBit_mod_two_pow,
    Nat.testBit_two_pow_sub_one]
  by_cases h : s ≤ i ∧ i < s + n
  · have hlt : i - s < n := by omega
    by_cases h64 : i < 64
    · simp [h, hlt, h64, Nat.not_lt.mpr h.1, show i - s < 64 by omega]
    · simp [h, h64]
  · rw [if_neg h]
    by_cases h64 : i < 64
    · by_cases hs : i < s
      · simp [hs, h64]
      · simp [hs, show ¬i - s < n by omega, h64]
    · simp [h64, BitVec.getLsbD_of_ge w.toBitVec i (by omega)]

/-- A field read back after a write to it. -/
theorem extractBits_insertBits_self {s n : Nat} (h : s + n ≤ 64) (w : UInt64) (v : Nat) :
    extractBits (insertBits w s n v) s n = v % 2 ^ n := by
  apply Nat.eq_of_testBit_eq
  intro i
  rw [testBit_extractBits, getLsbD_insertBits, Nat.testBit_mod_two_pow]
  by_cases hi : i < n
  · simp [hi, show s + i < 64 by omega]
  · simp [hi]

/-- A field below the one written is left as it was. -/
theorem extractBits_insertBits_of_le {s n s' n' : Nat} (h : s' + n' ≤ s) (w : UInt64) (v : Nat) :
    extractBits (insertBits w s n v) s' n' = extractBits w s' n' := by
  apply Nat.eq_of_testBit_eq
  intro i
  rw [testBit_extractBits, testBit_extractBits, getLsbD_insertBits]
  by_cases hi : i < n'
  · simp [hi, show ¬(s ≤ s' + i ∧ s' + i < s + n) by omega]
  · simp [hi]

/-- A field above the one written is left as it was. -/
theorem extractBits_insertBits_of_ge {s n s' n' : Nat} (h : s + n ≤ s') (w : UInt64) (v : Nat) :
    extractBits (insertBits w s n v) s' n' = extractBits w s' n' := by
  apply Nat.eq_of_testBit_eq
  intro i
  rw [testBit_extractBits, testBit_extractBits, getLsbD_insertBits]
  simp [show ¬(s ≤ s' + i ∧ s' + i < s + n) by omega]

/-! ## Words, masks and flags bit by bit -/

theorem getLsbD_ofNat_two_pow_sub_one {n i : Nat} (hn : n ≤ 64) :
    (BitVec.ofNat 64 (2 ^ n - 1)).getLsbD i = decide (i < n) := by
  rw [BitVec.getLsbD_ofNat, Nat.testBit_two_pow_sub_one]
  by_cases h : i < n
  · simp only [h, decide_true, Bool.and_true, decide_eq_true_eq]
    omega
  · simp [h]

theorem getLsbD_two_pow {n i : Nat} (hn : n < 64) :
    (BitVec.ofNat 64 (2 ^ n)).getLsbD i = decide (i = n) := by
  rw [BitVec.getLsbD_ofNat, Nat.testBit_two_pow]
  by_cases h : i = n
  · simp [h, hn]
  · simp only [h, decide_false, Bool.and_eq_false_iff, decide_eq_false_iff_not]
    omega

@[simp] theorem getLsbD_toUInt64 (n i : Nat) :
    n.toUInt64.toBitVec.getLsbD i = (decide (i < 64) && n.testBit i) := by
  rw [Nat.toUInt64_eq, UInt64.toBitVec_ofNat', BitVec.getLsbD_ofNat]

theorem testBit_eq_false_of_lt_pow {x n i : Nat} (hx : x < 2 ^ n) (hi : n ≤ i) :
    x.testBit i = false :=
  Nat.testBit_lt_two_pow (lt_of_lt_of_le hx (Nat.pow_le_pow_right (by omega) hi))

theorem land_not_mask {w k x : Nat} (hk : k ≤ w) (hx : x < 2 ^ w) :
    x &&& ((2 ^ w - 1) ^^^ (2 ^ k - 1)) = x / 2 ^ k * 2 ^ k := by
  apply Nat.eq_of_testBit_eq
  intro i
  rw [Nat.testBit_land, Nat.testBit_xor, Nat.testBit_two_pow_sub_one, Nat.testBit_two_pow_sub_one,
    Nat.testBit_mul_two_pow, Nat.testBit_div_two_pow]
  by_cases hik : i < k
  · simp [hik, show i < w by omega]
  · have hki : k ≤ i := Nat.le_of_not_lt hik
    rw [Nat.sub_add_cancel hki]
    -- above the mask the word is zero, below `w` the mask keeps the bit
    by_cases hiw : i < w
    · simp [hik, hiw, hki]
    · simp [hik, hiw, testBit_eq_false_of_lt_pow hx (Nat.le_of_not_lt hiw)]

theorem toNat_eq_of_getLsbD {x : UInt64} {v : Nat} (h : ∀ i, x.toBitVec.getLsbD i = v.testBit i) :
    x.toNat = v := by
  apply Nat.eq_of_testBit_eq
  intro i
  rw [← UInt64.toNat_toBitVec, BitVec.testBit_toNat, h]

theorem toNat_mod_eq_of_getLsbD {x : UInt64} {v n : Nat} (hv : v < 2 ^ n)
    (h : ∀ i < n, x.toBitVec.getLsbD i = v.testBit i) : x.toNat % 2 ^ n = v := by
  apply Nat.eq_of_testBit_eq
  intro i
  rw [Nat.testBit_mod_two_pow]
  by_cases hi : i < n
  · rw [decide_eq_true hi, Bool.true_and, ← h i hi, ← UInt64.toNat_toBitVec, BitVec.testBit_toNat]
  · rw [decide_eq_false hi, Bool.false_and, testBit_eq_false_of_lt_pow hv (Nat.not_lt.mp hi)]

theorem and_flag_ne_zero {w f : UInt64} {k : Nat}
    (hf : ∀ i, f.toBitVec.getLsbD i = decide (i = k)) :
    (w &&& f != 0) = w.toBitVec.getLsbD k := by
  cases hw : w.toBitVec.getLsbD k
  · have hz : w &&& f = 0 := by
      apply UInt64.toBitVec_inj.mp
      apply BitVec.eq_of_getLsbD_eq
      intro i _
      simp only [UInt64.toBitVec_and, BitVec.getLsbD_and, hf, UInt64.toBitVec_zero,
        BitVec.getLsbD_zero, Bool.and_eq_false_iff, decide_eq_false_iff_not]
      by_cases hi : i = k
      · exact .inl (hi ▸ hw)
      · exact .inr hi
    simp [hz]
  · have hne : w &&& f ≠ 0 := by
      intro hz
      have := congrArg (fun x : UInt64 => x.toBitVec.getLsbD k) hz
      simp only [UInt64.toBitVec_and, BitVec.getLsbD_and, hw, hf, decide_true, Bool.and_self,
        UInt64.toBitVec_zero, BitVec.getLsbD_zero] at this
      exact absurd this (by decide)
    simp [hne]

/-! ## The set bits of a word, lowest first -/

theorem toNat_pos_of_ne_zero {v : UInt64} (h : v ≠ 0) : 0 < v.toNat := by
  rcases Nat.eq_zero_or_pos v.toNat with h0 | h0
  · exact absurd (UInt64.toNat_inj.mp (by simpa using h0)) h
  · exact h0

/-- `u64::trailing_zeros`: the index of the lowest set bit, `64` for zero. -/
def trailingZeros (v : UInt64) : Nat := v.toBitVec.ctz.toNat

theorem getLsbD_trailingZeros {v : UInt64} (h : v ≠ 0) :
    v.toBitVec.getLsbD (trailingZeros v) = true :=
  BitVec.getLsbD_true_ctz_of_ne_zero fun hz => h (UInt64.toBitVec_inj.mp hz)

theorem getLsbD_of_lt_trailingZeros {v : UInt64} {i : Nat} (hi : i < trailingZeros v) :
    v.toBitVec.getLsbD i = false :=
  BitVec.getLsbD_false_of_lt_ctz hi

theorem getLsbD_and_sub_one {v : UInt64} (h : v ≠ 0) (i : Nat) :
    (v &&& (v - 1)).toBitVec.getLsbD i = (decide (i ≠ trailingZeros v) && v.toBitVec.getLsbD i) := by
  have hpos := toNat_pos_of_ne_zero h
  have hset := getLsbD_trailingZeros h
  have hclear : ∀ j < trailingZeros v, v.toBitVec.getLsbD j = false :=
    fun j hj => getLsbD_of_lt_trailingZeros hj
  generalize trailingZeros v = t at hset hclear ⊢
  -- the word is 2 ^ (t + 1) * q + 2 ^ t: no bit below t, and bit t
  have hlow : v.toNat % 2 ^ (t + 1) = 2 ^ t := by
    apply toNat_mod_eq_of_getLsbD (Nat.pow_lt_pow_right (by omega) (by omega))
    intro j hj
    rw [Nat.testBit_two_pow]
    rcases Nat.lt_or_ge j t with hjt | hjt
    · simp [hclear j hjt, Nat.ne_of_gt hjt]
    · simp [show j = t by omega, hset]
  have hv : v.toNat = 2 ^ (t + 1) * (v.toNat / 2 ^ (t + 1)) + 2 ^ t := by
    rw [← hlow]
    exact (Nat.div_add_mod _ _).symm
  generalize v.toNat / 2 ^ (t + 1) = q at hv
  have hsub : (v - 1).toNat = 2 ^ (t + 1) * q + (2 ^ t - 1) := by
    rw [UInt64.toNat_sub_of_le _ _ (by simp [UInt64.le_iff_toNat_le]; omega), UInt64.toNat_one]
    have : 0 < 2 ^ t := Nat.two_pow_pos t
    omega
  rw [UInt64.toBitVec_and, BitVec.getLsbD_and, getLsbD_eq_testBit, getLsbD_eq_testBit, hsub, hv,
    Nat.testBit_two_pow_mul_add _ (Nat.pow_lt_pow_right (by omega) (by omega)),
    Nat.testBit_two_pow_mul_add _ (by have := Nat.two_pow_pos t; rw [Nat.pow_succ]; omega),
    Nat.testBit_two_pow, Nat.testBit_two_pow_sub_one]
  by_cases hi : i < t + 1
  · by_cases hit : i = t
    · simp [hit]
    · simp [hi, hit, Ne.symm hit]
  · simp [hi, show i ≠ t by omega]

theorem and_sub_one_lt {v : UInt64} (h : v ≠ 0) : (v &&& (v - 1)).toNat < v.toNat := by
  have hpos := toNat_pos_of_ne_zero h
  have hle : (v &&& (v - 1)).toNat ≤ (v - 1).toNat := by
    rw [UInt64.toNat_and]
    exact Nat.and_le_right
  rw [UInt64.toNat_sub_of_le _ _ (by simp [UInt64.le_iff_toNat_le]; omega), UInt64.toNat_one] at hle
  omega

/-- The loop `while v != 0 { f(v.trailing_zeros()); v &= v - 1 }`, with an accumulator. -/
def forEachSetBit {β ε : Type} (f : β → Nat → Except ε β) (v : UInt64) (b : β) : Except ε β :=
  if h : v = 0 then .ok b
  else (f b (trailingZeros v)).bind fun b' => forEachSetBit f (v &&& (v - 1)) b'
termination_by v.toNat
decreasing_by exact and_sub_one_lt h

/-- The set bits of a word, lowest first: the order in which `forEachSetBit` visits them. -/
def setBits (v : UInt64) : List Nat :=
  if h : v = 0 then [] else trailingZeros v :: setBits (v &&& (v - 1))
termination_by v.toNat
decreasing_by exact and_sub_one_lt h

theorem forEachSetBit_eq_foldlM {β ε : Type} (f : β → Nat → Except ε β) (v : UInt64) (b : β) :
    forEachSetBit f v b = (setBits v).foldlM f b := by
  induction v using setBits.induct generalizing b with
  | case1 =>
    rw [forEachSetBit, setBits, dif_pos rfl, dif_pos rfl]
    rfl
  | case2 v h ih =>
    rw [forEachSetBit, setBits, dif_neg h, dif_neg h, List.foldlM_cons]
    cases f b (trailingZeros v) with
    | error e => rfl
    | ok b' => exact ih b'

theorem mem_setBits {v : UInt64} {i : Nat} : i ∈ setBits v ↔ v.toBitVec.getLsbD i = true := by
  induction v using setBits.induct with
  | case1 =>
    rw [setBits, dif_pos rfl]
    simp
  | case2 v h ih =>
    rw [setBits, dif_neg h, List.mem_cons, ih, getLsbD_and_sub_one h]
    by_cases hi : i = trailingZeros v
    · simp [hi, getLsbD_trailingZeros h]
    · simp [hi]

theorem setBits_sorted (v : UInt64) : (setBits v).Pairwise (· < ·) := by
  induction v using setBits.induct with
  | case1 =>
    rw [setBits, dif_pos rfl]
    exact List.Pairwise.nil
  | case2 v h ih =>
    rw [setBits, dif_neg h, List.pairwise_cons]
    refine ⟨fun i hi => ?_, ih⟩
    -- every bit left after clearing the lowest one is above it
    rw [mem_setBits, getLsbD_and_sub_one h] at hi
    simp only [Bool.and_eq_true, decide_eq_true_eq] at hi
    rcases Nat.lt_or_ge i (trailingZeros v) with hlt | hge
    · rw [getLsbD_of_lt_trailingZeros hlt] at hi
      exact absurd hi.2 (by simp)
    · omega

theorem lt_of_mem_setBits {v : UInt64} {i : Nat} (h : i ∈ setBits v) : i < 64 := by
  rw [mem_setBits] at h
  by_contra hge
  rw [BitVec.getLsbD_of_ge _ _ (by omega)] at h
  exact absurd h (by simp)

end Nydus.Lib
