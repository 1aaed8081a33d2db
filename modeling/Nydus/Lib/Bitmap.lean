import Mathlib.Algebra.BigOperators.Intervals
import Mathlib.Data.Nat.Bitwise
import Mathlib.Tactic.IntervalCases

/-!
# Byte bitmaps, most significant bit first

A bitmap of `n` bits kept in bytes: bit `i` is bit `7 - i % 8` (counted from the least
significant) of byte `i / 8`. `get` reads a bit, `set` sets one with an `OR` of the byte and
`byteMask i`, and `countOnes` is a byte's population count.

The lemmas: what `set` does to every bit (`get_set`), reading a bit with `AND` and the mask
(`and_byteMask`), and that the population counts of the bytes sum to the number of set bits
(`sum_countOnes`).
-/

namespace Nydus.Lib.Bitmap

/-- The mask of bit `i` in its byte. -/
def byteMask (i : Nat) : UInt8 := (1 : UInt8) <<< (7 - i % 8).toUInt8

/-- Bit `i`. A bit past the last byte reads as clear. -/
def get (bm : List UInt8) (i : Nat) : Bool := (bm.getD (i / 8) 0).toNat.testBit (7 - i % 8)

/-- Bit `i` set; a bitmap without bit `i` is left as it is. -/
def set (bm : List UInt8) (i : Nat) : List UInt8 := bm.modify (i / 8) (· ||| byteMask i)

/-- The population count of a byte. -/
def countOnes (b : UInt8) : Nat := ((Finset.range 8).filter fun k => b.toNat.testBit k).card

theorem byteMask_toNat (i : Nat) : (byteMask i).toNat = 2 ^ (7 - i % 8) := by
  have hi : i % 8 < 8 := Nat.mod_lt _ (by omega)
  unfold byteMask
  generalize i % 8 = r at hi ⊢
  interval_cases r <;> rfl

theorem testBit_or_byteMask (b : UInt8) (i k : Nat) :
    (b ||| byteMask i).toNat.testBit k = (b.toNat.testBit k || decide (7 - i % 8 = k)) := by
  rw [UInt8.toNat_or, Nat.testBit_or, byteMask_toNat, Nat.testBit_two_pow]

/-- The source's readiness test: the byte `AND` the mask is the mask. -/
theorem and_byteMask (b : UInt8) (i : Nat) :
    (b &&& byteMask i == byteMask i) = b.toNat.testBit (7 - i % 8) := by
  have hm : (byteMask i).toNat ≠ 0 := by
    rw [byteMask_toNat]
    exact (Nat.two_pow_pos _).ne'
  cases h : b.toNat.testBit (7 - i % 8)
  · have hz : (b &&& byteMask i).toNat = 0 := by
      rw [UInt8.toNat_and, byteMask_toNat, Nat.and_two_pow, h]
      simp
    simp only [beq_eq_false_iff_ne, ne_eq]
    intro he
    rw [he] at hz
    exact hm hz
  · have he : (b &&& byteMask i).toNat = (byteMask i).toNat := by
      rw [UInt8.toNat_and, byteMask_toNat, Nat.and_two_pow, h]
      simp
    simp [UInt8.toNat_inj.mp he]

@[simp] theorem length_set (bm : List UInt8) (i : Nat) : (set bm i).length = bm.length := by
  simp [set]

/-- Setting bit `i` sets it, when the bitmap has it, and leaves every other bit. -/
theorem get_set (bm : List UInt8) (i j : Nat) :
    get (set bm i) j = (get bm j || decide (j = i ∧ i < 8 * bm.length)) := by
  simp only [get, set, List.getD_eq_getElem?_getD, List.getElem?_modify]
  by_cases hb : i / 8 = j / 8
  · rcases hj : bm[j / 8]? with _ | b
    · -- past the last byte: no bit is set there
      have hlen : bm.length ≤ j / 8 := List.getElem?_eq_none_iff.mp hj
      simp only [Option.map_none, Option.getD_none, UInt8.toNat_zero, Nat.zero_testBit,
        Bool.false_or, Bool.false_eq, decide_eq_false_iff_not, not_and, Option.map_eq_map]
      omega
    · simp only [Option.map_eq_map, Option.map_some, hb, if_true, Option.getD_some,
        testBit_or_byteMask]
      have hlen : j / 8 < bm.length := (List.getElem?_eq_some_iff.mp hj).1
      congr 1
      apply decide_eq_decide.mpr
      omega
  · have hne : j ≠ i := fun h => hb (h ▸ rfl)
    simp [hb, hne]

theorem get_set_of_get {bm : List UInt8} {j : Nat} (h : get bm j = true) (i : Nat) :
    get (set bm i) j = true := by
  rw [get_set, h, Bool.true_or]

theorem set_byte_eq {bm : List UInt8} {i : Nat} {c : UInt8} (h : bm[i / 8]? = some c) :
    bm.set (i / 8) (c ||| byteMask i) = set bm i := by
  apply List.ext_getElem?
  intro j
  simp only [set, List.getElem?_set, List.getElem?_modify]
  by_cases hj : i / 8 = j
  · subst hj
    obtain ⟨hlt, hc⟩ := List.getElem?_eq_some_iff.mp h
    simp [hlt, hc]
  · simp [hj]

theorem sum_byte_bits (b : UInt8) :
    (∑ k ∈ Finset.range 8, if b.toNat.testBit (7 - k) then 1 else 0) = countOnes b := by
  rw [countOnes, Finset.card_filter]
  exact Finset.sum_range_reflect (fun k => if b.toNat.testBit k then 1 else 0) 8

/-- The population counts of the bytes sum to the number of set bits. -/
theorem sum_countOnes (bm : List UInt8) :
    (bm.map countOnes).sum = ((Finset.range (8 * bm.length)).filter (get bm ·)).card := by
  induction bm with
  | nil => simp
  | cons b bm ih =>
    rw [Finset.card_filter] at ih ⊢
    have hsplit : 8 * (b :: bm).length = 8 + 8 * bm.length := by
      simp only [List.length_cons]
      omega
    -- the first byte holds bits `0..7`, the rest the bits of `bm` shifted by `8`
    have hhead : ∀ k ∈ Finset.range 8, get (b :: bm) k = b.toNat.testBit (7 - k) := by
      intro k hk
      have hk : k < 8 := Finset.mem_range.mp hk
      simp [get, Nat.div_eq_of_lt hk, Nat.mod_eq_of_lt hk]
    have htail : ∀ k, get (b :: bm) (8 + k) = get bm k := by
      intro k
      have hd : (8 + k) / 8 = k / 8 + 1 := by omega
      have hm : (8 + k) % 8 = k % 8 := by omega
      simp [get, hd, hm]
    have h8 : (∑ k ∈ Finset.range 8, if get (b :: bm) k = true then 1 else 0) =
        ∑ k ∈ Finset.range 8, if b.toNat.testBit (7 - k) then 1 else 0 :=
      Finset.sum_congr rfl fun k hk => by rw [hhead k hk]
    rw [List.map_cons, List.sum_cons, ih, hsplit, Finset.sum_range_add, h8, sum_byte_bits]
    simp only [htail]

end Nydus.Lib.Bitmap
