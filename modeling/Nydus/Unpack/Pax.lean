import Mathlib
import Nydus.Lib.InsertionSort

/-!
# PAX extension sections of the unpacker (`unpack/pax.rs`)

`nydus-image unpack` writes an image back as a tar stream. A ustar header cannot hold everything
about an entry. A path or link target over 100 bytes goes into a PAX extension section written
before the entry, and so does every extended attribute. The section holds one record
`<len> <key>=<value>\n` for each of them, where `<len>` is the decimal length of the whole
record, its own digits included.

`build_pax_record` first guesses the number of digits from the length without them. If the guess
was short, it builds the record once more. `buildPaxRecord_form` proves the result always carries
its own length. The reason is that adding its digits to a number crosses a power of ten at most
once (`length_decimal_fix`).

`build_data` sorts the records by key. Its comparison unwraps `str::from_utf8` of both keys. The
key of an extended attribute is `SCHILY.xattr.` followed by the attribute's name, and the name is
any byte string. So a name that is not UTF-8 makes the sort panic as soon as the section has a
second record (`buildData_panics_of_not_utf8`). When every key is UTF-8, `build_data` concatenates
the records of a permutation of its input, sorted by the bytes of the keys (`buildData_eq_of_utf8`).
-/

namespace Nydus.Unpack

open Nydus.Lib

/-- The bytes of an ASCII string. -/
def asciiBytes (s : String) : List UInt8 := s.toList.map fun c => c.toNat.toUInt8

/-- `PAX_SEP1`. -/
def paxSep1 : List UInt8 := asciiBytes " "

/-- `PAX_SEP2`. -/
def paxSep2 : List UInt8 := asciiBytes "="

/-- `PAX_PREFIX`. -/
def paxPrefix : List UInt8 := asciiBytes "SCHILY.xattr."

/-- `PAX_DELIMITER`. -/
def paxDelimiter : List UInt8 := asciiBytes "\n"

/-- `PAXRecord`. -/
structure PAXRecord where
  k : List UInt8
  v : List UInt8
  deriving DecidableEq, Repr

/-! ## The records -/

/-- `n.to_string().as_bytes()`. -/
def decimal (n : Nat) : List UInt8 := asciiBytes (toString n)

/-- The `pax` helper of `build_pax_record`: the record with `size` as its length field. -/
def pax (size : Nat) (k v : List UInt8) : List UInt8 :=
  decimal size ++ paxSep1 ++ k ++ paxSep2 ++ v ++ paxDelimiter

/-- `build_pax_record`: the length guessed from the record without its length field, then the
record built again with its actual length if the guess was wrong. -/
def buildPaxRecord (k v : List UInt8) : List UInt8 :=
  let size := k.length + v.length + paxSep1.length + paxSep2.length + paxDelimiter.length
  let size := size + (decimal size).length
  let record := pax size k v
  if record.length ≠ size then pax record.length k v else record

theorem length_decimal (n : Nat) : (decimal n).length = (Nat.toDigits 10 n).length := by
  rw [decimal, asciiBytes, List.length_map]
  exact congrArg List.length Nat.toList_repr

theorem length_decimal_le_iff {n k : Nat} (hk : 0 < k) : (decimal n).length ≤ k ↔ n < 10 ^ k := by
  rw [length_decimal]
  exact Nat.length_toDigits_le_iff (by norm_num) hk

theorem length_decimal_pos (n : Nat) : 0 < (decimal n).length := by
  rw [length_decimal]
  exact Nat.length_toDigits_pos

theorem lt_pow_length_decimal (n : Nat) : n < 10 ^ (decimal n).length :=
  (length_decimal_le_iff (length_decimal_pos n)).mp le_rfl

theorem length_decimal_mono {n m : Nat} (h : n ≤ m) : (decimal n).length ≤ (decimal m).length :=
  (length_decimal_le_iff (length_decimal_pos m)).mpr
    (Nat.lt_of_le_of_lt h (lt_pow_length_decimal m))

theorem length_decimal_add_le {n j : Nat} (hj : j ≤ (decimal n).length + 1) :
    (decimal (n + j)).length ≤ (decimal n).length + 1 := by
  set d := (decimal n).length
  have hn : n < 10 ^ d := lt_pow_length_decimal n
  have hd : d < 10 ^ d := Nat.lt_pow_self (by norm_num)
  apply (length_decimal_le_iff (Nat.succ_pos d)).mpr
  calc n + j < 10 ^ d + 10 ^ d * 9 := by omega
    _ = 10 ^ (d + 1) := by ring

/-- **The length field's fixed point.** Let `s` be `base` plus its count of digits. Then `base`
plus the count of digits of `s` has as many digits as `s`. Either `s` has the digits of `base`,
and the sum is `s`; or it has one more, and the sum is `s + 1`, which crosses no second power of
ten. -/
theorem length_decimal_fix (base : Nat) :
    (decimal (base + (decimal (base + (decimal base).length)).length)).length =
      (decimal (base + (decimal base).length)).length := by
  set s := base + (decimal base).length with hs
  have hlo : (decimal base).length ≤ (decimal s).length := length_decimal_mono (Nat.le_add_right _ _)
  have hhi : (decimal s).length ≤ (decimal base).length + 1 := length_decimal_add_le le_self_add
  rcases Nat.lt_or_ge (decimal base).length (decimal s).length with hlt | hge
  · -- one more digit: the sum is `s + 1`, with no more digits than `base` plus one
    apply Nat.le_antisymm
    · exact (length_decimal_add_le hhi).trans (by omega)
    · exact length_decimal_mono (by omega)
  · -- as many digits as `base`: the sum is `s` itself
    rw [show (decimal s).length = (decimal base).length by omega, ← hs]
    omega

theorem length_pax (size : Nat) (k v : List UInt8) :
    (pax size k v).length =
      (decimal size).length + (k.length + v.length + paxSep1.length + paxSep2.length +
        paxDelimiter.length) := by
  simp only [pax, List.length_append]
  omega

/-- **`build_pax_record` writes its own length.** Every record is `<len> <k>=<v>\n` with `<len>`
the record's length in decimal, its own digits included. -/
theorem buildPaxRecord_form (k v : List UInt8) :
    buildPaxRecord k v = pax (buildPaxRecord k v).length k v := by
  set base := k.length + v.length + paxSep1.length + paxSep2.length + paxDelimiter.length
  set s := base + (decimal base).length
  obtain ⟨size, hrec, hsize⟩ : ∃ size, buildPaxRecord k v = pax size k v ∧
      (pax size k v).length = size := by
    have hrec : buildPaxRecord k v =
        if (pax s k v).length ≠ s then pax (pax s k v).length k v else pax s k v := rfl
    have hlen : ∀ size, (pax size k v).length = (decimal size).length + base :=
      fun size => length_pax size k v
    rw [hrec]
    split
    · -- the guess was one digit short: the second record has the digits of the first
      refine ⟨(pax s k v).length, rfl, ?_⟩
      rw [hlen, hlen, Nat.add_comm (decimal s).length base, length_decimal_fix]
      exact Nat.add_comm _ _
    · rename_i hs
      exact ⟨s, rfl, not_not.mp hs⟩
  rw [hrec, hsize]

/-- Near a power of ten the guess is short: 98 bytes without the length field make 100 with the
two digits of 100, but 101 with its three, and the record is built again. -/
example : (buildPaxRecord (asciiBytes "path") (List.replicate 91 0x61)).take 4 = asciiBytes "101 " := by
  decide +kernel

/-! ## `str::from_utf8` -/

/-- A continuation byte, `0x80..=0xBF`. -/
def isContinuation (c : UInt8) : Bool := 0x80 ≤ c && c ≤ 0xBF

/-- The second byte of a three-byte sequence: no overlong form after `0xE0` and no surrogate after
`0xED`. -/
def secondOfThree (b c : UInt8) : Bool :=
  if b = 0xE0 then 0xA0 ≤ c && c ≤ 0xBF
  else if b = 0xED then 0x80 ≤ c && c ≤ 0x9F
  else isContinuation c

/-- The second byte of a four-byte sequence: no overlong form after `0xF0` and nothing above
`U+10FFFF` after `0xF4`. -/
def secondOfFour (b c : UInt8) : Bool :=
  if b = 0xF0 then 0x90 ≤ c && c ≤ 0xBF
  else if b = 0xF4 then 0x80 ≤ c && c ≤ 0x8F
  else isContinuation c

/-- The byte strings `str::from_utf8` accepts: the well-formed UTF-8 sequences, as
`run_utf8_validation` checks them one character at a time. -/
def validUtf8 : List UInt8 → Bool
  | [] => true
  | b :: bs =>
    if b < 0x80 then validUtf8 bs
    else if 0xC2 ≤ b ∧ b ≤ 0xDF then
      match bs with
      | c :: cs => isContinuation c && validUtf8 cs
      | [] => false
    else if 0xE0 ≤ b ∧ b ≤ 0xEF then
      match bs with
      | c₁ :: c₂ :: cs => secondOfThree b c₁ && isContinuation c₂ && validUtf8 cs
      | _ => false
    else if 0xF0 ≤ b ∧ b ≤ 0xF4 then
      match bs with
      | c₁ :: c₂ :: c₃ :: cs =>
        secondOfFour b c₁ && isContinuation c₂ && isContinuation c₃ && validUtf8 cs
      | _ => false
    else false

theorem validUtf8_append_of_ascii {p : List UInt8} (hp : ∀ b ∈ p, b < 0x80) (l : List UInt8) :
    validUtf8 (p ++ l) = validUtf8 l := by
  induction p with
  | nil => rfl
  | cons b p ih =>
    rw [List.cons_append, validUtf8.eq_def]
    simp only [if_pos (hp b List.mem_cons_self)]
    exact ih fun c hc => hp c (List.mem_cons_of_mem b hc)

theorem validUtf8_append {p q : List UInt8} (hp : validUtf8 p = true) (hq : validUtf8 q = true) :
    validUtf8 (p ++ q) = true := by
  fun_induction validUtf8 p with
  | case1 => exact hq
  | case2 b bs hb ih =>
    rw [List.cons_append, validUtf8.eq_def]
    simp only [if_pos hb]
    exact ih hp
  | case3 b hb1 hb2 c cs ih =>
    rw [List.cons_append, List.cons_append, validUtf8.eq_def]
    simp only [if_neg hb1, if_pos hb2, Bool.and_eq_true] at hp ⊢
    exact ⟨hp.1, ih hp.2⟩
  | case5 b hb1 hb2 hb3 c₁ c₂ cs ih =>
    rw [List.cons_append, List.cons_append, List.cons_append, validUtf8.eq_def]
    simp only [if_neg hb1, if_neg hb2, if_pos hb3, Bool.and_eq_true] at hp ⊢
    exact ⟨hp.1, ih hp.2⟩
  | case7 b hb1 hb2 hb3 hb4 c₁ c₂ c₃ cs ih =>
    rw [List.cons_append, List.cons_append, List.cons_append, List.cons_append, validUtf8.eq_def]
    simp only [if_neg hb1, if_neg hb2, if_neg hb3, if_pos hb4, Bool.and_eq_true] at hp ⊢
    exact ⟨hp.1, ih hp.2⟩
  | case4 | case6 | case8 | case9 => cases hp

/-- The panic of `Result::unwrap` on an `Err`. -/
def unwrapErr : Fault := .panic "called `Result::unwrap()` on an `Err` value"

/-- `str::from_utf8(k).unwrap()`: the bytes as a `str`, or the panic of the `unwrap`. -/
def fromUtf8Unwrap (k : List UInt8) : Outcome (List UInt8) :=
  if validUtf8 k then .ok k else .error unwrapErr

/-! ## `build_data` -/

/-- The comparison `build_data` sorts by: both keys as `str`, compared as `str` compares, byte by
byte. -/
def compareKeys (r1 r2 : PAXRecord) : Outcome Ordering := do
  let k1 ← fromUtf8Unwrap r1.k
  let k2 ← fromUtf8Unwrap r2.k
  pure (compare k1 k2)

/-- `PAXExtensionSectionBuilder::build_data`. -/
def buildData (extensions : List PAXRecord) : Outcome (List UInt8) := do
  let sorted ← sortBy compareKeys extensions
  pure (sorted.flatMap fun r => buildPaxRecord r.k r.v)

/-- `PAXUtil::get_xattr_as_extensions`: one record `SCHILY.xattr.<name>` for each extended
attribute, in the order the inode lists them, or `None` when the inode has none. -/
def getXattrAsExtensions (hasXattr : Bool) (xattrs : List (List UInt8 × List UInt8)) :
    Option (List PAXRecord) :=
  if hasXattr then some (xattrs.map fun p => ⟨paxPrefix ++ p.1, p.2⟩) else none

theorem compareKeys_eq_ok {r1 r2 : PAXRecord} (h1 : validUtf8 r1.k = true)
    (h2 : validUtf8 r2.k = true) : compareKeys r1 r2 = .ok (compareOn PAXRecord.k r1 r2) := by
  simp [compareKeys, fromUtf8Unwrap, h1, h2, compareOn]

theorem compareKeys_eq_error {r1 r2 : PAXRecord} {e : Fault} (h : compareKeys r1 r2 = .error e) :
    e = unwrapErr := by
  unfold compareKeys fromUtf8Unwrap at h
  by_cases h1 : validUtf8 r1.k = true <;> by_cases h2 : validUtf8 r2.k = true <;>
    simp_all [bind, Except.bind]

theorem compareKeys_fails {r : PAXRecord} (hr : validUtf8 r.k = false) (r' : PAXRecord) :
    compareKeys r r' = .error unwrapErr ∧ compareKeys r' r = .error unwrapErr := by
  unfold compareKeys fromUtf8Unwrap
  by_cases h' : validUtf8 r'.k = true <;> simp_all [bind, Except.bind]

/-- When every key is UTF-8, `build_data` concatenates the records of its input sorted by the
bytes of their keys. -/
theorem buildData_eq_of_utf8 {extensions : List PAXRecord}
    (h : ∀ r ∈ extensions, validUtf8 r.k = true) :
    ∃ sorted : List PAXRecord, sorted.Perm extensions ∧
      sorted.Pairwise (fun r r' => (compare r.k r'.k).isLE) ∧
      buildData extensions = .ok (sorted.flatMap fun r => buildPaxRecord r.k r.v) := by
  have hcmp : ∀ a ∈ extensions, ∀ b ∈ extensions,
      compareKeys a b = .ok (compareOn PAXRecord.k a b) :=
    fun a ha b hb => compareKeys_eq_ok (h a ha) (h b hb)
  have hsorted : (insertionSortShiftLeft (fun a b => compareOn PAXRecord.k a b == .lt)
      extensions).Pairwise (fun a b => (compareOn PAXRecord.k a b).isLE) :=
    insertionSortShiftLeft_sorted extensions
  refine ⟨insertionSortShiftLeft (fun a b => compareOn PAXRecord.k a b == .lt) extensions,
    insertionSortShiftLeft_perm _ _, hsorted, ?_⟩
  rw [buildData, sortBy_eq_ok hcmp]
  rfl

/-- A section of two records or more, one of whose keys is not UTF-8, panics in the sort. -/
theorem buildData_panics_of_not_utf8 {extensions : List PAXRecord} {r : PAXRecord}
    (hr : r ∈ extensions) (hk : validUtf8 r.k = false) (hlen : 2 ≤ extensions.length) :
    buildData extensions = .error unwrapErr := by
  have hsort : sortBy compareKeys extensions = .error unwrapErr :=
    sortBy_eq_error (fun _ _ _ h => compareKeys_eq_error h)
      (fun b => ⟨⟨_, (compareKeys_fails hk b).1⟩, ⟨_, (compareKeys_fails hk b).2⟩⟩) hr hlen
  rw [buildData, hsort]
  rfl

theorem validUtf8_xattr_key (name : List UInt8) :
    validUtf8 (paxPrefix ++ name) = validUtf8 name :=
  validUtf8_append_of_ascii (by decide +kernel) name

theorem buildData_panics_of_xattr_name {pre : List PAXRecord}
    {xattrs : List (List UInt8 × List UInt8)} {name value : List UInt8}
    (hx : (name, value) ∈ xattrs) (hname : validUtf8 name = false)
    (hlen : 2 ≤ pre.length + xattrs.length) :
    buildData (pre ++ (getXattrAsExtensions true xattrs).getD []) = .error unwrapErr := by
  have hmem : ⟨paxPrefix ++ name, value⟩ ∈ pre ++ (getXattrAsExtensions true xattrs).getD [] := by
    simp only [getXattrAsExtensions, if_true, Option.getD_some]
    exact List.mem_append_right _ (List.mem_map_of_mem hx)
  refine buildData_panics_of_not_utf8 hmem ((validUtf8_xattr_key name).trans hname) ?_
  simpa [getXattrAsExtensions] using hlen

theorem buildData_panics_on_xattr_name :
    buildData ((getXattrAsExtensions true
      [(asciiBytes "user.a", asciiBytes "1"), ([0xff], [])]).getD []) = .error unwrapErr := by
  rw [← List.nil_append (Option.getD _ _)]
  exact buildData_panics_of_xattr_name (List.mem_cons_of_mem _ List.mem_cons_self) rfl (by simp)

end Nydus.Unpack
