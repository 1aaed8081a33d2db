import Mathlib
import Nydus.Lib.Text

/-!
# Tar headers

A tar header is 512 bytes. A writer sets the path of a regular file and the size of its data; a
reader reads back the type of the entry, its size, its path and whether the header is a GNU one.
`Format` is a header format with its law: a reader reads back what a writer wrote, for paths of
at most 100 bytes without a NUL and for sizes below `8 ^ 11`, the ones a 12-byte octal field
holds.

`gnu` is the GNU layout of these fields: the path in the first 100 bytes, the size in 11 octal
digits and a NUL at 124, the type flag at 156 and the magic `"ustar  \0"` at 257. A numeric
field is read up to its first NUL and trimmed of spaces. The checksum field is left zero: no
reader here checks it.
-/

namespace Nydus.Lib.Tar

/-- A header format: the header of a regular file of a path and a size, what a reader reads of
any 512 bytes, and the law that it reads back what was written. -/
structure Format where
  regular : List UInt8 → Nat → List UInt8
  isRegular : List UInt8 → Bool
  entrySize : List UInt8 → Option Nat
  path : List UInt8 → Option (List UInt8)
  isGnu : List UInt8 → Bool
  length_regular : ∀ p n, (regular p n).length = 512
  read_regular : ∀ p n, p.length ≤ 100 → 0 ∉ p → n < 8 ^ 11 →
    isRegular (regular p n) = true ∧ entrySize (regular p n) = some n ∧
      path (regular p n) = some p ∧ isGnu (regular p n) = true

/-! ## Octal fields -/

/-- `n` in `w` octal digits, the most significant first. -/
def octalDigits (n : Nat) : Nat → List UInt8
  | 0 => []
  | w + 1 => octalDigits (n / 8) w ++ [(48 + n % 8).toUInt8]

def isOctalDigit (b : UInt8) : Bool := 48 ≤ b && b ≤ 55

/-- The value of a string of octal digits. -/
def octalValue (ds : List UInt8) : Nat := ds.foldl (fun acc d => 8 * acc + (d.toNat - 48)) 0

/-- A numeric field as a reader reads it: the bytes before the first NUL, trimmed of spaces, as a
nonempty string of octal digits. -/
def readOctal (field : List UInt8) : Option Nat :=
  let ds := trimMatches (· == 32) (field.takeWhile (· != 0))
  if !ds.isEmpty && ds.all isOctalDigit then some (octalValue ds) else none

theorem toNat_octalDigit (n : Nat) : (48 + n % 8).toUInt8.toNat = 48 + n % 8 := by
  rw [Nat.toUInt8, UInt8.toNat_ofNat']
  omega

@[simp] theorem length_octalDigits (n : Nat) : ∀ w, (octalDigits n w).length = w
  | 0 => rfl
  | w + 1 => by simp [octalDigits, length_octalDigits _ w]

theorem mem_octalDigits {b : UInt8} : ∀ {n w : Nat}, b ∈ octalDigits n w →
    48 ≤ b.toNat ∧ b.toNat ≤ 55
  | _, 0, h => by simp [octalDigits] at h
  | n, w + 1, h => by
    rw [octalDigits, List.mem_append, List.mem_singleton] at h
    rcases h with h | rfl
    · exact mem_octalDigits h
    · rw [toNat_octalDigit]
      omega

theorem octalValue_octalDigits : ∀ (n w : Nat), octalValue (octalDigits n w) = n % 8 ^ w
  | n, 0 => by simp [octalValue, octalDigits, Nat.mod_one]
  | n, w + 1 => by
    have ih := octalValue_octalDigits (n / 8) w
    unfold octalValue at ih ⊢
    rw [octalDigits, List.foldl_append, ih, List.foldl_cons, List.foldl_nil, toNat_octalDigit,
      pow_succ', Nat.mod_mul]
    omega

theorem readOctal_octalDigits {n w : Nat} (hw : 0 < w) (hn : n < 8 ^ w) :
    readOctal (octalDigits n w ++ [0]) = some n := by
  have hdig : ∀ b ∈ octalDigits n w, 48 ≤ b.toNat ∧ b.toNat ≤ 55 := fun _ hb => mem_octalDigits hb
  have htake : (octalDigits n w ++ [0]).takeWhile (· != 0) = octalDigits n w := by
    rw [List.takeWhile_append_of_pos fun b hb => ?_]
    · simp
    · have := hdig b hb
      have : b ≠ 0 := fun h => by simp [h] at this
      simpa using this
  have hspace : ∀ b ∈ octalDigits n w, (b == 32) = false := fun b hb => by
    have := hdig b hb
    have : b ≠ 32 := fun h => by simp [h] at this
    simpa using this
  have htrim : trimMatches (· == 32) (octalDigits n w) = octalDigits n w :=
    trimMatches_eq_self (fun c hc => hspace c (List.mem_of_mem_head? hc))
      (fun c hc => hspace c (List.mem_of_mem_getLast? hc))
  have hall : (octalDigits n w).all isOctalDigit = true := by
    rw [List.all_eq_true]
    intro b hb
    have := hdig b hb
    simp only [isOctalDigit, Bool.and_eq_true, decide_eq_true_eq, UInt8.le_iff_toNat_le]
    exact ⟨by simpa using this.1, by simpa using this.2⟩
  have hne : (octalDigits n w).isEmpty = false := by
    rw [List.isEmpty_eq_false_iff, ← List.length_pos_iff, length_octalDigits]
    exact hw
  simp only [readOctal, htake, htrim, hne, hall, Bool.not_false, Bool.and_self, if_true,
    octalValue_octalDigits, Nat.mod_eq_of_lt hn]

/-! ## The GNU layout -/

/-- `bytes` in a field of `w` bytes, NUL-padded. -/
def pad (bytes : List UInt8) (w : Nat) : List UInt8 := (bytes ++ List.replicate w 0).take w

/-- The magic and version of a GNU header. -/
def gnuMagic : List UInt8 := [117, 115, 116, 97, 114, 32, 32, 0]

/-- The fields of a GNU header after the size: a zero modification time, a zero checksum, the
type flag `'0'`, no link name and the GNU magic. -/
def gnuTail : List UInt8 :=
  (octalDigits 0 11 ++ [0]) ++ List.replicate 8 0 ++ [48] ++ List.replicate 100 0 ++ gnuMagic ++
    List.replicate 247 0

/-- The GNU header of a regular file: its path, mode, owner and group zero, and its size in
octal, before `gnuTail`. -/
def gnuRegular (p : List UInt8) (n : Nat) : List UInt8 :=
  pad p 100 ++ List.replicate 24 0 ++ (octalDigits n 11 ++ [0]) ++ gnuTail

/-- The `w` bytes of a header at `off`. -/
def field (h : List UInt8) (off w : Nat) : List UInt8 := (h.drop off).take w

/-- The type flag `'0'`, or a NUL as old headers have it, marks a regular file. -/
def gnuIsRegular (h : List UInt8) : Bool := h.getD 156 0 == 48 || h.getD 156 0 == 0

def gnuEntrySize (h : List UInt8) : Option Nat := readOctal (field h 124 12)

def gnuPath (h : List UInt8) : Option (List UInt8) := some ((field h 0 100).takeWhile (· != 0))

def gnuIsGnu (h : List UInt8) : Bool := field h 257 8 == gnuMagic

theorem length_pad (bytes : List UInt8) (w : Nat) : (pad bytes w).length = w := by
  simp [pad]

theorem pad_of_le {bytes : List UInt8} {w : Nat} (h : bytes.length ≤ w) :
    pad bytes w = bytes ++ List.replicate (w - bytes.length) 0 := by
  rw [pad, List.take_append, List.take_of_length_le h, List.take_replicate]
  congr 2
  omega

theorem field_left (pre mid post : List UInt8) :
    field (pre ++ mid ++ post) pre.length mid.length = mid := by
  rw [field, List.append_assoc, List.drop_left, List.take_left]

theorem field_right (pre post : List UInt8) (k w : Nat) :
    field (pre ++ post) (pre.length + k) w = field post k w := by
  rw [field, field, List.drop_length_add_append]

theorem takeWhile_pad {p : List UInt8} (hp : p.length ≤ 100) (h0 : 0 ∉ p) :
    (pad p 100).takeWhile (· != 0) = p := by
  rw [pad_of_le hp, List.takeWhile_append_of_pos fun b hb => ?_]
  · cases h : 100 - p.length with
    | zero => simp
    | succ k => simp [List.replicate_succ]
  · have : b ≠ 0 := fun hb0 => h0 (hb0 ▸ hb)
    simpa using this

theorem gnu_read_regular (p : List UInt8) (n : Nat) (hp : p.length ≤ 100) (h0 : 0 ∉ p)
    (hn : n < 8 ^ 11) :
    gnuIsRegular (gnuRegular p n) = true ∧ gnuEntrySize (gnuRegular p n) = some n ∧
      gnuPath (gnuRegular p n) = some p ∧ gnuIsGnu (gnuRegular p n) = true := by
  -- the path and the size are where they were written; the flag and the magic are in the tail
  have hsize : field (gnuRegular p n) 124 12 = octalDigits n 11 ++ [0] := by
    have := field_left (pad p 100 ++ List.replicate 24 0) (octalDigits n 11 ++ [0]) gnuTail
    rwa [List.length_append, length_pad, List.length_replicate, List.length_append,
      length_octalDigits, List.length_singleton] at this
  have hpath : field (gnuRegular p n) 0 100 = pad p 100 := by
    have := field_left [] (pad p 100)
      (List.replicate 24 0 ++ (octalDigits n 11 ++ [0]) ++ gnuTail)
    rwa [List.nil_append, List.length_nil, length_pad, ← List.append_assoc,
      ← List.append_assoc] at this
  have hhead : (pad p 100 ++ List.replicate 24 0 ++ (octalDigits n 11 ++ [0])).length = 136 := by
    simp only [List.length_append, length_pad, List.length_replicate, length_octalDigits,
      List.length_singleton]
  have hmagic : field (gnuRegular p n) 257 8 = gnuMagic := by
    rw [gnuRegular, show 257 = 136 + 121 from rfl, ← hhead, field_right]
    decide
  have hflag : (gnuRegular p n)[156]? = some 48 := by
    have h1 : field (gnuRegular p n) 156 1 = [48] := by
      rw [gnuRegular, show 156 = 136 + 20 from rfl, ← hhead, field_right]
      decide
    have h2 := congrArg List.head? h1
    rwa [field, List.head?_take, if_neg (by decide), List.head?_drop] at h2
  refine ⟨by simp only [gnuIsRegular, List.getD_eq_getElem?_getD, hflag]; decide, ?_, ?_,
    by simp only [gnuIsGnu, hmagic, beq_self_eq_true]⟩
  · rw [gnuEntrySize, hsize]
    exact readOctal_octalDigits (by decide) hn
  · rw [gnuPath, hpath, takeWhile_pad hp h0]

/-- The GNU header format. -/
def gnu : Format where
  regular := gnuRegular
  isRegular := gnuIsRegular
  entrySize := gnuEntrySize
  path := gnuPath
  isGnu := gnuIsGnu
  length_regular p n := by
    simp only [gnuRegular, gnuTail, gnuMagic, List.length_append, length_pad,
      List.length_replicate, length_octalDigits, List.length_cons, List.length_nil]
  read_regular := gnu_read_regular

end Nydus.Lib.Tar
