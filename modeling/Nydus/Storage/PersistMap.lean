import Mathlib.Data.Finset.Card
import Mathlib.Logic.Function.Basic
import Nydus.Lib.Outcome
import Nydus.Lib.Reach
import Nydus.Lib.Bitmap

/-!
# The chunk bitmap file (`storage/src/cache/state/persist_map.rs`)

`PersistMap` keeps one bit per chunk of a blob in a file mapped into memory, the bitmap after
a 4096-byte header, and an atomic counter of the chunks not yet ready, `not_ready_count`, that
`is_range_all_ready` compares with 0. `open` sets the counter from the file: `chunk_count` less
the number of set bits over the bitmap's whole bytes. `set_chunk_ready` sets a chunk's bit by a
compare-and-exchange loop on its byte, and the thread whose exchange set the bit decrements the
counter.

The model is `open` over the file's header and bytes, then threads in `set_chunk_ready`
(`SetPhase`) taking one atomic step each: the load of the byte, its exchange, the decrement.
Other writers of the same file set bits of chunks below `chunk_count` (`World.otherSet`). The
counter is a `UInt32`, so a decrement at 0 wraps.

Over a clean file (no set bit past `chunk_count`, and a header that says all ready only when
every chunk is), the counter is at least the number of chunks not ready over every
interleaving, and no decrement wraps (`counter_bound_reachable`). A file with a set bit past
`chunk_count` breaks both: `open` counts that bit as a ready chunk
(`persistMap_padding_bit_breaks_counter`).

Model notes. The file is given as opened (`MapFile`): the OS calls, `readahead`, the removal of
a non-persistent file and `sync` are left out; `truncate(!persist)` empties it. `ready_count`
is a `Nat`: it overflows a `u32` only for an all-ones bitmap of `2^32 - 1` chunks.
-/

namespace Nydus.Storage

open Nydus.Lib Nydus.Lib.Bitmap
open Nydus.Lib.Outcome (bail)

/-- `PersistMap`: the chunk count, the counter, and the mapped bitmap. -/
structure PersistMap where
  count : Nat
  notReadyCount : UInt32
  bitmap : List UInt8
  deriving DecidableEq, Repr

namespace PersistMap

def headerSize : Nat := 4096

def magic1 : UInt32 := 0x424D_4150

def magic2 : UInt32 := 0x434D_4150

def magicAllReady : UInt32 := 0x4D4D_4150

/-- The file header; `reserved` is the rest of its 4096 bytes. -/
structure Header where
  magic : UInt32
  version : UInt32
  magic2 : UInt32
  allReady : UInt32
  reserved : List UInt8
  deriving DecidableEq, Repr

/-- The header `write_header` writes. -/
def freshHeader : Header := ⟨magic1, 1, magic2, 0, List.replicate (headerSize - 16) 0⟩

/-- The chunk map file as `open` finds it: empty, or a header and the bytes after it. -/
inductive MapFile where
  | empty
  | content (header : Header) (bitmap : List UInt8)
  deriving DecidableEq, Repr

/-- The header and bitmap `open` goes on with, and whether the content is new: an empty file
gets a header, a file of the wrong size is refused, a file without the magic must be all zero
(the window of a crash inside `write_header`). -/
def loadFile (filename : String) (file : MapFile) (bitmapSize : Nat) (create : Bool) :
    Outcome (Bool × Header × List UInt8) :=
  match file with
  | .empty =>
    if create then .ok (true, freshHeader, List.replicate bitmapSize 0)
    else bail "No such file or directory (os error 2)"
  | .content h bm =>
    if bm.length ≠ bitmapSize then bail s!"chunk_map file \"{filename}\" is invalid"
    else if h.magic ≠ magic1 then
      if !create then bail "No such file or directory (os error 2)"
      else if h.magic == 0 && h.version == 0 && h.magic2 == 0 && h.allReady == 0 &&
          h.reserved.all (· == 0) && bm.all (· == 0) then .ok (true, freshHeader, bm)
      else bail s!"invalid blob chunk_map file header: \"{filename}\""
    else .ok (false, h, bm)

/-- The initial `not_ready_count`, and the header after it: a version-1 header that does not
say all ready counts the set bits of every byte of the bitmap. -/
def initCount (filename : String) (chunkCount : Nat) (newContent : Bool) (h : Header)
    (bm : List UInt8) : Outcome (Nat × Header) :=
  if 1 ≤ h.version then
    if h.magic2 ≠ magic2 then bail s!"invalid blob chunk_map file header: \"{filename}\""
    else if h.allReady = magicAllReady then .ok (0, h)
    else if newContent then .ok (chunkCount, h)
    else
      let readyCount := (bm.map countOnes).sum
      if chunkCount ≤ readyCount then .ok (0, { h with allReady := magicAllReady })
      else .ok (chunkCount - readyCount, h)
  else .ok (chunkCount, h)

/-- `PersistMap::open`: the map, and the file it leaves. -/
def openMap (filename : String) (file : MapFile) (chunkCount : UInt32) (create persist : Bool) :
    Outcome (PersistMap × MapFile) := do
  if chunkCount = 0 then bail "chunk count should be greater than 0"
  let count := chunkCount.toNat
  let bitmapSize := (count + 7) / 8
  let loaded ← loadFile filename (if persist then file else .empty) bitmapSize create
  let init ← initCount filename count loaded.1 loaded.2.1 loaded.2.2
  pure (⟨count, init.1.toUInt32, loaded.2.2⟩, .content init.2 loaded.2.2)

/-- `validate_index`. -/
def validateIndex (m : PersistMap) (idx : Nat) : Outcome Nat :=
  if idx < m.count then .ok idx else bail s!"chunk index {idx} exceeds chunk count {m.count}"

/-- `read_u8`: the byte of chunk `idx`; the mapping's bound check panics past its end. -/
def readU8 (m : PersistMap) (idx : Nat) : Outcome UInt8 :=
  match m.bitmap[idx >>> 3]? with
  | some b => .ok b
  | none => Outcome.panic "called `Result::unwrap()` on an `Err` value"

/-- `index_to_mask`. -/
def indexToMask (index : Nat) : UInt8 := (1 : UInt8) <<< (8 - ((index &&& 7) + 1)).toUInt8

/-- `is_chunk_ready`: whether the chunk's bit is set, and the byte read. -/
def isChunkReady (m : PersistMap) (index : Nat) : Outcome (Bool × UInt8) := do
  let mask := indexToMask index
  let current ← m.readU8 index
  pure (current &&& mask == mask, current)

/-- `write_u8`: the byte's `compare_exchange(current, current | mask)`. -/
def writeU8 (m : PersistMap) (idx : Nat) (current : UInt8) : Bool × PersistMap :=
  if m.bitmap[idx >>> 3]? = some current then
    (true, { m with bitmap := m.bitmap.set (idx >>> 3) (current ||| indexToMask idx) })
  else (false, m)

/-- `is_range_all_ready`. -/
def isRangeAllReady (m : PersistMap) : Bool := m.notReadyCount == 0

/-! ## Threads in `set_chunk_ready` -/

/-- Where a thread is in `set_chunk_ready`. -/
inductive SetPhase where
  /-- Not in a call. -/
  | idle
  /-- At the loop's `is_chunk_ready`. -/
  | load (i : Nat)
  /-- At `write_u8` with the byte it read. -/
  | exchange (i : Nat) (current : UInt8)
  /-- Its exchange set the bit: at `fetch_sub`. -/
  | decrement (i : Nat)
  deriving DecidableEq, Repr

/-- The map and the threads using it. -/
structure World (τ : Type) where
  map : PersistMap
  threads : τ → SetPhase

/-- One atomic action of a thread. -/
inductive Act where
  /-- `set_chunk_ready(i)` is called; its `validate_index`. -/
  | call (i : Nat)
  | load
  | exchange
  | decrement
  deriving DecidableEq, Repr

namespace World

variable {τ : Type} [DecidableEq τ]

def setPhase (w : World τ) (t : τ) (p : SetPhase) : World τ :=
  { w with threads := Function.update w.threads t p }

/-- Another writer sets the bit of chunk `j`. -/
def otherSet (w : World τ) (j : Nat) : World τ :=
  { w with map := { w.map with bitmap := Bitmap.set w.map.bitmap j } }

end World

section Step

variable {τ : Type} [DecidableEq τ]

/-- One step of thread `t`; `none` where its phase does not allow the action. -/
def step (w : World τ) (t : τ) : Act → Option (World τ)
  | .call i =>
    match w.threads t with
    | .idle =>
      match w.map.validateIndex i with
      | .ok i => some (w.setPhase t (.load i))
      | .error _ => some w
    | _ => none
  | .load =>
    match w.threads t with
    | .load i =>
      match w.map.isChunkReady i with
      | .ok (true, _) => some (w.setPhase t .idle)
      | .ok (false, current) => some (w.setPhase t (.exchange i current))
      | .error _ => none
    | _ => none
  | .exchange =>
    match w.threads t with
    | .exchange i current =>
      let r := w.map.writeU8 i current
      if r.1 then some ({ w with map := r.2 }.setPhase t (.decrement i))
      else some (w.setPhase t (.load i))
    | _ => none
  | .decrement =>
    match w.threads t with
    | .decrement _ =>
      -- `mark_all_ready` only syncs the mapping: its header write is commented out
      some ({ w with map := { w.map with notReadyCount := w.map.notReadyCount - 1 } }.setPhase
        t .idle)
    | _ => none

/-- A thread takes a step, or another writer sets the bit of a chunk below `chunk_count`. -/
def Next (w w' : World τ) : Prop :=
  (∃ t a, step w t a = some w') ∨ ∃ j, j < w.map.count ∧ w' = w.otherSet j

/-- The map as `open` made it, no thread in a call. -/
def Init (m₀ : PersistMap) (w : World τ) : Prop := w.map = m₀ ∧ ∀ t, w.threads t = .idle

end Step

/-! ## The map's operations on bits -/

theorem indexToMask_eq (i : Nat) : indexToMask i = byteMask i := by
  have hand : i &&& 7 = i % 8 := Nat.and_two_pow_sub_one_eq_mod i 3
  have hpos : 8 - (i % 8 + 1) = 7 - i % 8 := by omega
  rw [indexToMask, byteMask, hand, hpos]

theorem shiftRight_three (i : Nat) : i >>> 3 = i / 8 := Nat.shiftRight_eq_div_pow i 3

theorem isChunkReady_eq {m : PersistMap} {i : Nat} {c : UInt8} (h : m.bitmap[i / 8]? = some c) :
    m.isChunkReady i = .ok (get m.bitmap i, c) := by
  have hget : get m.bitmap i = c.toNat.testBit (7 - i % 8) := by
    simp [Bitmap.get, List.getD_eq_getElem?_getD, h]
  simp [isChunkReady, readU8, shiftRight_three, h, indexToMask_eq, and_byteMask, hget]

theorem writeU8_eq (m : PersistMap) (i : Nat) (c : UInt8) :
    m.writeU8 i c = if m.bitmap[i / 8]? = some c then (true, { m with bitmap := set m.bitmap i })
      else (false, m) := by
  unfold writeU8
  rw [shiftRight_three]
  split
  · rename_i h
    rw [indexToMask_eq, set_byte_eq h]
  · rfl

/-- The number of chunks below `n` whose bit is clear. -/
def clearBelow (bm : List UInt8) (n : Nat) : Nat :=
  ((Finset.range n).filter fun i => get bm i = false).card

theorem sum_countOnes_of_clean {bm : List UInt8} {n : Nat} (hn : n ≤ 8 * bm.length)
    (hpad : ∀ i, n ≤ i → get bm i = false) :
    (bm.map countOnes).sum + clearBelow bm n = n := by
  have hset : (Finset.range (8 * bm.length)).filter (get bm ·) =
      (Finset.range n).filter (get bm ·) := by
    ext i
    simp only [Finset.mem_filter, Finset.mem_range]
    constructor
    · rintro ⟨-, hi⟩
      refine ⟨?_, hi⟩
      by_contra hlt
      rw [hpad i (by omega)] at hi
      cases hi
    · rintro ⟨hi, hg⟩
      exact ⟨by omega, hg⟩
  rw [sum_countOnes, hset, clearBelow]
  have hsplit := Finset.card_filter_add_card_filter_not (s := Finset.range n) (get bm · = true)
  simpa using hsplit

theorem clearBelow_le (bm : List UInt8) (n : Nat) : clearBelow bm n ≤ n := by
  simpa [clearBelow] using Finset.card_filter_le (Finset.range n) (get bm · = false)

theorem clearBelow_eq_zero {bm : List UInt8} {n : Nat} (h : ∀ i < n, get bm i = true) :
    clearBelow bm n = 0 := by
  rw [clearBelow, Finset.card_eq_zero, Finset.filter_eq_empty_iff]
  intro i hi
  simp [h i (Finset.mem_range.mp hi)]

/-! ## The counter `open` sets -/

/-- A clean file: no bit is set past `chunk_count`, and the header says all ready only when
every chunk is. An empty file is clean. -/
def CleanFile (chunkCount : Nat) : MapFile → Prop
  | .empty => True
  | .content h bm => (∀ i, chunkCount ≤ i → get bm i = false) ∧
      (h.allReady = magicAllReady → ∀ i < chunkCount, get bm i = true)

theorem loadFile_ok {name : String} {file : MapFile} {size : Nat} {create : Bool}
    {r : Bool × Header × List UInt8} (h : loadFile name file size create = .ok r) :
    r.2.2.length = size ∧ (r.1 = false → file = .content r.2.1 r.2.2) ∧
      (r.1 = true → r.2.1 = freshHeader) := by
  unfold loadFile at h
  split at h
  · split at h
    · cases h
      simp
    · simp [Outcome.bail] at h
  · rename_i hd bm
    split_ifs at h with hlen hmagic hcreate hzero
    · simp [Outcome.bail] at h
    · simp [Outcome.bail] at h
    · cases h
      simp_all
    · simp [Outcome.bail] at h
    · cases h
      simp_all

theorem initCount_bound {name : String} {count : Nat} {newContent : Bool} {h : Header}
    {bm : List UInt8} {r : Nat × Header} (hlen : count ≤ 8 * bm.length)
    (hclean : newContent = false → CleanFile count (.content h bm))
    (hfresh : newContent = true → h = freshHeader)
    (hi : initCount name count newContent h bm = .ok r) :
    clearBelow bm count ≤ r.1 ∧ r.1 ≤ count := by
  have hle := clearBelow_le bm count
  unfold initCount at hi
  dsimp only at hi
  split_ifs at hi with hv hm ha hn hr
  · simp [Outcome.bail] at hi
  · -- the header says all ready: only a clean file's can, with every bit set
    cases hi
    cases newContent
    · exact ⟨(clearBelow_eq_zero ((hclean rfl).2 ha)).le, Nat.zero_le _⟩
    · rw [hfresh rfl] at ha
      simp [freshHeader, magicAllReady] at ha
  · cases hi
    exact ⟨hle, le_rfl⟩
  · -- as many set bits as chunks: over a clean bitmap, every chunk is set
    cases hi
    have hsum := sum_countOnes_of_clean hlen (hclean (by simpa using hn)).1
    exact ⟨by simp only; omega, Nat.zero_le _⟩
  · cases hi
    have hsum := sum_countOnes_of_clean hlen (hclean (by simpa using hn)).1
    constructor <;> simp only <;> omega
  · cases hi
    exact ⟨hle, le_rfl⟩

theorem openMap_counter {name : String} {file f : MapFile} {n : UInt32} {create persist : Bool}
    {m : PersistMap} (hclean : CleanFile n.toNat file)
    (h : openMap name file n create persist = .ok (m, f)) :
    m.count = n.toNat ∧ m.bitmap.length = (m.count + 7) / 8 ∧
      clearBelow m.bitmap m.count ≤ m.notReadyCount.toNat := by
  simp only [openMap] at h
  split at h
  · simp [Outcome.bail] at h
  · rename_i hn0
    simp only [bind_eq_ok] at h
    obtain ⟨loaded, hload, init, hinit, hpure⟩ := h
    simp only [pure, Except.pure, Except.ok.injEq, Prod.mk.injEq] at hpure
    obtain ⟨rfl, -⟩ := hpure
    obtain ⟨hlen, hown, hfresh⟩ := loadFile_ok hload
    have hle8 : n.toNat ≤ 8 * loaded.2.2.length := by
      rw [hlen]
      omega
    -- a bitmap `open` did not make fresh is the file's own, so it is clean
    have hclean' : loaded.1 = false → CleanFile n.toNat (.content loaded.2.1 loaded.2.2) := by
      intro hnew
      have hf := hown hnew
      split at hf
      · rw [← hf]
        exact hclean
      · cases hf
    obtain ⟨hlo, hhi⟩ := initCount_bound hle8 hclean' hfresh hinit
    have hlt : init.1 < UInt32.size := lt_of_le_of_lt hhi n.toNat_lt
    refine ⟨rfl, hlen, ?_⟩
    simpa [Nat.toUInt32, UInt32.toNat_ofNat_of_lt' hlt] using hlo

section Counter

open Classical

variable {τ : Type} [DecidableEq τ]

/-- Chunk `i` still owes the counter its decrement: its bit is clear, or the thread that set it
has not decremented yet. -/
def Owed (w : World τ) (i : Nat) : Prop :=
  get w.map.bitmap i = false ∨ ∃ t, w.threads t = .decrement i

/-- The counter covers every chunk that owes it a decrement. -/
structure CounterInv (w : World τ) : Prop where
  length : w.map.bitmap.length = (w.map.count + 7) / 8
  load_lt : ∀ t i, w.threads t = .load i → i < w.map.count
  exchange_clear : ∀ t i c, w.threads t = .exchange i c →
    i < w.map.count ∧ c.toNat.testBit (7 - i % 8) = false ∧ w.map.bitmap[i / 8]? ≠ none
  decrement_set : ∀ t i, w.threads t = .decrement i → i < w.map.count ∧ get w.map.bitmap i = true
  decrement_unique : ∀ t t' i, w.threads t = .decrement i → w.threads t' = .decrement i → t = t'
  bound : ((Finset.range w.map.count).filter (Owed w)).card ≤ w.map.notReadyCount.toNat

@[simp] theorem setPhase_map (w : World τ) (t : τ) (p : SetPhase) : (w.setPhase t p).map = w.map :=
  rfl

@[simp] theorem setPhase_threads (w : World τ) (t : τ) (p : SetPhase) :
    (w.setPhase t p).threads = Function.update w.threads t p := rfl

omit [DecidableEq τ] in
theorem counterInv_init {m₀ : PersistMap} (hlen : m₀.bitmap.length = (m₀.count + 7) / 8)
    (hb : clearBelow m₀.bitmap m₀.count ≤ m₀.notReadyCount.toNat) {w : World τ}
    (h : Init m₀ w) : CounterInv w := by
  obtain ⟨rfl, hidle⟩ := h
  -- no thread is in a call, so a chunk owes exactly when its bit is clear
  have howed : ∀ i, Owed w i ↔ get w.map.bitmap i = false := by
    intro i
    simp [Owed, hidle]
  refine ⟨hlen, ?_, ?_, ?_, ?_, ?_⟩
  · intro t i ht
    simp [hidle t] at ht
  · intro t i c ht
    simp [hidle t] at ht
  · intro t i ht
    simp [hidle t] at ht
  · intro t _ i ht
    simp [hidle t] at ht
  · rw [Finset.filter_congr (fun i _ => howed i)]
    exact hb

theorem exists_update_eq_iff {threads : τ → SetPhase} {t : τ} {p q : SetPhase} (hp : p ≠ q)
    (ht : threads t ≠ q) : (∃ u, Function.update threads t p u = q) ↔ ∃ u, threads u = q := by
  rw [Function.exists_update_iff (p := fun _ v => v = q)]
  constructor
  · rintro (h | ⟨u, -, hu⟩)
    · exact absurd h hp
    · exact ⟨u, hu⟩
  · rintro ⟨u, hu⟩
    have hut : u ≠ t := by
      rintro rfl
      exact ht hu
    exact .inr ⟨u, hut, hu⟩

theorem CounterInv.setPhase {w : World τ} (hi : CounterInv w) {t : τ} {p : SetPhase}
    (hold : ∀ i, w.threads t ≠ .decrement i) (hnew : ∀ i, p ≠ .decrement i)
    (hload : ∀ i, p = .load i → i < w.map.count)
    (hex : ∀ i c, p = .exchange i c → i < w.map.count ∧ c.toNat.testBit (7 - i % 8) = false ∧
      w.map.bitmap[i / 8]? ≠ none) :
    CounterInv (w.setPhase t p) := by
  have hthr : ∀ u q, (w.setPhase t p).threads u = q → u ≠ t → w.threads u = q := by
    intro u q hu hut
    rwa [setPhase_threads, Function.update_of_ne hut] at hu
  have howed : ∀ i, Owed (w.setPhase t p) i ↔ Owed w i := by
    intro i
    simp only [Owed, setPhase_map, setPhase_threads]
    exact or_congr_right (exists_update_eq_iff (hnew i) (hold i))
  refine ⟨hi.length, ?_, ?_, ?_, ?_, ?_⟩
  · intro u i hu
    by_cases hut : u = t
    · subst hut
      simp only [setPhase_threads, Function.update_self] at hu
      exact hload i hu
    · exact hi.load_lt u i (hthr u _ hu hut)
  · intro u i c hu
    by_cases hut : u = t
    · subst hut
      simp only [setPhase_threads, Function.update_self] at hu
      exact hex i c hu
    · exact hi.exchange_clear u i c (hthr u _ hu hut)
  · intro u i hu
    by_cases hut : u = t
    · subst hut
      simp [hnew] at hu
    · exact hi.decrement_set u i (hthr u _ hu hut)
  · intro u u' i hu hu'
    have hut : u ≠ t := by
      rintro rfl
      simp [hnew] at hu
    have hut' : u' ≠ t := by
      rintro rfl
      simp [hnew] at hu'
    exact hi.decrement_unique u u' i (hthr u _ hu hut) (hthr u' _ hu' hut')
  · rw [setPhase_map, Finset.filter_congr (fun i _ => howed i)]
    exact hi.bound

theorem CounterInv.exchange {w : World τ} (hi : CounterInv w) {t : τ} {i : Nat} {c : UInt8}
    (ht : w.threads t = .exchange i c) (hc : w.map.bitmap[i / 8]? = some c) :
    CounterInv ({ w with map := { w.map with bitmap := set w.map.bitmap i } }.setPhase t
      (.decrement i)) := by
  obtain ⟨hlt, hbit, -⟩ := hi.exchange_clear t i c ht
  have hclear : get w.map.bitmap i = false := by
    simpa [Bitmap.get, List.getD_eq_getElem?_getD, hc] using hbit
  have hin : i < 8 * w.map.bitmap.length := by
    have := (List.getElem?_eq_some_iff.mp hc).1
    omega
  have hset : ∀ j, get (set w.map.bitmap i) j = (get w.map.bitmap j || decide (j = i)) := by
    intro j
    rw [get_set]
    by_cases hj : j = i <;> simp [hj, hin]
  have hthr : ∀ u q, Function.update w.threads t (.decrement i) u = q → u ≠ t →
      w.threads u = q := by
    intro u q hu hut
    rwa [Function.update_of_ne hut] at hu
  -- no other thread holds the debt of `i`: its bit was clear
  have hnone : ∀ u, w.threads u ≠ .decrement i := by
    intro u hu
    rw [(hi.decrement_set u i hu).2] at hclear
    cases hclear
  have hlen : (set w.map.bitmap i).length = w.map.bitmap.length := length_set _ _
  refine ⟨?_, ?_, ?_, ?_, ?_, ?_⟩
  · simpa using hi.length
  · intro u j hu
    have hut : u ≠ t := by
      rintro rfl
      simp at hu
    simpa using hi.load_lt u j (hthr u _ (by simpa using hu) hut)
  · intro u j c' hu
    have hut : u ≠ t := by
      rintro rfl
      simp at hu
    obtain ⟨h1, h2, h3⟩ := hi.exchange_clear u j c' (hthr u _ (by simpa using hu) hut)
    refine ⟨by simpa using h1, h2, ?_⟩
    simpa [List.getElem?_eq_none_iff, hlen] using h3
  · intro u j hu
    by_cases hut : u = t
    · subst hut
      simp only [setPhase_threads, Function.update_self, SetPhase.decrement.injEq] at hu
      subst hu
      simp [hset, hlt]
    · obtain ⟨h1, h2⟩ := hi.decrement_set u j (hthr u _ (by simpa using hu) hut)
      exact ⟨by simpa using h1, by simp [hset, h2]⟩
  · intro u u' j hu hu'
    simp only [setPhase_threads] at hu hu'
    by_cases hut : u = t <;> by_cases hut' : u' = t
    · rw [hut, hut']
    · subst hut
      simp only [Function.update_self, SetPhase.decrement.injEq] at hu
      subst hu
      exact absurd (hthr u' _ hu' hut') (hnone u')
    · subst hut'
      simp only [Function.update_self, SetPhase.decrement.injEq] at hu'
      subst hu'
      exact absurd (hthr u _ hu hut) (hnone u)
    · exact hi.decrement_unique u u' j (hthr u _ hu hut) (hthr u' _ hu' hut')
  · -- every chunk owes as before: `i` now through the thread instead of its bit
    have howed : ∀ j, Owed ({ w with map := { w.map with bitmap := set w.map.bitmap i } }.setPhase
        t (.decrement i)) j ↔ Owed w j := by
      intro j
      simp only [Owed, setPhase_map, setPhase_threads, hset]
      by_cases hj : j = i
      · subst hj
        simp only [hclear, Bool.false_or, decide_true, Bool.true_eq_false, false_or, true_or,
          iff_true]
        exact ⟨t, by simp⟩
      · simp only [hj, decide_false, Bool.or_false]
        refine or_congr_right (exists_update_eq_iff ?_ (by simp [ht]))
        exact fun h => hj (SetPhase.decrement.inj h).symm
    simp only [setPhase_map]
    rw [Finset.filter_congr (fun j _ => howed j)]
    exact hi.bound

omit [DecidableEq τ] in
theorem CounterInv.one_le {w : World τ} (hi : CounterInv w) {t : τ} {i : Nat}
    (ht : w.threads t = .decrement i) : 1 ≤ w.map.notReadyCount.toNat := by
  have hmem : i ∈ (Finset.range w.map.count).filter (Owed w) :=
    Finset.mem_filter.mpr ⟨Finset.mem_range.mpr (hi.decrement_set t i ht).1, .inr ⟨t, ht⟩⟩
  exact le_trans (Finset.card_pos.mpr ⟨i, hmem⟩) hi.bound

theorem CounterInv.decrement {w : World τ} (hi : CounterInv w) {t : τ} {i : Nat}
    (ht : w.threads t = .decrement i) :
    CounterInv ({ w with map := { w.map with notReadyCount := w.map.notReadyCount - 1 } }.setPhase
      t .idle) := by
  obtain ⟨hlt, hset⟩ := hi.decrement_set t i ht
  have hthr : ∀ u q, Function.update w.threads t .idle u = q → u ≠ t → w.threads u = q := by
    intro u q hu hut
    rwa [Function.update_of_ne hut] at hu
  have hnot : ∀ u q, Function.update w.threads t .idle u = q → q ≠ .idle → u ≠ t := by
    rintro u q hu hq rfl
    simp only [Function.update_self] at hu
    exact hq hu.symm
  refine ⟨?_, ?_, ?_, ?_, ?_, ?_⟩
  · simpa using hi.length
  · intro u j hu
    simp only [setPhase_threads] at hu
    simpa using hi.load_lt u j (hthr u _ hu (hnot u _ hu (by simp)))
  · intro u j c hu
    simp only [setPhase_threads] at hu
    simpa using hi.exchange_clear u j c (hthr u _ hu (hnot u _ hu (by simp)))
  · intro u j hu
    simp only [setPhase_threads] at hu
    simpa using hi.decrement_set u j (hthr u _ hu (hnot u _ hu (by simp)))
  · intro u u' j hu hu'
    simp only [setPhase_threads] at hu hu'
    exact hi.decrement_unique u u' j (hthr u _ hu (hnot u _ hu (by simp)))
      (hthr u' _ hu' (hnot u' _ hu' (by simp)))
  · -- `i` no longer owes; every other chunk owes as before
    have howed : ∀ j, Owed w j ↔ Owed ({ w with map := { w.map with
        notReadyCount := w.map.notReadyCount - 1 } }.setPhase t .idle) j ∨ j = i := by
      intro j
      simp only [Owed, setPhase_map, setPhase_threads]
      by_cases hj : j = i
      · subst hj
        simp only [or_true, iff_true]
        exact .inr ⟨t, ht⟩
      · simp only [hj, or_false]
        refine (or_congr_right (exists_update_eq_iff (by simp) ?_)).symm
        rw [ht]
        exact fun h => hj (SetPhase.decrement.inj h).symm
    have hfree : ¬ Owed ({ w with map := { w.map with
        notReadyCount := w.map.notReadyCount - 1 } }.setPhase t .idle) i := by
      simp only [Owed, setPhase_map, setPhase_threads, hset, Bool.true_eq_false, false_or,
        not_exists]
      intro u hu
      have hut := hnot u _ hu (by simp)
      exact hut (hi.decrement_unique u t i (hthr u _ hu hut) ht)
    have hcard : ((Finset.range w.map.count).filter (Owed w)) =
        insert i ((Finset.range w.map.count).filter (Owed ({ w with map := { w.map with
          notReadyCount := w.map.notReadyCount - 1 } }.setPhase t .idle))) := by
      ext j
      simp only [Finset.mem_filter, Finset.mem_range, Finset.mem_insert, howed j]
      constructor
      · rintro ⟨hj, h | rfl⟩
        · exact .inr ⟨hj, h⟩
        · exact .inl rfl
      · rintro (rfl | ⟨hj, h⟩)
        · exact ⟨hlt, .inr rfl⟩
        · exact ⟨hj, .inl h⟩
    have hb := hi.bound
    rw [hcard, Finset.card_insert_of_notMem (by simp [hfree])] at hb
    have h1 := hi.one_le ht
    simp only [setPhase_map]
    rw [UInt32.toNat_sub_of_le _ _ (by simpa [UInt32.le_iff_toNat_le] using h1)]
    simp only [UInt32.toNat_one]
    exact Nat.le_sub_of_add_le hb

omit [DecidableEq τ] in
/-- Another writer setting a bit only pays debts. -/
theorem CounterInv.otherSet {w : World τ} (hi : CounterInv w) (j : Nat) :
    CounterInv (w.otherSet j) := by
  have hlen : (set w.map.bitmap j).length = w.map.bitmap.length := length_set _ _
  refine ⟨?_, hi.load_lt, ?_, ?_, hi.decrement_unique, ?_⟩
  · simpa [World.otherSet] using hi.length
  · intro u i c hu
    obtain ⟨h1, h2, h3⟩ := hi.exchange_clear u i c hu
    refine ⟨h1, h2, ?_⟩
    simpa [World.otherSet, List.getElem?_eq_none_iff, hlen] using h3
  · intro u i hu
    obtain ⟨h1, h2⟩ := hi.decrement_set u i hu
    exact ⟨h1, get_set_of_get h2 j⟩
  · have hsub : (Finset.range w.map.count).filter (Owed (w.otherSet j)) ⊆
        (Finset.range w.map.count).filter (Owed w) := by
      apply Finset.monotone_filter_right
      rintro i - (h | h)
      · left
        cases hg : get w.map.bitmap i
        · rfl
        · simp [World.otherSet, get_set_of_get hg j] at h
      · exact .inr h
    exact le_trans (Finset.card_le_card hsub) hi.bound

omit [DecidableEq τ] in
theorem CounterInv.byte {w : World τ} (hi : CounterInv w) {i : Nat} (hlt : i < w.map.count) :
    w.map.bitmap[i / 8]? = some (w.map.bitmap.getD (i / 8) 0) := by
  have hin : i / 8 < w.map.bitmap.length := by
    rw [hi.length]
    omega
  simp [List.getD_eq_getElem?_getD, List.getElem?_eq_getElem hin]

/-- **Step lemma.** Every step of a thread keeps the invariant. -/
theorem counterInv_step {w w' : World τ} (hi : CounterInv w) {t : τ} {a : Act}
    (h : step w t a = some w') : CounterInv w' := by
  cases a with
  | call i =>
    simp only [step] at h
    split at h
    · rename_i hidle
      split at h
      · rename_i i' hv
        cases h
        have hlt : i' < w.map.count := by
          unfold PersistMap.validateIndex at hv
          split at hv
          · cases hv
            assumption
          · simp [Outcome.bail] at hv
        exact hi.setPhase (by simp [hidle]) (by simp) (by simp [hlt]) (by simp)
      · cases h
        exact hi
    · cases h
  | load =>
    simp only [step] at h
    split at h
    · rename_i i ht
      have hlt := hi.load_lt t i ht
      have hbyte := hi.byte hlt
      have hold : ∀ j, w.threads t ≠ .decrement j := by simp [ht]
      rw [isChunkReady_eq hbyte] at h
      cases hg : get w.map.bitmap i
      · -- not ready: on to the exchange with the byte read
        simp only [hg, Option.some.injEq] at h
        subst h
        have hbit : (w.map.bitmap.getD (i / 8) 0).toNat.testBit (7 - i % 8) = false := by
          simpa [Bitmap.get] using hg
        refine hi.setPhase hold (by simp) (by simp) ?_
        intro j c hj
        simp only [SetPhase.exchange.injEq] at hj
        obtain ⟨rfl, rfl⟩ := hj
        exact ⟨hlt, hbit, by rw [hbyte]; exact Option.some_ne_none _⟩
      · simp only [hg, Option.some.injEq] at h
        subst h
        exact hi.setPhase hold (by simp) (by simp) (by simp)
    · cases h
  | exchange =>
    simp only [step, writeU8_eq] at h
    split at h
    · rename_i i c ht
      have hold : ∀ j, w.threads t ≠ .decrement j := by simp [ht]
      by_cases hc : w.map.bitmap[i / 8]? = some c
      · simp only [hc, if_true, Option.some.injEq] at h
        subst h
        exact hi.exchange ht hc
      · simp only [hc, if_false, Bool.false_eq_true, Option.some.injEq] at h
        subst h
        exact hi.setPhase hold (by simp) (by simpa using (hi.exchange_clear t i c ht).1) (by simp)
    · cases h
  | decrement =>
    simp only [step] at h
    split at h
    · rename_i i ht
      cases h
      exact hi.decrement ht
    · cases h

theorem counterInv_next {w w' : World τ} (hi : CounterInv w) (h : Next w w') : CounterInv w' := by
  rcases h with ⟨t, a, hs⟩ | ⟨j, -, rfl⟩
  · exact counterInv_step hi hs
  · exact hi.otherSet j

omit [DecidableEq τ] in
theorem clearBelow_le_owed (w : World τ) :
    clearBelow w.map.bitmap w.map.count ≤ ((Finset.range w.map.count).filter (Owed w)).card := by
  apply Finset.card_le_card
  apply Finset.monotone_filter_right
  intro i _ hi
  exact .inl hi

/-- **The counter over every interleaving.** For a map opened over a clean file, whatever
threads call `set_chunk_ready` and other writers set bits below `chunk_count`: the counter is
at least the number of chunks not ready, no decrement finds it at 0, and when
`is_range_all_ready` holds every chunk is ready. -/
theorem persistMap_counter_sound {name : String} {file f : MapFile} {n : UInt32}
    {create persist : Bool} {m₀ : PersistMap} (hclean : CleanFile n.toNat file)
    (hopen : openMap name file n create persist = .ok (m₀, f)) {w : World τ}
    (h : Reachable (Init m₀) Next w) :
    clearBelow w.map.bitmap w.map.count ≤ w.map.notReadyCount.toNat ∧
      (∀ t i, w.threads t = .decrement i → w.map.notReadyCount ≠ 0) ∧
      (w.map.isRangeAllReady = true →
        ∀ i < w.map.count, (w.map.isChunkReady i).map Prod.fst = .ok true) := by
  obtain ⟨-, hlen, hb⟩ := openMap_counter hclean hopen
  have hi : CounterInv w :=
    h.inv (fun _ h₀ => counterInv_init hlen hb h₀) (fun _ _ hi hs => counterInv_next hi hs)
  have hclear := le_trans (clearBelow_le_owed w) hi.bound
  refine ⟨hclear, fun t i ht hz => ?_, fun hall i hlt => ?_⟩
  · have h1 := hi.one_le ht
    simp [hz] at h1
  · -- all ready: the counter is 0, so no chunk's bit is clear
    have hz : w.map.notReadyCount.toNat = 0 := by
      simp only [isRangeAllReady, beq_iff_eq] at hall
      simp [hall]
    have hnone : clearBelow w.map.bitmap w.map.count = 0 := by omega
    rw [clearBelow, Finset.card_eq_zero, Finset.filter_eq_empty_iff] at hnone
    have hg : get w.map.bitmap i = true := by
      simpa using hnone (Finset.mem_range.mpr hlt)
    rw [isChunkReady_eq (hi.byte hlt), hg]
    rfl

/-- A two-chunk file with chunk 0 ready opens with the counter at 1. -/
theorem persistMap_counter_sound_half_ready :
    let file := MapFile.content ⟨magic1, 1, magic2, 0, []⟩ [0x80]
    let m₀ : PersistMap := ⟨2, 1, [0x80]⟩
    let w : World Unit := ⟨m₀, fun _ => .idle⟩
    CleanFile (2 : UInt32).toNat file ∧ openMap "blob.chunk_map" file 2 true true = .ok (m₀, file) ∧
      Reachable (Init m₀) Next w ∧
      clearBelow w.map.bitmap w.map.count ≤ w.map.notReadyCount.toNat ∧
      (∀ t i, w.threads t = .decrement i → w.map.notReadyCount ≠ 0) ∧
      (w.map.isRangeAllReady = true →
        ∀ i < w.map.count, (w.map.isChunkReady i).map Prod.fst = .ok true) := by
  intro file m₀ w
  have hclean : CleanFile (2 : UInt32).toNat file := by
    refine ⟨fun i hi => ?_, fun h => by simp [magicAllReady] at h⟩
    by_cases h8 : i < 8
    · have hi' : 2 ≤ i := by simpa using hi
      interval_cases i <;> rfl
    · have hd : i / 8 ≠ 0 := by omega
      simp [Bitmap.get, List.getD_eq_getElem?_getD, hd]
  have hopen : openMap "blob.chunk_map" file 2 true true = .ok (m₀, file) := by decide
  have h : Reachable (Init m₀) Next w := Reachable.of_init ⟨rfl, fun _ => rfl⟩
  exact ⟨hclean, hopen, h, persistMap_counter_sound hclean hopen h⟩

end Counter

/-- A one-chunk map over a file whose bitmap byte has the bit of chunk 1 set, a bit past
`chunk_count`: `open` counts it as the one ready chunk and writes the all-ready header, so the
map says all ready while chunk 0 is not; `set_chunk_ready(0)` then decrements the counter at 0
and it wraps. -/
theorem persistMap_padding_bit_breaks_counter :
    openMap "blob.chunk_map" (.content ⟨magic1, 1, magic2, 0, []⟩ [0x40]) 1 true true =
        .ok (⟨1, 0, [0x40]⟩, .content ⟨magic1, 1, magic2, magicAllReady, []⟩ [0x40]) ∧
      isRangeAllReady ⟨1, 0, [0x40]⟩ = true ∧ isChunkReady ⟨1, 0, [0x40]⟩ 0 = .ok (false, 0x40) ∧
      ∃ w : World Unit, Reachable (Init ⟨1, 0, [0x40]⟩) Next w ∧
        w.map.notReadyCount = 0xFFFF_FFFF := by
  let w₀ : World Unit := ⟨⟨1, 0, [0x40]⟩, fun _ => .idle⟩
  -- one thread runs `set_chunk_ready(0)`: load, exchange, and the decrement at 0
  let w₁ := w₀.setPhase () (.load 0)
  let w₂ := w₁.setPhase () (.exchange 0 0x40)
  let w₃ := ({ w₂ with map := ⟨1, 0, [0xC0]⟩ } : World Unit).setPhase () (.decrement 0)
  let w₄ := ({ w₃ with map := ⟨1, 0xFFFF_FFFF, [0xC0]⟩ } : World Unit).setPhase () .idle
  have h₀ : Reachable (Init ⟨1, 0, [0x40]⟩) Next w₀ := Reachable.of_init ⟨rfl, fun _ => rfl⟩
  have h₄ : Reachable (Init ⟨1, 0, [0x40]⟩) Next w₄ :=
    (((h₀.tail (.inl ⟨(), .call 0, rfl⟩)).tail (.inl ⟨(), .load, rfl⟩)).tail
      (.inl ⟨(), .exchange, rfl⟩)).tail (.inl ⟨(), .decrement, rfl⟩)
  exact ⟨by decide, rfl, rfl, w₄, h₄, rfl⟩

end PersistMap

end Nydus.Storage
