import Mathlib
import Nydus.Lib.Outcome

/-!
# Random access slices of a gzip stream (`ZranGenerator`, `utils/src/compress/zlib_random.rs`)

To read a chunk of a gzip-compressed tarball without inflating the stream from its start, the
builder records inflate contexts (`ZranContext`): where a slice of the stream starts in the
compressed (`in`) and the decompressed (`out`) stream, with the dictionary to resume there. Each
chunk is read between `begin_read`, which picks the context the chunk belongs to, and
`end_read`, which returns where the chunk lies in that context (`ZranChunkInfo`) and stretches
the context's lengths to the reader's position.

A new context starts at the beginning of the current deflate block, when the stream switched,
when the current context has grown too big, or when the gap since the last chunk is too big;
while the reader is still in the block that opened the context (`is_first_block`), the context
is never split.

The reader is what the generator reads of its `ZranReader`: its current position, and the
position and dictionary of the start of the current deflate block (`ReaderView`). Positions are
`u64` values, kept as `Nat`: a subtraction panics below zero, and the lengths a context and a
chunk store are `as u32` casts, taken modulo `2 ^ 32`.

`beginRead_ok` and `endRead_ok` say all that one call can do.
-/

namespace Nydus.Utils.ZlibRandom

open Nydus.Lib
open Nydus.Lib.Outcome (bail)

def zranMaxCiEntries : Nat := 2 ^ 24
def zranMinCompSize : Nat := 768 * 1024
def zranMaxCompSize : Nat := 2048 * 1024
def zranMaxUncompSize : Nat := 2048 * 1024

/-- `a - b` on `u64` in a debug build. -/
def debugSub (a b : Nat) : Outcome Nat :=
  if b ≤ a then .ok (a - b) else Outcome.panic "attempt to subtract with overflow"

/-- `a + b` on `u64` in a debug build. -/
def debugAdd (a b : Nat) : Outcome Nat :=
  if a + b < 2 ^ 64 then .ok (a + b) else Outcome.panic "attempt to add with overflow"

/-- `ZranCompInfo`: where the inflate stream stands. Its `flags` are read by the reader only. -/
structure ZranCompInfo where
  inPos : Nat
  outPos : Nat
  previousByte : UInt8
  pendingBits : UInt8
  streamSwitched : UInt8
  deriving DecidableEq, Repr

/-- One position lies at or before another in both streams. -/
instance : LE ZranCompInfo := ⟨fun a b => a.inPos ≤ b.inPos ∧ a.outPos ≤ b.outPos⟩

theorem ZranCompInfo.le_def {a b : ZranCompInfo} : a ≤ b ↔ a.inPos ≤ b.inPos ∧ a.outPos ≤ b.outPos :=
  Iff.rfl

instance : DecidableRel (α := ZranCompInfo) (· ≤ ·) := fun _ _ =>
  inferInstanceAs (Decidable (_ ∧ _))

instance : Preorder ZranCompInfo :=
  { (inferInstance : LE ZranCompInfo) with
    le_refl := fun _ => ⟨le_rfl, le_rfl⟩
    le_trans := fun _ _ _ h₁ h₂ => ⟨h₁.1.trans h₂.1, h₁.2.trans h₂.2⟩ }

/-- `ZranContext`: a slice of the stream and what it takes to inflate it. -/
structure ZranContext where
  inOffset : Nat
  outOffset : Nat
  inLen : Nat
  outLen : Nat
  ctxByte : UInt8
  ctxBits : UInt8
  dict : List UInt8
  deriving DecidableEq, Repr

def ZranContext.new (info : ZranCompInfo) (dict : List UInt8) : ZranContext :=
  ⟨info.inPos, info.outPos, 0, 0, info.previousByte, info.pendingBits, dict⟩

/-- `ZranChunkInfo`: where a chunk lies in its context. -/
structure ZranChunkInfo where
  ciIndex : Nat
  ciOffset : Nat
  ciLen : Nat
  inPos : Nat
  inLen : Nat
  deriving DecidableEq, Repr

/-- What `begin_read` reads of the reader: `get_current_ctx_info()`, and
`get_block_ctx_info()` with `get_block_ctx_dict()`. -/
structure ReaderView where
  current : ZranCompInfo
  block : ZranCompInfo
  blockDict : List UInt8
  deriving DecidableEq, Repr

/-- The fields of `ZranGenerator` besides its reader. -/
structure ZranGenerator where
  minCompSize : Nat
  maxCompSize : Nat
  maxUncompSize : Nat
  currBlockStart : Nat
  currCiOffset : Nat
  currInOffset : Nat
  currCiIdx : Option Nat
  ciArray : List ZranContext
  deriving DecidableEq, Repr

namespace ZranGenerator

def new : ZranGenerator :=
  ⟨zranMinCompSize, zranMaxCompSize, zranMaxUncompSize, 0, 0, 0, none, []⟩

def setMinCompressedSize (g : ZranGenerator) (sz : Nat) : ZranGenerator :=
  { g with minCompSize := sz }

def setMaxCompressedSize (g : ZranGenerator) (sz : Nat) : ZranGenerator :=
  { g with maxCompSize := sz }

def setMaxUncompressedSize (g : ZranGenerator) (sz : Nat) : ZranGenerator :=
  { g with maxUncompSize := sz }

variable (g : ZranGenerator) (r : ReaderView)

/-- `new_ci_entry`: a context that starts at the start of the current deflate block. -/
def newCiEntry : Nat × ZranGenerator :=
  (g.ciArray.length,
    { g with ciArray := g.ciArray ++ [ZranContext.new r.block r.blockDict],
             currBlockStart := r.block.inPos })

/-- `is_first_block`: the reader is still in the block that opened the last context. -/
def isFirstBlock : Bool := r.block.inPos == g.currBlockStart

/-- `enough`: past the first block, the slice has grown too big for one more chunk. -/
def enough (first : Bool) (compSize uncompSize chunkSize : Nat) : Outcome Bool :=
  if first then pure false
  else if compSize ≥ g.maxCompSize / 2 then pure true
  else do pure (decide ((← debugAdd uncompSize chunkSize) ≥ g.maxUncompSize))

/-- The context `begin_read` gives the next chunk: the current one, or a new one. -/
def pickContext (chunkSize : Nat) : Outcome (Nat × ZranGenerator) :=
  match g.currCiIdx with
  | none => pure (g.newCiEntry r)
  | some idx => do
    let info := r.current
    let ctx ← Outcome.get g.ciArray idx
    let compSize ← debugSub info.inPos ctx.inOffset
    let uncompSize ← debugSub info.outPos ctx.outOffset
    let first := g.isFirstBlock r
    let enough ← g.enough first compSize uncompSize chunkSize
    if info.streamSwitched != 0 || enough then
      -- the slice becomes too big after merging the chunk
      pure (g.newCiEntry r)
    else if !first && decide (compSize > 2 * ctx.inLen) && decide (ctx.inLen > g.minCompSize) then
      -- the gap between this chunk and the last one is too big
      pure (g.newCiEntry r)
    else pure (idx, g)

/-- `begin_read`: the index of the chunk's context, and the generator after the call. A context
opened by a call that fails stays in the array. -/
def beginRead (chunkSize : Nat) : Outcome Nat × ZranGenerator :=
  match g.pickContext r chunkSize with
  | .ok (ciIdx, g) =>
    if ciIdx > zranMaxCiEntries then (bail "too many compression information entries", g)
    else
      (.ok ciIdx,
        { g with currCiIdx := some ciIdx, currCiOffset := r.current.outPos,
                 currInOffset := r.current.inPos })
  | .error e => (.error e, g)

/-- `end_read` at the reader's current position `info`. -/
def endRead (info : ZranCompInfo) : Outcome (ZranChunkInfo × ZranGenerator) :=
  match g.currCiIdx with
  | some idx => do
    let ctx ← Outcome.get g.ciArray idx
    let compSize ← debugSub info.inPos ctx.inOffset
    let uncompSize ← debugSub info.outPos ctx.outOffset
    let ciOffset ← debugSub g.currCiOffset ctx.outOffset
    let ciLen ← debugSub info.outPos g.currCiOffset
    let inLen ← debugSub info.inPos g.currInOffset
    let ci : ZranChunkInfo :=
      ⟨idx % 2 ^ 32, ciOffset % 2 ^ 32, ciLen % 2 ^ 32, g.currInOffset, inLen % 2 ^ 32⟩
    let ctx := { ctx with outLen := uncompSize % 2 ^ 32, inLen := compSize % 2 ^ 32 }
    pure (ci, { g with ciArray := g.ciArray.set idx ctx })
  | none => bail "invalid compression state"

end ZranGenerator

/-! ## What one call does -/

namespace ZranGenerator

variable {g g' : ZranGenerator} {r : ReaderView}

@[simp] theorem debugSub_eq_ok {a b c : Nat} : debugSub a b = .ok c ↔ b ≤ a ∧ c = a - b := by
  unfold debugSub
  split_ifs with h <;> simp [h, Outcome.panic, eq_comm]

@[simp] theorem debugAdd_eq_ok {a b c : Nat} : debugAdd a b = .ok c ↔ a + b < 2 ^ 64 ∧ c = a + b := by
  unfold debugAdd
  split_ifs with h
  · exact ⟨fun he => ⟨h, (Except.ok.inj he).symm⟩, fun ⟨_, hc⟩ => by rw [hc]⟩
  · exact ⟨fun he => by simp [Outcome.panic] at he, fun ⟨hlt, _⟩ => absurd hlt h⟩

theorem pickContext_ok {chunkSize idx : Nat} (h : g.pickContext r chunkSize = .ok (idx, g')) :
    (idx, g') = g.newCiEntry r ∨ g.currCiIdx = some idx ∧ g' = g ∧ idx < g.ciArray.length := by
  unfold pickContext at h
  split at h
  · exact .inl (Except.ok.inj h).symm
  · rename_i i hi
    obtain ⟨ctx, hctx, h⟩ := bind_eq_ok.mp h
    obtain ⟨_, -, h⟩ := bind_eq_ok.mp h
    obtain ⟨_, -, h⟩ := bind_eq_ok.mp h
    obtain ⟨_, -, h⟩ := bind_eq_ok.mp h
    split_ifs at h
    · exact .inl (Except.ok.inj h).symm
    · exact .inl (Except.ok.inj h).symm
    · cases h
      exact .inr ⟨hi, rfl, (List.getElem?_eq_some_iff.mp (Outcome.get_eq_ok.mp hctx)).1⟩

/-- **`begin_read`.** A call that succeeds makes its result the current context, records the
reader's position, and either keeps the array or opens one context at the current block. -/
theorem beginRead_ok {chunkSize idx : Nat} (h : g.beginRead r chunkSize = (.ok idx, g')) :
    g'.currCiIdx = some idx ∧ g'.currCiOffset = r.current.outPos ∧
      g'.currInOffset = r.current.inPos ∧ idx ≤ zranMaxCiEntries ∧
      ((g'.ciArray = g.ciArray ∧ idx < g.ciArray.length) ∨
        (g'.ciArray = g.ciArray ++ [ZranContext.new r.block r.blockDict] ∧
          idx = g.ciArray.length)) := by
  unfold beginRead at h
  split at h
  · rename_i ciIdx g₁ hpick
    split_ifs at h with hmax
    · simp [bail] at h
    obtain ⟨hidx, rfl⟩ := Prod.mk.inj h
    cases hidx
    refine ⟨rfl, rfl, rfl, Nat.le_of_not_lt hmax, ?_⟩
    rcases pickContext_ok hpick with hnew | ⟨-, rfl, hlt⟩
    · obtain ⟨rfl, rfl⟩ := Prod.mk.inj hnew
      exact .inr ⟨rfl, rfl⟩
    · exact .inl ⟨rfl, hlt⟩
  · cases (Prod.mk.inj h).1

/-- **`end_read`.** A call that succeeds returns the chunk from the position `begin_read`
recorded to `info`, inside the current context, and stretches that context to `info`. -/
theorem endRead_ok {info : ZranCompInfo} {ci : ZranChunkInfo} (h : g.endRead info = .ok (ci, g')) :
    ∃ idx ctx, g.currCiIdx = some idx ∧ g.ciArray[idx]? = some ctx ∧
      ctx.inOffset ≤ info.inPos ∧ ctx.outOffset ≤ g.currCiOffset ∧
      g.currCiOffset ≤ info.outPos ∧ g.currInOffset ≤ info.inPos ∧
      ci = ⟨idx % 2 ^ 32, (g.currCiOffset - ctx.outOffset) % 2 ^ 32,
        (info.outPos - g.currCiOffset) % 2 ^ 32,
        g.currInOffset, (info.inPos - g.currInOffset) % 2 ^ 32⟩ ∧
      g' = { g with
        ciArray := g.ciArray.set idx { ctx with
          outLen := (info.outPos - ctx.outOffset) % 2 ^ 32,
          inLen := (info.inPos - ctx.inOffset) % 2 ^ 32 } } := by
  unfold endRead at h
  split at h
  · rename_i idx hidx
    simp only [bind_eq_ok, debugSub_eq_ok, Outcome.get_eq_ok] at h
    obtain ⟨ctx, hctx, _, ⟨hin, rfl⟩, _, ⟨hout, rfl⟩, _, ⟨hoff, rfl⟩, _, ⟨hlen, rfl⟩, _,
      ⟨hinl, rfl⟩, h⟩ := h
    obtain ⟨rfl, rfl⟩ := Prod.mk.inj (Except.ok.inj h)
    exact ⟨idx, ctx, hidx, hctx, hin, hoff, hlen, hinl, rfl, rfl⟩
  · simp [bail] at h

end ZranGenerator

end Nydus.Utils.ZlibRandom
