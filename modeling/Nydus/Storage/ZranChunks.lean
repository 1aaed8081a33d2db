import Mathlib
import Nydus.Lib.Outcome
import Nydus.Storage.ChunkArray
import Nydus.Storage.MetaFile
import Nydus.Storage.Zran
import Nydus.Utils.ZlibRandom

/-!
# The chunks and the contexts of a ZRan conversion

The builder reads the chunks of a gzip-compressed tarball through a `ZranContextGenerator`, one
`start_chunk`/`finish_chunk` transaction each (`ZranContextGenerator.run`), and writes the
contexts with `to_vec`. The runtime maps those bytes as a table of `ZranInflateContext` records
(`zranTable`) and validates each chunk against it.

`to_vec` lays the records out one after another, and the runtime reads each context's `out_len`
back (`zranTable_eq`). Along a run, `RunInv` says what the chunks returned so far satisfy
against the current contexts: each chunk lies in its context, in both streams. Each half of a
transaction keeps it (`RunInv.beginRead`, `RunInv.finishChunk`), and so does the whole run
(`RunInv.run`). Two conditions carry it: the reader goes forward (`Forward`), and no chunk ends
`4 GiB` or more past the start of its context (`Spans`). Contexts and chunks store their lengths
and offsets as `u32`; past `4 GiB` they wrap.

At the end of a conversion every chunk passes the runtime's validation against the table read
from the bytes `to_vec` writes (`run_chunks_validate`), and the chunks of one context follow one
another in its output (`run_chunks_ordered`).
-/

namespace Nydus.Storage.Meta

open Nydus.Lib BlobMetaChunkInfo
open Nydus.Utils.ZlibRandom

namespace ZranContextGenerator

/-! ## The contexts `to_vec` writes, read back -/

/-- The bytes `to_vec` writes, as the runtime maps them. -/
def toVecFile (g : ZranContextGenerator) : MappedFile :=
  ⟨g.toVec.1.length, fun i => g.toVec.1.getD i 0⟩

/-- The ZRan contexts the runtime reads from the bytes `to_vec` writes: the table of
`ZranInflateContext` records at their start, as `contextTables` reads it. -/
def zranTable (g : ZranContextGenerator) : List ZranInflateContext :=
  readTable g.toVecFile.zranContext 0 zranInflateContextSize g.toVec.2

@[simp] theorem length_leBytes (x : Nat) : ∀ n, (leBytes x n).length = n
  | 0 => rfl
  | n + 1 => by simp [leBytes, length_leBytes _ n]

theorem readLE_leBytes {size : Nat} (x : Nat) (pre post : List UInt8) :
    ∀ n, (MappedFile.mk size fun i => (pre ++ leBytes x n ++ post).getD i 0).readLE pre.length n =
      x % 256 ^ n
  | 0 => by simp [MappedFile.readLE, Nat.mod_one]
  | n + 1 => by
    have hlist : pre ++ leBytes x (n + 1) ++ post =
        (pre ++ [x.toUInt8]) ++ leBytes (x / 256) n ++ post := by
      simp [leBytes]
    have hbyte : ((pre ++ [x.toUInt8]) ++ leBytes (x / 256) n ++ post).getD pre.length 0 =
        x.toUInt8 := by
      simp [List.getD_eq_getElem?_getD, List.append_assoc]
    have ih := @readLE_leBytes size (x / 256) (pre ++ [x.toUInt8]) post n
    rw [List.length_append, List.length_singleton] at ih
    rw [MappedFile.readLE, hlist]
    dsimp only
    rw [hbyte, ih, pow_succ', Nat.mod_mul]
    simp

@[simp] theorem length_inflateContextBytes (info : ZranContext) (dictOff : Nat) :
    (inflateContextBytes info dictOff).length = zranInflateContextSize := by
  simp [inflateContextBytes, zranInflateContextSize]

theorem length_contextRecords :
    ∀ (infos : List ZranContext) (dictOff : Nat),
      (contextRecords infos dictOff).length = zranInflateContextSize * infos.length
  | [], _ => rfl
  | info :: infos, dictOff => by
    rw [contextRecords, List.length_append, length_inflateContextBytes,
      length_contextRecords infos, List.length_cons, Nat.mul_succ, Nat.add_comm]

theorem contextRecords_append :
    ∀ (xs ys : List ZranContext) (dictOff : Nat), ∃ dictOff',
      contextRecords (xs ++ ys) dictOff = contextRecords xs dictOff ++ contextRecords ys dictOff'
  | [], ys, dictOff => ⟨dictOff, rfl⟩
  | x :: xs, ys, dictOff => by
    obtain ⟨d, hd⟩ := contextRecords_append xs ys (dictOff + x.dict.length)
    exact ⟨d, by rw [List.cons_append, contextRecords, contextRecords, hd, List.append_assoc]⟩

theorem contextRecords_outLen {infos : List ZranContext} {i : Nat} (hi : i < infos.length)
    (dictOff : Nat) : ∃ pre post, pre.length = zranInflateContextSize * i + 28 ∧
      contextRecords infos dictOff = pre ++ leBytes infos[i].outLen 4 ++ post := by
  obtain ⟨d, hd⟩ := contextRecords_append (infos.take i) (infos.drop i) dictOff
  rw [List.take_append_drop, List.drop_eq_getElem_cons hi] at hd
  have htake : (infos.take i).length = i := List.length_take_of_le hi.le
  refine ⟨contextRecords (infos.take i) dictOff ++ (leBytes infos[i].inOffset 8 ++
      leBytes infos[i].outOffset 8 ++ leBytes d 8 ++ leBytes infos[i].inLen 4),
    (leBytes infos[i].dict.length 4 ++ [infos[i].ctxByte, infos[i].ctxBits, 0, 0]) ++
      contextRecords (infos.drop (i + 1)) (d + infos[i].dict.length), ?_, ?_⟩
  · simp [length_contextRecords, htake, zranInflateContextSize]
  · rw [hd, contextRecords, inflateContextBytes]
    simp only [List.append_assoc]

/-- The runtime reads each context's `out_len` back from the bytes `to_vec` writes. -/
theorem zranTable_eq (g : ZranContextGenerator)
    (hlen : g.generator.ciArray.length < 2 ^ 32)
    (hout : ∀ c ∈ g.generator.ciArray, c.outLen < 2 ^ 32) :
    g.zranTable = g.generator.ciArray.map fun c => ⟨c.outLen⟩ := by
  have hcount : g.toVec.2 = g.generator.ciArray.length := Nat.mod_eq_of_lt hlen
  apply List.ext_getElem
  · simp [zranTable, readTable, hcount]
  · intro i hi _
    have hi' : i < g.generator.ciArray.length := by simpa [zranTable, readTable, hcount] using hi
    obtain ⟨pre, post, hpre, hrec⟩ := contextRecords_outLen hi' 0
    have hbytes : g.toVec.1 = pre ++ leBytes g.generator.ciArray[i].outLen 4 ++
        (post ++ (g.generator.ciArray.map ZranContext.dict).flatten) := by
      simp only [toVec, hrec, List.append_assoc]
    have hread := @readLE_leBytes g.toVec.1.length g.generator.ciArray[i].outLen pre
      (post ++ (g.generator.ciArray.map ZranContext.dict).flatten) 4
    rw [← hbytes, hpre] at hread
    simp only [zranTable, readTable, List.getElem_map, List.getElem_range, List.getElem_map,
      MappedFile.zranContext, toVecFile, Nat.zero_add]
    rw [hread, Nat.mod_eq_of_lt (show g.generator.ciArray[i].outLen < 256 ^ 4 from
      hout _ (List.getElem_mem hi'))]

/-! ## The reader and the spans -/

/-- The reader's positions along the transactions, in order: at `start_chunk`, then at
`finish_chunk`, for each. -/
def positions : List Transaction → List ZranCompInfo
  | [] => []
  | t :: ts => t.start.current :: t.finish :: positions ts

/-- The reader behind the transactions: its positions are `u64` values that never go back, and
the start of its deflate block never lies after its position. -/
def Forward (ts : List Transaction) : Prop :=
  (∀ t ∈ ts, t.start.block ≤ t.start.current ∧ t.finish.inPos < 2 ^ 64 ∧
    t.finish.outPos < 2 ^ 64) ∧ (positions ts).IsChain (· ≤ ·)

instance (ts : List Transaction) : Decidable (Forward ts) :=
  inferInstanceAs (Decidable (_ ∧ _))

/-- No chunk ends `4 GiB` or more past the start of its context, in either stream: the chunks
`e` of the transactions `t`, against the contexts of `g`. -/
def Spans (g : ZranContextGenerator) (chunks : List (BlobChunkInfoV2Ondisk × Transaction)) :
    Prop :=
  ∀ e t i c, (e, t) ∈ chunks → e.getZranIndex = .ok i → g.generator.ciArray[i]? = some c →
    t.finish.inPos < c.inOffset + 2 ^ 32 ∧ t.finish.outPos < c.outOffset + 2 ^ 32

/-! ## What the chunks returned so far satisfy -/

/-- The chunk `e` of the transaction `t` lies in a context of `g`: it reads back as the place of
the chunk in the stream and in the context, the context covers it in both streams, and the
uncompressed position of `g` lies past it. -/
def ChunkIn (g : ZranContextGenerator) (e : BlobChunkInfoV2Ondisk) (t : Transaction) : Prop :=
  ∃ i c uo, g.generator.ciArray[i]? = some c ∧
    c.inOffset ≤ t.start.current.inPos ∧ c.outOffset ≤ t.start.current.outPos ∧
    e.ReadsAs t.start.current.inPos (t.finish.inPos - t.start.current.inPos) uo
      (t.finish.outPos - t.start.current.outPos) i (t.start.current.outPos - c.outOffset) ∧
    t.finish.inPos ≤ c.inOffset + c.inLen ∧ t.finish.outPos ≤ c.outOffset + c.outLen ∧
    uo + (t.finish.outPos - t.start.current.outPos) ≤ g.uncompPos

/-- The contexts of `g` are still in `g'`, from the same place of the stream, and cover at least
as much of it; the uncompressed position does not go back. -/
def Extends (g g' : ZranContextGenerator) : Prop :=
  g.uncompPos ≤ g'.uncompPos ∧
  ∀ (i : Nat) (c : ZranContext), g.generator.ciArray[i]? = some c →
    ∃ c' : ZranContext, g'.generator.ciArray[i]? = some c' ∧
    c'.inOffset = c.inOffset ∧ c'.outOffset = c.outOffset ∧
    c.inOffset + c.inLen ≤ c'.inOffset + c'.inLen ∧
    c.outOffset + c.outLen ≤ c'.outOffset + c'.outLen

theorem ChunkIn.mono {g g' : ZranContextGenerator} {e : BlobChunkInfoV2Ondisk} {t : Transaction}
    (h : ChunkIn g e t) (hext : Extends g g') : ChunkIn g' e t := by
  obtain ⟨i, c, uo, hc, hin, hout, hreads, hinEnd, houtEnd, huncomp⟩ := h
  obtain ⟨hpos, hext⟩ := hext
  obtain ⟨c', hc', hinOff, houtOff, hinLe, houtLe⟩ := hext i c hc
  refine ⟨i, c', uo, hc', by rw [hinOff]; exact hin, by rw [houtOff]; exact hout, ?_,
    hinEnd.trans hinLe, houtEnd.trans houtLe, huncomp.trans hpos⟩
  rw [houtOff]
  exact hreads

theorem extends_set {g g' : ZranContextGenerator} {idx : Nat} {ctx c' : ZranContext}
    (hctx : g.generator.ciArray[idx]? = some ctx)
    (harr : g'.generator.ciArray = g.generator.ciArray.set idx c')
    (hpos : g.uncompPos ≤ g'.uncompPos) (hin : c'.inOffset = ctx.inOffset)
    (hout : c'.outOffset = ctx.outOffset) (hinLe : ctx.inOffset + ctx.inLen ≤ c'.inOffset + c'.inLen)
    (houtLe : ctx.outOffset + ctx.outLen ≤ c'.outOffset + c'.outLen) : Extends g g' := by
  refine ⟨hpos, fun i c hc => ?_⟩
  by_cases hi : idx = i
  · subst hi
    obtain rfl : c = ctx := Option.some.inj (hc.symm.trans hctx)
    exact ⟨c', by rw [harr, List.getElem?_set_self (List.getElem?_eq_some_iff.mp hctx).1], hin,
      hout, hinLe, houtLe⟩
  · exact ⟨c, by rw [harr, List.getElem?_set_ne hi]; exact hc, rfl, rfl, le_rfl, le_rfl⟩

/-- What holds along a run from the new generator, with the reader at `p` and the chunks `done`
returned so far, each with its transaction. -/
structure RunInv (g : ZranContextGenerator) (p : ZranCompInfo)
    (done : List (BlobChunkInfoV2Ondisk × Transaction)) : Prop where
  uncompPos_lt : g.uncompPos < 2 ^ 64
  length_le : g.generator.ciArray.length ≤ zranMaxCiEntries + 1
  ctx_le : ∀ c ∈ g.generator.ciArray,
    c.inOffset + c.inLen ≤ p.inPos ∧ c.outOffset + c.outLen ≤ p.outPos
  outLen_lt : ∀ c ∈ g.generator.ciArray, c.outLen < 2 ^ 32
  done_le : ∀ x ∈ done, x.2.finish ≤ p
  done_in : ∀ x ∈ done, ChunkIn g x.1 x.2

theorem runInv_new : RunInv new ⟨0, 0, 0, 0, 0⟩ [] where
  uncompPos_lt := by decide
  length_le := by decide
  ctx_le := fun _ hc => by cases hc
  outLen_lt := fun _ hc => by cases hc
  done_le := fun _ hx => by cases hx
  done_in := fun _ hx => by cases hx

section Step

variable {g : ZranContextGenerator} {p : ZranCompInfo}
  {done : List (BlobChunkInfoV2Ondisk × Transaction)} {t : Transaction}

/-- **`start_chunk`.** With the reader at the chunk's start `s`, the chunks so far still hold, and
the chunk's context is one that starts at or before `s`. -/
theorem RunInv.beginRead (hinv : RunInv g p done) (hp : p ≤ t.start.current)
    (hblock : t.start.block ≤ t.start.current) {idx : Nat} {gb : ZranGenerator}
    (hb : g.generator.beginRead t.start t.chunkSize = (.ok idx, gb)) :
    RunInv { g with generator := gb } t.start.current done ∧ gb.currCiIdx = some idx ∧
      gb.currCiOffset = t.start.current.outPos ∧ gb.currInOffset = t.start.current.inPos ∧
      idx ≤ zranMaxCiEntries := by
  obtain ⟨hcur, hoff, hin, hidx, harr⟩ := ZranGenerator.beginRead_ok hb
  have hp' := ZranCompInfo.le_def.mp hp
  have hblock' := ZranCompInfo.le_def.mp hblock
  -- the contexts so far stay where they are; a new one is the current block
  have hkeep : ∀ (i : Nat) (c : ZranContext), g.generator.ciArray[i]? = some c →
      gb.ciArray[i]? = some c := by
    intro i c hc
    rcases harr with ⟨harr, -⟩ | ⟨harr, -⟩
    · rw [harr]
      exact hc
    · rw [harr, List.getElem?_append_left (List.getElem?_eq_some_iff.mp hc).1]
      exact hc
  have hext : Extends g { g with generator := gb } := ⟨le_rfl, fun i c hc =>
    ⟨c, hkeep i c hc, rfl, rfl, le_rfl, le_rfl⟩⟩
  have hmem : ∀ c ∈ gb.ciArray, c ∈ g.generator.ciArray ∨ c = ZranContext.new t.start.block
      t.start.blockDict := by
    intro c hc
    rcases harr with ⟨harr, -⟩ | ⟨harr, -⟩
    · rw [harr] at hc
      exact .inl hc
    · rw [harr, List.mem_append, List.mem_singleton] at hc
      exact hc
  refine ⟨⟨hinv.uncompPos_lt, ?_, fun c hc => ?_, fun c hc => ?_,
    fun x hx => (hinv.done_le x hx).trans hp, fun x hx => (hinv.done_in x hx).mono hext⟩,
    hcur, hoff, hin, hidx⟩
  · rcases harr with ⟨harr, -⟩ | ⟨harr, rfl⟩
    · rw [harr]
      exact hinv.length_le
    · rw [harr, List.length_append, List.length_singleton]
      unfold zranMaxCiEntries at hidx ⊢
      omega
  · rcases hmem c hc with hc | rfl
    · have := hinv.ctx_le c hc
      omega
    · simp only [ZranContext.new, Nat.add_zero]
      exact hblock'
  · rcases hmem c hc with hc | rfl
    · exact hinv.outLen_lt c hc
    · simp [ZranContext.new]

/-- **`finish_chunk`.** With the reader at the chunk's end, the chunk returned lies in its
context, and the chunks before it still lie in theirs: the context grows to the chunk's end, and
as the chunk ends less than `4 GiB` past the context's start, its `u32` lengths do not wrap. -/
theorem RunInv.finishChunk (hinv : RunInv g t.start.current done) {idx : Nat}
    (hcur : g.generator.currCiIdx = some idx)
    (hoff : g.generator.currCiOffset = t.start.current.outPos)
    (hin : g.generator.currInOffset = t.start.current.inPos) (hidx : idx ≤ zranMaxCiEntries)
    (hfin : t.start.current ≤ t.finish) (hu64 : t.finish.inPos < 2 ^ 64)
    {e : BlobChunkInfoV2Ondisk} {g₁ : ZranContextGenerator}
    (hf : g.finishChunk t.finish = .ok (e, g₁))
    (hspan : ∀ i c, e.getZranIndex = .ok i → g₁.generator.ciArray[i]? = some c →
      t.finish.inPos < c.inOffset + 2 ^ 32 ∧ t.finish.outPos < c.outOffset + 2 ^ 32) :
    RunInv g₁ t.finish (done ++ [(e, t)]) ∧ e.getZranIndex = .ok idx := by
  obtain ⟨idx', ctx, hidx', hctx, hinF, -, -, -, hchunk, harr, huncomp⟩ := finishChunk_ok hf
  obtain rfl : idx = idx' := Option.some.inj (hcur.symm.trans hidx')
  have hlt : idx < g.generator.ciArray.length := (List.getElem?_eq_some_iff.mp hctx).1
  have hS := hinv.ctx_le ctx (List.mem_of_getElem? hctx)
  have hF := ZranCompInfo.le_def.mp hfin
  have hctx' : g₁.generator.ciArray[idx]? = some { ctx with
      outLen := (t.finish.outPos - ctx.outOffset) % 2 ^ 32,
      inLen := (t.finish.inPos - ctx.inOffset) % 2 ^ 32 } := by
    rw [harr, List.getElem?_set_self hlt]
  have hreads := (BlobChunkInfoV2Ondisk.zranChunk_readsAs hchunk (by omega) hinv.uncompPos_lt
    (Nat.mod_lt _ (by decide)) (Nat.mod_lt _ (by decide))).2.2.2.2
  have hidx32 : idx % 2 ^ 32 = idx := Nat.mod_eq_of_lt (by unfold zranMaxCiEntries at hidx; omega)
  have hindex : e.getZranIndex = .ok idx := hidx32 ▸ hreads.getZranIndex
  obtain ⟨hspanIn, hspanOut⟩ := hspan idx _ hindex hctx'
  dsimp only at hspanIn hspanOut
  -- the chunk ends less than `4 GiB` past the context's start: no length wraps
  have hinLen : (t.finish.inPos - ctx.inOffset) % 2 ^ 32 = t.finish.inPos - ctx.inOffset :=
    Nat.mod_eq_of_lt (by omega)
  have houtLen : (t.finish.outPos - ctx.outOffset) % 2 ^ 32 = t.finish.outPos - ctx.outOffset :=
    Nat.mod_eq_of_lt (by omega)
  have hpos := finishChunk_uncompPos hf
  rw [hoff, Nat.mod_eq_of_lt (by omega : t.finish.outPos - t.start.current.outPos < 2 ^ 32)] at hpos
  have hext : Extends g g₁ :=
    extends_set hctx harr (by omega) rfl rfl (by dsimp only; omega) (by dsimp only; omega)
  rw [hin, hoff, hidx32, Nat.mod_eq_of_lt (by omega : t.finish.inPos - t.start.current.inPos < 2 ^ 32),
    Nat.mod_eq_of_lt (by omega : t.finish.outPos - t.start.current.outPos < 2 ^ 32),
    Nat.mod_eq_of_lt (by omega : t.start.current.outPos - ctx.outOffset < 2 ^ 32)] at hreads
  refine ⟨⟨huncomp, ?_, fun c hc => ?_, fun c hc => ?_, fun x hx => ?_, fun x hx => ?_⟩,
    hindex⟩
  · rw [harr, List.length_set]
    exact hinv.length_le
  · rw [harr] at hc
    rcases List.mem_or_eq_of_mem_set hc with hc | rfl
    · have := hinv.ctx_le c hc
      omega
    · dsimp only
      omega
  · rw [harr] at hc
    rcases List.mem_or_eq_of_mem_set hc with hc | rfl
    · exact hinv.outLen_lt c hc
    · exact Nat.mod_lt _ (by decide)
  · rcases List.mem_append.mp hx with hx | hx
    · exact (hinv.done_le x hx).trans hfin
    · rw [List.mem_singleton.mp hx]
  · rcases List.mem_append.mp hx with hx | hx
    · exact (hinv.done_in x hx).mono hext
    · rw [List.mem_singleton.mp hx]
      refine ⟨idx, _, g.uncompPos, hctx', by dsimp only; omega, by dsimp only; omega, hreads, ?_, ?_,
        hpos⟩ <;> dsimp only <;> omega

/-- The contexts of `g` are still in `g'`, from the same place of the stream. -/
def KeepsPlaces (g g' : ZranContextGenerator) : Prop :=
  ∀ (i : Nat) (c : ZranContext), g.generator.ciArray[i]? = some c →
    ∃ c' : ZranContext, g'.generator.ciArray[i]? = some c' ∧
      c'.inOffset = c.inOffset ∧ c'.outOffset = c.outOffset

theorem keepsPlaces_step {idx : Nat} {gb : ZranGenerator} {e : BlobChunkInfoV2Ondisk}
    {g₁ : ZranContextGenerator}
    (hb : g.generator.beginRead t.start t.chunkSize = (.ok idx, gb))
    (hf : ({ g with generator := gb } : ZranContextGenerator).finishChunk t.finish = .ok (e, g₁)) :
    KeepsPlaces g g₁ := by
  obtain ⟨-, -, -, -, harr⟩ := ZranGenerator.beginRead_ok hb
  obtain ⟨idx', ctx, -, hctx, -, -, -, -, -, harr₁, -⟩ := finishChunk_ok hf
  intro i c hc
  have hcb : gb.ciArray[i]? = some c := by
    rcases harr with ⟨harr, -⟩ | ⟨harr, -⟩
    · rw [harr]
      exact hc
    · rw [harr, List.getElem?_append_left (List.getElem?_eq_some_iff.mp hc).1]
      exact hc
  dsimp only at hctx harr₁
  by_cases hi : idx' = i
  · subst hi
    obtain rfl : c = ctx := Option.some.inj (hcb.symm.trans hctx)
    rw [harr₁, List.getElem?_set_self (List.getElem?_eq_some_iff.mp hctx).1]
    exact ⟨_, rfl, rfl, rfl⟩
  · exact ⟨c, by rw [harr₁, List.getElem?_set_ne hi]; exact hcb, rfl, rfl⟩

theorem keepsPlaces_run :
    ∀ {ts : List Transaction} {g g' : ZranContextGenerator} {cs : List BlobChunkInfoV2Ondisk},
      g.run ts = .ok (cs, g') → KeepsPlaces g g'
  | [], g, g', cs, h => by
    obtain ⟨-, rfl⟩ := Prod.mk.inj (Except.ok.inj h)
    exact fun i c hc => ⟨c, hc, rfl, rfl⟩
  | t :: ts, g, g', cs, h => by
    obtain ⟨idx, gb, e, g₁, cs', hb, hf, hrun, -⟩ := run_cons_eq_ok h
    intro i c hc
    obtain ⟨c₁, hc₁, hin₁, hout₁⟩ := keepsPlaces_step hb hf i c hc
    obtain ⟨c', hc', hin', hout'⟩ := keepsPlaces_run hrun i c₁ hc₁
    exact ⟨c', hc', hin'.trans hin₁, hout'.trans hout₁⟩

end Step

/-- **The run.** A run that succeeds, with the reader going forward from `p` and no chunk ending
`4 GiB` past the start of its context, returns one chunk per transaction, each lying in its
context at the end of the run; by induction on the transactions, `start_chunk` then
`finish_chunk` keeping `RunInv`. -/
theorem RunInv.run :
    ∀ {ts : List Transaction} {g : ZranContextGenerator} {p : ZranCompInfo}
      {done : List (BlobChunkInfoV2Ondisk × Transaction)} {cs : List BlobChunkInfoV2Ondisk}
      {g' : ZranContextGenerator},
      RunInv g p done → (p :: positions ts).IsChain (· ≤ ·) →
      (∀ t ∈ ts, t.start.block ≤ t.start.current ∧ t.finish.inPos < 2 ^ 64) →
      g.run ts = .ok (cs, g') → Spans g' (cs.zip ts) →
      cs.length = ts.length ∧ ∃ p', RunInv g' p' (done ++ cs.zip ts)
  | [], g, p, done, cs, g', hinv, _, _, h, _ => by
    obtain ⟨rfl, rfl⟩ := Prod.mk.inj (Except.ok.inj h)
    exact ⟨rfl, p, by simpa using hinv⟩
  | t :: ts, g, p, done, cs, g', hinv, hchain, hts, h, hspan => by
    obtain ⟨idx, gb, e, g₁, cs', hb, hf, hrun, rfl⟩ := run_cons_eq_ok h
    rw [positions, List.isChain_cons_cons, List.isChain_cons_cons] at hchain
    obtain ⟨hps, hsf, hchain⟩ := hchain
    obtain ⟨hblock, hu64⟩ := hts t List.mem_cons_self
    obtain ⟨hinvb, hcur, hoff, hin, hidx⟩ := hinv.beginRead hps hblock hb
    -- the chunk's context has the same place at the end of the run, where `Spans` bounds it
    have hspan₁ : ∀ i c, e.getZranIndex = .ok i → g₁.generator.ciArray[i]? = some c →
        t.finish.inPos < c.inOffset + 2 ^ 32 ∧ t.finish.outPos < c.outOffset + 2 ^ 32 := by
      intro i c hi hc
      obtain ⟨c', hc', hin', hout'⟩ := keepsPlaces_run hrun i c hc
      rw [← hin', ← hout']
      exact hspan e t i c' (by simp) hi hc'
    obtain ⟨hinv₁, -⟩ := hinvb.finishChunk hcur hoff hin hidx hsf hu64 hf hspan₁
    obtain ⟨hlen, p', hinv'⟩ := RunInv.run hinv₁ hchain
      (fun t' ht' => hts t' (List.mem_cons_of_mem t ht')) hrun
      (fun e' t' i c hmem => hspan e' t' i c (List.mem_cons_of_mem _ hmem))
    refine ⟨by rw [List.length_cons, List.length_cons, hlen], p', ?_⟩
    rwa [List.zip_cons_cons, ← List.singleton_append, ← List.append_assoc]

/-! ## The whole conversion -/

theorem mem_positions {t : Transaction} :
    ∀ {ts : List Transaction}, t ∈ ts → t.start.current ∈ positions ts
  | t' :: ts, ht => by
    rcases List.mem_cons.mp ht with rfl | ht
    · exact List.mem_cons_self
    · exact List.mem_cons_of_mem _ (List.mem_cons_of_mem _ (mem_positions ht))

theorem positions_chain :
    ∀ {ts : List Transaction}, (positions ts).IsChain (· ≤ ·) →
      (∀ t ∈ ts, t.start.current ≤ t.finish) ∧
        ts.Pairwise fun t t' => t.finish ≤ t'.start.current
  | [], _ => ⟨fun _ h => (by cases h), List.Pairwise.nil⟩
  | t :: ts, h => by
    rw [positions, List.isChain_cons_cons] at h
    obtain ⟨hsf, hchain⟩ := h
    have hafter : ∀ q ∈ positions ts, t.finish ≤ q := fun _ hq =>
      List.rel_of_pairwise_cons (List.isChain_iff_pairwise.mp hchain) hq
    obtain ⟨hle, hpw⟩ := positions_chain hchain.tail
    exact ⟨List.forall_mem_cons.mpr ⟨hsf, hle⟩,
      List.pairwise_cons.mpr ⟨fun t' ht' => hafter _ (mem_positions ht'), hpw⟩⟩

theorem spans_of_lt {ts : List Transaction} (g : ZranContextGenerator)
    (cs : List BlobChunkInfoV2Ondisk)
    (h : ∀ t ∈ ts, t.finish.inPos < 2 ^ 32 ∧ t.finish.outPos < 2 ^ 32) : Spans g (cs.zip ts) := by
  intro e t i c hmem _ _
  have := h t (List.of_mem_zip hmem).2
  omega

theorem runInv_of_run {ts : List Transaction} {cs : List BlobChunkInfoV2Ondisk}
    {g : ZranContextGenerator} (hfwd : Forward ts) (hrun : new.run ts = .ok (cs, g))
    (hspan : Spans g (cs.zip ts)) :
    cs.length = ts.length ∧ ∃ p, RunInv g p (cs.zip ts) := by
  obtain ⟨hts, hchain⟩ := hfwd
  have hchain₀ : (⟨0, 0, 0, 0, 0⟩ :: positions ts).IsChain (· ≤ ·) :=
    hchain.cons fun _ _ => ZranCompInfo.le_def.mpr ⟨Nat.zero_le _, Nat.zero_le _⟩
  obtain ⟨hlen, p, hinv⟩ := RunInv.run runInv_new hchain₀
    (fun t ht => ⟨(hts t ht).1, (hts t ht).2.1⟩) hrun hspan
  exact ⟨hlen, p, by rwa [List.nil_append] at hinv⟩

/-- **What the runtime reads back.** Every chunk a ZRan conversion returns passes the runtime's
validation against the contexts `to_vec` writes, in a separate ZRan blob that holds the
compressed stream read and the uncompressed data of the chunks. -/
theorem run_chunks_validate {ts : List Transaction} {cs : List BlobChunkInfoV2Ondisk}
    {g : ZranContextGenerator} (hfwd : Forward ts) (hrun : new.run ts = .ok (cs, g))
    (hspan : Spans g (cs.zip ts)) {s : BlobCompressionContext}
    (hfeat : s.blobFeatures &&& blobFeatureZran ≠ 0) (hsep : s.isSeparate = true)
    (htable : s.zranInfoArray = g.zranTable)
    (hcomp : ∀ t ∈ ts, t.finish.inPos ≤ s.compressedSize)
    (huncomp : g.uncompPos ≤ s.uncompressedSize) :
    cs.length = ts.length ∧ ∀ e ∈ cs, e.validate s = .ok () := by
  obtain ⟨hlen, p, hinv⟩ := runInv_of_run hfwd hrun hspan
  have htable' : s.zranInfoArray = g.generator.ciArray.map fun c => ⟨c.outLen⟩ := by
    have hcount := hinv.length_le
    unfold zranMaxCiEntries at hcount
    rw [htable, zranTable_eq g (by omega) hinv.outLen_lt]
  refine ⟨hlen, fun e he => ?_⟩
  rw [← List.map_fst_zip hlen.le, List.mem_map] at he
  obtain ⟨⟨e, t⟩, hmem, rfl⟩ := he
  have hin : ChunkIn g e t := hinv.done_in _ hmem
  obtain ⟨i, c, uo, hc, -, hout, hreads, -, houtEnd, hpos⟩ := hin
  have ht : t ∈ ts := (List.of_mem_zip hmem).2
  have hsf := ZranCompInfo.le_def.mp ((positions_chain hfwd.2).1 t ht)
  have hcomp' := hcomp t ht
  have hus := hreads.uncompressedSize
  have hus0 : 0 < e.uncompressedSize := Nat.succ_pos _
  have hlen32 := hinv.outLen_lt c (List.mem_of_getElem? hc)
  have hctx : s.zranInfoArray[i]? = some ⟨c.outLen⟩ := by
    rw [htable', List.getElem?_map, hc]
    rfl
  rw [BlobChunkInfoV2Ondisk.validate_eq_ok_iff hreads.isZran]
  refine ⟨?_, ?_, hus0.ne', fun h => absurd (hsep.symm.trans h.1) (by decide),
    fun h => absurd (hreads.isCompressed.symm.trans h.2) (by decide), hreads.checkFlags, hfeat,
    i, _, _, hreads.getZranIndex, hreads.getZranOffset, hctx, ?_, ?_, ?_⟩
  · rw [hreads.compressedOffset, hreads.compressedSize]
    omega
  · rw [hreads.uncompressedOffset]
    omega
  · dsimp only
    omega
  · omega
  · dsimp only
    omega

/-- Two chunks of one context, read one after the other from the first deflate block. -/
def twoChunks : List Transaction :=
  [⟨0x1000, ⟨⟨10, 0, 0, 0, 0⟩, ⟨10, 0, 0, 0, 0⟩, []⟩, ⟨110, 0x1000, 0, 0, 0⟩⟩,
   ⟨0x1000, ⟨⟨110, 0x1000, 0, 0, 0⟩, ⟨10, 0, 0, 0, 0⟩, []⟩, ⟨200, 0x2000, 0, 0, 0⟩⟩]

theorem run_chunks_validate_twoChunks : ∃ cs g, new.run twoChunks = .ok (cs, g) ∧
    cs.length = 2 ∧ ∀ e ∈ cs, e.validate
      ⟨0, blobFeatureZran ||| blobFeatureSeparate, 200, g.uncompPos, .v2 cs, [], g.zranTable⟩ =
      .ok () := by
  obtain ⟨cs, g, hrun⟩ : ∃ cs g, new.run twoChunks = .ok (cs, g) := ⟨_, _, rfl⟩
  exact ⟨cs, g, hrun, run_chunks_validate (by decide) hrun (spans_of_lt g cs (by decide))
    (by dsimp only; decide) (by dsimp only [BlobCompressionContext.isSeparate]; decide) rfl
    (by dsimp only; decide) le_rfl⟩

/-- **The chunks of one context.** The chunks a ZRan conversion returns that share a context lie
one after the other in its output, in the order they are returned. -/
theorem run_chunks_ordered {ts : List Transaction} {cs : List BlobChunkInfoV2Ondisk}
    {g : ZranContextGenerator} (hfwd : Forward ts) (hrun : new.run ts = .ok (cs, g))
    (hspan : Spans g (cs.zip ts)) :
    cs.Pairwise fun e e' => e.getZranIndex = e'.getZranIndex →
      ∃ zo zo', e.getZranOffset = .ok zo ∧ e'.getZranOffset = .ok zo' ∧
        zo + e.uncompressedSize ≤ zo' := by
  obtain ⟨hlen, p, hinv⟩ := runInv_of_run hfwd hrun hspan
  obtain ⟨hsf, hpw⟩ := positions_chain hfwd.2
  rw [← List.map_snd_zip hlen.ge, List.pairwise_map] at hpw
  rw [← List.map_fst_zip hlen.le, List.pairwise_map]
  refine hpw.imp_of_mem fun {x y} hx hy hxy hidx => ?_
  obtain ⟨i, c, uo, hc, -, hout, hreads, -, -, -⟩ := hinv.done_in x hx
  obtain ⟨i', c', uo', hc', -, hout', hreads', -, -, -⟩ := hinv.done_in y hy
  obtain rfl : i = i' :=
    Except.ok.inj (hreads.getZranIndex.symm.trans (hidx.trans hreads'.getZranIndex))
  obtain rfl : c = c' := Option.some.inj (hc.symm.trans hc')
  refine ⟨_, _, hreads.getZranOffset, hreads'.getZranOffset, ?_⟩
  have hx' := ZranCompInfo.le_def.mp (hsf x.2 (List.of_mem_zip hx).2)
  have hxy' := ZranCompInfo.le_def.mp hxy
  rw [hreads.uncompressedSize]
  omega

theorem run_chunks_ordered_twoChunks : ∃ cs g, new.run twoChunks = .ok (cs, g) ∧
    cs.Pairwise fun e e' => e.getZranIndex = e'.getZranIndex →
      ∃ zo zo', e.getZranOffset = .ok zo ∧ e'.getZranOffset = .ok zo' ∧
        zo + e.uncompressedSize ≤ zo' := by
  obtain ⟨cs, g, hrun⟩ : ∃ cs g, new.run twoChunks = .ok (cs, g) := ⟨_, _, rfl⟩
  exact ⟨cs, g, hrun, run_chunks_ordered (by decide) hrun (spans_of_lt g cs (by decide))⟩

end ZranContextGenerator

end Nydus.Storage.Meta
