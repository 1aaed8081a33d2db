import Nydus.Lib.Outcome

/-!
# Blob compaction (`builder/src/compact.rs`)

`BlobCompactor::compact` loads a bootstrap's tree, gives every original blob a state
(`State`: `ChunkDict`, `Delete`, `Invalid`, `Original`, `Rebuild`), plans (`do_compact`:
delete unused blobs, rebuild sparse ones, merge small ones) and writes the new blob table
(`dump_new_blobs`), rewriting the tree's chunks in place through two position indexes:
`c2nodes` by chunk key and `b2nodes` by blob index.

The tree comes from `Tree::from_bootstrap`, which wraps every chunk of the bootstrap as a
`ChunkWrapper::Ref`, and `ChunkKey::from` is `unimplemented!` on a `Ref`. So
`load_and_dedup_chunks` panics at the first chunk it meets: `compact` returns only for a
bootstrap whose nodes hold no chunk (`compact_ok_chunkless`), and on a bootstrap with a chunk in
a regular file it panics (`compact_panics_on_file_chunk`).

Model notes. The tree is its root and its other nodes in `walk_bfs(false)` order (the walk
never reads the root); a node's chunk list is rewritten in place, as the source does through
`Arc<Mutex<Node>>`. A `HashMap` is an association list in insertion order; the position
indexes are functions. The storage backend and the digest that names a rebuilt blob are
parameters (`Env`). The bootstrap and blob-meta writers are left out: they write the tree
and table that the model returns.
-/

namespace Nydus.Builder.Compact

open Nydus.Lib
open Nydus.Lib.Outcome (bail ensure)

/-- The fields of a chunk that compaction reads and writes (`RafsV5ChunkInfo`, which also
carries v6 chunks, and the `BlobChunkInfo` getters behind a `Ref`). The digest is an opaque
number. -/
structure ChunkInfo where
  id : Nat
  blobIndex : Nat
  index : Nat
  compressedOffset : Nat
  compressedSize : Nat
  uncompressedOffset : Nat
  uncompressedSize : Nat
  deriving DecidableEq, Repr

/-- `ChunkWrapper`: an owned v5 or v6 chunk, or a reference to a chunk of a loaded
bootstrap. -/
inductive ChunkWrapper where
  | v5 (c : ChunkInfo)
  | v6 (c : ChunkInfo)
  | ref (c : ChunkInfo)
  deriving DecidableEq, Repr

namespace ChunkWrapper

/-- The getters, defined on every variant. -/
def info : ChunkWrapper → ChunkInfo
  | v5 c | v6 c | ref c => c

/-- A setter: a `Ref` panics. -/
def update (f : ChunkInfo → ChunkInfo) : ChunkWrapper → Outcome ChunkWrapper
  | v5 c => .ok (v5 (f c))
  | v6 c => .ok (v6 (f c))
  | ref _ => Outcome.panic "unexpected"

def setBlobIndex (n : Nat) : ChunkWrapper → Outcome ChunkWrapper :=
  update fun c => { c with blobIndex := n }

def setIndex (n : Nat) : ChunkWrapper → Outcome ChunkWrapper :=
  update fun c => { c with index := n }

def setCompressedOffset (n : Nat) : ChunkWrapper → Outcome ChunkWrapper :=
  update fun c => { c with compressedOffset := n }

def setUncompressedOffset (n : Nat) : ChunkWrapper → Outcome ChunkWrapper :=
  update fun c => { c with uncompressedOffset := n }

end ChunkWrapper

/-- `apply_chunk_change(from, to)`: `to` moves to `from`'s place; the sizes must agree. -/
def applyChunkChange (src dst : ChunkWrapper) : Outcome ChunkWrapper := do
  ensure (dst.info.uncompressedSize == src.info.uncompressedSize) "different uncompress size"
  ensure (dst.info.compressedSize == src.info.compressedSize) "different compressed size"
  let dst ← dst.setBlobIndex src.info.blobIndex
  let dst ← dst.setIndex src.info.index
  let dst ← dst.setUncompressedOffset src.info.uncompressedOffset
  dst.setCompressedOffset src.info.compressedOffset

/-- `ChunkKey`: the digest for v5, `(blob index, compressed offset)` for v6. -/
inductive ChunkKey where
  | digest (d : Nat)
  | offset (blobIndex compressedOffset : Nat)
  deriving DecidableEq, Repr

/-- `ChunkKey::from`. -/
def ChunkKey.ofChunk : ChunkWrapper → Outcome ChunkKey
  | .v5 c => .ok (.digest c.id)
  | .v6 c => .ok (.offset c.blobIndex c.compressedOffset)
  | .ref _ => Outcome.panic "not implemented: unsupport ChunkWrapper::Ref(c)"

/-- `ChunkSet`: chunks by key, and the sum of their compressed sizes. -/
structure ChunkSet where
  chunks : List (ChunkKey × ChunkWrapper)
  totalSize : Nat
  deriving DecidableEq, Repr

namespace ChunkSet

def new : ChunkSet := ⟨[], 0⟩

def getChunk (cs : ChunkSet) (key : ChunkKey) : Option ChunkWrapper := cs.chunks.lookup key

/-- `add_chunk`: a chunk whose key is present is dropped. -/
def addChunk (cs : ChunkSet) (chunk : ChunkWrapper) : Outcome ChunkSet := do
  let key ← ChunkKey.ofChunk chunk
  match cs.getChunk key with
  | some _ => pure cs
  | none => pure ⟨cs.chunks ++ [(key, chunk)], cs.totalSize + chunk.info.compressedSize⟩

def merge (cs other : ChunkSet) : Outcome ChunkSet :=
  other.chunks.foldlM (fun cs kc => cs.addChunk kc.2) cs

end ChunkSet

/-- The per-blob plan. -/
inductive State where
  | chunkDict
  /-- The blob is dropped. -/
  | delete
  | invalid
  | original (cs : ChunkSet)
  /-- The blob's chunks are written into a new blob. -/
  | rebuild (cs : ChunkSet)
  deriving DecidableEq, Repr

namespace State

def isRebuild : State → Bool
  | rebuild _ => true
  | _ => false

def isFromDict : State → Bool
  | chunkDict => true
  | _ => false

def isInvalid : State → Bool
  | invalid => true
  | _ => false

/-- `State::merge_blob`: `other`'s chunks join `self`, which must be `Rebuild`. -/
def mergeBlob (self other : State) : Outcome State := do
  let mergeCs ← match other with
    | original cs => pure cs
    | rebuild cs => pure cs
    | _ => bail "invalid state"
  match self with
  | rebuild cs => rebuild <$> cs.merge mergeCs
  | _ => bail "invalid state"

def chunkTotalSize : State → Outcome Nat
  | original cs => .ok cs.totalSize
  | rebuild cs => .ok cs.totalSize
  | _ => bail "invalid state"

end State

/-- A blob table entry (`BlobInfo`): its id, compressed size and index in its table. -/
structure BlobInfo where
  blobId : String
  compressedSize : Nat
  blobIndex : Nat
  deriving DecidableEq, Repr

/-- `BlobContext`, with the fields compaction reads and writes; `data` is what the blob's
writer received (a rebuilt blob's bytes). -/
structure BlobContext where
  blobId : String
  compressedBlobSize : Nat
  chunkCount : Nat
  currentCompressedOffset : Nat
  currentUncompressedOffset : Nat
  uncompressedBlobSize : Nat
  data : List UInt8
  deriving DecidableEq, Repr

/-- `BlobContext::from`: an existing blob. -/
def BlobContext.ofInfo (b : BlobInfo) : BlobContext :=
  ⟨b.blobId, b.compressedSize, 0, 0, 0, 0, []⟩

/-- `BlobContext::new` for a blob to be written. -/
def BlobContext.empty : BlobContext := ⟨"", 0, 0, 0, 0, 0, []⟩

/-- The chunk dictionary (`ChunkDict`): `()` when `compact` is given none, else a
`HashChunkDict` with its chunks by digest, its blobs and its inner-to-real blob index map. -/
inductive ChunkDict where
  | unit
  | hash (m : List (Nat × ChunkWrapper)) (blobs : List BlobInfo) (blobIdxM : List (Nat × Nat))

namespace ChunkDict

def getChunk (d : ChunkDict) (digest uncompressedSize : Nat) : Option ChunkWrapper :=
  match d with
  | unit => none
  | hash m _ _ => match m.lookup digest with
    | some c =>
      if c.info.uncompressedSize = 0 ∨ c.info.uncompressedSize = uncompressedSize then some c
      else none
    | none => none

def getBlobs : ChunkDict → List BlobInfo
  | unit => []
  | hash _ blobs _ => blobs

def getRealBlobIdx (d : ChunkDict) (inner : Nat) : Option Nat :=
  match d with
  | unit => some inner
  | hash _ _ idx => idx.lookup inner

/-- `set_real_blob_idx`: a `BTreeMap` insert; `()` panics. -/
def setRealBlobIdx (d : ChunkDict) (inner out : Nat) : Outcome ChunkDict :=
  match d with
  | unit => Outcome.panic "()::set_real_blob_idx() should not be invoked"
  | hash m blobs idx => .ok (hash m blobs ((inner, out) :: idx.filter (·.1 ≠ inner)))

end ChunkDict

/-- `BlobManager`: the blob table being built, and the global chunk dictionary. -/
structure BlobManager where
  blobs : List BlobContext
  dict : ChunkDict

namespace BlobManager

/-- `alloc_index`: RAFS v6 has at most 256 blobs. -/
def allocIndex (m : BlobManager) : Outcome Nat :=
  if m.blobs.length < 256 then .ok m.blobs.length else bail "too many blobs"

def addBlob (m : BlobManager) (ctx : BlobContext) : BlobManager :=
  { m with blobs := m.blobs ++ [ctx] }

/-- `take_blob`: `Vec::remove`, which shifts the later blobs and panics out of range. -/
def takeBlob (m : BlobManager) (idx : Nat) : Outcome (BlobContext × BlobManager) :=
  match m.blobs[idx]? with
  | some ctx => .ok (ctx, { m with blobs := m.blobs.eraseIdx idx })
  | none => Outcome.panic "removal index should be < len"

def getBlobIdxById (m : BlobManager) (id : String) : Option Nat :=
  m.blobs.findIdx? (·.blobId = id)

/-- `extend_from_chunk_dict`: each dictionary blob is found by id or appended. -/
def extendFromChunkDict (m : BlobManager) : Outcome BlobManager :=
  m.dict.getBlobs.foldlM (fun m blob => do
    match m.getBlobIdxById blob.blobId with
    | some real => do
      let dict ← m.dict.setRealBlobIdx blob.blobIndex real
      pure { m with dict }
    | none => do
      let idx ← m.allocIndex
      let m := m.addBlob (BlobContext.ofInfo blob)
      let dict ← m.dict.setRealBlobIdx blob.blobIndex idx
      pure { m with dict }) m

/-- `set_chunk_dict` and `extend_from_chunk_dict`, when `compact` is given a dictionary. -/
def withChunkDict (m : BlobManager) : Option ChunkDict → Outcome BlobManager
  | some d => extendFromChunkDict { m with dict := d }
  | none => pure m

end BlobManager

/-- A reader of one blob (`BlobReader`). -/
structure BlobReader where
  blobSize : Except String Nat
  read : Nat → Nat → Except String (List UInt8)

/-- What compaction takes from outside: the storage backend's reader for a blob id, and the
hex digest that names a rebuilt blob. -/
structure Env where
  getReader : String → Except String BlobReader
  digestHex : List UInt8 → String

/-- The file type bits of an inode's mode, as far as compaction tells them apart. -/
inductive FileKind where
  | dir
  | reg
  | other
  deriving DecidableEq, Repr

/-- A tree node as compaction sees it. -/
structure Node where
  kind : FileKind
  chunks : List ChunkWrapper
  deriving DecidableEq, Repr

def Node.isDir (n : Node) : Bool := n.kind == .dir

def Node.isReg (n : Node) : Bool := n.kind == .reg

/-- A chunk position: the node (in walk order) and the index in its chunk list. -/
abbrev Pos := Nat × Nat

def chunkAt (nodes : List Node) (p : Pos) : Option ChunkWrapper :=
  (nodes[p.1]?).bind fun n => n.chunks[p.2]?

/-- `node.chunks[i]`: panics out of range. -/
def chunkOf (nodes : List Node) (p : Pos) : Outcome ChunkWrapper :=
  match chunkAt nodes p with
  | some c => .ok c
  | none => Outcome.panic "index out of bounds"

/-- `node.chunks[i].inner = chunk`. -/
def setChunk (nodes : List Node) (p : Pos) (c : ChunkWrapper) : List Node :=
  nodes.modify p.1 fun n => { n with chunks := n.chunks.set p.2 c }

/-- The positions `load_and_dedup_chunks` visits, in order. -/
def positions (nodes : List Node) : List Pos :=
  (List.range nodes.length).flatMap fun n =>
    (List.range ((nodes[n]?.map (·.chunks.length)).getD 0)).map fun i => (n, i)

/-- A RAFS bootstrap as compaction loads it: the chunks of each node, and the blob table. -/
structure Bootstrap where
  root : Node
  nodes : List Node
  blobTable : List BlobInfo

/-- `Tree::from_bootstrap` (`MetadataTreeBuilder::parse_node`): a regular file's chunks are
read back and wrapped as `Ref`s; other nodes get none. -/
def Bootstrap.tree (rs : Bootstrap) : Node × List Node :=
  let wrap := fun (n : Node) =>
    { n with chunks := if n.isReg then n.chunks.map fun c => .ref c.info else [] }
  (wrap rs.root, rs.nodes.map wrap)

/-- `Config`, the fields `compact` reads. -/
structure Config where
  minUsedRatio : Nat
  compactBlobSize : Nat
  maxCompactSize : Nat
  layersToCompact : Nat
  deriving DecidableEq, Repr

/-- `BlobCompactor`. -/
structure BlobCompactor where
  states : List State
  oriBlobMgr : BlobManager
  newBlobMgr : BlobManager
  c2nodes : ChunkKey → List Pos
  b2nodes : Nat → List Pos
  nodes : List Node

namespace BlobCompactor

/-- `load_chunk_dict_blobs`. -/
def loadChunkDictBlobs (b : BlobCompactor) : Outcome BlobCompactor :=
  let dict := b.oriBlobMgr.dict
  (List.range dict.getBlobs.length).foldlM (fun b i =>
    match dict.getRealBlobIdx i with
    | some real => do
      let states ← Outcome.set b.states real .chunkDict
      pure { b with states }
    | none => pure b) b

/-- The per-blob set of a chunk that is neither in the dictionary nor seen before. -/
def recordOriginal (states : List State) (chunk : ChunkWrapper) : Outcome (List State) := do
  let bi := chunk.info.blobIndex
  let s ← Outcome.get states bi
  let states ← if s.isInvalid then Outcome.set states bi (.original ChunkSet.new)
    else pure states
  let s ← Outcome.get states bi
  match s with
  | .original cs => Outcome.set states bi (.original (← cs.addChunk chunk))
  | _ => pure states

/-- The dedup decision for a chunk of a dictionary blob: the dictionary's copy, an earlier
copy, or a first sighting recorded in the states and in `all`. -/
def dedupFromDict (dict : ChunkDict) (states : List State) (all : ChunkSet) (key : ChunkKey)
    (chunk : ChunkWrapper) : Outcome (List State × ChunkSet × ChunkWrapper) :=
  match dict.getChunk chunk.info.id chunk.info.uncompressedSize with
  | some c => do pure (states, all, ← applyChunkChange c chunk)
  | none => match all.getChunk key with
    | some c => do pure (states, all, ← applyChunkChange c chunk)
    | none => do pure (← recordOriginal states chunk, ← all.addChunk chunk, chunk)

/-- One chunk of `load_and_dedup_chunks`; `all` is the walk's `all_chunks`. -/
def dedupChunk (b : BlobCompactor) (all : ChunkSet) (p : Pos) :
    Outcome (BlobCompactor × ChunkSet) := do
  let chunk ← chunkOf b.nodes p
  let key ← ChunkKey.ofChunk chunk
  let s ← Outcome.get b.states chunk.info.blobIndex
  let r ← if s.isFromDict then dedupFromDict b.oriBlobMgr.dict b.states all key chunk
    else pure (b.states, all, chunk)
  let chunk := r.2.2
  pure ({ b with
      states := r.1
      nodes := setChunk b.nodes p chunk
      c2nodes := Function.update b.c2nodes key (b.c2nodes key ++ [p])
      b2nodes := Function.update b.b2nodes chunk.info.blobIndex
        (b.b2nodes chunk.info.blobIndex ++ [p]) }, r.2.1)

/-- `load_and_dedup_chunks`. -/
def loadAndDedupChunks (b : BlobCompactor) : Outcome BlobCompactor := do
  let r ← (positions b.nodes).foldlM (fun (ba : BlobCompactor × ChunkSet) p =>
    dedupChunk ba.1 ba.2 p) (b, ChunkSet.new)
  pure r.1

/-- `BlobCompactor::new`. -/
def new (ori : BlobManager) (nodes : List Node) : Outcome BlobCompactor := do
  let b : BlobCompactor := ⟨List.replicate ori.blobs.length .invalid, ori, ⟨[], .unit⟩,
    fun _ => [], fun _ => [], nodes⟩
  (← b.loadChunkDictBlobs).loadAndDedupChunks

/-- `apply_blob_move`: every chunk recorded in blob `src` moves to blob `dst`. -/
def applyBlobMove (b : BlobCompactor) (src dst : Nat) : Outcome BlobCompactor :=
  (b.b2nodes src).foldlM (fun b p => do
    let c ← chunkOf b.nodes p
    ensure (c.info.blobIndex == src) "unexpected blob_index of chunk"
    let c ← c.setBlobIndex dst
    pure { b with nodes := setChunk b.nodes p c }) b

/-- `BlobCompactor::apply_chunk_change`: every chunk with `c.1`'s key takes `c.2`'s
place. -/
def applyChunkChange (b : BlobCompactor) (c : ChunkWrapper × ChunkWrapper) :
    Outcome BlobCompactor := do
  let key ← ChunkKey.ofChunk c.1
  (b.c2nodes key).foldlM (fun b p => do
    let chunk ← chunkOf b.nodes p
    let chunk ← Compact.applyChunkChange c.2 chunk
    pure { b with nodes := setChunk b.nodes p chunk }) b

/-- `delete_unused_blobs`. -/
def deleteUnusedBlobs (b : BlobCompactor) : BlobCompactor :=
  { b with states := b.states.map fun s => if s.isInvalid then .delete else s }

/-- `prepare_to_rebuild`. -/
def prepareToRebuild (b : BlobCompactor) (idx : Nat) : Outcome BlobCompactor := do
  let s ← Outcome.get b.states idx
  if !s.isRebuild then return b
  match s with
  | .original cs => pure { b with states := b.states.set idx (.rebuild cs) }
  | _ => bail "invalid state"

/-- The compressed size `try_rebuild_blobs` divides by: the table's, or the backend's when
the table has 0. -/
def blobSize (env : Env) (blobInfo : BlobContext) : Outcome Nat :=
  if blobInfo.compressedBlobSize = 0 then
    match env.getReader blobInfo.blobId with
    | .error e => bail s!"compactor: failed to get blob reader, {e}"
    | .ok r => match r.blobSize with
      | .error e => bail s!"compactor: failed to get blob size, {e}"
      | .ok sz => pure sz
  else pure blobInfo.compressedBlobSize

/-- The used ratio of a blob in `try_rebuild_blobs`, truncated to `u8`; 100 unless the blob
is `Original`. -/
def usedRatio (env : Env) (blobInfo : BlobContext) : State → Outcome Nat
  | .original cs => do
    let size ← blobSize env blobInfo
    if size = 0 then Outcome.panic "attempt to divide by zero"
    else pure (cs.totalSize * 100 / size % 256)
  | _ => pure 100

/-- One blob of `try_rebuild_blobs`. -/
def rebuildStep (env : Env) (ratio : Nat) (b : BlobCompactor) (idx : Nat) :
    Outcome BlobCompactor := do
  let blobInfo ← Outcome.get b.oriBlobMgr.blobs idx
  let used ← usedRatio env blobInfo (← Outcome.get b.states idx)
  if used < ratio then b.prepareToRebuild idx else pure b

/-- `try_rebuild_blobs`. -/
def tryRebuildBlobs (env : Env) (ratio : Nat) (b : BlobCompactor) : Outcome BlobCompactor :=
  (List.range b.oriBlobMgr.blobs.length).foldlM (rebuildStep env ratio) b

/-- `merge_blob`: `src` becomes `Delete` before its chunks join `dst`. -/
def mergeBlob (b : BlobCompactor) (src dst : Nat) : Outcome BlobCompactor := do
  let old ← Outcome.get b.states src
  let states ← Outcome.set b.states src .delete
  let s ← (← Outcome.get states dst).mergeBlob old
  pure { b with states := ← Outcome.set states dst s }

/-- The blobs `try_merge_blobs` considers: below `low`, with their sizes. -/
def smallBlobs (b : BlobCompactor) (low : Nat) : Outcome (List (Nat × Nat)) :=
  (List.range b.states.length).foldlM (fun acc idx => do
    let blobInfo ← Outcome.get b.oriBlobMgr.blobs idx
    let s ← Outcome.get b.states idx
    match s with
    | .original cs =>
      let size := if blobInfo.compressedBlobSize = 0 then cs.totalSize
        else blobInfo.compressedBlobSize
      pure (if size < low then acc ++ [(idx, size)] else acc)
    | .rebuild cs => pure (if cs.totalSize < low then acc ++ [(idx, cs.totalSize)] else acc)
    | _ => pure acc) []

/-- One candidate of `try_merge_blobs`: it joins the blob being filled, or starts the next
one when the sum would pass `max`. -/
def mergeStep (max : Nat) (bm : BlobCompactor × Nat) (e : Nat × Nat) :
    Outcome (BlobCompactor × Nat) := do
  let b := bm.1
  let mergeTo := bm.2
  let before ← (← Outcome.get b.states mergeTo).chunkTotalSize
  let append ← (← Outcome.get b.states e.1).chunkTotalSize
  if before + append ≤ max then
    pure ((← (← b.prepareToRebuild mergeTo).mergeBlob e.1 mergeTo), mergeTo)
  else pure (b, e.1)

/-- `try_merge_blobs`: greedy merging of the small blobs, smallest first. -/
def tryMergeBlobs (low max : Nat) (b : BlobCompactor) : Outcome BlobCompactor := do
  let need := (← b.smallBlobs low).mergeSort fun x y => x.2 ≤ y.2
  match need with
  | [] | [_] => pure b
  | first :: rest => do
    let r ← rest.foldlM (mergeStep max) (b, first.1)
    pure r.1

/-- `do_compact`. -/
def doCompact (env : Env) (cfg : Config) (b : BlobCompactor) : Outcome BlobCompactor := do
  let b ← tryRebuildBlobs env cfg.minUsedRatio b.deleteUnusedBlobs
  tryMergeBlobs cfg.compactBlobSize cfg.maxCompactSize b

end BlobCompactor

/-- `try_round_up_4k`. -/
def roundUp4k (n : Nat) : Nat := (n + 4095) / 4096 * 4096

/-- One chunk of `ChunkSet::dump`: its bytes are appended to the new blob. -/
def dumpChunk (env : Env) (oriBlobIds : List String) (newBlobIdx : Nat) (aligned : Bool)
    (acc : BlobContext × List (ChunkWrapper × ChunkWrapper)) (chunk : ChunkWrapper) :
    Outcome (BlobContext × List (ChunkWrapper × ChunkWrapper)) := do
  let ctx := acc.1
  let id ← Outcome.get oriBlobIds chunk.info.blobIndex
  let reader ← match env.getReader id with
    | .ok r => pure r
    | .error _ => Outcome.panic "get blob err"
  let buf ← match reader.read chunk.info.compressedOffset chunk.info.compressedSize with
    | .ok v => pure v
    | .error _ => Outcome.panic "read blob data err"
  let newChunk ← chunk.setIndex ctx.chunkCount
  let newChunk ← newChunk.setBlobIndex newBlobIdx
  let newChunk ← newChunk.setCompressedOffset ctx.currentCompressedOffset
  let newChunk ← newChunk.setUncompressedOffset ctx.currentUncompressedOffset
  let alignedSize := if aligned then roundUp4k chunk.info.uncompressedSize
    else chunk.info.uncompressedSize
  pure ({ ctx with
      data := ctx.data ++ buf
      chunkCount := ctx.chunkCount + 1
      currentCompressedOffset := ctx.currentCompressedOffset + chunk.info.compressedSize
      compressedBlobSize := ctx.compressedBlobSize + chunk.info.compressedSize
      currentUncompressedOffset := ctx.currentUncompressedOffset + alignedSize
      uncompressedBlobSize := ctx.uncompressedBlobSize + alignedSize },
    acc.2 ++ [(chunk, newChunk)])

/-- `ChunkSet::dump`: the chunks, in blob and offset order, copied into a new blob. -/
def ChunkSet.dump (env : Env) (oriBlobIds : List String) (newBlobIdx : Nat) (aligned : Bool)
    (cs : ChunkSet) : Outcome (BlobContext × List (ChunkWrapper × ChunkWrapper)) := do
  let chunks := (cs.chunks.map (·.2)).mergeSort fun a b =>
    a.info.blobIndex < b.info.blobIndex ∨
      (a.info.blobIndex = b.info.blobIndex ∧ a.info.compressedOffset ≤ b.info.compressedOffset)
  let r ← chunks.foldlM (dumpChunk env oriBlobIds newBlobIdx aligned) (BlobContext.empty, [])
  pure ({ r.1 with blobId := env.digestHex r.1.data }, r.2)

namespace BlobCompactor

/-- `if blob_idx != idx { apply_blob_move(idx, blob_idx) }`. -/
def renumber (b : BlobCompactor) (idx blobIdx : Nat) : Outcome BlobCompactor :=
  if blobIdx ≠ idx then b.applyBlobMove idx blobIdx else pure b

/-- A kept blob of `dump_new_blobs`: it moves to the new table, its chunks renumbered when
its index changes. -/
def keepBlob (b : BlobCompactor) (idx : Nat) : Outcome BlobCompactor := do
  let taken ← b.oriBlobMgr.takeBlob idx
  let blobIdx ← b.newBlobMgr.allocIndex
  let b ← renumber { b with oriBlobMgr := taken.2 } idx blobIdx
  pure { b with newBlobMgr := b.newBlobMgr.addBlob taken.1 }

/-- A rebuilt blob of `dump_new_blobs`: its chunks are copied into a new blob and every
chunk of the tree with their keys follows them. -/
def rebuildBlob (env : Env) (aligned : Bool) (oriBlobIds : List String) (b : BlobCompactor)
    (cs : ChunkSet) : Outcome BlobCompactor := do
  let blobIdx ← b.newBlobMgr.allocIndex
  let dumped ← cs.dump env oriBlobIds blobIdx aligned
  let b ← dumped.2.foldlM applyChunkChange b
  pure { b with newBlobMgr := b.newBlobMgr.addBlob dumped.1 }

/-- One blob of `dump_new_blobs`. -/
def dumpBlob (env : Env) (aligned : Bool) (oriBlobIds : List String) (b : BlobCompactor)
    (idx : Nat) : Outcome BlobCompactor := do
  let s ← Outcome.get b.states idx
  match s with
  | .original _ | .chunkDict => b.keepBlob idx
  | .delete => pure b
  | .rebuild cs => b.rebuildBlob env aligned oriBlobIds cs
  | .invalid =>
    let id := (oriBlobIds[idx]?).getD ""
    bail s!"compactor: invalid state for blob {id}"

/-- `dump_new_blobs`. -/
def dumpNewBlobs (env : Env) (aligned : Bool) (b : BlobCompactor) : Outcome BlobCompactor := do
  let oriBlobIds := b.oriBlobMgr.blobs.map (·.blobId)
  ensure (b.states.length == b.oriBlobMgr.blobs.length)
    "Condition failed: `self.states.len() == self.ori_blob_mgr.len()`"
  (List.range b.states.length).foldlM (dumpBlob env aligned oriBlobIds) b

end BlobCompactor

/-- What `compact` produces: the rewritten tree and the new blob table, with the final
per-blob states of the plan. -/
structure Output where
  root : Node
  nodes : List Node
  blobs : List BlobContext
  states : List State
  deriving DecidableEq

/-- `BlobCompactor::compact`. `aligned` is `build_ctx.aligned_chunk`. -/
def compact (env : Env) (aligned : Bool) (rs : Bootstrap) (dict : Option ChunkDict)
    (cfg : Config) : Outcome (Option Output) := do
  let ori : BlobManager := ⟨rs.blobTable.map BlobContext.ofInfo, .unit⟩
  let ori ← ori.withChunkDict dict
  if ori.blobs.length < cfg.layersToCompact then return none
  let b ← BlobCompactor.new ori rs.tree.2
  let b ← b.doCompact env cfg
  let b ← b.dumpNewBlobs env aligned
  if b.newBlobMgr.blobs.isEmpty then return none
  -- `Bootstrap::build` asserts a directory root before writing the bootstrap.
  if !rs.tree.1.isDir then Outcome.panic "assertion failed: root_node.is_dir()"
  pure (some ⟨rs.tree.1, b.nodes, b.newBlobMgr.blobs, b.states⟩)

/-! ## Compaction and the chunks of the tree -/

/-- No node holds a chunk. -/
def ChunkFree (nodes : List Node) : Prop := ∀ n ∈ nodes, n.chunks = []

theorem setChunk_of_chunkFree {nodes : List Node} (h : ChunkFree nodes) (p : Pos)
    (c : ChunkWrapper) : setChunk nodes p c = nodes := by
  apply List.ext_getElem (by simp [setChunk])
  intro i h1 h2
  simp only [setChunk, List.getElem_modify]
  split
  · rename_i e
    subst e
    have hc := h _ (List.getElem_mem h2)
    cases hn : nodes[p.1]
    simp_all
  · rfl

theorem mem_positions {nodes : List Node} {p : Pos} (hp : p ∈ positions nodes) :
    ∃ c, chunkAt nodes p = some c := by
  simp only [positions, List.mem_flatMap, List.mem_range, List.mem_map] at hp
  obtain ⟨n, hn, i, hi, rfl⟩ := hp
  simp only [List.getElem?_eq_getElem hn, Option.map_some, Option.getD_some] at hi
  exact ⟨nodes[n].chunks[i], by simp [chunkAt, hn, hi]⟩

theorem positions_eq_nil {nodes : List Node} (h : positions nodes = []) : ChunkFree nodes := by
  intro n hn
  obtain ⟨k, hk, rfl⟩ := List.getElem_of_mem hn
  by_contra hne
  have hmem : (k, 0) ∈ positions nodes := by
    simp only [positions, List.mem_flatMap, List.mem_range, List.mem_map]
    refine ⟨k, hk, 0, ?_, rfl⟩
    simp [List.getElem?_eq_getElem hk, List.length_pos_iff.mpr hne]
  rw [h] at hmem
  cases hmem

/-- Every chunk of the tree is a `Ref`, as `Tree::from_bootstrap` leaves it. -/
def RefOnly (nodes : List Node) : Prop := ∀ n ∈ nodes, ∀ c ∈ n.chunks, ∃ i, c = .ref i

theorem tree_refOnly (rs : Bootstrap) : RefOnly rs.tree.2 := by
  intro n hn c hc
  obtain ⟨m, -, rfl⟩ := List.mem_map.mp hn
  by_cases hreg : m.isReg
  · simp only [hreg, if_true, List.mem_map] at hc
    obtain ⟨c₀, -, rfl⟩ := hc
    exact ⟨_, rfl⟩
  · simp [hreg] at hc

@[simp] theorem chunkOf_eq_ok {nodes : List Node} {p : Pos} {c : ChunkWrapper} :
    chunkOf nodes p = .ok c ↔ chunkAt nodes p = some c := by
  unfold chunkOf
  split <;> simp_all [Outcome.panic]

theorem chunkAt_mem {nodes : List Node} {p : Pos} {c : ChunkWrapper}
    (h : chunkAt nodes p = some c) : ∃ n ∈ nodes, c ∈ n.chunks := by
  simp only [chunkAt, Option.bind_eq_some_iff] at h
  obtain ⟨n, hn, hc⟩ := h
  exact ⟨n, List.mem_of_getElem? hn, List.mem_of_getElem? hc⟩

theorem ofChunk_ref_ne_ok {i : ChunkInfo} {k : ChunkKey} : ChunkKey.ofChunk (.ref i) ≠ .ok k := by
  simp [ChunkKey.ofChunk, Outcome.panic]

/-! ### Planning leaves the tree alone -/

namespace BlobCompactor

variable {b b' : BlobCompactor}

theorem prepareToRebuild_nodes {idx : Nat} (h : b.prepareToRebuild idx = .ok b') :
    b'.nodes = b.nodes := by
  simp only [prepareToRebuild, bind_eq_ok] at h
  obtain ⟨s, -, h⟩ := h
  split at h
  · cases h; rfl
  · split at h
    · cases h; rfl
    · cases h

theorem mergeBlob_nodes {src dst : Nat} (h : b.mergeBlob src dst = .ok b') :
    b'.nodes = b.nodes := by
  simp only [mergeBlob, bind_eq_ok] at h
  obtain ⟨_, -, _, -, _, -, _, -, _, -, h⟩ := h
  cases h; rfl

theorem rebuildStep_nodes {env : Env} {ratio idx : Nat} (h : rebuildStep env ratio b idx = .ok b') :
    b'.nodes = b.nodes := by
  simp only [rebuildStep, bind_eq_ok] at h
  obtain ⟨_, -, _, -, _, -, h⟩ := h
  split at h
  · exact prepareToRebuild_nodes h
  · cases h; rfl

theorem tryRebuildBlobs_nodes {env : Env} {ratio : Nat} (h : tryRebuildBlobs env ratio b = .ok b') :
    b'.nodes = b.nodes :=
  foldlM_inv (P := fun c : BlobCompactor => c.nodes = b.nodes)
    (fun _ _ _ _ hc hstep => (rebuildStep_nodes hstep).trans hc) rfl h

theorem mergeStep_nodes {max : Nat} {bm bm' : BlobCompactor × Nat} {e : Nat × Nat}
    (h : mergeStep max bm e = .ok bm') : bm'.1.nodes = bm.1.nodes := by
  simp only [mergeStep, bind_eq_ok] at h
  obtain ⟨_, -, _, -, _, -, _, -, h⟩ := h
  split at h
  · simp only [bind_eq_ok] at h
    obtain ⟨c1, h1, c2, h2, h3⟩ := h
    cases h3
    exact (mergeBlob_nodes h2).trans (prepareToRebuild_nodes h1)
  · cases h; rfl

theorem tryMergeBlobs_nodes {low max : Nat} (h : tryMergeBlobs low max b = .ok b') :
    b'.nodes = b.nodes := by
  simp only [tryMergeBlobs, bind_eq_ok] at h
  obtain ⟨_, -, h⟩ := h
  split at h
  · cases h; rfl
  · cases h; rfl
  · simp only [bind_eq_ok] at h
    obtain ⟨⟨c, m⟩, hfold, h⟩ := h
    cases h
    exact foldlM_inv (P := fun cm : BlobCompactor × Nat => cm.1.nodes = b.nodes)
      (fun _ _ _ _ hc hstep => (mergeStep_nodes hstep).trans hc) rfl hfold

theorem doCompact_nodes {env : Env} {cfg : Config} (h : b.doCompact env cfg = .ok b') :
    b'.nodes = b.nodes := by
  simp only [doCompact, bind_eq_ok] at h
  obtain ⟨c, h1, h2⟩ := h
  exact (tryMergeBlobs_nodes h2).trans (tryRebuildBlobs_nodes (b := b.deleteUnusedBlobs) h1)

/-! ### Writing the new table rewrites only chunks that exist -/

theorem applyBlobMove_nodes (hf : ChunkFree b.nodes) {src dst : Nat}
    (h : b.applyBlobMove src dst = .ok b') : b'.nodes = b.nodes := by
  refine foldlM_inv (P := fun c : BlobCompactor => c.nodes = b.nodes) ?_ rfl h
  intro c p c' _ hc hstep
  simp only [bind_eq_ok] at hstep
  obtain ⟨_, -, _, -, _, -, hstep⟩ := hstep
  cases hstep
  rw [hc]
  exact setChunk_of_chunkFree hf _ _

theorem applyChunkChange_nodes (hf : ChunkFree b.nodes) {c : ChunkWrapper × ChunkWrapper}
    (h : b.applyChunkChange c = .ok b') : b'.nodes = b.nodes := by
  simp only [applyChunkChange, bind_eq_ok] at h
  obtain ⟨_, -, h⟩ := h
  refine foldlM_inv (P := fun c : BlobCompactor => c.nodes = b.nodes) ?_ rfl h
  intro c p c' _ hc hstep
  simp only [bind_eq_ok] at hstep
  obtain ⟨_, -, _, -, hstep⟩ := hstep
  cases hstep
  rw [hc]
  exact setChunk_of_chunkFree hf _ _

theorem keepBlob_nodes (hf : ChunkFree b.nodes) {idx : Nat} (h : b.keepBlob idx = .ok b') :
    b'.nodes = b.nodes := by
  simp only [keepBlob, bind_eq_ok] at h
  obtain ⟨_, -, _, -, c, hmove, h⟩ := h
  cases h
  show c.nodes = b.nodes
  simp only [renumber] at hmove
  split at hmove
  · have hmv := applyBlobMove_nodes ?_ hmove
    · exact hmv
    · exact hf
  · cases hmove; rfl

theorem rebuildBlob_nodes (hf : ChunkFree b.nodes) {env : Env} {aligned : Bool}
    {ids : List String} {cs : ChunkSet} (h : b.rebuildBlob env aligned ids cs = .ok b') :
    b'.nodes = b.nodes := by
  simp only [rebuildBlob, bind_eq_ok] at h
  obtain ⟨_, -, _, -, c, hfold, h⟩ := h
  cases h
  show c.nodes = b.nodes
  refine foldlM_inv (P := fun c : BlobCompactor => c.nodes = b.nodes) ?_ rfl hfold
  intro c ch c' _ hc hstep
  rw [← hc] at hf ⊢
  exact applyChunkChange_nodes hf hstep

theorem dumpBlob_nodes (hf : ChunkFree b.nodes) {env : Env} {aligned : Bool}
    {ids : List String} {idx : Nat} (h : dumpBlob env aligned ids b idx = .ok b') :
    b'.nodes = b.nodes := by
  simp only [dumpBlob, bind_eq_ok] at h
  obtain ⟨s, -, h⟩ := h
  split at h
  · exact keepBlob_nodes hf h
  · exact keepBlob_nodes hf h
  · cases h; rfl
  · exact rebuildBlob_nodes hf h
  · cases h

theorem dumpNewBlobs_nodes (hf : ChunkFree b.nodes) {env : Env} {aligned : Bool}
    (h : b.dumpNewBlobs env aligned = .ok b') : b'.nodes = b.nodes := by
  simp only [dumpNewBlobs, bind_eq_ok] at h
  obtain ⟨_, -, h⟩ := h
  refine foldlM_inv (P := fun c : BlobCompactor => c.nodes = b.nodes) ?_ rfl h
  intro c idx c' _ hc hstep
  rw [← hc] at hf ⊢
  exact dumpBlob_nodes hf hstep

/-! ### Loading stops at the first chunk -/

theorem loadChunkDictBlobs_nodes (h : b.loadChunkDictBlobs = .ok b') : b'.nodes = b.nodes := by
  refine foldlM_inv (P := fun c : BlobCompactor => c.nodes = b.nodes) ?_ rfl h
  intro c i c' _ hc hstep
  split at hstep
  · simp only [bind_eq_ok] at hstep
    obtain ⟨_, -, hstep⟩ := hstep
    cases hstep
    exact hc
  · cases hstep
    exact hc

theorem dedupChunk_ne_ok (hr : RefOnly b.nodes) {all : ChunkSet} {p : Pos}
    {r : BlobCompactor × ChunkSet} : dedupChunk b all p ≠ .ok r := by
  intro h
  simp only [dedupChunk, bind_eq_ok, chunkOf_eq_ok] at h
  obtain ⟨c, hc, k, hk, -⟩ := h
  obtain ⟨n, hn, hcn⟩ := chunkAt_mem hc
  obtain ⟨i, rfl⟩ := hr n hn c hcn
  exact ofChunk_ref_ne_ok hk

theorem loadAndDedupChunks_chunkFree (hr : RefOnly b.nodes) (h : b.loadAndDedupChunks = .ok b') :
    ChunkFree b.nodes ∧ b'.nodes = b.nodes := by
  simp only [loadAndDedupChunks, bind_eq_ok] at h
  obtain ⟨r, hfold, hr'⟩ := h
  cases hps : positions b.nodes with
  | nil =>
    rw [hps] at hfold
    cases hfold
    cases hr'
    exact ⟨positions_eq_nil hps, rfl⟩
  | cons p ps =>
    -- the walk's first chunk is met by the compactor it started with
    rw [hps, List.foldlM_cons, bind_eq_ok] at hfold
    obtain ⟨_, hstep, -⟩ := hfold
    exact absurd hstep (dedupChunk_ne_ok hr)

theorem new_chunkFree {ori : BlobManager} {nodes : List Node} (hr : RefOnly nodes)
    (h : new ori nodes = .ok b) : ChunkFree nodes ∧ b.nodes = nodes := by
  simp only [new, bind_eq_ok] at h
  obtain ⟨c, hload, hdedup⟩ := h
  have hc : c.nodes = nodes := loadChunkDictBlobs_nodes hload
  obtain ⟨hfree, hb⟩ := loadAndDedupChunks_chunkFree (hc ▸ hr) hdedup
  exact ⟨hc ▸ hfree, hb.trans hc⟩

end BlobCompactor

/-! ### What `compact` returns -/

/-- `compact` returns an output only for a bootstrap whose tree has no chunk, and the output's
tree is the loaded one, under a directory root. -/
theorem compact_ok_chunkless {env : Env} {aligned : Bool} {rs : Bootstrap}
    {dict : Option ChunkDict} {cfg : Config} {out : Output}
    (h : compact env aligned rs dict cfg = .ok (some out)) :
    ChunkFree rs.tree.2 ∧ out.nodes = rs.tree.2 ∧ out.root = rs.tree.1 ∧ rs.tree.1.isDir := by
  simp only [compact, bind_eq_ok] at h
  obtain ⟨ori, -, h⟩ := h
  by_cases hfew : ori.blobs.length < cfg.layersToCompact
  · simp [hfew, pure, Except.pure] at h
  simp only [hfew, if_false, bind_eq_ok] at h
  obtain ⟨b1, hnew, b2, hdo, b3, hdump, h⟩ := h
  obtain ⟨hfree, h1⟩ := BlobCompactor.new_chunkFree (tree_refOnly rs) hnew
  have h2 := BlobCompactor.doCompact_nodes hdo
  have h3 := BlobCompactor.dumpNewBlobs_nodes (h2 ▸ h1 ▸ hfree) hdump
  by_cases hempty : b3.newBlobMgr.blobs.isEmpty
  · simp [hempty, pure, Except.pure] at h
  by_cases hdir : rs.tree.1.isDir
  · simp only [hempty, hdir, Bool.not_true, if_false, Bool.false_eq_true] at h
    cases h
    exact ⟨hfree, h3.trans (h2.trans h1), rfl, hdir⟩
  · simp [hempty, hdir, Outcome.panic] at h

/-! ### A bootstrap with file data -/

/-- The message of `ChunkKey::from` on a `Ref`. -/
def refPanic : String := "not implemented: unsupport ChunkWrapper::Ref(c)"

namespace BlobCompactor

variable {b : BlobCompactor}

theorem dedupChunk_of_ref {all : ChunkSet} {p : Pos} {i : ChunkInfo}
    (hc : chunkAt b.nodes p = some (.ref i)) : dedupChunk b all p = Outcome.panic refPanic := by
  simp only [dedupChunk, chunkOf, hc, ok_bind, ChunkKey.ofChunk, Outcome.panic, error_bind,
    refPanic]

theorem loadAndDedupChunks_of_ref (hr : RefOnly b.nodes) (hne : ¬ ChunkFree b.nodes) :
    b.loadAndDedupChunks = Outcome.panic refPanic := by
  obtain ⟨p, ps, hps⟩ : ∃ p ps, positions b.nodes = p :: ps := by
    cases h : positions b.nodes with
    | nil => exact absurd (positions_eq_nil h) hne
    | cons p ps => exact ⟨p, ps, rfl⟩
  obtain ⟨c, hc⟩ := mem_positions (hps ▸ List.mem_cons_self : p ∈ positions b.nodes)
  obtain ⟨n, hn, hcn⟩ := chunkAt_mem hc
  obtain ⟨i, rfl⟩ := hr n hn c hcn
  simp only [loadAndDedupChunks, hps, List.foldlM_cons, dedupChunk_of_ref hc, Outcome.panic,
    error_bind]

theorem new_of_ref {ori : BlobManager} {nodes : List Node} (hd : ori.dict = .unit)
    (hr : RefOnly nodes) (hne : ¬ ChunkFree nodes) : new ori nodes = Outcome.panic refPanic := by
  simp only [new, loadChunkDictBlobs, hd, ChunkDict.getBlobs, List.length_nil, List.range_zero,
    List.foldlM_nil, pure_bind]
  exact loadAndDedupChunks_of_ref hr hne

end BlobCompactor

/-- **Compaction of a bootstrap with file data panics.** `Tree::from_bootstrap` wraps every
chunk of a regular file as a `Ref`, and `ChunkKey::from` is `unimplemented!` on a `Ref`. So for
a bootstrap with a chunk in some regular file, `compact` returns `Ok(Some)` for no dictionary
and no config, and without a dictionary it panics as soon as the table has `layers_to_compact`
blobs. -/
theorem compact_panics_on_file_chunk {rs : Bootstrap}
    (hc : ∃ n ∈ rs.nodes, n.isReg = true ∧ n.chunks ≠ []) :
    (∀ env aligned dict cfg out, compact env aligned rs dict cfg ≠ .ok (some out)) ∧
      ∀ env aligned cfg, cfg.layersToCompact ≤ rs.blobTable.length →
        compact env aligned rs none cfg = Outcome.panic refPanic := by
  obtain ⟨n, hn, hreg, hne⟩ := hc
  -- the loaded tree keeps the file's chunks, as `Ref`s
  have hfile : ¬ ChunkFree rs.tree.2 := by
    intro hf
    have hwrap := hf _ (List.mem_map_of_mem hn)
    simp only [hreg, if_true, List.map_eq_nil_iff] at hwrap
    exact hne hwrap
  refine ⟨fun env aligned dict cfg out h => hfile (compact_ok_chunkless h).1, ?_⟩
  intro env aligned cfg hlayers
  have hfew : ¬ (rs.blobTable.map BlobContext.ofInfo).length < cfg.layersToCompact := by
    rw [List.length_map]
    omega
  have hnew : BlobCompactor.new ⟨rs.blobTable.map BlobContext.ofInfo, .unit⟩ rs.tree.2 =
      Outcome.panic refPanic :=
    BlobCompactor.new_of_ref rfl (tree_refOnly rs) hfile
  simp only [compact, BlobManager.withChunkDict, pure_bind, hfew, if_false, hnew, Outcome.panic,
    error_bind]

/-- A bootstrap whose root holds one regular file with one chunk of its one blob. -/
def oneChunkBootstrap : Bootstrap :=
  ⟨⟨.dir, []⟩, [⟨.reg, [.v6 ⟨7, 0, 0, 0, 10, 0, 10⟩]⟩], [⟨"a", 10, 0⟩]⟩

theorem compact_panics_on_file_chunk_one_chunk :
    (∃ n ∈ oneChunkBootstrap.nodes, n.isReg = true ∧ n.chunks ≠ []) ∧
      compact ⟨fun _ => .error "no backend", fun _ => ""⟩ false oneChunkBootstrap none
        ⟨0, 0, 0, 0⟩ = Outcome.panic refPanic :=
  have hc : ∃ n ∈ oneChunkBootstrap.nodes, n.isReg = true ∧ n.chunks ≠ [] :=
    ⟨_, List.mem_singleton_self _, rfl, List.cons_ne_nil _ _⟩
  ⟨hc, (compact_panics_on_file_chunk hc).2 _ false ⟨0, 0, 0, 0⟩ (Nat.zero_le _)⟩

end Nydus.Builder.Compact
