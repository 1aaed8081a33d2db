import Mathlib
import Nydus.Lib.Outcome
import Nydus.Builder.TarTree
import Nydus.Rafs.XattrV6
import Nydus.Storage.ChunkExtend

/-!
# Building a tree from an eStargz TOC (`StargzBuilder::build_tree`, `builder/src/stargz.rs`)

An eStargz layer carries a table of contents (TOC): one entry per tar entry, and, for a large
regular file, one `chunk` entry for each chunk after the first. `build_tree` walks the entries
in order. For a regular file or a chunk, `get_content_size` says how many bytes of the file the
entry holds: a file that is not chunked holds its whole size, the first chunk and the middle
ones `ctx.chunk_size`, and the last chunk (a `chunk` entry with `chunkSize` 0) what is left of
the size of the last regular file seen. The chunk is appended to the file's list in
`file_chunk_map`. Every entry but a chunk becomes a node of the tree (`parse_entry`).
At the end `sort_and_validate_chunks` sorts each file's chunks by their offset in the file and
checks them.

The check compares each chunk's end with the next chunk's offset for `idx in 0..len - 2`, which
stops one pair short, and it never looks at the first chunk's offset. So `build_tree` accepts a
file of two chunks with a hole between them (`buildTree_file_with_hole`).

`hex::decode`, of the `hex` crate, is a parameter `decode`; the results assume only its law
`HexDecodes`, that an even number of hex digits decodes to half as many bytes.

Model notes. The TOC is given parsed: reading the JSON, and the join of each name to `/` by
`normalize`, are left out, and an entry's path is the list of its components below the root.
A TOC type that is none of the eight is refused by `normalize`, so `TocType` has only those.
Xattr values are given decoded, `none` where the text is not base64. Inode numbers, and the
inode fields no modelled function reads, are left out, as in `Nydus.Builder.TarTree`.
`sort_unstable_by_key` orders chunks at one offset in an unspecified way; the model sorts them
stably. Arithmetic that overflows panics, as in a debug build.
-/

namespace Nydus.Builder.Stargz

open Nydus.Lib Nydus.Lib.SortedKeys Nydus.Builder.TreeMerge Nydus.Rafs.V6
open Nydus.Lib.Outcome (bail)
open Nydus.Storage.Meta (hex rafsMaxChunksPerBlob)

/-! ## TOC entries -/

/-- The `type` of a TOC entry. -/
inductive TocType where
  | dir
  | reg
  | symlink
  | hardlink
  | chunk
  | char
  | block
  | fifo
  deriving DecidableEq, Repr

/-- The fields of a `TocEntry` that `build_tree` reads. -/
structure TocEntry where
  name : List Name
  tocType : TocType
  size : Nat
  linkName : List Name
  /-- The extended attributes, each value decoded from base64 (`none`: it is not base64). -/
  xattrs : List (XattrName × Option XattrValue)
  digest : String
  offset : Nat
  chunkOffset : Nat
  chunkSize : Nat
  chunkDigest : String
  deriving Repr

/-- The fields of a `TocIndex`. -/
structure TocIndex where
  version : Nat
  entries : List TocEntry
  deriving Repr

/-- The fields of a `BuildContext` that `build_tree` reads. -/
structure BuildContext where
  chunkSize : Nat
  alignedChunk : Bool
  deriving Repr

/-- A path as `display()` prints it. -/
def pathText (p : List Name) : String :=
  "/" ++ "/".intercalate (p.map fun n => String.ofList (n.map Char.ofNat))

namespace TocEntry

variable (e : TocEntry)

def isDir : Bool := e.tocType == .dir
def isReg : Bool := e.tocType == .reg
def isSymlink : Bool := e.tocType == .symlink
def isHardlink : Bool := e.tocType == .hardlink
def isChunk : Bool := e.tocType == .chunk

def isSpecial : Bool := e.tocType == .block || e.tocType == .char || e.tocType == .fifo

def isSupported : Bool := e.isDir || e.isReg || e.isSymlink || e.isHardlink || e.isChunk

/-- The checks of `normalize`. -/
def normalize : Outcome Unit := do
  if (e.isSymlink || e.isHardlink) && e.linkName.isEmpty then bail "stargz: empty link target"
  if (e.isReg || e.isChunk) && (e.digest.toList.isEmpty || e.chunkDigest.toList.isEmpty) then
    bail "stargz: missing digest or chunk digest"
  if e.isChunk && e.chunkOffset = 0 then bail "stargz: chunk offset is zero"

/-- `name`: the last component, `/` for the root; `file_name()` is none after `..`. -/
def entryName : Outcome Name :=
  match e.name.getLast? with
  | none => .ok rootName
  | some n =>
    if n = [46, 46] then
      let path := pathText e.name
      bail s!"stargz: invalid entry name {path}"
    else .ok n

end TocEntry

/-- `TocIndex::load` on the parsed index. -/
def TocIndex.load (toc : TocIndex) : Outcome Unit := do
  if toc.version ≠ 1 then
    let version := toc.version
    bail s!"stargz: unsupported index version {version}"
  toc.entries.forM TocEntry.normalize

/-- `TarBuilder::is_stargz_special_files`. -/
def isStargzSpecialFiles (path : List Name) : Bool :=
  path == [(ascii "stargz.index.json").map UInt8.toNat] ||
    path == [(ascii ".prefetch.landmark").map UInt8.toNat] ||
    path == [(ascii ".no.prefetch.landmark").map UInt8.toNat]

/-! ## Chunk digests -/

/-- A hex digit. -/
def isHexDigit (c : Char) : Bool :=
  ('0' ≤ c && c ≤ '9') || ('a' ≤ c && c ≤ 'f') || ('A' ≤ c && c ≤ 'F')

/-- What the results use of `hex::decode`, of the `hex` crate, which is the parameter `decode`
of `block_id` and of everything that calls it: a text of an even number of hex digits decodes to
half as many bytes. -/
def HexDecodes (decode : List Char → Option (List UInt8)) : Prop :=
  ∀ s : List Char, s.length % 2 = 0 → (∀ c ∈ s, isHexDigit c = true) →
    ∃ v, decode s = some v ∧ v.length = s.length / 2

/-- `TocEntry::block_id`: a digest `sha256:` and 64 hex digits, whose first 32 decoded bytes
`copy_from_slice` takes (`&v[..32]` panics on fewer). -/
def TocEntry.blockId (decode : List Char → Option (List UInt8)) (e : TocEntry) :
    Outcome (List UInt8) :=
  let digest := e.chunkDigest
  if e.chunkDigest.toList.length ≠ 71 ∨ !("sha256:".toList.isPrefixOf e.chunkDigest.toList) then
    bail s!"stargz: invalid chunk digest {digest}"
  else
    match decode (e.chunkDigest.toList.drop 7) with
    | some v =>
      if v.length < 32 then Outcome.panic "range end index 32 out of range for slice"
      else .ok (v.take 32)
    | none => bail s!"stargz: invalid chunk digest {digest}"

/-! ## Chunks and the map of files to chunks -/

/-- The fields of the `RafsV5ChunkInfo` that `build_tree` sets from the entry; the others are
constants there (`blob_index`, `index` and `compressed_size` 0, the flag `COMPRESSED`). -/
structure StargzChunk where
  blockId : List UInt8
  uncompressedSize : Nat
  compressedOffset : Nat
  uncompressedOffset : Nat
  fileOffset : Nat
  deriving DecidableEq, Repr

/-- Where a chunk ends in its file. -/
def StargzChunk.fileEnd (c : StargzChunk) : Nat := c.fileOffset + c.uncompressedSize

/-- The order `sort_unstable_by_key` sorts chunks by: their offset in the file. -/
def offsetLe (a b : StargzChunk) : Prop := a.fileOffset ≤ b.fileOffset

instance : DecidableRel offsetLe := fun a b => inferInstanceAs (Decidable (a.fileOffset ≤ b.fileOffset))

/-- `file_chunk_map`: each regular file's path, size and chunks, in the order of its keys. -/
abbrev FileChunkMap := List (List Name × Nat × List StargzChunk)

/-- `get_mut(path)` and a change of the value. -/
def FileChunkMap.modify (m : FileChunkMap) (path : List Name)
    (f : Nat × List StargzChunk → Nat × List StargzChunk) : FileChunkMap :=
  m.map fun kv => if kv.1 = path then (kv.1, f kv.2) else kv

/-- `get_content_size`, with the size of `last_reg_entry` for the entry it points at. Returns
the bytes of the file the entry holds, and the new `last_reg_entry`. -/
def getContentSize (ctx : BuildContext) (entry : TocEntry) (lastRegSize : Option Nat) :
    Outcome (Nat × Option Nat) :=
  let chunkOffset := hex entry.chunkOffset
  let chunkSize := hex ctx.chunkSize
  if entry.isReg then
    if entry.chunkOffset = 0 ∧ entry.chunkSize = 0 then .ok (entry.size, lastRegSize)
    else if ctx.chunkSize = 0 then
      Outcome.panic "attempt to calculate the remainder with a divisor of zero"
    else if entry.chunkOffset % ctx.chunkSize ≠ 0 then
      bail s!"stargz: chunk offset (0x{chunkOffset}) is not aligned to 0x{chunkSize}"
    else if entry.chunkSize ≠ ctx.chunkSize then
      bail s!"stargz: first chunk size is not 0x{chunkSize}"
    else .ok (entry.chunkSize, some entry.size)
  else if entry.isChunk then
    if ctx.chunkSize = 0 then
      Outcome.panic "attempt to calculate the remainder with a divisor of zero"
    else if entry.chunkOffset % ctx.chunkSize ≠ 0 then
      bail s!"stargz: chunk offset (0x{chunkOffset}) is not aligned to 0x{chunkSize}"
    else if entry.chunkSize = 0 then
      -- the last chunk holds what is left of the last regular file
      match lastRegSize with
      | some regSize =>
        if regSize < entry.chunkOffset then Outcome.panic "attempt to subtract with overflow"
        else
          let size := regSize - entry.chunkOffset
          let sizeText := hex size
          if size > ctx.chunkSize then
            bail s!"stargz: size of last chunk 0x{sizeText} is bigger than chunk size 0x {chunkSize}"
          else .ok (size, none)
      | none => bail "stargz: tailer chunk lacks of corresponding head chunk"
    else if entry.chunkSize ≠ ctx.chunkSize then
      let entryChunkSize := hex entry.chunkSize
      bail s!"stargz: chunk size 0x{entryChunkSize} is not 0x{chunkSize}"
    else .ok (entry.chunkSize, lastRegSize)
  else .ok (0, lastRegSize)

/-- `try_round_up_4k(size).unwrap()` on a `u64`. -/
def roundUp4k (size : Nat) : Outcome Nat :=
  if size + 4095 ≥ 2 ^ 64 then Outcome.panic "called Option::unwrap() on a None value"
  else .ok ((size + 4095) / 4096 * 4096)

/-- One check of the loop `for idx in 0..chunks.len() - 2`: chunk `idx` ends where chunk
`idx + 1` starts. -/
def holeCheck (chunks : List StargzChunk) (idx : Nat) : Outcome Unit := do
  let curr ← Outcome.get chunks idx
  if curr.fileEnd ≥ 2 ^ 64 then
    let offset := hex curr.fileOffset
    let size := hex curr.uncompressedSize
    bail s!"stargz: invalid chunk offset 0x{offset} or size 0x{size}"
  let next ← Outcome.get chunks (idx + 1)
  if curr.fileEnd ≠ next.fileOffset then bail "stargz: unexpected holes between data chunks"

/-- The order `sort_and_validate_chunks` puts the chunks in: sorted by offset when there are two
or more, as they are otherwise. -/
def sortChunks (chunks : List StargzChunk) : List StargzChunk :=
  if chunks.length > 1 then chunks.insertionSort offsetLe else chunks

/-- The last check of `sort_and_validate_chunks`: the last chunk ends at the file size, and a
file with no chunk is empty. -/
def checkLast (chunks : List StargzChunk) (size : Nat) : Outcome Unit :=
  match chunks.getLast? with
  | some last =>
    if last.fileEnd ≥ 2 ^ 64 then Outcome.panic "attempt to add with overflow"
    else if last.fileEnd ≠ size then bail "stargz: file size and sum of chunk size doesn't match"
    else .ok ()
  | none => if size ≠ 0 then bail "stargz: file size and sum of chunk size doesn't match" else .ok ()

/-- The checks of `sort_and_validate_chunks` on the sorted chunks. -/
def checkSorted (chunks : List StargzChunk) (size : Nat) : Outcome Unit := do
  if chunks.length > 1 then (List.range (chunks.length - 2)).forM (holeCheck chunks)
  checkLast chunks size

/-- `sort_and_validate_chunks`: the chunks sorted by their offset in the file. -/
def sortAndValidateChunks (chunks : List StargzChunk) (size : Nat) :
    Outcome (List StargzChunk) :=
  if chunks.length > rafsMaxChunksPerBlob then bail "stargz: file has two many chunks"
  else do
    let chunks := sortChunks chunks
    checkSorted chunks size
    pure chunks

/-! ## The tree -/

/-- What is kept of a node's inode: whether its mode is a regular file (`S_IFREG`), which a
hardlink entry's node also is. -/
structure InodeInfo where
  isReg : Bool
  deriving DecidableEq, Repr

/-- `major_dev` and `minor_dev` of `u32::MAX`, the `rdev` of every entry that is no device. -/
def noRdev : Nat × Nat := (0xfff, 0xfffff)

/-- The node `create_directory` makes. -/
def createDirectory (_ : List Name) : Node InodeInfo :=
  ⟨.dir, noRdev, false, .upperAddition, ⟨false⟩⟩

/-- The node `parse_entry` makes of an entry with its extended attributes; special files are
skipped before, so the node is a directory or not. -/
def entryNode (e : TocEntry) (xattrs : RafsXAttrs) : Node InodeInfo :=
  ⟨if e.isDir then .dir else .other, noRdev,
    xattrs.pairs.lookup (ascii "trusted.overlay.opaque") == some (ascii "y"), .upperAddition,
    ⟨e.isReg || e.isHardlink⟩⟩

/-- The loop of `parse_entry` over the entry's extended attributes. -/
def parseXattrs (path : List Name) (xattrs : List (XattrName × Option XattrValue)) :
    Outcome RafsXAttrs :=
  xattrs.foldlM (fun xs (name, value) =>
      match value with
      | some value => xs.add name value
      | none =>
        let pathText := pathText path
        let nameText := String.ofList (name.map fun b => Char.ofNat b.toNat)
        bail s!"stargz: failed to parse xattr \"{pathText}\" for entry \"{nameText}\"")
    RafsXAttrs.new

variable (bs : KeySearch Name) (decode : List Char → Option (List UInt8))

/-- `parse_entry`: a hardlink's target must be a regular file already in the tree; the node
goes in at the entry's path. -/
def parseEntry (tree : TreeMerge.Tree InodeInfo) (entry : TocEntry) : Outcome (TreeMerge.Tree InodeInfo) := do
  let _ ← entry.entryName
  if entry.isHardlink then
    let link := pathText entry.linkName
    let path := pathText entry.name
    match ← getNode bs tree entry.linkName with
    | none => bail s!"stargz: unknown target {link} for hardlink {path}"
    | some target =>
      if !target.node.data.isReg then
        bail s!"stargz: target {link} for hardlink {path} is not a regular file"
  let xattrs ← parseXattrs entry.name entry.xattrs
  insertIntoTree bs createDirectory (entryNode entry xattrs) tree entry.name

/-! ## `build_tree` -/

/-- The state of the entry loop of `build_tree`. -/
structure BuildState where
  tree : TreeMerge.Tree InodeInfo
  fileChunkMap : FileChunkMap
  /-- The size of `last_reg_entry`. -/
  lastRegSize : Option Nat
  uncompressedOffset : Nat

/-- The chunk of a regular file or chunk entry that holds `uncompressSize` bytes. -/
def addChunk (ctx : BuildContext) (st : BuildState) (entry : TocEntry) (uncompressSize : Nat) :
    Outcome BuildState := do
  let blockId ← match entry.blockId decode with
    | .ok d => .ok d
    | .error _ => bail "stargz: failed to get chunk digest"
  let chunk : StargzChunk :=
    ⟨blockId, uncompressSize % 2 ^ 32, entry.offset, st.uncompressedOffset, entry.chunkOffset⟩
  let fileChunkMap ← match st.fileChunkMap.lookup entry.name with
    | some _ =>
      .ok (st.fileChunkMap.modify entry.name fun (size, chunks) =>
        (if entry.isReg then entry.size else size, chunks ++ [chunk]))
    | none =>
      if entry.isReg then .ok (st.fileChunkMap ++ [(entry.name, entry.size, [chunk])])
      else bail "stargz: file chunk lacks of corresponding head regular file entry"
  let alignedChunkSize ← if ctx.alignedChunk then roundUp4k uncompressSize else pure uncompressSize
  if st.uncompressedOffset + alignedChunkSize ≥ 2 ^ 64 then
    Outcome.panic "attempt to add with overflow"
  pure { st with fileChunkMap, uncompressedOffset := st.uncompressedOffset + alignedChunkSize }

/-- One turn of the entry loop of `build_tree`. -/
def buildStep (ctx : BuildContext) (st : BuildState) (entry : TocEntry) : Outcome BuildState := do
  if !entry.isSupported || isStargzSpecialFiles entry.name then pure st
  else
    let (uncompressSize, lastRegSize) ← getContentSize ctx entry st.lastRegSize
    let st := { st with lastRegSize }
    let st ← if (entry.isReg || entry.isChunk) && uncompressSize ≠ 0 then
        addChunk decode ctx st entry uncompressSize
      else pure st
    if !entry.isChunk && !isStargzSpecialFiles entry.name then
      pure { st with tree := ← parseEntry bs st.tree entry }
    else pure st

/-- `StargzBuilder::build_tree`: the tree and the map of files to their checked chunks. -/
def buildTree (ctx : BuildContext) (toc : TocIndex) : Outcome (TreeMerge.Tree InodeInfo × FileChunkMap) := do
  toc.load
  if toc.version ≠ 1 then
    let version := toc.version
    bail s!"stargz: TOC version {version} is unsupported"
  else if toc.entries = [] then bail "stargz: TOC array is empty"
  else
    let root : TreeMerge.Tree InodeInfo := ⟨createDirectory [rootName], rootName, []⟩
    let st ← toc.entries.foldlM (buildStep bs decode ctx) ⟨root, [], none, 0⟩
    let fileChunkMap ← st.fileChunkMap.mapM fun (path, size, chunks) => do
      pure (path, size, ← sortAndValidateChunks chunks size)
    pure (st.tree, fileChunkMap)

/-! ## A file with a hole between its two chunks -/

/-- A chunk digest of 64 zeros. -/
def zeroDigest : String :=
  "sha256:0000000000000000000000000000000000000000000000000000000000000000"

/-- The TOC of one regular file `/a` of `2 * 4096 + 1` bytes in chunks of 4096: the `reg` entry
holds the first chunk, and the `chunk` entry the last one, which it puts at `2 * 4096`. -/
def holeToc : TocIndex := ⟨1, [
  ⟨[[97]], .reg, 8193, [], [], zeroDigest, 0, 0, 4096, zeroDigest⟩,
  ⟨[[97]], .chunk, 0, [], [], zeroDigest, 100, 8192, 0, zeroDigest⟩]⟩

def holeCtx : BuildContext := ⟨4096, false⟩

section Congr

variable {decode₁ decode₂ : List Char → Option (List UInt8)} {e : TocEntry}

theorem blockId_congr
    (h : decode₁ (e.chunkDigest.toList.drop 7) = decode₂ (e.chunkDigest.toList.drop 7)) :
    e.blockId decode₁ = e.blockId decode₂ := by
  unfold TocEntry.blockId
  rw [h]

theorem buildStep_congr
    (h : decode₁ (e.chunkDigest.toList.drop 7) = decode₂ (e.chunkDigest.toList.drop 7))
    (ctx : BuildContext) (st : BuildState) :
    buildStep bs decode₁ ctx st e = buildStep bs decode₂ ctx st e := by
  unfold buildStep addChunk
  rw [blockId_congr h]

theorem buildTree_congr {ctx : BuildContext} {toc : TocIndex}
    (h : ∀ e ∈ toc.entries,
      decode₁ (e.chunkDigest.toList.drop 7) = decode₂ (e.chunkDigest.toList.drop 7)) :
    buildTree bs decode₁ ctx toc = buildTree bs decode₂ ctx toc := by
  have hfold : ∀ st, toc.entries.foldlM (buildStep bs decode₁ ctx) st =
      toc.entries.foldlM (buildStep bs decode₂ ctx) st :=
    fun _ => foldlM_congr fun st e he => buildStep_congr bs (h e he) ctx st
  unfold buildTree
  simp only [hfold]

end Congr

/-! ## Chunks that tile a file -/

/-- The chunks tile `[lo, hi)` in chunks of `chunkSize`: each starts where the one before it
ends, every one but the last holds `chunkSize` bytes, and the last ends at `hi`. -/
def TilesFrom (chunkSize : Nat) : Nat → List StargzChunk → Nat → Prop
  | lo, [], hi => lo = hi
  | lo, [c], hi => c.fileOffset = lo ∧ c.fileEnd = hi
  | lo, c :: d :: rest, hi =>
    c.fileOffset = lo ∧ c.uncompressedSize = chunkSize ∧ TilesFrom chunkSize (lo + chunkSize) (d :: rest) hi

instance decTilesFrom (chunkSize : Nat) : ∀ lo chunks hi, Decidable (TilesFrom chunkSize lo chunks hi)
  | lo, [], hi => inferInstanceAs (Decidable (lo = hi))
  | _, [_], _ => inferInstanceAs (Decidable (_ ∧ _))
  | lo, _ :: d :: rest, hi =>
    have := decTilesFrom chunkSize (lo + chunkSize) (d :: rest) hi
    inferInstanceAs (Decidable (_ ∧ _ ∧ _))

/-- The chunks of a file of `size` bytes tile it from its start: chunk `i` covers
`[i * chunkSize, min ((i + 1) * chunkSize) size)`. -/
def Tiles (chunkSize size : Nat) (chunks : List StargzChunk) : Prop :=
  TilesFrom chunkSize 0 chunks size

instance (chunkSize size : Nat) (chunks : List StargzChunk) : Decidable (Tiles chunkSize size chunks) :=
  decTilesFrom chunkSize 0 chunks size

/-- For every `hex::decode` that keeps its law, `build_tree` accepts the TOC, and the chunks of
`/a` cover `[0, 4096)` and `[8192, 8193)`: the bytes `[4096, 8192)` of the file are in no
chunk. -/
theorem buildTree_file_with_hole {decode : List Char → Option (List UInt8)}
    (hd : HexDecodes decode) :
    ∃ tree v, buildTree KeySearch.linear decode holeCtx holeToc = .ok (tree, [([[97]], 8193,
        [⟨v, 4096, 0, 0, 0⟩, ⟨v, 1, 100, 4096, 8192⟩])]) ∧
      ¬ Tiles holeCtx.chunkSize 8193 [⟨v, 4096, 0, 0, 0⟩, ⟨v, 1, 100, 4096, 8192⟩] := by
  -- the 64 digits of the zero digest decode to 32 bytes
  have hdigits : zeroDigest.toList.drop 7 = List.replicate 64 '0' := rfl
  obtain ⟨v, hv, hlen⟩ := hd (List.replicate 64 '0') (by simp) fun c hc => by
    rw [List.eq_of_mem_replicate hc]
    rfl
  have hlen32 : v.length = 32 := by simp [hlen]
  -- its 32 bytes, named one by one, so that `build_tree` runs on them
  obtain ⟨x, rfl⟩ : ∃ x : Fin 32 → UInt8, v = List.ofFn x :=
    ⟨fun i => v.get (Fin.cast hlen32.symm i), by rw [← List.ofFn_congr hlen32 v.get, List.ofFn_get]⟩
  have hcongr : buildTree KeySearch.linear decode holeCtx holeToc =
      buildTree KeySearch.linear (fun _ => some (List.ofFn x)) holeCtx holeToc := by
    refine buildTree_congr KeySearch.linear fun e he => ?_
    simp only [holeToc, List.mem_cons, List.not_mem_nil, or_false] at he
    rcases he with rfl | rfl <;> exact hdigits ▸ hv
  exact ⟨_, List.ofFn x, hcongr.trans rfl, by simp [Tiles, TilesFrom, StargzChunk.fileEnd, holeCtx]⟩

/-- A decoder that keeps the law: every text decodes to half as many zero bytes. -/
def zeroDecode (s : List Char) : Option (List UInt8) := some (List.replicate (s.length / 2) 0)

theorem buildTree_file_with_hole_zeroDecode :
    HexDecodes zeroDecode ∧
      ∃ tree v, buildTree KeySearch.linear zeroDecode holeCtx holeToc = .ok (tree, [([[97]], 8193,
          [⟨v, 4096, 0, 0, 0⟩, ⟨v, 1, 100, 4096, 8192⟩])]) ∧
        ¬ Tiles holeCtx.chunkSize 8193 [⟨v, 4096, 0, 0, 0⟩, ⟨v, 1, 100, 4096, 8192⟩] :=
  have hz : HexDecodes zeroDecode := fun _ _ _ => ⟨_, rfl, List.length_replicate⟩
  ⟨hz, buildTree_file_with_hole hz⟩

end Nydus.Builder.Stargz
