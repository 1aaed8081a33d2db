import Mathlib
import Nydus.Lib.Outcome
import Nydus.Lib.Tar
import Nydus.Rafs.XattrV6
import Nydus.Storage.ZranChunks
import Nydus.Unpack.Pax

/-!
# The table of contents of a data blob (`storage/src/meta/toc.rs`)

A data blob built with the `blob-toc` feature ends with a table of contents: a 128-byte
`TocEntry` for each file the builder placed in the blob (`image.boot`, `blob.meta`,
`blob.digest`, ...), then a tar header `rafs.blob.toc` that covers them. The builder collects the
entries with `TocEntryList::add` and appends them in `dump_toc`, which records the digest and the
size of the entries with their header in the blob context; the bootstrap carries both to the
runtime as `blob_toc_digest` and `blob_toc_size`. The runtime places the ToC at the end of the
blob by that size (`BlobCompressionContextInfo::new`), or, where it is zero, looks for it in the
last 4 KiB (`TocLocation::default`). It reads it (`read_toc_header`), through a cache file when
one holds it (`read_from_cache_file`), parses it (`parse_toc_header`) and finds entries by name
(`get_entry`).

The results:
* `readFromCacheFile_dumpToc`: the runtime reads back, at the place the recorded size gives and
  against the recorded digest, the entries the builder added, with that digest and size, and
  leaves their bytes in the cache file; a cache file left by an earlier read gives the same;
* `readFromBlob_default_dumpToc`: the last 4 KiB hold the ToC, and the default location reads it
  back, exactly when it has at most 28 entries;
* `getEntry_readFromCacheFile`: looking a name up in the list read back finds the first entry
  added under that name, with the compressor, digest, offsets and sizes given to `add`.

Model notes. A blob is its list of bytes; a `BlobReader` read returns the bytes of the blob in
the range asked for. The tar crate is the parameter `tar`, a header format that reads back the
path and the size it wrote (`Tar.Format`). The SHA-256 digest of `RafsDigest::from_buf`, and of
the builder's hasher over the bytes it was given one after another, is the parameter `digestOf`.
The cache file is an optional list of bytes; creating, renaming and removing files succeed. The
reserved fields of `TocEntry` are written as zeros and never read.
-/

namespace Nydus.Storage.Toc

open Nydus.Lib
open Nydus.Lib.Outcome (bail)
open Nydus.Storage.Meta (MappedFile)
open Nydus.Storage.Meta.ZranContextGenerator (leBytes length_leBytes readLE_leBytes)
open Nydus.Unpack (asciiBytes validUtf8 validUtf8_append validUtf8_append_of_ascii)
open Nydus.Utils.ZlibRandom (debugSub)

/-- `compress::Algorithm`. -/
inductive Algorithm
  | none
  | lz4Block
  | gZip
  | zstd
  deriving DecidableEq, Repr

/-- `RafsDigest`. -/
structure RafsDigest where
  data : Vector UInt8 32
  deriving DecidableEq, Repr

def RafsDigest.default : RafsDigest := ⟨Vector.replicate 32 0⟩

/-! ## Entries -/

def tocEntryBlobMeta : List UInt8 := asciiBytes "blob.meta"
def tocEntryBlobDigest : List UInt8 := asciiBytes "blob.digest"
def tocEntryBlobToc : List UInt8 := asciiBytes "rafs.blob.toc"

namespace TocEntryFlags

def compressionNone : UInt32 := 0x0001
def compressionZstd : UInt32 := 0x0002
def compressionLz4Block : UInt32 := 0x0004
def compressionMask : UInt32 := 0x000f

/-- `TocEntryFlags::from_bits`: the flags, when no bit outside the declared ones is set. -/
def fromBits (bits : UInt32) : Option UInt32 :=
  if bits &&& ~~~(compressionNone ||| compressionZstd ||| compressionLz4Block |||
      compressionMask) = 0 then some bits
  else none

/-- `TryFrom<compress::Algorithm> for TocEntryFlags`. -/
def tryFrom : Algorithm → Outcome UInt32
  | .none => .ok compressionNone
  | .zstd => .ok compressionZstd
  | .lz4Block => .ok compressionLz4Block
  | .gZip => bail "unsupported compressor GZip"

end TocEntryFlags

open TocEntryFlags

/-- `TocEntry`, 128 bytes on disk. -/
structure TocEntry where
  flags : UInt32
  name : Vector UInt8 16
  uncompressedDigest : Vector UInt8 32
  compressedOffset : UInt64
  compressedSize : UInt64
  uncompressedSize : UInt64
  deriving DecidableEq, Repr

namespace TocEntry

/-- `TocEntry::name`: the name as UTF-8, without its trailing NULs. -/
def getName (e : TocEntry) : Outcome (List UInt8) :=
  if validUtf8 e.name.toList then .ok (e.name.toList.rdropWhile (· == 0))
  else bail "failed to get ToC entry name"

/-- `TocEntry::compressor`. -/
def compressor (e : TocEntry) : Outcome Algorithm :=
  match fromBits e.flags with
  | none => bail "unknown compression algorithm for TOC entry"
  | some flags =>
    let algo := flags &&& compressionMask
    if algo = compressionZstd then .ok .zstd
    else if algo = compressionLz4Block then .ok .lz4Block
    else if algo = compressionNone then .ok .none
    else bail "unknown compression algorithm for TOC entry"

/-- `TocEntry::set_compressor`. -/
def setCompressor (e : TocEntry) (compressor : Algorithm) : Outcome TocEntry := do
  let c ← tryFrom compressor
  .ok { e with flags := (e.flags &&& ~~~compressionMask) ||| c }

/-- The 128 bytes of the entry in its `repr(C)` layout, little-endian. -/
def toBytes (e : TocEntry) : List UInt8 :=
  leBytes e.flags.toNat 4 ++ List.replicate 4 0 ++ e.name.toList ++ e.uncompressedDigest.toList ++
    leBytes e.compressedOffset.toNat 8 ++ leBytes e.compressedSize.toNat 8 ++
    leBytes e.uncompressedSize.toNat 8 ++ List.replicate 48 0

/-- The entry `parse_toc_header` copies from the bytes of `buf` at `pos`. -/
def read (buf : List UInt8) (pos : Nat) : TocEntry :=
  let m : MappedFile := ⟨buf.length, fun i => buf.getD i 0⟩
  { flags := UInt32.ofNat (m.readLE pos 4)
    name := Vector.ofFn fun i => buf.getD (pos + 8 + i) 0
    uncompressedDigest := Vector.ofFn fun i => buf.getD (pos + 24 + i) 0
    compressedOffset := UInt64.ofNat (m.readLE (pos + 56) 8)
    compressedSize := UInt64.ofNat (m.readLE (pos + 64) 8)
    uncompressedSize := UInt64.ofNat (m.readLE (pos + 72) 8) }

end TocEntry

/-- `TocEntryList`. -/
structure TocEntryList where
  entries : List TocEntry
  tocDigest : RafsDigest
  tocSize : UInt32
  deriving DecidableEq, Repr

/-- The arguments of one `TocEntryList::add`. -/
structure TocAdd where
  name : List UInt8
  compressor : Algorithm
  uncompressedDigest : RafsDigest
  compressedOffset : UInt64
  compressedSize : UInt64
  uncompressedSize : UInt64

namespace TocEntryList

def new : TocEntryList := ⟨[], RafsDigest.default, 0⟩

/-- `TocEntryList::add`: the name in a 16-byte field, the compressor in the flags. -/
def add (l : TocEntryList) (name : List UInt8) (compressor : Algorithm)
    (uncompressedDigest : RafsDigest) (compressedOffset compressedSize uncompressedSize : UInt64) :
    Outcome TocEntryList := do
  let nameSize := name.length
  if nameSize > 16 then bail s!"invalid entry name length {nameSize}"
  let target : Vector UInt8 16 := Vector.ofFn fun i => name.getD i 0
  let entry : TocEntry := ⟨0, target, uncompressedDigest.data, compressedOffset, compressedSize,
    uncompressedSize⟩
  let entry ← entry.setCompressor compressor
  .ok { l with entries := l.entries ++ [entry] }

/-- `add` called with each of `adds` in turn, as the builder adds the entries of a blob. -/
def addAll (l : TocEntryList) (adds : List TocAdd) : Outcome TocEntryList :=
  adds.foldlM (fun l a => l.add a.name a.compressor a.uncompressedDigest a.compressedOffset
    a.compressedSize a.uncompressedSize) l

/-- `TocEntryList::as_bytes`. -/
def asBytes (l : TocEntryList) : List UInt8 := l.entries.flatMap TocEntry.toBytes

/-- `TocEntryList::get_entry`: the first entry whose name reads as `name`. -/
def getEntry (l : TocEntryList) (name : List UInt8) : Option TocEntry :=
  l.entries.find? fun toc =>
    match toc.getName with
    | .ok n => n == name
    | .error _ => false

end TocEntryList

/-! ## Locating and reading the ToC -/

/-- `TocLocation`. -/
structure TocLocation where
  validateDigest : Bool
  autoDetect : Bool
  offset : Nat
  size : Nat
  digest : RafsDigest
  deriving DecidableEq, Repr

namespace TocLocation

def default : TocLocation := ⟨false, true, 0, 0, RafsDigest.default⟩

def new (offset size : Nat) : TocLocation := ⟨false, false, offset, size, RafsDigest.default⟩

/-- `TocLocation::validate`: a given size is a multiple of 128 from 512 to 64 KiB. -/
def validate (l : TocLocation) : Outcome Unit :=
  if !l.autoDetect && (!(512 ≤ l.size && l.size ≤ 0x10000) || l.size % 128 != 0) then
    bail s!"invalid size {l.size} of blob ToC"
  else .ok ()

end TocLocation

/-- `TocEntryList::read_toc_header`: the bytes at the location, or in the last 4 KiB of the
blob, at most its length rounded down to 128. The second value is the end of a 4 KiB window. -/
def readTocHeader (blob : List UInt8) (location : TocLocation) : Outcome (List UInt8 × Nat) := do
  location.validate
  let (offset, size) :=
    if location.autoDetect then
      let blobSize := blob.length
      let size := if blobSize > 0x1000 then 0x1000 else blobSize >>> 7 <<< 7
      (blobSize - size, size)
    else (location.offset, location.size)
  let buf := (blob.drop offset).take size
  let sz := buf.length
  if sz ≠ size then bail s!"failed to read ToC from backend, expect {size}, got {sz} bytes"
  .ok (buf, offset + 0x1000)

/-- The copy loop of `parse_toc_header`: an entry from each 128 bytes from `pos`, while `pos` is
below `size`. `fuel` bounds the rounds. -/
def readEntries (buf : List UInt8) (size : Nat) : Nat → Nat → List TocEntry
  | 0, _ => []
  | fuel + 1, pos =>
    if pos < size then TocEntry.read buf pos :: readEntries buf size fuel (pos + 128) else []

/-- `Path::display` of an ASCII path. -/
def display (p : List UInt8) : String := String.ofList (p.map fun b => Char.ofNat b.toNat)

section Reader

variable (tar : Tar.Format) (digestOf : List UInt8 → RafsDigest)

/-- `TocEntryList::parse_toc_header`: the tar header in the last 512 bytes, the entries it
covers before it, and their digest and size with the header. -/
def parseTocHeader (buf : List UInt8) (location : TocLocation) : Outcome TocEntryList := do
  if buf.length < 512 then bail s!"blob ToC size {buf.length} is too small"
  let size := buf.length - 512
  let header := buf.drop size
  if !tar.isRegular header then bail "Tar entry type for ToC is not a regular file"
  let some entrySize := tar.entrySize header | bail "failed to get entry size from tar header"
  if entrySize > size then
    bail s!"invalid toc entry size in tar header, expect {size}, got {entrySize}"
  let some name := tar.path header | bail "failed to get ToC file name from tar header"
  if name ≠ tocEntryBlobToc then
    bail s!"ToC file name from tar header doesn't match, {display name}"
  if !tar.isGnu header then bail "invalid GNU tar header for ToC"
  let pos := size - entrySize
  let tocDigest := digestOf (buf.drop pos)
  let tocSize := UInt32.ofNat (entrySize + 512)
  if location.validateDigest && tocDigest != location.digest then
    let expect := location.digest.data.toList
    let got := tocDigest.data.toList
    bail s!"toc content digest value doesn't match, expect {expect}, got {got}"
  .ok ⟨readEntries buf size size pos, tocDigest, tocSize⟩

/-- `TocEntryList::read_from_blob`: the list, with the bytes it was read from, which go to the
cache file when one is given. -/
def readFromBlob (blob : List UInt8) (location : TocLocation) :
    Outcome (TocEntryList × List UInt8) := do
  let (buf, _) ← readTocHeader blob location
  let list ← parseTocHeader tar digestOf buf location
  .ok (list, buf)

/-- `TocEntryList::read_from_cache_file`: the list from the cache file when it holds a ToC that
parses, and otherwise from the blob, whose ToC bytes then become the cache file. A failed read
from the blob removes only the file being downloaded. -/
def readFromCacheFile (cache : Option (List UInt8)) (blob : List UInt8)
    (location : TocLocation) : Outcome TocEntryList × Option (List UInt8) :=
  match location.validate with
  | .error e => (.error e, cache)
  | .ok () =>
    let cached : Option TocEntryList :=
      match cache with
      | some file =>
        if file.length > 512 && file.length % 128 == 0 && file.length ≤ 0x1000 then
          (parseTocHeader tar digestOf file location).toOption
        else none
      | none => none
    match cached with
    | some toc => (.ok toc, cache)
    | none =>
      match readFromBlob tar digestOf blob location with
      | .ok (v, buf) => (.ok v, some buf)
      | .error e => (.error e, cache)

end Reader

/-! ## The builder's side and the runtime's location -/

/-- The fields of the builder's `BlobContext` the ToC uses. -/
structure BlobContext where
  entryList : TocEntryList
  blobTocDigest : RafsDigest
  blobTocSize : UInt32

/-- `dump_toc` with the `blob-toc` feature: the entries, then their tar header, appended to the
blob; the digest of the two and their size recorded in the blob context. -/
def dumpToc (tar : Tar.Format) (digestOf : List UInt8 → RafsDigest) (blobCtx : BlobContext)
    (blobWriter : List UInt8) : BlobContext × List UInt8 :=
  let data := blobCtx.entryList.asBytes
  let tocSize := data.length
  let header := tar.regular tocEntryBlobToc tocSize
  ({ blobCtx with
      blobTocDigest := digestOf (data ++ header)
      blobTocSize := UInt32.ofNat tocSize + UInt32.ofNat header.length },
    blobWriter ++ data ++ header)

/-- The location `BlobCompressionContextInfo::new` gives the ToC of a blob of `blobSize` bytes:
its last `blob_toc_size` bytes, checked against `blob_toc_digest` unless that is zero; the
default location when the size is zero. -/
def tocLocation (blobSize : Nat) (blobTocSize : UInt32) (blobTocDigest : RafsDigest) :
    Outcome TocLocation := do
  if blobTocSize ≠ 0 then
    let offset ← debugSub blobSize blobTocSize.toNat
    let location := TocLocation.new offset blobTocSize.toNat
    if blobTocDigest.data.toList.any (· != 0) then
      .ok { location with validateDigest := true, digest := blobTocDigest }
    else .ok location
  else .ok TocLocation.default

/-! ## Entries read back -/

theorem readLE_field {size : Nat} {L : List UInt8} (pre rest : List UInt8) (x n : Nat) {k : Nat}
    (h : L = pre ++ leBytes x n ++ rest) (hk : pre.length = k) :
    (MappedFile.mk size fun i => L.getD i 0).readLE k n = x % 256 ^ n := by
  subst h hk
  exact readLE_leBytes x pre rest n

theorem ofFn_getD_toList {n : Nat} (v : Vector UInt8 n) :
    (Vector.ofFn fun i : Fin n => v.toList.getD i 0) = v := by
  ext i hi
  simp [List.getD_eq_getElem?_getD]

theorem ofFn_field {L : List UInt8} (pre rest : List UInt8) {n k : Nat} (v : Vector UInt8 n)
    (h : L = pre ++ v.toList ++ rest) (hk : pre.length = k) :
    (Vector.ofFn fun i : Fin n => L.getD (k + i) 0) = v := by
  subst h hk
  refine (congrArg Vector.ofFn (funext fun i => ?_)).trans (ofFn_getD_toList v)
  exact Nydus.Rafs.V6.getD_append_mid pre v.toList rest (by simp) 0

namespace TocEntry

@[simp] theorem length_toBytes (e : TocEntry) : e.toBytes.length = 128 := by
  simp [toBytes]

theorem read_toBytes (e : TocEntry) (pre post : List UInt8) :
    read (pre ++ e.toBytes ++ post) pre.length = e := by
  obtain ⟨flags, name, digest, off, csize, usize⟩ := e
  -- each field stands after the fields before it, at its offset in the `repr(C)` layout
  set L := pre ++ toBytes ⟨flags, name, digest, off, csize, usize⟩ ++ post with hL
  have hflags := @readLE_field L.length L pre
    (List.replicate 4 0 ++ name.toList ++ digest.toList ++ leBytes off.toNat 8 ++
      leBytes csize.toNat 8 ++ leBytes usize.toNat 8 ++ List.replicate 48 0 ++ post)
    flags.toNat 4 _ (by simp only [hL, toBytes, List.append_assoc]) rfl
  have hname := ofFn_field (L := L) (pre ++ leBytes flags.toNat 4 ++ List.replicate 4 0)
    (digest.toList ++ leBytes off.toNat 8 ++ leBytes csize.toNat 8 ++ leBytes usize.toNat 8 ++
      List.replicate 48 0 ++ post) name
    (by simp only [hL, toBytes, List.append_assoc]) (show _ = pre.length + 8 by simp)
  have hdigest := ofFn_field (L := L)
    (pre ++ leBytes flags.toNat 4 ++ List.replicate 4 0 ++ name.toList)
    (leBytes off.toNat 8 ++ leBytes csize.toNat 8 ++ leBytes usize.toNat 8 ++
      List.replicate 48 0 ++ post) digest
    (by simp only [hL, toBytes, List.append_assoc]) (show _ = pre.length + 24 by simp)
  have hoff := @readLE_field L.length L
    (pre ++ leBytes flags.toNat 4 ++ List.replicate 4 0 ++ name.toList ++ digest.toList)
    (leBytes csize.toNat 8 ++ leBytes usize.toNat 8 ++ List.replicate 48 0 ++ post)
    off.toNat 8 (pre.length + 56) (by simp only [hL, toBytes, List.append_assoc]) (by simp)
  have hcsize := @readLE_field L.length L
    (pre ++ leBytes flags.toNat 4 ++ List.replicate 4 0 ++ name.toList ++ digest.toList ++
      leBytes off.toNat 8)
    (leBytes usize.toNat 8 ++ List.replicate 48 0 ++ post)
    csize.toNat 8 (pre.length + 64) (by simp only [hL, toBytes, List.append_assoc]) (by simp)
  have husize := @readLE_field L.length L
    (pre ++ leBytes flags.toNat 4 ++ List.replicate 4 0 ++ name.toList ++ digest.toList ++
      leBytes off.toNat 8 ++ leBytes csize.toNat 8)
    (List.replicate 48 0 ++ post)
    usize.toNat 8 (pre.length + 72) (by simp only [hL, toBytes, List.append_assoc]) (by simp)
  have h32 : ∀ x : UInt32, UInt32.ofNat (x.toNat % 256 ^ 4) = x := fun x => by
    have := x.toNat_lt
    rw [Nat.mod_eq_of_lt (by omega), UInt32.ofNat_toNat]
  have h64 : ∀ x : UInt64, UInt64.ofNat (x.toNat % 256 ^ 8) = x := fun x => by
    have := x.toNat_lt
    rw [Nat.mod_eq_of_lt (by omega), UInt64.ofNat_toNat]
  unfold read
  dsimp only
  rw [hflags, hname, hdigest, hoff, hcsize, husize, h32, h64, h64, h64]

end TocEntry

/-! ## Entries added -/

/-- The entry `add` makes of its arguments: the name NUL-padded to 16 bytes, the flags of the
compressor, and the digest, offset and sizes as given. -/
structure TocAdd.Made (a : TocAdd) (e : TocEntry) : Prop where
  name_length : a.name.length ≤ 16
  name : e.name = Vector.ofFn fun i => a.name.getD i 0
  compressor : e.compressor = .ok a.compressor
  uncompressedDigest : e.uncompressedDigest = a.uncompressedDigest.data
  compressedOffset : e.compressedOffset = a.compressedOffset
  compressedSize : e.compressedSize = a.compressedSize
  uncompressedSize : e.uncompressedSize = a.uncompressedSize

theorem setCompressor_eq_ok {e e' : TocEntry} {c : Algorithm} (h0 : e.flags = 0)
    (h : e.setCompressor c = .ok e') :
    e'.compressor = .ok c ∧ e' = { e with flags := e'.flags } := by
  cases c <;>
    simp only [TocEntry.setCompressor, tryFrom, Outcome.bail, ok_bind, error_bind,
      reduceCtorEq] at h <;>
    obtain rfl := Except.ok.inj h <;>
    exact ⟨by simp only [TocEntry.compressor, h0]; decide, rfl⟩

theorem add_eq_ok {l l' : TocEntryList} {a : TocAdd}
    (h : l.add a.name a.compressor a.uncompressedDigest a.compressedOffset a.compressedSize
      a.uncompressedSize = .ok l') :
    ∃ e, l'.entries = l.entries ++ [e] ∧ a.Made e := by
  simp only [TocEntryList.add, Outcome.bail, error_bind] at h
  split_ifs at h with hlen
  obtain ⟨e, hset, hl⟩ := bind_eq_ok.mp h
  obtain ⟨hc, he⟩ := setCompressor_eq_ok rfl hset
  rw [← Except.ok.inj hl]
  rw [he] at hc ⊢
  exact ⟨_, rfl, ⟨by omega, rfl, hc, rfl, rfl, rfl, rfl⟩⟩

theorem addAll_made : ∀ (adds : List TocAdd) (l l' : TocEntryList), l.addAll adds = .ok l' →
    ∃ es, l'.entries = l.entries ++ es ∧ List.Forall₂ TocAdd.Made adds es
  | [], l, l', h => ⟨[], by simp [TocEntryList.addAll] at h; simp [h], .nil⟩
  | a :: adds, l, l', h => by
    rw [TocEntryList.addAll, List.foldlM_cons, bind_eq_ok] at h
    obtain ⟨l₁, h₁, hrest⟩ := h
    obtain ⟨e, he, hmade⟩ := add_eq_ok h₁
    obtain ⟨es, hes, hall⟩ := addAll_made adds l₁ l' hrest
    exact ⟨e :: es, by rw [hes, he, List.append_assoc, List.singleton_append], .cons hmade hall⟩

theorem toList_ofFn_getD {name : List UInt8} (h : name.length ≤ 16) :
    (Vector.ofFn fun i : Fin 16 => name.getD i 0).toList =
      name ++ List.replicate (16 - name.length) 0 := by
  rw [Vector.toList_ofFn]
  refine List.ext_getElem (by simp; omega) fun i h₁ h₂ => ?_
  rw [List.getElem_ofFn, List.getElem_append]
  split_ifs with hi
  · simp [List.getD_eq_getElem?_getD, hi]
  · -- past the name: a NUL of the padding
    simp [List.getD_eq_getElem?_getD, List.getElem?_eq_none (Nat.le_of_not_lt hi)]

theorem rdropWhile_replicate {name : List UInt8} (hz : name.getLast? ≠ some 0) :
    ∀ k, (name ++ List.replicate k 0).rdropWhile (· == 0) = name
  | 0 => by
    rw [List.replicate_zero, List.append_nil, List.rdropWhile_eq_self_iff]
    intro hl h0
    exact hz (by rw [List.getLast?_eq_some_getLast hl, beq_iff_eq.mp h0])
  | k + 1 => by
    rw [List.replicate_succ', ← List.append_assoc, List.rdropWhile_concat_pos _ _ _ rfl,
      rdropWhile_replicate hz k]

theorem validUtf8_of_ascii {p : List UInt8} (hp : ∀ b ∈ p, b < 0x80) : validUtf8 p = true := by
  rw [← List.append_nil p, validUtf8_append_of_ascii hp]
  simp [validUtf8]

theorem getName_of_made {a : TocAdd} {e : TocEntry} (hm : a.Made e)
    (hv : validUtf8 a.name = true) (hz : a.name.getLast? ≠ some 0) : e.getName = .ok a.name := by
  have hpad : validUtf8 (List.replicate (16 - a.name.length) 0) = true :=
    validUtf8_of_ascii fun b hb => by rw [List.eq_of_mem_replicate hb]; decide
  rw [TocEntry.getName, hm.name, toList_ofFn_getD hm.name_length,
    if_pos (validUtf8_append hv hpad), rdropWhile_replicate hz]

theorem find?_made {adds : List TocAdd} {es : List TocEntry}
    (hall : List.Forall₂ TocAdd.Made adds es)
    (hnames : ∀ a ∈ adds, validUtf8 a.name = true ∧ a.name.getLast? ≠ some 0)
    {name : List UInt8} {a : TocAdd} (ha : adds.find? (fun a => a.name == name) = some a) :
    ∃ e, (TocEntryList.mk es RafsDigest.default 0).getEntry name = some e ∧ a.Made e := by
  induction hall with
  | nil => simp at ha
  | @cons a' e' adds es hm _ ih =>
    have hname := getName_of_made hm (hnames a' List.mem_cons_self).1
      (hnames a' List.mem_cons_self).2
    simp only [TocEntryList.getEntry, List.find?_cons, hname] at ha ⊢
    by_cases heq : (a'.name == name) = true
    · simp only [heq, Option.some.injEq] at ha ⊢
      exact ⟨e', rfl, ha ▸ hm⟩
    · simp only [heq] at ha ⊢
      exact ih (fun b hb => hnames b (List.mem_cons_of_mem _ hb)) ha

/-! ## The list read back -/

theorem length_flatMap_toBytes : ∀ es : List TocEntry,
    (es.flatMap TocEntry.toBytes).length = 128 * es.length
  | [] => rfl
  | e :: es => by
    rw [List.flatMap_cons, List.length_append, TocEntry.length_toBytes, length_flatMap_toBytes es,
      List.length_cons]
    ring

theorem readEntries_flatMap (post : List UInt8) : ∀ (es : List TocEntry) (pre : List UInt8)
    (fuel : Nat), es.length ≤ fuel →
    readEntries (pre ++ es.flatMap TocEntry.toBytes ++ post) (pre.length + 128 * es.length) fuel
      pre.length = es
  | [], pre, fuel, _ => by cases fuel <;> simp [readEntries]
  | e :: es, pre, fuel + 1, h => by
    have hlist : pre ++ (e :: es).flatMap TocEntry.toBytes ++ post =
        pre ++ e.toBytes ++ es.flatMap TocEntry.toBytes ++ post := by
      simp only [List.flatMap_cons, List.append_assoc]
    have hsize : pre.length + 128 * (e :: es).length = pre.length + 128 + 128 * es.length := by
      rw [List.length_cons]
      ring
    -- the rest of the entries stand after the first one
    have ih := readEntries_flatMap post es (pre ++ e.toBytes) fuel
      (by simp only [List.length_cons] at h; omega)
    rw [List.length_append, TocEntry.length_toBytes] at ih
    rw [hlist, hsize, readEntries, if_pos (by omega), ih,
      List.append_assoc (pre ++ e.toBytes), TocEntry.read_toBytes]

theorem length_readEntries_le (buf : List UInt8) (size : Nat) :
    ∀ fuel pos, 128 * (readEntries buf size fuel pos).length ≤ size - pos + 127
  | 0, _ => by simp [readEntries]
  | fuel + 1, pos => by
    have ih := length_readEntries_le buf size fuel (pos + 128)
    rw [readEntries]
    split_ifs with hpos
    · rw [List.length_cons]
      omega
    · simp

/-- The ToC `dump_toc` writes: the entries, then the tar header that covers them. -/
def tocBytes (tar : Tar.Format) (l : TocEntryList) : List UInt8 :=
  l.asBytes ++ tar.regular tocEntryBlobToc l.asBytes.length

section Reader

variable (tar : Tar.Format) (digestOf : List UInt8 → RafsDigest)

theorem length_tocBytes (l : TocEntryList) :
    (tocBytes tar l).length = 128 * l.entries.length + 512 := by
  rw [tocBytes, List.length_append, tar.length_regular, TocEntryList.asBytes,
    length_flatMap_toBytes]

theorem parseTocHeader_tocBytes {l : TocEntryList} (hn : 128 * l.entries.length < 8 ^ 11)
    (junk : List UInt8) {location : TocLocation}
    (hdigest : location.validateDigest = true → location.digest = digestOf (tocBytes tar l)) :
    parseTocHeader tar digestOf (junk ++ tocBytes tar l) location =
      .ok ⟨l.entries, digestOf (tocBytes tar l), UInt32.ofNat (tocBytes tar l).length⟩ := by
  have hbytes : l.asBytes.length = 128 * l.entries.length := by
    rw [TocEntryList.asBytes, length_flatMap_toBytes]
  have hlen : (junk ++ tocBytes tar l).length = junk.length + 128 * l.entries.length + 512 := by
    rw [List.length_append, length_tocBytes]
    omega
  have hsize : (junk ++ tocBytes tar l).length - 512 = junk.length + 128 * l.entries.length := by
    omega
  -- the last 512 bytes are the header `dump_toc` wrote, and it reads back
  have hheader : (junk ++ tocBytes tar l).drop (junk.length + 128 * l.entries.length) =
      tar.regular tocEntryBlobToc (128 * l.entries.length) := by
    rw [tocBytes, ← List.append_assoc, List.drop_left' (by rw [List.length_append, hbytes]),
      hbytes]
  obtain ⟨hreg, hsz, hpath, hgnu⟩ :=
    tar.read_regular tocEntryBlobToc (128 * l.entries.length) (by decide) (by decide) hn
  have hentries : readEntries (junk ++ tocBytes tar l) (junk.length + 128 * l.entries.length)
      (junk.length + 128 * l.entries.length) junk.length = l.entries := by
    have := readEntries_flatMap (tar.regular tocEntryBlobToc l.asBytes.length) l.entries junk
      (junk.length + 128 * l.entries.length) (by omega)
    rwa [List.append_assoc, ← TocEntryList.asBytes, ← tocBytes] at this
  have hcheck : (location.validateDigest && digestOf (tocBytes tar l) != location.digest) =
      false := by
    cases hv : location.validateDigest
    · rfl
    · simp [hdigest hv]
  have hpos : junk.length + 128 * l.entries.length - 128 * l.entries.length = junk.length := by
    omega
  have hshort : ¬ (junk ++ tocBytes tar l).length < 512 := by omega
  have hfits : ¬ 128 * l.entries.length > junk.length + 128 * l.entries.length := by omega
  simp only [parseTocHeader, hshort, if_false, hsize, hheader, hreg, hsz, hpath, hgnu, hfits, hpos,
    List.drop_left, hcheck, hentries, Bool.not_true, Bool.false_eq_true, ne_eq, not_true_eq_false,
    length_tocBytes]

theorem parseTocHeader_entries {buf : List UInt8} {location : TocLocation} {l : TocEntryList}
    (h : parseTocHeader tar digestOf buf location = .ok l) :
    ∃ pos, l.entries = readEntries buf (buf.length - 512) (buf.length - 512) pos := by
  simp only [parseTocHeader, Outcome.bail, error_bind] at h
  -- the header's size and path are read, or every branch returns an error
  cases hsz : tar.entrySize (buf.drop (buf.length - 512)) with
  | none =>
    simp only [hsz] at h
    split_ifs at h
  | some entrySize =>
    cases hp : tar.path (buf.drop (buf.length - 512)) with
    | none =>
      simp only [hsz, hp] at h
      split_ifs at h
    | some name =>
      simp only [hsz, hp] at h
      split_ifs at h
      exact ⟨_, by rw [← Except.ok.inj h]⟩

theorem length_parseTocHeader_le {buf : List UInt8} {location : TocLocation} {l : TocEntryList}
    (h : parseTocHeader tar digestOf buf location = .ok l) :
    128 * l.entries.length ≤ buf.length - 512 + 127 := by
  obtain ⟨pos, hl⟩ := parseTocHeader_entries tar digestOf h
  have := length_readEntries_le buf (buf.length - 512) (buf.length - 512) pos
  rw [hl]
  omega

/-! ## Reading the ToC of a blob -/

theorem readTocHeader_of_location {w toc : List UInt8} {location : TocLocation}
    (hval : location.validate = .ok ()) (hauto : location.autoDetect = false)
    (hoff : location.offset = w.length) (hsize : location.size = toc.length) :
    readTocHeader (w ++ toc) location = .ok (toc, w.length + 0x1000) := by
  simp [readTocHeader, hval, hauto, hoff, hsize]

theorem readTocHeader_default (blob : List UInt8) :
    readTocHeader blob TocLocation.default =
      .ok (blob.drop (blob.length - min 0x1000 (blob.length / 128 * 128)),
        blob.length - min 0x1000 (blob.length / 128 * 128) + 0x1000) := by
  have hwin : (if blob.length > 0x1000 then 0x1000 else blob.length >>> 7 <<< 7) =
      min 0x1000 (blob.length / 128 * 128) := by
    rw [Nat.shiftLeft_eq, Nat.shiftRight_eq_div_pow]
    split_ifs <;> omega
  have htake : List.take (min 0x1000 (blob.length / 128 * 128))
      (blob.drop (blob.length - min 0x1000 (blob.length / 128 * 128))) =
        blob.drop (blob.length - min 0x1000 (blob.length / 128 * 128)) :=
    List.take_of_length_le (by simp only [List.length_drop]; omega)
  simp [readTocHeader, TocLocation.validate, TocLocation.default, hwin]
  rw [if_pos (by omega), htake]

theorem length_readTocHeader_default {blob buf : List UInt8} {x : Nat}
    (h : readTocHeader blob TocLocation.default = .ok (buf, x)) : buf.length ≤ 0x1000 := by
  rw [readTocHeader_default] at h
  obtain ⟨rfl, -⟩ := Prod.mk.inj (Except.ok.inj h)
  simp only [List.length_drop]
  omega

theorem dumpToc_eq (blobCtx : BlobContext) (blobWriter : List UInt8) :
    dumpToc tar digestOf blobCtx blobWriter =
      ({ blobCtx with
          blobTocDigest := digestOf (tocBytes tar blobCtx.entryList)
          blobTocSize := UInt32.ofNat (tocBytes tar blobCtx.entryList).length },
        blobWriter ++ tocBytes tar blobCtx.entryList) := by
  simp only [dumpToc, tocBytes, List.length_append, UInt32.ofNat_add, List.append_assoc]

theorem tocLocation_tocBytes {l : TocEntryList} (hn : l.entries.length ≤ 508)
    (w : List UInt8) :
    ∃ location, tocLocation (w ++ tocBytes tar l).length
        (UInt32.ofNat (tocBytes tar l).length) (digestOf (tocBytes tar l)) = .ok location ∧
      location.validate = .ok () ∧ location.autoDetect = false ∧ location.offset = w.length ∧
      location.size = (tocBytes tar l).length ∧
      (location.validateDigest = true → location.digest = digestOf (tocBytes tar l)) := by
  have hsize : (UInt32.ofNat (tocBytes tar l).length).toNat = (tocBytes tar l).length := by
    rw [UInt32.toNat_ofNat', Nat.mod_eq_of_lt (by rw [length_tocBytes]; omega)]
  have hne : UInt32.ofNat (tocBytes tar l).length ≠ 0 := by
    intro h0
    have := congrArg UInt32.toNat h0
    rw [hsize, length_tocBytes] at this
    simp at this
  have hsub : debugSub (w ++ tocBytes tar l).length (tocBytes tar l).length = .ok w.length := by
    rw [debugSub, if_pos (by simp), List.length_append, Nat.add_sub_cancel]
  have hval : (TocLocation.new w.length (tocBytes tar l).length).validate = .ok () := by
    have hlen := length_tocBytes tar l
    simp only [TocLocation.validate, TocLocation.new, hlen]
    rw [if_neg]
    simp only [Bool.not_false, Bool.true_and, Bool.or_eq_true, Bool.not_eq_true',
      Bool.and_eq_false_iff, decide_eq_false_iff_not, bne_iff_ne, ne_eq, not_or, not_not]
    omega
  rw [tocLocation, if_pos hne]
  simp only [hsize, hsub, ok_bind]
  split_ifs
  · exact ⟨_, rfl, hval, rfl, rfl, rfl, fun _ => rfl⟩
  · exact ⟨_, rfl, hval, rfl, rfl, rfl, fun h => by simp [TocLocation.new] at h⟩

theorem readFromCacheFile_tocBytes {l : TocEntryList} (hn : 128 * l.entries.length < 8 ^ 11)
    {w : List UInt8} {location : TocLocation} (hval : location.validate = .ok ())
    (hauto : location.autoDetect = false) (hoff : location.offset = w.length)
    (hsize : location.size = (tocBytes tar l).length)
    (hdigest : location.validateDigest = true → location.digest = digestOf (tocBytes tar l))
    {cache : Option (List UInt8)} (hcache : cache = none ∨ cache = some (tocBytes tar l)) :
    readFromCacheFile tar digestOf cache (w ++ tocBytes tar l) location =
      (.ok ⟨l.entries, digestOf (tocBytes tar l), UInt32.ofNat (tocBytes tar l).length⟩,
        some (tocBytes tar l)) := by
  have hparse := parseTocHeader_tocBytes tar digestOf hn [] hdigest
  rw [List.nil_append] at hparse
  have hblob : readFromBlob tar digestOf (w ++ tocBytes tar l) location =
      .ok (⟨l.entries, digestOf (tocBytes tar l), UInt32.ofNat (tocBytes tar l).length⟩,
        tocBytes tar l) := by
    simp only [readFromBlob, readTocHeader_of_location hval hauto hoff hsize, ok_bind, hparse]
  unfold readFromCacheFile
  rw [hval]
  rcases hcache with rfl | rfl
  · simp only [hblob]
  · dsimp only
    split_ifs <;> simp [hparse, hblob, Except.toOption]

/-! ## From the builder to the runtime -/

/-- A digest that is not zero, so that the runtime checks it. -/
def digestOne (_ : List UInt8) : RafsDigest := ⟨Vector.replicate 32 1⟩

/-- The `blob.meta` and `blob.digest` entries of a blob: the compression context table
ZSTD-compressed after 4 KiB of data, then the chunk digest array. -/
def tocAdds : List TocAdd :=
  [⟨tocEntryBlobMeta, .zstd, RafsDigest.default, 0x1000, 0x80, 0x100⟩,
   ⟨tocEntryBlobDigest, .none, RafsDigest.default, 0x1080, 0x40, 0x40⟩]

/-- The list `add` makes of `tocAdds`. -/
def tocList : TocEntryList :=
  ⟨[⟨2, Vector.ofFn fun i => tocEntryBlobMeta.getD i 0, Vector.replicate 32 0, 0x1000, 0x80, 0x100⟩,
    ⟨1, Vector.ofFn fun i => tocEntryBlobDigest.getD i 0, Vector.replicate 32 0, 0x1080, 0x40,
      0x40⟩], RafsDigest.default, 0⟩

/-- `dump_toc` of `tocList` in GNU tar, at the start of a blob. -/
def tocDump : BlobContext × List UInt8 := dumpToc Tar.gnu digestOne ⟨tocList, RafsDigest.default, 0⟩ []


/-- **The ToC read back.** The runtime, at the place the recorded ToC size gives and against the
recorded digest, reads back the entries the builder dumped, with that digest and size, whether
the cache file is missing or left by an earlier read; and leaves the ToC's bytes in the cache
file. A ToC of more than 508 entries is past the 64 KiB `validate` accepts. -/
theorem readFromCacheFile_dumpToc {blobCtx blobCtx' : BlobContext} {blobWriter blob : List UInt8}
    (hdump : dumpToc tar digestOf blobCtx blobWriter = (blobCtx', blob))
    (hn : blobCtx.entryList.entries.length ≤ 508) {cache : Option (List UInt8)}
    (hcache : cache = none ∨ cache = some (tocBytes tar blobCtx.entryList)) :
    ∃ location, tocLocation blob.length blobCtx'.blobTocSize blobCtx'.blobTocDigest =
        .ok location ∧
      readFromCacheFile tar digestOf cache blob location =
        (.ok ⟨blobCtx.entryList.entries, blobCtx'.blobTocDigest, blobCtx'.blobTocSize⟩,
          some (tocBytes tar blobCtx.entryList)) := by
  rw [dumpToc_eq] at hdump
  obtain ⟨rfl, rfl⟩ := Prod.mk.inj hdump
  obtain ⟨location, hloc, hval, hauto, hoff, hsize, hdigest⟩ :=
    tocLocation_tocBytes tar digestOf hn blobWriter
  exact ⟨location, hloc,
    readFromCacheFile_tocBytes tar digestOf (by omega) hval hauto hoff hsize hdigest hcache⟩

theorem readFromCacheFile_dumpToc_tocList :
    ∃ location, tocLocation tocDump.2.length tocDump.1.blobTocSize tocDump.1.blobTocDigest =
        .ok location ∧
      readFromCacheFile Tar.gnu digestOne none tocDump.2 location =
        (.ok ⟨tocList.entries, tocDump.1.blobTocDigest, tocDump.1.blobTocSize⟩,
          some (tocBytes Tar.gnu tocList)) :=
  readFromCacheFile_dumpToc Tar.gnu digestOne rfl (by decide) (Or.inl rfl)

/-- **Detecting the ToC.** Without a recorded size, the runtime and the builder read the ToC from
the last 4 KiB of the blob. That gives back the entries `dump_toc` wrote, with the digest and size
it recorded, exactly when there are at most 28 of them. -/
theorem readFromBlob_default_dumpToc {blobCtx blobCtx' : BlobContext}
    {blobWriter blob : List UInt8}
    (hdump : dumpToc tar digestOf blobCtx blobWriter = (blobCtx', blob)) :
    (∃ buf, readFromBlob tar digestOf blob TocLocation.default =
        .ok (⟨blobCtx.entryList.entries, blobCtx'.blobTocDigest, blobCtx'.blobTocSize⟩, buf)) ↔
      blobCtx.entryList.entries.length ≤ 28 := by
  rw [dumpToc_eq] at hdump
  obtain ⟨rfl, rfl⟩ := Prod.mk.inj hdump
  have hlen := length_tocBytes tar blobCtx.entryList
  constructor
  · -- the window holds 4 KiB, and the header takes 512 of them
    rintro ⟨buf, h⟩
    simp only [readFromBlob, readTocHeader_default, ok_bind, bind_eq_ok] at h
    obtain ⟨l, hparse, hl⟩ := h
    obtain ⟨rfl, -⟩ := Prod.mk.inj (Except.ok.inj hl)
    have hwin := length_readTocHeader_default (readTocHeader_default (blobWriter ++
      tocBytes tar blobCtx.entryList))
    have hfit := length_parseTocHeader_le tar digestOf hparse
    dsimp only at hfit
    omega
  · -- the window ends with the whole ToC
    intro hn
    set blob := blobWriter ++ tocBytes tar blobCtx.entryList with hblob
    have hwin : blob.length - min 0x1000 (blob.length / 128 * 128) ≤ blobWriter.length := by
      rw [hblob, List.length_append, hlen]
      omega
    have hdrop : blob.drop (blob.length - min 0x1000 (blob.length / 128 * 128)) =
        blobWriter.drop (blob.length - min 0x1000 (blob.length / 128 * 128)) ++
          tocBytes tar blobCtx.entryList := by
      rw [hblob, List.drop_append_of_le_length hwin]
    have hparse := parseTocHeader_tocBytes tar digestOf (l := blobCtx.entryList) (by omega)
      (blobWriter.drop (blob.length - min 0x1000 (blob.length / 128 * 128)))
      (fun (h : TocLocation.default.validateDigest = true) => by simp [TocLocation.default] at h)
    rw [← hdrop] at hparse
    refine ⟨blob.drop (blob.length - min 0x1000 (blob.length / 128 * 128)), ?_⟩
    simp only [readFromBlob, readTocHeader_default, ok_bind, hparse]

theorem readFromBlob_default_dumpToc_tocList :
    ∃ buf, readFromBlob Tar.gnu digestOne tocDump.2 TocLocation.default =
      .ok (⟨tocList.entries, tocDump.1.blobTocDigest, tocDump.1.blobTocSize⟩, buf) :=
  (readFromBlob_default_dumpToc Tar.gnu digestOne rfl).mpr (by decide)

/-- **Entries found by name.** In the list the runtime reads back from the ToC the builder dumped,
a name is found as the first entry the builder added under it, with the compressor, digest,
offset and sizes passed to `add`; the names added are UTF-8, as a `&str` is, and none ends in a
NUL, which `TocEntry::name` trims. -/
theorem getEntry_readFromCacheFile {adds : List TocAdd} {blobCtx blobCtx' : BlobContext}
    {blobWriter blob : List UInt8} (hadd : TocEntryList.new.addAll adds = .ok blobCtx.entryList)
    (hnames : ∀ a ∈ adds, validUtf8 a.name = true ∧ a.name.getLast? ≠ some 0)
    (hn : adds.length ≤ 508) (hdump : dumpToc tar digestOf blobCtx blobWriter = (blobCtx', blob))
    {location : TocLocation}
    (hloc : tocLocation blob.length blobCtx'.blobTocSize blobCtx'.blobTocDigest = .ok location)
    {cache : Option (List UInt8)}
    (hcache : cache = none ∨ cache = some (tocBytes tar blobCtx.entryList)) {l : TocEntryList}
    (hread : (readFromCacheFile tar digestOf cache blob location).1 = .ok l)
    {name : List UInt8} {a : TocAdd} (ha : adds.find? (fun a => a.name == name) = some a) :
    ∃ e, l.getEntry name = some e ∧ e.compressor = .ok a.compressor ∧
      e.uncompressedDigest = a.uncompressedDigest.data ∧
      e.compressedOffset = a.compressedOffset ∧ e.compressedSize = a.compressedSize ∧
      e.uncompressedSize = a.uncompressedSize := by
  obtain ⟨es, hes, hall⟩ := addAll_made adds _ _ hadd
  have hlen : blobCtx.entryList.entries.length ≤ 508 := by
    rw [hes, TocEntryList.new, List.nil_append, ← hall.length_eq]
    exact hn
  -- the list read back is the builder's
  rw [dumpToc_eq] at hdump
  obtain ⟨rfl, rfl⟩ := Prod.mk.inj hdump
  obtain ⟨location', hloc', hval, hauto, hoff, hsize, hdigest⟩ :=
    tocLocation_tocBytes tar digestOf hlen blobWriter
  obtain rfl : location = location' := Except.ok.inj (hloc.symm.trans hloc')
  rw [readFromCacheFile_tocBytes tar digestOf (by omega) hval hauto hoff hsize hdigest hcache]
    at hread
  obtain rfl := (Except.ok.inj hread).symm
  obtain ⟨e, he, hm⟩ := find?_made hall hnames ha
  refine ⟨e, ?_, hm.compressor, hm.uncompressedDigest, hm.compressedOffset, hm.compressedSize,
    hm.uncompressedSize⟩
  rw [← he, hes, TocEntryList.new, List.nil_append]
  rfl


theorem getEntry_readFromCacheFile_blobDigest :
    ∃ location l, tocLocation tocDump.2.length tocDump.1.blobTocSize tocDump.1.blobTocDigest =
        .ok location ∧ (readFromCacheFile Tar.gnu digestOne none tocDump.2 location).1 = .ok l ∧
      ∃ e, l.getEntry tocEntryBlobDigest = some e ∧ e.compressor = .ok .none ∧
        e.uncompressedDigest = RafsDigest.default.data ∧ e.compressedOffset = 0x1080 ∧
        e.compressedSize = 0x40 ∧ e.uncompressedSize = 0x40 := by
  have hd : tocDump = _ := dumpToc_eq Tar.gnu digestOne ⟨tocList, RafsDigest.default, 0⟩ []
  obtain ⟨location, hloc, hval, hauto, hoff, hsize, hdigest⟩ :=
    tocLocation_tocBytes Tar.gnu digestOne (l := tocList) (by decide) []
  have hread := readFromCacheFile_tocBytes Tar.gnu digestOne (l := tocList) (by decide) hval hauto
    hoff hsize hdigest (Or.inl rfl)
  rw [hd]
  refine ⟨location, _, hloc, by rw [hread], ?_⟩
  have hascii : ∀ a ∈ tocAdds, ∀ b ∈ a.name, b < 0x80 := by decide +kernel
  have hlast : ∀ a ∈ tocAdds, a.name.getLast? ≠ some 0 := by decide +kernel
  exact getEntry_readFromCacheFile Tar.gnu digestOne
    (show TocEntryList.new.addAll tocAdds = .ok tocList from rfl)
    (fun a ha => ⟨validUtf8_of_ascii (hascii a ha), hlast a ha⟩) (by decide)
    (dumpToc_eq Tar.gnu digestOne ⟨tocList, RafsDigest.default, 0⟩ []) hloc (Or.inl rfl)
    (by rw [hread])
    (show tocAdds.find? (fun a => a.name == tocEntryBlobDigest) =
      some ⟨tocEntryBlobDigest, .none, RafsDigest.default, 0x1080, 0x40, 0x40⟩ from rfl)

end Reader

end Nydus.Storage.Toc
