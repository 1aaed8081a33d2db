import Mathlib
import Nydus.Lib.Outcome

/-!
# Inline extended attributes of a RAFS v6 inode (`rafs/src/metadata/layout/v6.rs`)

The builder writes the extended attributes of an inode right after it (`store_v6`): a header
of 12 bytes, then one entry for each name, in the order the map holds them. An entry is a
4-byte head (`RafsV6XattrEntry`: the length of the name without its prefix, the index standing
for the prefix, the value size as a little-endian `u16`), the rest of the name, the value,
and zeros up to a multiple of 4. The inode records `count_v6`, the number of 4-byte units
after the header plus one; the reader (`get_xattrs`, `get_xattr`) walks the entries with a
budget of `(count - 1) * 4` bytes.

The results:
* `storeV6_roundtrip`: for a non-empty set of attributes that `RafsXAttrs::add` accepts, with
  values of at most 65535 bytes and a count that fits the inode's `u16`, the area written is
  `aligned_size_v6` bytes, which is also what the reader skips; `get_xattrs` lists the stored
  names and `get_xattr` finds each stored value and nothing else, whatever follows the area;
* `storeV6_empty_header`: for no attributes, `store_v6` still writes the 12-byte header while
  `aligned_size_v6` is 0 (the builder does not call it then).

Model notes. Names and values are byte lists, the prefixes are ASCII, and `match_prefix`,
which tests the prefix on the lossy UTF-8 form of the name, is a test on the bytes: the two
agree for ASCII prefixes. The image is the bytes from the start of the area on; the reader's
reads fail past its end, as `MetaMap` fails past the mapped file.
-/

namespace Nydus.Rafs.V6

open Nydus.Lib
open Nydus.Lib.Outcome (bail)

/-- ASCII text as bytes. -/
def ascii (s : String) : List UInt8 := s.toList.map fun c => c.toNat.toUInt8

/-- `round_up` for a power of two `d`. -/
def roundUp (n d : Nat) : Nat := (n + d - 1) / d * d

/-- A `RafsV6XattrPrefix`: the start of a name and the index that stands for it on disk; its
`prefix_len` is the length of `stem`. -/
structure RafsV6XattrPrefix where
  stem : List UInt8
  index : Nat
  deriving DecidableEq, Repr

/-- `RAFSV6_XATTR_TYPES`, in the order `match_prefix` tries them. -/
def rafsv6XattrTypes : List RafsV6XattrPrefix :=
  [⟨ascii "user.", 1⟩, ⟨ascii "system.posix_acl_access", 2⟩,
    ⟨ascii "system.posix_acl_default", 3⟩, ⟨ascii "trusted.", 4⟩, ⟨ascii "security.", 6⟩]

/-- `RAFS_XATTR_PREFIXES`, the prefixes `RafsXAttrs::add` accepts. -/
def rafsXattrPrefixes : List (List UInt8) :=
  [ascii "user.", ascii "security.", ascii "trusted.", ascii "system.posix_acl_access",
    ascii "system.posix_acl_default"]

abbrev XattrName := List UInt8
abbrev XattrValue := List UInt8

/-- `RafsXAttrs`: the pairs in the order its map iterates them, each name once. -/
structure RafsXAttrs where
  pairs : List (XattrName × XattrValue)
  nodup : (pairs.map Prod.fst).Nodup

/-- `HashMap::insert`: a new value for a name already there, or a new pair. -/
def insertPair (name : XattrName) (value : XattrValue) :
    List (XattrName × XattrValue) → List (XattrName × XattrValue)
  | [] => [(name, value)]
  | (n, v) :: ps => if n = name then (name, value) :: ps else (n, v) :: insertPair name value ps

theorem keys_insertPair (name : XattrName) (value : XattrValue) :
    ∀ ps : List (XattrName × XattrValue),
      (insertPair name value ps).map Prod.fst =
        if name ∈ ps.map Prod.fst then ps.map Prod.fst else ps.map Prod.fst ++ [name]
  | [] => by simp [insertPair]
  | (n, v) :: ps => by
    by_cases h : n = name
    · subst h
      simp [insertPair]
    · have ih := keys_insertPair name value ps
      simp only [insertPair, h, if_false, List.map_cons, ih, List.mem_cons, Ne.symm h, false_or]
      split <;> simp

theorem nodup_insertPair (name : XattrName) (value : XattrValue)
    {ps : List (XattrName × XattrValue)} (h : (ps.map Prod.fst).Nodup) :
    ((insertPair name value ps).map Prod.fst).Nodup := by
  rw [keys_insertPair]
  split
  · exact h
  · rename_i hnot
    refine List.nodup_append.mpr ⟨h, List.nodup_singleton _, ?_⟩
    intro a ha b hb hab
    rw [List.mem_singleton] at hb
    subst hb hab
    exact hnot ha

/-- `value as u16`, little-endian. -/
def u16le (n : Nat) : List UInt8 := [n.toUInt8, (n / 256).toUInt8]

namespace RafsXAttrs

def new : RafsXAttrs := ⟨[], List.nodup_nil⟩

/-- `RafsXAttrs::add`. -/
def add (xs : RafsXAttrs) (name : XattrName) (value : XattrValue) : Outcome RafsXAttrs :=
  if name.length > 255 ∨ value.length > 0x10000 then bail "xattr key/value is too big"
  else if rafsXattrPrefixes.any (·.isPrefixOf name) then
    .ok ⟨insertPair name value xs.pairs, nodup_insertPair name value xs.nodup⟩
  else bail "invalid xattr key"

/-- `RafsXAttrs::match_prefix`: the index and length of the first prefix of the table that
starts the name. -/
def matchPrefix (key : XattrName) : Outcome (Nat × Nat) :=
  match rafsv6XattrTypes.find? (·.stem.isPrefixOf key) with
  | some p => .ok (p.index, p.stem.length)
  | none => bail "xattr prefix is not valid"

/-- `aligned_size_v6`; `expect` panics on a name with no prefix. -/
def alignedSizeV6 (xs : RafsXAttrs) : Outcome Nat :=
  if xs.pairs = [] then .ok 0
  else xs.pairs.foldlM (fun size (key, value) =>
      match matchPrefix key with
      | .ok (_, prefixLen) => .ok (roundUp (size + 4 + (key.length - prefixLen) + value.length) 4)
      | .error _ => Outcome.panic "xattr is not valid") 12

/-- `count_v6`. -/
def countV6 (xs : RafsXAttrs) : Outcome Nat :=
  if xs.pairs = [] then .ok 0
  else do
    let size ← xs.alignedSizeV6
    pure ((size - 12) / 4 + 1)

/-- The bytes `store_v6` writes for one pair. -/
def storeEntry (key : XattrName) (value : XattrValue) : Outcome (List UInt8) := do
  let (index, prefixLen) ← match matchPrefix key with
    | .ok r => .ok r
    | .error _ => bail "invalid xattr key"
  if key.length < prefixLen then bail "invalid xattr key"
  if value.length > 65535 then bail "xattr value size is too big"
  let head := [(key.length - prefixLen).toUInt8, index.toUInt8] ++ u16le value.length
  let size := 4 + (key.length - prefixLen) + value.length
  pure (head ++ key.drop prefixLen ++ value ++ List.replicate (roundUp size 4 - size) 0)

/-- `store_v6`: the header, then the entries. -/
def storeV6 (xs : RafsXAttrs) : Outcome (List UInt8) := do
  let entries ← xs.pairs.mapM fun p => storeEntry p.1 p.2
  pure (List.replicate 12 0 ++ entries.flatten)

end RafsXAttrs

/-! ## The reader -/

/-- `recover_namespace`: the prefix an index stands for. -/
def recoverNamespace (index : Nat) : Outcome (List UInt8) :=
  match rafsv6XattrTypes.find? (·.index = index) with
  | some p => .ok p.stem
  | none => bail s!"invalid xattr name index {index}"

/-- `MetaMap::get_slice` on the image bytes. -/
def getSlice (buf : List UInt8) (offset count : Nat) : Outcome (List UInt8) :=
  if offset + count ≤ buf.length then .ok ((buf.drop offset).take count)
  else bail "invalid range in validate_slice"

/-- The fields of a `RafsV6XattrEntry` the reader reads. -/
structure RafsV6XattrEntry where
  nameLen : Nat
  nameIndex : Nat
  valueSize : Nat
  deriving DecidableEq, Repr

/-- `MetaMap::get_ref` of an entry head. -/
def getEntry (buf : List UInt8) (offset : Nat) : Outcome RafsV6XattrEntry :=
  if offset + 4 ≤ buf.length then
    .ok ⟨(buf.getD offset 0).toNat, (buf.getD (offset + 1) 0).toNat,
      (buf.getD (offset + 2) 0).toNat + 256 * (buf.getD (offset + 3) 0).toNat⟩
  else bail "invalid mmap offset"

/-- The bytes an entry takes: head, name and value, rounded up to 4. -/
def RafsV6XattrEntry.stride (e : RafsV6XattrEntry) : Nat := roundUp (e.nameLen + e.valueSize + 4) 4

theorem RafsV6XattrEntry.stride_pos (e : RafsV6XattrEntry) : 0 < e.stride := by
  unfold stride roundUp
  have h : 1 ≤ (e.nameLen + e.valueSize + 4 + 4 - 1) / 4 :=
    (Nat.le_div_iff_mul_le (by decide)).mpr (by omega)
  omega

/-- The loop of `get_xattrs` at `offset` with `remaining` bytes of budget. -/
def getXattrsLoop (buf : List UInt8) (offset remaining : Nat) (acc : List XattrName) :
    Outcome (List XattrName) :=
  if remaining > 0 then do
    let e ← getEntry buf offset
    if e.nameLen + e.valueSize > remaining then
      let nameLen := e.nameLen
      bail s!"v6: invalid xattr name size {nameLen}"
    let name ← getSlice buf (offset + 4) e.nameLen
    let ns ← recoverNamespace e.nameIndex
    let acc := acc ++ [ns ++ name]
    if e.stride ≥ remaining then pure acc
    else getXattrsLoop buf (offset + e.stride) (remaining - e.stride) acc
  else pure acc
termination_by remaining
decreasing_by have := e.stride_pos; omega

/-- `OndiskInodeWrapper::get_xattrs`, for an inode whose `i_xattr_icount` is `total` and whose
xattr area starts `buf`. -/
def getXattrs (total : Nat) (buf : List UInt8) : Outcome (List XattrName) :=
  if total = 0 then .ok [] else getXattrsLoop buf 12 ((total - 1) * 4) []

/-- The loop of `get_xattr`. -/
def getXattrLoop (buf : List UInt8) (name : XattrName) (offset remaining : Nat) :
    Outcome (Option XattrValue) :=
  if remaining > 0 then do
    let e ← getEntry buf offset
    if e.nameLen + e.valueSize > remaining then
      let nameLen := e.nameLen
      bail s!"v6: invalid xattr name size {nameLen}"
    let ns ← recoverNamespace e.nameIndex
    let suffix ← getSlice buf (offset + 4) e.nameLen
    if ns ++ suffix = name then
      return some (← getSlice buf (offset + 4 + e.nameLen) e.valueSize)
    if e.stride ≥ remaining then pure none
    else getXattrLoop buf name (offset + e.stride) (remaining - e.stride)
  else pure none
termination_by remaining
decreasing_by have := e.stride_pos; omega

/-- `OndiskInodeWrapper::get_xattr`. -/
def getXattr (total : Nat) (buf : List UInt8) (name : XattrName) : Outcome (Option XattrValue) :=
  if total = 0 then .ok none else getXattrLoop buf name 12 ((total - 1) * 4)

/-- The size of the xattr area the reader skips (`xattr_size`). -/
def xattrSize (total : Nat) : Nat := if total > 0 then (total - 1) * 4 + 12 else 0


/-! ## Arithmetic of the layout -/

section Layout

variable {n s : Nat}

theorem le_roundUp : n ≤ roundUp n 4 := by
  unfold roundUp
  omega

theorem four_dvd_roundUp : 4 ∣ roundUp n 4 := by
  unfold roundUp
  exact Nat.dvd_mul_left 4 _

theorem roundUp_add (hs : 4 ∣ s) : roundUp (s + n) 4 = s + roundUp n 4 := by
  obtain ⟨k, rfl⟩ := hs
  unfold roundUp
  omega

end Layout

/-! ## Reading back what was written -/

section Lists

variable {α : Type} (pre e post : List α)

theorem getD_append_mid {j : Nat} (hj : j < e.length) (d : α) :
    (pre ++ e ++ post).getD (pre.length + j) d = e.getD j d := by
  simp [List.getD_eq_getElem?_getD, List.getElem?_append_right, List.getElem?_append_left hj]

theorem take_drop_append_mid {j k : Nat} (hjk : j + k ≤ e.length) :
    ((pre ++ e ++ post).drop (pre.length + j)).take k = (e.drop j).take k := by
  rw [List.append_assoc, List.drop_length_add_append, List.drop_append_of_le_length (by omega),
    List.take_append_of_le_length (by simp; omega)]

end Lists

/-! ## Names that `add` accepts -/

/-- What `RafsXAttrs::add` checks of a pair. -/
def Accepted (p : XattrName × XattrValue) : Prop :=
  p.1.length ≤ 255 ∧ p.2.length ≤ 0x10000 ∧ rafsXattrPrefixes.any (·.isPrefixOf p.1) = true

instance : DecidablePred Accepted := fun _ => inferInstanceAs (Decidable (_ ∧ _ ∧ _))

theorem mem_insertPair {name : XattrName} {value : XattrValue} {p : XattrName × XattrValue} :
    ∀ {ps : List (XattrName × XattrValue)}, p ∈ insertPair name value ps → p = (name, value) ∨ p ∈ ps
  | [], h => by simpa [insertPair] using h
  | (n, v) :: ps, h => by
    unfold insertPair at h
    split at h
    · rcases List.mem_cons.mp h with rfl | h
      · exact .inl rfl
      · exact .inr (List.mem_cons_of_mem _ h)
    · rcases List.mem_cons.mp h with rfl | h
      · exact .inr List.mem_cons_self
      · rcases mem_insertPair h with rfl | h
        · exact .inl rfl
        · exact .inr (List.mem_cons_of_mem _ h)

/-- The prefix `match_prefix` finds for a name. -/
def prefixOf (key : XattrName) : Option RafsV6XattrPrefix :=
  rafsv6XattrTypes.find? (·.stem.isPrefixOf key)

theorem stems_cover : ∀ p ∈ rafsXattrPrefixes, ∃ t ∈ rafsv6XattrTypes, t.stem = p := by
  decide

theorem recoverNamespace_index : ∀ t ∈ rafsv6XattrTypes, recoverNamespace t.index = .ok t.stem := by
  decide

theorem index_lt : ∀ t ∈ rafsv6XattrTypes, t.index < 256 := by
  decide

theorem prefixOf_spec {key : XattrName} {t : RafsV6XattrPrefix} (h : prefixOf key = some t) :
    t ∈ rafsv6XattrTypes ∧ t.stem.isPrefixOf key = true :=
  ⟨List.mem_of_find?_eq_some h, by simpa using List.find?_some h⟩

theorem prefixOf_isSome {key : XattrName} (h : rafsXattrPrefixes.any (·.isPrefixOf key) = true) :
    (prefixOf key).isSome := by
  obtain ⟨p, hp, hpk⟩ := List.any_eq_true.mp h
  obtain ⟨t, ht, rfl⟩ := stems_cover p hp
  exact List.find?_isSome.mpr ⟨t, ht, hpk⟩

theorem matchPrefix_eq {key : XattrName} {t : RafsV6XattrPrefix} (h : prefixOf key = some t) :
    RafsXAttrs.matchPrefix key = .ok (t.index, t.stem.length) := by
  unfold RafsXAttrs.matchPrefix
  rw [show rafsv6XattrTypes.find? (·.stem.isPrefixOf key) = some t from h]

/-! ## The entries `store_v6` writes -/

/-- The entry of a pair whose name starts with the prefix `t`: the head, the name without its
prefix, the value, and zeros up to a multiple of 4. -/
def entryBytes (t : RafsV6XattrPrefix) (key : XattrName) (value : XattrValue) : List UInt8 :=
  let nameLen := key.length - t.stem.length
  let size := 4 + nameLen + value.length
  [nameLen.toUInt8, t.index.toUInt8] ++ u16le value.length ++ key.drop t.stem.length ++ value ++
    List.replicate (roundUp size 4 - size) 0

/-- The entry of a pair, by the prefix of its name. -/
def entryOf (p : XattrName × XattrValue) : List UInt8 :=
  match prefixOf p.1 with
  | some t => entryBytes t p.1 p.2
  | none => []

/-- The entries of a list of pairs, one after the other. -/
def written (ps : List (XattrName × XattrValue)) : List UInt8 := (ps.map entryOf).flatten

/-- A pair that `store_v6` can write: its name has a prefix of the table and the sizes fit
their fields. -/
def Storable (p : XattrName × XattrValue) : Prop :=
  p.1.length ≤ 255 ∧ p.2.length ≤ 65535 ∧ (prefixOf p.1).isSome

theorem Storable.exists_stem {key : XattrName} {value : XattrValue} (h : Storable (key, value)) :
    ∃ t, prefixOf key = some t :=
  Option.isSome_iff_exists.mp h.2.2

theorem storable_of_accepted {p : XattrName × XattrValue} (h : Accepted p)
    (hv : p.2.length ≤ 65535) : Storable p :=
  ⟨h.1, hv, prefixOf_isSome h.2.2⟩

section Entry

variable {t : RafsV6XattrPrefix} {key : XattrName} {value : XattrValue}

theorem length_entryBytes :
    (entryBytes t key value).length = roundUp (4 + (key.length - t.stem.length) + value.length) 4 := by
  have : 4 + (key.length - t.stem.length) + value.length ≤
      roundUp (4 + (key.length - t.stem.length) + value.length) 4 := le_roundUp
  simp only [entryBytes, u16le, List.length_append, List.length_cons, List.length_nil,
    List.length_drop, List.length_replicate]
  omega

theorem le_length_entryBytes (t : RafsV6XattrPrefix) (key : XattrName) (value : XattrValue) :
    4 + (key.length - t.stem.length) + value.length ≤ (entryBytes t key value).length :=
  length_entryBytes ▸ le_roundUp

theorem written_cons {ps : List (XattrName × XattrValue)} (h : prefixOf key = some t) :
    written ((key, value) :: ps) = entryBytes t key value ++ written ps := by
  simp [written, entryOf, h]

theorem append_written_cons (pre post : List UInt8) {ps : List (XattrName × XattrValue)}
    (h : prefixOf key = some t) :
    pre ++ written ((key, value) :: ps) ++ post =
      pre ++ entryBytes t key value ++ (written ps ++ post) := by
  simp [written_cons h]

theorem storeEntry_eq (h : prefixOf key = some t) (hv : value.length ≤ 65535) :
    RafsXAttrs.storeEntry key value = .ok (entryBytes t key value) := by
  have hlen : t.stem.length ≤ key.length :=
    (List.isPrefixOf_iff_prefix.mp (prefixOf_spec h).2).length_le
  simp only [RafsXAttrs.storeEntry, matchPrefix_eq h, ok_bind]
  rw [if_neg (by omega), if_neg (by omega)]
  rfl

end Entry

/-! ## What `store_v6`, `aligned_size_v6` and `count_v6` compute -/

section Store

variable {ps : List (XattrName × XattrValue)}

theorem storeV6_eq {xs : RafsXAttrs} (hs : ∀ p ∈ xs.pairs, Storable p) :
    xs.storeV6 = .ok (List.replicate 12 0 ++ written xs.pairs) := by
  have hentries : xs.pairs.mapM (fun p => RafsXAttrs.storeEntry p.1 p.2) = .ok (xs.pairs.map entryOf) := by
    refine mapM_eq_ok fun ⟨key, value⟩ hp => ?_
    obtain ⟨t, ht⟩ := (hs _ hp).exists_stem
    rw [storeEntry_eq ht (hs _ hp).2.1]
    simp [entryOf, ht]
  simp only [RafsXAttrs.storeV6, hentries, ok_bind]
  rfl

theorem four_dvd_length_written (hs : ∀ p ∈ ps, Storable p) : 4 ∣ (written ps).length := by
  induction ps with
  | nil => simp [written]
  | cons p ps ih =>
    obtain ⟨key, value⟩ := p
    obtain ⟨hpair, hs⟩ := List.forall_mem_cons.mp hs
    obtain ⟨t, ht⟩ := hpair.exists_stem
    rw [written_cons ht, List.length_append, length_entryBytes]
    exact Nat.dvd_add four_dvd_roundUp (ih hs)

/-- One step of the running size of `aligned_size_v6`. -/
def alignedStep (size : Nat) (p : XattrName × XattrValue) : Nat :=
  roundUp (size + 4 + (p.1.length - ((prefixOf p.1).map (·.stem.length)).getD 0) + p.2.length) 4

theorem foldl_alignedStep (hs : ∀ p ∈ ps, Storable p) :
    ∀ {size : Nat}, 4 ∣ size → ps.foldl alignedStep size = size + (written ps).length := by
  induction ps with
  | nil => simp [written]
  | cons p ps ih =>
    intro size hsize
    obtain ⟨key, value⟩ := p
    obtain ⟨hpair, hs⟩ := List.forall_mem_cons.mp hs
    obtain ⟨t, ht⟩ := hpair.exists_stem
    have hstep : alignedStep size (key, value) = size + (entryBytes t key value).length := by
      rw [alignedStep, ht, length_entryBytes, ← roundUp_add hsize]
      congr 1
      simp only [Option.map_some, Option.getD_some]
      omega
    have hdvd : 4 ∣ alignedStep size (key, value) := four_dvd_roundUp
    rw [List.foldl_cons, ih hs hdvd, hstep,
      written_cons ht, List.length_append, Nat.add_assoc]

theorem alignedSizeV6_eq {xs : RafsXAttrs} (hs : ∀ p ∈ xs.pairs, Storable p)
    (hne : xs.pairs ≠ []) : xs.alignedSizeV6 = .ok (12 + (written xs.pairs).length) := by
  rw [RafsXAttrs.alignedSizeV6, if_neg hne, ← foldl_alignedStep hs (by decide)]
  refine foldlM_eq_ok_foldl fun size ⟨key, value⟩ hp => ?_
  obtain ⟨t, ht⟩ := (hs _ hp).exists_stem
  simp [matchPrefix_eq ht, alignedStep, ht]

end Store

/-! ## Reading one entry back -/

section Read

variable {t : RafsV6XattrPrefix} {key : XattrName} {value : XattrValue} (pre post : List UInt8)

theorem entryBytes_eq_cons :
    entryBytes t key value = (key.length - t.stem.length).toUInt8 :: t.index.toUInt8 ::
      value.length.toUInt8 :: (value.length / 256).toUInt8 ::
        (key.drop t.stem.length ++ value ++ List.replicate
          (roundUp (4 + (key.length - t.stem.length) + value.length) 4 -
            (4 + (key.length - t.stem.length) + value.length)) 0) := by
  simp [entryBytes, u16le]

theorem getEntry_entryBytes (h : prefixOf key = some t) (hk : key.length ≤ 255)
    (hv : value.length ≤ 65535) :
    getEntry (pre ++ entryBytes t key value ++ post) pre.length =
      .ok ⟨key.length - t.stem.length, t.index, value.length⟩ := by
  have hidx := index_lt t (prefixOf_spec h).1
  have hlen := le_length_entryBytes t key value
  have hread (j : Nat) (hj : j < 4) :
      (pre ++ entryBytes t key value ++ post).getD (pre.length + j) 0 =
        (entryBytes t key value).getD j 0 :=
    getD_append_mid pre _ post (by omega) 0
  unfold getEntry
  rw [if_pos (by simp only [List.length_append]; omega)]
  rw [← Nat.add_zero pre.length, hread 0 (by decide), hread 1 (by decide),
    Nat.add_assoc, hread 2 (by decide), Nat.add_assoc, hread 3 (by decide)]
  simp only [entryBytes_eq_cons, List.getD_cons_zero, List.getD_cons_succ, Nat.toUInt8,
    UInt8.toNat_ofNat', Except.ok.injEq, RafsV6XattrEntry.mk.injEq]
  omega

theorem getSlice_name :
    getSlice (pre ++ entryBytes t key value ++ post) (pre.length + 4)
      (key.length - t.stem.length) = .ok (key.drop t.stem.length) := by
  have hlen := le_length_entryBytes t key value
  unfold getSlice
  rw [if_pos (by simp only [List.length_append]; omega),
    take_drop_append_mid pre _ post (by omega)]
  simp [entryBytes_eq_cons]

theorem getSlice_value :
    getSlice (pre ++ entryBytes t key value ++ post)
      (pre.length + 4 + (key.length - t.stem.length)) value.length = .ok value := by
  have hlen := le_length_entryBytes t key value
  unfold getSlice
  rw [if_pos (by simp only [List.length_append]; omega), Nat.add_assoc,
    take_drop_append_mid pre _ post (by omega), entryBytes_eq_cons, Nat.add_comm 4]
  simp only [List.drop_succ_cons]
  rw [List.append_assoc, List.drop_left' List.length_drop, List.take_left' rfl]

theorem stride_entryBytes :
    (⟨key.length - t.stem.length, t.index, value.length⟩ : RafsV6XattrEntry).stride =
      (entryBytes t key value).length := by
  rw [RafsV6XattrEntry.stride, length_entryBytes]
  congr 1
  dsimp only
  omega

theorem stem_append_drop (h : prefixOf key = some t) : t.stem ++ key.drop t.stem.length = key :=
  List.prefix_iff_eq_append.mp (List.isPrefixOf_iff_prefix.mp (prefixOf_spec h).2)

end Read

/-! ## Reading the whole area back -/

section Loops

variable (post : List UInt8)

theorem length_written_pos {ps : List (XattrName × XattrValue)} (hs : ∀ p ∈ ps, Storable p)
    (hne : ps ≠ []) : 0 < (written ps).length := by
  obtain ⟨⟨key, value⟩, ps, rfl⟩ := List.exists_cons_of_ne_nil hne
  obtain ⟨t, ht⟩ := (hs _ List.mem_cons_self).exists_stem
  have := le_length_entryBytes t key value
  rw [written_cons ht, List.length_append]
  omega

/-- **The loop of `get_xattrs`** over the entries of `ps`, at their offset with their length as
budget, lists their names. The induction is on `ps`; each turn reads one entry and moves
`offset` past it, which keeps the form `pre ++ written ps ++ post`. -/
theorem getXattrsLoop_written :
    ∀ (ps : List (XattrName × XattrValue)) (pre : List UInt8) (acc : List XattrName),
      ps ≠ [] → (∀ p ∈ ps, Storable p) →
      getXattrsLoop (pre ++ written ps ++ post) pre.length (written ps).length acc =
        .ok (acc ++ ps.map Prod.fst)
  | [], _, _, hne, _ => absurd rfl hne
  | (key, value) :: ps, pre, acc, _, hs => by
    obtain ⟨hpair, hs⟩ := List.forall_mem_cons.mp hs
    obtain ⟨t, ht⟩ := hpair.exists_stem
    obtain ⟨hk, hv, -⟩ := hpair
    have hlen := le_length_entryBytes t key value
    rw [append_written_cons pre post ht, written_cons ht, getXattrsLoop, List.length_append]
    simp only [getEntry_entryBytes pre _ ht hk hv, ok_bind, getSlice_name,
      recoverNamespace_index t (prefixOf_spec ht).1, stem_append_drop ht, stride_entryBytes]
    rw [if_pos (by omega), if_neg (by omega)]
    by_cases hps : ps = []
    -- the last entry: its stride is what is left of the budget
    · subst hps
      simp [written]
    · have hrest := getXattrsLoop_written ps (pre ++ entryBytes t key value) (acc ++ [key]) hps hs
      have hpos := length_written_pos hs hps
      rw [if_neg (by omega), Nat.add_sub_cancel_left, ← List.length_append, List.append_assoc]
      simpa using hrest

/-- **The loop of `get_xattr`** over the entries of `ps` finds the value of the first pair of
the name, and none past the last entry. -/
theorem getXattrLoop_written (name : XattrName) :
    ∀ (ps : List (XattrName × XattrValue)) (pre : List UInt8),
      ps ≠ [] → (∀ p ∈ ps, Storable p) →
      getXattrLoop (pre ++ written ps ++ post) name pre.length (written ps).length =
        .ok (ps.lookup name)
  | [], _, hne, _ => absurd rfl hne
  | (key, value) :: ps, pre, _, hs => by
    obtain ⟨hpair, hs⟩ := List.forall_mem_cons.mp hs
    obtain ⟨t, ht⟩ := hpair.exists_stem
    obtain ⟨hk, hv, -⟩ := hpair
    have hlen := le_length_entryBytes t key value
    rw [append_written_cons pre post ht, written_cons ht, getXattrLoop, List.length_append]
    simp only [getEntry_entryBytes pre _ ht hk hv, ok_bind, getSlice_name,
      recoverNamespace_index t (prefixOf_spec ht).1, stem_append_drop ht, stride_entryBytes]
    rw [if_pos (by omega), if_neg (by omega)]
    by_cases hkey : key = name
    · subst hkey
      rw [if_pos rfl, getSlice_value]
      simp
    rw [if_neg hkey]
    have hlookup : ((key, value) :: ps).lookup name = ps.lookup name := by
      rw [List.lookup_cons, beq_false_of_ne (Ne.symm hkey)]
    rw [hlookup]
    by_cases hps : ps = []
    · subst hps
      simp [written]
    · have hrest := getXattrLoop_written name ps (pre ++ entryBytes t key value) hps hs
      have hpos := length_written_pos hs hps
      rw [if_neg (by omega), Nat.add_sub_cancel_left, ← List.length_append, List.append_assoc]
      simpa using hrest

end Loops

theorem lookup_of_mem {ps : List (XattrName × XattrValue)} (hnd : (ps.map Prod.fst).Nodup)
    {p : XattrName × XattrValue} (hp : p ∈ ps) : ps.lookup p.1 = some p.2 := by
  obtain ⟨l₁, l₂, rfl⟩ := List.append_of_mem hp
  refine List.lookup_eq_some_iff.mpr ⟨l₁, l₂, rfl, fun q hq => ?_⟩
  simp only [List.map_append, List.map_cons] at hnd
  have hne := (List.nodup_append.mp hnd).2.2 q.1 (List.mem_map_of_mem hq) p.1 List.mem_cons_self
  exact bne_iff_ne.mpr (Ne.symm hne)

/-! ## The round trip -/

/-- **Round trip of the inline xattr area.** Take a non-empty set whose pairs pass the checks of
`add`, each value short enough for its `u16` size field, and its `count_v6`, which the builder
checks against `u16::MAX` and stores `as u16` in `i_xattr_icount`. Then `store_v6` writes exactly
`aligned_size_v6` bytes, which is what the reader skips (`xattr_size`), and, whatever follows
the area, `get_xattrs` lists the stored names while `get_xattr` finds the value of each stored
name and none for any other. -/
theorem storeV6_roundtrip {xs : RafsXAttrs} {count : Nat} (hacc : ∀ p ∈ xs.pairs, Accepted p)
    (hval : ∀ p ∈ xs.pairs, p.2.length ≤ 65535) (hne : xs.pairs ≠ [])
    (hcount : xs.countV6 = .ok count) (hfit : count < 2 ^ 16) :
    ∃ area size, xs.storeV6 = .ok area ∧ xs.alignedSizeV6 = .ok size ∧ area.length = size ∧
      xattrSize (count % 2 ^ 16) = size ∧ ∀ rest,
        getXattrs (count % 2 ^ 16) (area ++ rest) = .ok (xs.pairs.map Prod.fst) ∧
        (∀ p ∈ xs.pairs, getXattr (count % 2 ^ 16) (area ++ rest) p.1 = .ok (some p.2)) ∧
        ∀ name ∉ xs.pairs.map Prod.fst, getXattr (count % 2 ^ 16) (area ++ rest) name = .ok none := by
  have hs : ∀ p ∈ xs.pairs, Storable p := fun p hp => storable_of_accepted (hacc p hp) (hval p hp)
  have hsize := alignedSizeV6_eq hs hne
  have hpos := length_written_pos hs hne
  have hdvd := four_dvd_length_written hs
  -- `count_v6` is one more than the number of 4-byte units after the header
  have hcount' : count = (written xs.pairs).length / 4 + 1 := by
    rw [RafsXAttrs.countV6, if_neg hne, hsize, ok_bind, pure_eq_ok, Except.ok.injEq] at hcount
    omega
  have hbudget : (count % 2 ^ 16 - 1) * 4 = (written xs.pairs).length := by
    rw [Nat.mod_eq_of_lt hfit, hcount']
    omega
  have harea : (List.replicate 12 (0 : UInt8) ++ written xs.pairs).length =
      12 + (written xs.pairs).length := by
    rw [List.length_append, List.length_replicate]
  refine ⟨_, _, storeV6_eq hs, hsize, harea, ?_, fun rest => ⟨?_, ?_, ?_⟩⟩
  · rw [xattrSize, if_pos (by omega), hbudget, Nat.add_comm]
  all_goals
    simp only [getXattrs, getXattr, if_neg (show count % 2 ^ 16 ≠ 0 by omega), hbudget]
  · simpa using getXattrsLoop_written rest xs.pairs (List.replicate 12 0) [] hne hs
  · intro p hp
    simpa [lookup_of_mem xs.nodup hp] using
      getXattrLoop_written rest p.1 xs.pairs (List.replicate 12 0) hne hs
  · intro name hname
    have hnone : xs.pairs.lookup name = none := by
      simp only [List.lookup_eq_none_iff, bne_iff_ne]
      rintro p hp rfl
      exact hname (List.mem_map_of_mem hp)
    simpa [hnone] using getXattrLoop_written rest name xs.pairs (List.replicate 12 0) hne hs

/-- One attribute `user.a` with the value `v`. -/
def userXattrs : RafsXAttrs := ⟨[(ascii "user.a", ascii "v")], by decide⟩

theorem storeV6_roundtrip_user_a :
    (∀ p ∈ userXattrs.pairs, Accepted p) ∧ (∀ p ∈ userXattrs.pairs, p.2.length ≤ 65535) ∧
      userXattrs.pairs ≠ [] ∧ userXattrs.countV6 = .ok 3 ∧ 3 < 2 ^ 16 ∧
      ∃ area size, userXattrs.storeV6 = .ok area ∧ userXattrs.alignedSizeV6 = .ok size ∧
        area.length = size ∧ xattrSize (3 % 2 ^ 16) = size ∧ ∀ rest,
          getXattrs (3 % 2 ^ 16) (area ++ rest) = .ok (userXattrs.pairs.map Prod.fst) ∧
          (∀ p ∈ userXattrs.pairs,
            getXattr (3 % 2 ^ 16) (area ++ rest) p.1 = .ok (some p.2)) ∧
          ∀ name ∉ userXattrs.pairs.map Prod.fst,
            getXattr (3 % 2 ^ 16) (area ++ rest) name = .ok none :=
  have hacc : ∀ p ∈ userXattrs.pairs, Accepted p := by decide
  have hval : ∀ p ∈ userXattrs.pairs, p.2.length ≤ 65535 := by decide
  have hne : userXattrs.pairs ≠ [] := by decide
  have hcount : userXattrs.countV6 = .ok 3 := by decide
  ⟨hacc, hval, hne, hcount, by decide, storeV6_roundtrip hacc hval hne hcount (by decide)⟩

/-- With no attributes `store_v6` still writes the 12-byte header, while `aligned_size_v6`, the
size the builder reserves, and `count_v6` are 0. -/
theorem storeV6_empty_header :
    RafsXAttrs.new.storeV6 = .ok (List.replicate 12 0) ∧ RafsXAttrs.new.alignedSizeV6 = .ok 0 ∧
      RafsXAttrs.new.countV6 = .ok 0 :=
  ⟨rfl, rfl, rfl⟩

end Nydus.Rafs.V6
