import Mathlib
import Nydus.Lib.Outcome
import Nydus.Storage.ChunkArray
import Nydus.Storage.ChunkExtend

/-!
# The compressed lookup of a chunk (`storage/src/meta/mod.rs`)

With `compressed = true`, `_get_chunk_index_nocheck` reads at `mid` the range that
`get_compressed_info` gives: the range of its batch for a batch member, the entry's own
otherwise. The members of a batch all read one range, and from a member whose offset in the
batch buffer is positive the search moves left, towards the batch's first member.

The search finds the least index whose range holds the address when the ranges come in the
order of the array (`CompressedLayout`): a batch is a run whose first member has offset 0 and
whose later members a positive one and the range of the member before, and the ranges of two
entries not in one run are disjoint, the earlier first. Then the lookup returns `Ok(i)` exactly
for the least index whose range holds the address, and an `Err`, not a panic, when none does
(`getChunkIndexNocheck_compressed`). The search keeps that index in its window: an entry left of
it ends before it or shares its run, and an entry right of it starts after the address or
shares its range.

Disjoint ranges among the entries outside batches are not enough: an entry outside a batch
whose range meets the batch's is passed over when the search lands on the batch first
(`getChunkIndexNocheck_compressed_passes_overlap`).
-/

namespace Nydus.Storage.Meta

open Nydus.Lib BlobMetaChunkInfo
open Nydus.Lib.Outcome (bail)

section Layout

variable {T : Type} [BlobMetaChunkInfo T]

/-- A member of a batch after its first: the search moves left from it. -/
def IsLaterMember (e : T) : Prop :=
  isBatch e = true ∧ ∃ o, getUncompressedOffsetInBatchBuf e = .ok o ∧ 0 < o

/-- The range `range i` that the search reads at each index comes in the order of the array:
the run of a batch starts at a member that is not a later one and its later members share the
range of the member before them; the ranges of two entries with the start of a run between them
are disjoint, the earlier first. -/
structure CompressedLayout (state : BlobCompressionContext) (chunks : List T)
    (range : Nat → Nat × Nat) : Prop where
  read : ∀ i e, chunks[i]? = some e → readRange state true i e = .ok (range i)
  batchReadable : BatchReadable chunks
  head : ∀ e, chunks[0]? = some e → ¬IsLaterMember e
  later : ∀ i e, chunks[i + 1]? = some e → IsLaterMember e → range (i + 1) = range i
  ordered : ∀ i l j f, i < l → l ≤ j → j < chunks.length → chunks[l]? = some f →
    ¬IsLaterMember f → (range i).2 ≤ (range j).1

theorem le_of_readRange {state : BlobCompressionContext} {mid : Nat} {e : T} {r : Nat × Nat}
    (h : readRange state true mid e = .ok r) : r.1 ≤ r.2 := by
  simp only [readRange, if_true, bind_eq_ok] at h
  obtain ⟨⟨o, s⟩, -, h⟩ := h
  split_ifs at h
  · cases h
    exact Nat.le_add_right o s
  · cases h

theorem probe_of_later {addr : Nat} {r : Nat × Nat} {e : T} (h₁ : r.1 ≤ addr) (h₂ : addr < r.2)
    (hlater : IsLaterMember e) : probe r addr e = .ok .goLeft := by
  obtain ⟨hb, o, ho, hpos⟩ := hlater
  simp [probe, Nat.not_lt.mpr h₁, Nat.not_le.mpr h₂, hb, ho, hpos]

theorem probe_of_not_later {addr : Nat} {r : Nat × Nat} {e : T} (h₁ : r.1 ≤ addr)
    (h₂ : addr < r.2) (hb : isBatch e = true → ∃ o, getUncompressedOffsetInBatchBuf e = .ok o)
    (hn : ¬IsLaterMember e) : probe r addr e = .ok .found := by
  refine probe_eq_found.mpr ⟨h₁, h₂, fun hbatch => ?_⟩
  obtain ⟨o, ho⟩ := hb hbatch
  have hzero : o = 0 := by
    by_contra hne
    exact hn ⟨hbatch, o, ho, Nat.pos_of_ne_zero hne⟩
  rw [ho, hzero]

namespace CompressedLayout

variable {state : BlobCompressionContext} {chunks : List T} {range : Nat → Nat × Nat}
  (hl : CompressedLayout state chunks range)
include hl

theorem range_le {i : Nat} (hi : i < chunks.length) : (range i).1 ≤ (range i).2 :=
  le_of_readRange (hl.read i _ (List.getElem?_eq_getElem hi))

theorem range_run {i : Nat} : ∀ {j : Nat}, i ≤ j → j < chunks.length →
    (∀ l f, i < l → l ≤ j → chunks[l]? = some f → IsLaterMember f) → range j = range i
  | 0, hij, _, _ => by rw [Nat.le_zero.mp hij]
  | j + 1, hij, hj, hrun => by
    rcases Nat.eq_or_lt_of_le hij with rfl | hlt
    · rfl
    · have hstep : range (j + 1) = range j :=
        hl.later j _ (List.getElem?_eq_getElem hj)
          (hrun (j + 1) _ hlt le_rfl (List.getElem?_eq_getElem hj))
      rw [hstep]
      exact range_run (by omega) (by omega) fun l f h₁ h₂ hf => hrun l f h₁ (by omega) hf

theorem range_cases {i j : Nat} (hij : i < j) (hj : j < chunks.length) :
    (range i).2 ≤ (range j).1 ∨
      (range j = range i ∧ ∀ l f, i < l → l ≤ j → chunks[l]? = some f → IsLaterMember f) := by
  by_cases hstart : ∃ l f, i < l ∧ l ≤ j ∧ chunks[l]? = some f ∧ ¬IsLaterMember f
  · obtain ⟨l, f, hil, hlj, hf, hn⟩ := hstart
    exact .inl (hl.ordered i l j f hil hlj hj hf hn)
  · simp only [not_exists, not_and, not_not] at hstart
    exact .inr ⟨hl.range_run hij.le hj hstart, hstart⟩

/-- **Completeness.** A window holding the least index whose range holds the address returns
it. An entry left of that index ends before the address, or would hold it too; an entry right
of it starts after the address, or is a later member of its run. -/
theorem searchChunk_least {addr k : Nat} (hk : k < chunks.length)
    (hin : (range k).1 ≤ addr ∧ addr < (range k).2)
    (hleast : ∀ j < k, ¬((range j).1 ≤ addr ∧ addr < (range j).2))
    (left right start stop : Nat) (hleft : left ≤ k) (hright : k < right)
    (hlen : right ≤ chunks.length) :
    searchChunk state chunks addr true left right start stop = .ok (.found k) := by
  induction left, right using window_induction generalizing start stop with
  | empty left right hle => omega
  | halves left right hlt ihl ihr =>
    have hmid : left + (right - left) / 2 < chunks.length := by omega
    obtain ⟨m, hm⟩ : ∃ m, chunks[left + (right - left) / 2]? = some m :=
      ⟨_, List.getElem?_eq_getElem hmid⟩
    rw [searchChunk_eq_of_range hlt hm (hl.read _ m hm)]
    rcases Nat.lt_trichotomy (left + (right - left) / 2) k with hlt' | heq | hgt
    · rcases hl.range_cases hlt' hk with hend | ⟨hsame, -⟩
      · have hstart := hl.range_le hmid
        rw [probe_goRight (by omega) (by omega), ok_bind]
        exact ihr _ _ (by omega) hright hlen
      · exact absurd (hsame ▸ hin) (hleast _ hlt')
    · subst heq
      have hfirst : ¬IsLaterMember m := by
        intro hlater
        rcases Nat.eq_zero_or_pos (left + (right - left) / 2) with hzero | hpos
        · exact hl.head m (hzero ▸ hm) hlater
        · have hsucc : left + (right - left) / 2 - 1 + 1 = left + (right - left) / 2 := by omega
          have hprev := hl.later _ m (by rw [hsucc]; exact hm) hlater
          rw [hsucc] at hprev
          exact hleast _ (by omega) (hprev ▸ hin)
      rw [probe_of_not_later hin.1 hin.2 (hl.batchReadable m (List.mem_of_getElem? hm)) hfirst,
        ok_bind]
    · rcases hl.range_cases hgt hmid with hend | ⟨hsame, hrun⟩
      · rw [probe_goLeft (by omega), ok_bind]
        exact ihl _ _ hleft (by omega) (by omega)
      · have hlater := hrun _ m hgt le_rfl hm
        rw [probe_of_later (hsame ▸ hin.1) (hsame ▸ hin.2) hlater, ok_bind]
        exact ihl _ _ hleft (by omega) (by omega)

end CompressedLayout

theorem getChunkIndexNocheck_eq_ok {state : BlobCompressionContext} {chunks : List T}
    {addr i : Nat} {compressed : Bool} :
    getChunkIndexNocheck state chunks addr compressed false = .ok i ↔
      searchChunk state chunks addr compressed 0 chunks.length 0 0 = .ok (.found i) := by
  constructor
  · intro h
    simp only [getChunkIndexNocheck, bind_eq_ok] at h
    obtain ⟨r, hr, h⟩ := h
    cases r with
    | found index =>
      cases h
      exact hr
    | exhausted => simp [bail] at h
  · intro h
    rw [getChunkIndexNocheck, h]
    rfl

theorem getChunkIndexNocheck_compressed {state : BlobCompressionContext} {chunks : List T}
    {range : Nat → Nat × Nat} (hl : CompressedLayout state chunks range) (addr i : Nat) :
    (getChunkIndexNocheck state chunks addr true false = .ok i ↔
      i < chunks.length ∧ ((range i).1 ≤ addr ∧ addr < (range i).2) ∧
        ∀ j < i, ¬((range j).1 ≤ addr ∧ addr < (range j).2)) ∧
    ((∀ j < chunks.length, ¬((range j).1 ≤ addr ∧ addr < (range j).2)) →
      ∃ msg, getChunkIndexNocheck state chunks addr true false = bail msg) := by
  -- an index the search returns holds the address in its range
  have hfound : ∀ i, searchChunk state chunks addr true 0 chunks.length 0 0 = .ok (.found i) →
      i < chunks.length ∧ (range i).1 ≤ addr ∧ addr < (range i).2 := by
    intro i h
    obtain ⟨e, r, he, hr, hp⟩ := searchChunk_found 0 chunks.length 0 0 h
    rw [hl.read i e he, Except.ok.injEq] at hr
    subst hr
    obtain ⟨h₁, h₂, -⟩ := probe_eq_found.mp hp
    exact ⟨(List.getElem?_eq_some_iff.mp he).1, h₁, h₂⟩
  -- and the search returns the least such index
  have hleast : ∀ k, k < chunks.length → ((range k).1 ≤ addr ∧ addr < (range k).2) →
      (∀ j < k, ¬((range j).1 ≤ addr ∧ addr < (range j).2)) →
      searchChunk state chunks addr true 0 chunks.length 0 0 = .ok (.found k) :=
    fun k hk hin hmin => hl.searchChunk_least hk hin hmin 0 chunks.length 0 0 (Nat.zero_le k) hk
      le_rfl
  refine ⟨⟨fun h => ?_, fun ⟨hi, hin, hmin⟩ => ?_⟩, fun hnone => ?_⟩
  · have hsearch := getChunkIndexNocheck_eq_ok.mp h
    obtain ⟨hi, hin⟩ := hfound i hsearch
    have hex : ∃ k, (range k).1 ≤ addr ∧ addr < (range k).2 := ⟨i, hin⟩
    have hk := Nat.find_spec hex
    have hmin : ∀ j < Nat.find hex, ¬((range j).1 ≤ addr ∧ addr < (range j).2) :=
      fun j hj => Nat.find_min hex hj
    have hle : Nat.find hex ≤ i := Nat.find_min' hex hin
    have heq := hleast _ (by omega) hk hmin
    rw [hsearch, Except.ok.injEq, SearchEnd.found.injEq] at heq
    rw [← heq] at hmin
    exact ⟨hi, hin, hmin⟩
  · exact getChunkIndexNocheck_eq_ok.mpr (hleast i hi hin hmin)
  · obtain ⟨r, hr⟩ : ∃ r, searchChunk state chunks addr true 0 chunks.length 0 0 = .ok r :=
      searchChunk_ok_of_read hl.batchReadable (fun i e he => ⟨_, hl.read i e he⟩) 0 chunks.length
        0 0 le_rfl
    cases r with
    | found i =>
      obtain ⟨hi, hin⟩ := hfound i hr
      exact absurd hin (hnone i hi)
    | exhausted =>
      rw [getChunkIndexNocheck, hr]
      exact ⟨_, rfl⟩

end Layout

/-! ## Batches in a V2 array -/

/-- The range every member of `twoMemberBatch` reads: the batch's 100 compressed bytes. -/
def twoMemberRange : Nat → Nat × Nat := fun _ => (0, 100)

theorem twoMemberBatch_layout :
    CompressedLayout twoMemberBatch [batchMember 0 0, batchMember 1 4096] twoMemberRange where
  read := by
    rintro (_ | _ | i) e he
    · cases he
      decide
    · cases he
      decide
    · cases he
  batchReadable := batchReadable_v2 _
  head := by
    rintro e he ⟨-, o, ho, hpos⟩
    cases he
    have hzero : getUncompressedOffsetInBatchBuf (batchMember 0 0) = .ok 0 := by decide
    rw [hzero, Except.ok.injEq] at ho
    omega
  later _ _ _ _ := rfl
  ordered := by
    intro i l j f hil hlj hj hf hn
    have hl : l = 1 := by
      simp only [List.length_cons, List.length_nil] at hj
      omega
    subst hl
    cases hf
    exact absurd ⟨by decide, 4096, by decide, by decide⟩ hn

theorem getChunkIndexNocheck_compressed_two_members :
    (getChunkIndexNocheck twoMemberBatch [batchMember 0 0, batchMember 1 4096] 30 true false =
        .ok 0 ↔
      0 < [batchMember 0 0, batchMember 1 4096].length ∧
        ((twoMemberRange 0).1 ≤ 30 ∧ 30 < (twoMemberRange 0).2) ∧
        ∀ j < 0, ¬((twoMemberRange j).1 ≤ 30 ∧ 30 < (twoMemberRange j).2)) ∧
    ((∀ j < [batchMember 0 0, batchMember 1 4096].length,
        ¬((twoMemberRange j).1 ≤ 30 ∧ 30 < (twoMemberRange j).2)) →
      ∃ msg, getChunkIndexNocheck twoMemberBatch [batchMember 0 0, batchMember 1 4096] 30 true
        false = bail msg) :=
  getChunkIndexNocheck_compressed twoMemberBatch_layout 30 0

/-- A chunk of 60 compressed bytes at 0, then a batch of two members whose 50 compressed bytes
start at 50, inside the chunk's range. -/
def overlapChunks : List BlobChunkInfoV2Ondisk := [plainChunk 0 0 60, batchMember 1 0, batchMember 2 4096]

def overlapBlob : BlobCompressionContext :=
  ⟨0, 0, 110, 12288, .v2 overlapChunks, [⟨50, 50⟩], []⟩

/-- The array is sorted by compressed offset, its one batch is a run whose first member has
offset 0, and the one entry outside it has a range of its own; the address 55 lies in the
chunk's range and in the batch's. The search lands on the batch's first member and returns
it, not the chunk before it. -/
theorem getChunkIndexNocheck_compressed_passes_overlap :
    overlapChunks.map BlobChunkInfoV2Ondisk.compressedOffset = [0, 0, 0] ∧
      overlapChunks.map BlobChunkInfoV2Ondisk.isBatch = [false, true, true] ∧
      overlapBlob.getCompressedInfo 0 = .ok (0, 60) ∧
      overlapBlob.getCompressedInfo 1 = .ok (50, 50) ∧
      overlapBlob.getCompressedInfo 2 = .ok (50, 50) ∧
      (batchMember 1 0).getUncompressedOffsetInBatchBuf = .ok 0 ∧
      (batchMember 2 4096).getUncompressedOffsetInBatchBuf = .ok 4096 ∧
      getChunkIndexNocheck overlapBlob overlapChunks 55 true false = .ok 1 := by
  have hread : readRange overlapBlob true (0 + (3 - 0) / 2) (batchMember 1 0) = .ok (50, 100) := by
    decide
  have hprobe : probe (50, 100) 55 (batchMember 1 0) = .ok .found := by decide
  have hsearch : searchChunk overlapBlob overlapChunks 55 true 0 overlapChunks.length 0 0 =
      .ok (.found 1) := by
    change searchChunk overlapBlob overlapChunks 55 true 0 3 0 0 = .ok (.found 1)
    rw [searchChunk_eq_of_range (by decide) rfl hread, hprobe, ok_bind]
  exact ⟨by decide, by decide, by decide, by decide, by decide, by decide, by decide,
    getChunkIndexNocheck_eq_ok.mpr hsearch⟩

end Nydus.Storage.Meta
