import Mathlib.Logic.Function.Basic
import Nydus.Lib.Reach
import Nydus.Storage.ChunkMap

/-!
# Concurrent chunk readiness (`storage/src/cache/state/blob_state_map.rs`)

`BlobStateMap` lets threads share a base `ChunkMap`: a thread that finds a chunk not ready
marks it pending (an inflight `Slot` in `inflight_tracer`, a `HashMap` behind a `Mutex`),
downloads it, and then calls `set_ready_and_clear_pending` or `clear_pending`; a thread that
finds the chunk pending waits on its slot and checks again.

The model is the map with any number of threads (`τ`), each at a place of its current call
(`Phase`). A step (`step`) is one atomic action of one thread: a call of the base map, or a
critical section under the tracer's lock. `check_ready_and_mark_pending` has three: the first
`is_ready` (`read`), the locked section that waits on an existing slot or double checks and
inserts one (`markPending`), and the wake or timeout of `wait_for_inflight`. The base map's
calls are single steps.

The protocol of the `ChunkMap` contract is built in: a thread that received `Ok(false)` owns
the chunk (`Phase.holds`) and its next calls are `set_ready_and_clear_pending` or
`clear_pending`; any other thread may start a new call. Over every interleaving, the tracer
holds a slot for a chunk exactly when one thread owns it, no two threads own one chunk, and a
thread that received `Ok(true)` for a chunk finds it ready in the base map (`Inv`).
-/

namespace Nydus.Storage

open Nydus.Lib

/-- `Status` of a `Slot`. -/
inductive Status where
  | inflight
  | complete
  deriving DecidableEq, Repr

/-- Where a thread is in its current call on the map. -/
inductive Phase (ι : Type) where
  /-- Not in a call. -/
  | idle
  /-- In `check_ready_and_mark_pending`, before its first `is_ready`. -/
  | check (i : ι)
  /-- The chunk was not ready: before taking the tracer's lock. -/
  | lock (i : ι)
  /-- In `wait_for_inflight` on a slot. -/
  | wait (i : ι) (slot : Nat)
  /-- The call returned `Ok(true)`. -/
  | ready (i : ι)
  /-- The call returned `Ok(false)`: the thread owns the pending chunk. -/
  | owner (i : ι)
  /-- The call returned an `Err` (`CacheIndex` or `Timeout`). -/
  | failed (i : ι)
  /-- In `set_ready_and_clear_pending`, between the base map's call and `clear_pending`. -/
  | clearing (i : ι)
  deriving DecidableEq, Repr

/-- The chunk a thread owns: it received `Ok(false)` and has not cleared the chunk yet. -/
def Phase.holds {ι : Type} : Phase ι → Option ι
  | .owner i | .clearing i => some i
  | _ => none

/-- The map and its threads. -/
structure World (σ ι τ : Type) where
  /-- The base map. -/
  base : σ
  /-- `inflight_tracer`: the slot of each pending chunk. -/
  tracer : ι → Option Nat
  /-- Every slot made so far, by number. -/
  slots : Nat → Status
  /-- The number of the next slot. -/
  nextSlot : Nat
  threads : τ → Phase ι

/-- One atomic action of a thread. -/
inductive Act (ι : Type) where
  /-- `check_ready_and_mark_pending(chunk)` is called. -/
  | call (i : ι)
  /-- Its first `is_ready`. -/
  | read
  /-- Its section under the tracer's lock. -/
  | lock
  /-- `wait_for_inflight` returns `Complete`; the call starts over. -/
  | wake
  /-- `wait_for_inflight` times out. -/
  | timeout
  /-- The base map's `set_ready_and_clear_pending`. -/
  | setReady
  /-- `clear_pending`. -/
  | clear
  deriving DecidableEq, Repr

namespace World

variable {σ ι τ : Type} [DecidableEq ι] [DecidableEq τ]

/-- Thread `t` moves to `p`. -/
def setPhase (w : World σ ι τ) (t : τ) (p : Phase ι) : World σ ι τ :=
  { w with threads := Function.update w.threads t p }

/-- The locked section of `check_ready_and_mark_pending`: wait on the chunk's slot, or double
check the base map and insert a new slot. -/
def markPending (m : ChunkMap σ ι) (w : World σ ι τ) (t : τ) (i : ι) : World σ ι τ :=
  match w.tracer i with
  | some sl => w.setPhase t (.wait i sl)
  | none =>
    match m.isReady w.base i with
    | some true => w.setPhase t (.ready i)
    | some false =>
      { w.setPhase t (.owner i) with
        tracer := Function.update w.tracer i (some w.nextSlot)
        slots := Function.update w.slots w.nextSlot .inflight
        nextSlot := w.nextSlot + 1 }
    | none => w.setPhase t (.failed i)

/-- `clear_pending`: the chunk's slot leaves the tracer and completes. -/
def clearPending (w : World σ ι τ) (i : ι) : World σ ι τ :=
  match w.tracer i with
  | some sl =>
    { w with
      tracer := Function.update w.tracer i none
      slots := Function.update w.slots sl .complete }
  | none => w

end World

section Step

variable {σ ι τ : Type} [DecidableEq ι] [DecidableEq τ]

/-- One step of thread `t`; `none` where its phase does not allow the action. -/
def step (m : ChunkMap σ ι) (w : World σ ι τ) (t : τ) : Act ι → Option (World σ ι τ)
  | .call i =>
    match w.threads t with
    | .idle | .ready _ | .failed _ => some (w.setPhase t (.check i))
    | _ => none
  | .read =>
    match w.threads t with
    | .check i =>
      match m.isReady w.base i with
      | some true => some (w.setPhase t (.ready i))
      | some false => some (w.setPhase t (.lock i))
      | none => some (w.setPhase t (.failed i))
    | _ => none
  | .lock =>
    match w.threads t with
    | .lock i => some (w.markPending m t i)
    | _ => none
  | .wake =>
    match w.threads t with
    | .wait i sl => if w.slots sl = .complete then some (w.setPhase t (.check i)) else none
    | _ => none
  | .timeout =>
    match w.threads t with
    | .wait i _ => some (w.setPhase t (.failed i))
    | _ => none
  | .setReady =>
    match w.threads t with
    | .owner i => some ({ w with base := m.setReady w.base i }.setPhase t (.clearing i))
    | _ => none
  | .clear =>
    match w.threads t with
    | .owner i | .clearing i => some ((w.clearPending i).setPhase t .idle)
    | _ => none

/-- Some thread takes a step. -/
def Next (m : ChunkMap σ ι) (w w' : World σ ι τ) : Prop := ∃ t a, step m w t a = some w'

/-- No chunk is pending and no thread is in a call; the base map is any. -/
def Init (w : World σ ι τ) : Prop := (∀ i, w.tracer i = none) ∧ ∀ t, w.threads t = .idle

end Step

/-! ## The invariant -/

section Inv

variable {σ ι τ : Type} [DecidableEq ι] [DecidableEq τ]

/-- Ownership is exclusive and mirrored by the tracer, and `Ok(true)` means ready. -/
structure Inv (m : ChunkMap σ ι) (w : World σ ι τ) : Prop where
  pending_iff : ∀ i, (w.tracer i).isSome ↔ ∃ t, (w.threads t).holds = some i
  owner_unique : ∀ i t t', (w.threads t).holds = some i → (w.threads t').holds = some i → t = t'
  ready_base : ∀ t i, w.threads t = .ready i → m.isReady w.base i = some true

omit [DecidableEq ι] in
@[simp] theorem setPhase_base (w : World σ ι τ) (t : τ) (p : Phase ι) :
    (w.setPhase t p).base = w.base := rfl

omit [DecidableEq ι] in
@[simp] theorem setPhase_tracer (w : World σ ι τ) (t : τ) (p : Phase ι) :
    (w.setPhase t p).tracer = w.tracer := rfl

omit [DecidableEq ι] in
@[simp] theorem setPhase_threads (w : World σ ι τ) (t : τ) (p : Phase ι) :
    (w.setPhase t p).threads = Function.update w.threads t p := rfl

omit [DecidableEq ι] [DecidableEq τ] in
theorem inv_init (m : ChunkMap σ ι) {w : World σ ι τ} (h : Init w) : Inv m w where
  pending_iff i := by simp [h.1 i, h.2, Phase.holds]
  owner_unique i t _ ht := by simp [h.2 t, Phase.holds] at ht
  ready_base t i ht := by simp [h.2 t] at ht

omit [DecidableEq ι] in
theorem holds_update {threads : τ → Phase ι} {t v : τ} {p : Phase ι} {j : ι}
    (h : (Function.update threads t p v).holds = some j) :
    (v = t ∧ p.holds = some j) ∨ (v ≠ t ∧ (threads v).holds = some j) := by
  by_cases hv : v = t
  · subst hv
    rw [Function.update_self] at h
    exact .inl ⟨rfl, h⟩
  · rw [Function.update_of_ne hv] at h
    exact .inr ⟨hv, h⟩

omit [DecidableEq ι] [DecidableEq τ] in
theorem Inv.of_holds {m : ChunkMap σ ι} {w w' : World σ ι τ} (hi : Inv m w)
    (htr : w'.tracer = w.tracer) (hh : ∀ u, (w'.threads u).holds = (w.threads u).holds)
    (hr : ∀ t i, w'.threads t = .ready i → m.isReady w'.base i = some true) : Inv m w' where
  pending_iff i := by simp only [htr, hh, hi.pending_iff i]
  owner_unique i u u' hu hu' := by
    rw [hh] at hu hu'
    exact hi.owner_unique i u u' hu hu'
  ready_base := hr

omit [DecidableEq ι] in
theorem Inv.setPhase {m : ChunkMap σ ι} {w : World σ ι τ} (hi : Inv m w) {t : τ} {p : Phase ι}
    (hold : (w.threads t).holds = none) (hnew : p.holds = none)
    (hready : ∀ i, p = .ready i → m.isReady w.base i = some true) :
    Inv m (w.setPhase t p) := by
  refine hi.of_holds rfl (fun u => ?_) (fun u i hu => ?_)
  · by_cases hut : u = t
    · subst hut
      simp [hold, hnew]
    · simp [Function.update_of_ne hut]
  · by_cases hut : u = t
    · subst hut
      simp only [setPhase_threads, Function.update_self] at hu
      exact hready i hu
    · simp only [setPhase_threads, Function.update_of_ne hut] at hu
      exact hi.ready_base u i hu

theorem Inv.insert {m : ChunkMap σ ι} {w : World σ ι τ} (hi : Inv m w) {t : τ} {i : ι}
    (hold : (w.threads t).holds = none) (hfree : ∀ u, (w.threads u).holds ≠ some i)
    (sl n : Nat) (slots : Nat → Status) :
    Inv m { w.setPhase t (.owner i) with
      tracer := Function.update w.tracer i (some sl), slots := slots, nextSlot := n } where
  pending_iff j := by
    simp only [setPhase_threads]
    by_cases hji : j = i
    · subst hji
      simp only [Function.update_self, Option.isSome_some, true_iff]
      exact ⟨t, by simp [Phase.holds]⟩
    · rw [Function.update_of_ne hji, hi.pending_iff j]
      constructor
      · rintro ⟨u, hu⟩
        have hut : u ≠ t := by
          rintro rfl
          simp [hold] at hu
        exact ⟨u, by rw [Function.update_of_ne hut]; exact hu⟩
      · rintro ⟨u, hu⟩
        rcases holds_update hu with ⟨-, hp⟩ | ⟨-, hu⟩
        · simp only [Phase.holds, Option.some.injEq] at hp
          exact absurd hp.symm hji
        · exact ⟨u, hu⟩
  owner_unique j u u' hu hu' := by
    -- after the step `t` owns `i`, and every other owner owned its chunk before, not `i`
    have hnew : ∀ v, (Function.update w.threads t (.owner i) v).holds = some j →
        (v = t ∧ j = i) ∨ ((w.threads v).holds = some j ∧ j ≠ i) := by
      intro v hv
      rcases holds_update hv with ⟨hvt, hp⟩ | ⟨-, hv⟩
      · simp only [Phase.holds, Option.some.injEq] at hp
        exact .inl ⟨hvt, hp.symm⟩
      · exact .inr ⟨hv, fun hji => hfree v (hji ▸ hv)⟩
    simp only [setPhase_threads] at hu hu'
    rcases hnew u hu with ⟨hut, hji⟩ | ⟨hu, hji⟩ <;>
      rcases hnew u' hu' with ⟨hut', hji'⟩ | ⟨hu', hji'⟩
    · exact hut.trans hut'.symm
    · exact absurd hji hji'
    · exact absurd hji' hji
    · exact hi.owner_unique j u u' hu hu'
  ready_base u j hu := by
    simp only [setPhase_threads] at hu
    by_cases hut : u = t
    · subst hut
      simp at hu
    · rw [Function.update_of_ne hut] at hu
      exact hi.ready_base u j hu

/-- The locked section keeps the invariant: a slot is inserted only where the tracer has none,
that is where no thread owns the chunk. -/
theorem Inv.markPending {m : ChunkMap σ ι} {w : World σ ι τ} (hi : Inv m w) {t : τ} {i : ι}
    (ht : w.threads t = .lock i) : Inv m (w.markPending m t i) := by
  have hold : (w.threads t).holds = none := by rw [ht]; rfl
  unfold World.markPending
  split
  · exact hi.setPhase hold rfl (by simp)
  · rename_i hnone
    have hfree : ∀ u, (w.threads u).holds ≠ some i := by
      intro u hu
      have hsome := (hi.pending_iff i).mpr ⟨u, hu⟩
      simp [hnone] at hsome
    split
    · rename_i hr
      exact hi.setPhase hold rfl (by simp [hr])
    · exact hi.insert hold hfree _ _ _
    · exact hi.setPhase hold rfl (by simp)

omit [DecidableEq ι] in
theorem Inv.setReady {m : ChunkMap σ ι} {w : World σ ι τ} (hi : Inv m w) {t : τ} {i : ι}
    (ht : w.threads t = .owner i) :
    Inv m ({ w with base := m.setReady w.base i }.setPhase t (.clearing i)) := by
  refine hi.of_holds rfl (fun u => ?_) (fun u j hu => ?_)
  · by_cases hut : u = t
    · subst hut
      simp [ht, Phase.holds]
    · simp [Function.update_of_ne hut]
  · have hut : u ≠ t := by
      rintro rfl
      simp at hu
    simp only [setPhase_threads, Function.update_of_ne hut] at hu
    exact m.ready_mono _ i j (hi.ready_base u j hu)

theorem Inv.clear {m : ChunkMap σ ι} {w : World σ ι τ} (hi : Inv m w) {t : τ} {i : ι}
    (ht : (w.threads t).holds = some i) : Inv m ((w.clearPending i).setPhase t .idle) := by
  obtain ⟨sl, hsl⟩ := Option.isSome_iff_exists.mp ((hi.pending_iff i).mpr ⟨t, ht⟩)
  -- after the step, a thread owns a chunk only if it owned it before and is not `t`
  have hnew : ∀ u j, (Function.update w.threads t .idle u).holds = some j →
      u ≠ t ∧ (w.threads u).holds = some j := by
    intro u j hu
    rcases holds_update hu with ⟨-, hp⟩ | h
    · simp [Phase.holds] at hp
    · exact h
  simp only [World.clearPending, hsl]
  refine ⟨fun j => ?_, fun j u u' hu hu' => ?_, fun u j hu => ?_⟩
  · simp only [setPhase_tracer, setPhase_threads]
    by_cases hji : j = i
    · subst hji
      simp only [Function.update_self, Option.isSome_none, Bool.false_eq_true, false_iff,
        not_exists]
      intro u hu
      obtain ⟨hut, hu⟩ := hnew u j hu
      exact hut (hi.owner_unique j u t hu ht)
    · rw [Function.update_of_ne hji, hi.pending_iff j]
      constructor
      · rintro ⟨u, hu⟩
        have hut : u ≠ t := by
          rintro rfl
          rw [ht] at hu
          exact hji (Option.some.inj hu).symm
        exact ⟨u, by rw [Function.update_of_ne hut]; exact hu⟩
      · rintro ⟨u, hu⟩
        exact ⟨u, (hnew u j hu).2⟩
  · exact hi.owner_unique j u u' (hnew u j hu).2 (hnew u' j hu').2
  · have hut : u ≠ t := by
      rintro rfl
      simp at hu
    simp only [setPhase_threads, Function.update_of_ne hut] at hu
    exact hi.ready_base u j hu

/-- **Step lemma.** Every step of every thread keeps the invariant. -/
theorem inv_step {m : ChunkMap σ ι} {w w' : World σ ι τ} (hi : Inv m w) {t : τ} {a : Act ι}
    (h : step m w t a = some w') : Inv m w' := by
  cases a with
  | call i =>
    simp only [step] at h
    split at h <;> cases h <;> exact hi.setPhase (by simp [*, Phase.holds]) rfl (by simp)
  | read =>
    simp only [step] at h
    split at h
    · rename_i i ht
      have hold : (w.threads t).holds = none := by rw [ht]; rfl
      split at h <;> cases h
      · rename_i hr
        exact hi.setPhase hold rfl (by simp [hr])
      · exact hi.setPhase hold rfl (by simp)
      · exact hi.setPhase hold rfl (by simp)
    · cases h
  | lock =>
    simp only [step] at h
    split at h
    · rename_i i ht
      cases h
      exact hi.markPending ht
    · cases h
  | wake =>
    simp only [step] at h
    split at h
    · rename_i i sl ht
      split at h
      · cases h
        exact hi.setPhase (by rw [ht]; rfl) rfl (by simp)
      · cases h
    · cases h
  | timeout =>
    simp only [step] at h
    split at h
    · rename_i i sl ht
      cases h
      exact hi.setPhase (by rw [ht]; rfl) rfl (by simp)
    · cases h
  | setReady =>
    simp only [step] at h
    split at h
    · rename_i i ht
      cases h
      exact hi.setReady ht
    · cases h
  | clear =>
    simp only [step] at h
    split at h
    · rename_i i ht
      cases h
      exact hi.clear (by rw [ht]; rfl)
    · rename_i i ht
      cases h
      exact hi.clear (by rw [ht]; rfl)
    · cases h

/-- **Exclusive ownership.** Over every interleaving of any number of threads on a
`BlobStateMap`, no two threads own one chunk, and a thread that received `Ok(true)` for a
chunk finds it ready in the base map. -/
theorem blobStateMap_exclusive_owner (m : ChunkMap σ ι) {w : World σ ι τ}
    (h : Reachable Init (Next m) w) :
    (∀ i t t', (w.threads t).holds = some i → (w.threads t').holds = some i → t = t') ∧
      ∀ t i, w.threads t = .ready i → m.isReady w.base i = some true := by
  have hi : Inv m w := by
    refine h.inv (fun _ h₀ => inv_init m h₀) ?_
    rintro _ _ hi ⟨t, a, hs⟩
    exact inv_step hi hs
  exact ⟨hi.owner_unique, hi.ready_base⟩

/-- Thread `true` asks for chunk `0` of an empty `DigestedChunkMap`, finds it not ready and
owns it. -/
theorem blobStateMap_exclusive_owner_first_download :
    let m := digestedChunkMap Nat
    let w₀ : World (List Nat) Nat Bool := ⟨[], fun _ => none, fun _ => .inflight, 0, fun _ => .idle⟩
    let w := ((w₀.setPhase true (.check 0)).setPhase true (.lock 0)).markPending m true 0
    Reachable Init (Next m) w ∧
      (∀ i t t', (w.threads t).holds = some i → (w.threads t').holds = some i → t = t') ∧
      ∀ t i, w.threads t = .ready i → m.isReady w.base i = some true := by
  intro m w₀ w
  have h₁ : Reachable Init (Next m) (w₀.setPhase true (.check 0)) :=
    (Reachable.of_init (s := w₀) ⟨fun _ => rfl, fun _ => rfl⟩).tail ⟨true, .call 0, rfl⟩
  have h₂ : Reachable Init (Next m) ((w₀.setPhase true (.check 0)).setPhase true (.lock 0)) :=
    h₁.tail ⟨true, .read, rfl⟩
  have h : Reachable Init (Next m) w := h₂.tail ⟨true, .lock, rfl⟩
  exact ⟨h, blobStateMap_exclusive_owner m h⟩

end Inv

end Nydus.Storage
