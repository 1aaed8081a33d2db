import Mathlib
import Nydus.Lib.Outcome

/-!
# Checked writes to the fields of a record

A setter writes one field of a record after checking an assertion. A list of calls is a
`GuardedRun` when each call's assertion holds on the record the calls before it produced; such a
run succeeds with the record of the pure writes (`foldlM_eq_ok_of_guardedRun`). When no two calls
write the same field, each call's value is still there at the end (`holds_foldl_of_nodup`: a
value is held when writing it again changes nothing) and every field no call writes keeps its
value (`agree_foldl_of_not_mem`).
-/

namespace Nydus.Lib

section Writes

variable {α σ ι : Type} (write : α → σ → σ)

/-- Each call meets its guard on the record the calls before it produced. -/
def GuardedRun (guard : α → σ → Prop) : List α → σ → Prop
  | [], _ => True
  | a :: ops, s => guard a s ∧ GuardedRun guard ops (write a s)

instance instDecidableGuardedRun {guard : α → σ → Prop} [hd : ∀ a s, Decidable (guard a s)] :
    ∀ (ops : List α) (s : σ), Decidable (GuardedRun write guard ops s)
  | [], _ => isTrue trivial
  | a :: ops, s => @instDecidableAnd _ _ (hd a s) (instDecidableGuardedRun ops (write a s))

variable {write}

/-- A run of checked calls whose every guard holds returns the record of the pure writes. -/
theorem foldlM_eq_ok_of_guardedRun {ε : Type} {guard : α → σ → Prop} {f : σ → α → Except ε σ}
    (hf : ∀ s a, guard a s → f s a = .ok (write a s)) :
    ∀ {ops : List α} {s : σ}, GuardedRun write guard ops s →
      ops.foldlM f s = .ok (ops.foldl (fun s a => write a s) s)
  | [], _, _ => rfl
  | a :: ops, s, ⟨ha, hrest⟩ => by
    rw [List.foldlM_cons, hf s a ha, ok_bind, List.foldl_cons]
    exact foldlM_eq_ok_of_guardedRun hf hrest

theorem guardedRun_of_forall {guard : α → σ → Prop} :
    ∀ {ops : List α} {s : σ}, (∀ a ∈ ops, ∀ s, guard a s) → GuardedRun write guard ops s
  | [], _, _ => trivial
  | a :: _, s, h => by
    refine ⟨h a List.mem_cons_self s, guardedRun_of_forall ?_⟩
    intro b hb
    exact h b (List.mem_cons_of_mem a hb)

theorem foldl_writes_inv {P : σ → Prop} :
    ∀ {ops : List α} {s : σ}, (∀ a ∈ ops, ∀ s, P s → P (write a s)) →
      P s → P (ops.foldl (fun s a => write a s) s)
  | [], _, _, hs => hs
  | a :: _, s, h, hs => by
    rw [List.foldl_cons]
    exact foldl_writes_inv (fun b hb => h b (List.mem_cons_of_mem a hb)) (h a List.mem_cons_self s hs)

variable {key : α → ι}

/-- When no two calls write the same field, the value of every call is held at the end: writing
it again changes nothing. Writes to different fields commute, and a write is idempotent. -/
theorem holds_foldl_of_nodup (hidem : ∀ a s, write a (write a s) = write a s)
    (hcomm : ∀ a b s, key a ≠ key b → write a (write b s) = write b (write a s)) :
    ∀ {ops : List α} {s : σ}, (ops.map key).Nodup →
      ∀ a ∈ ops, write a (ops.foldl (fun s a => write a s) s) = ops.foldl (fun s a => write a s) s
  | [], _, _, _, ha => absurd ha List.not_mem_nil
  | b :: ops, s, hnd, a, ha => by
    rw [List.map_cons, List.nodup_cons] at hnd
    rw [List.foldl_cons]
    rcases List.mem_cons.mp ha with rfl | ha
    · -- the later calls write other fields, and each keeps the value of this one
      refine foldl_writes_inv (P := fun s => write a s = s) ?_ (hidem a s)
      intro c hc t ht
      have hne : key a ≠ key c := fun he => hnd.1 (he ▸ List.mem_map_of_mem hc)
      rw [hcomm a c t hne, ht]
    · exact holds_foldl_of_nodup hidem hcomm hnd.2 a ha

/-- A field that no call writes keeps the value it had before the run. -/
theorem agree_foldl_of_not_mem {Agree : ι → σ → σ → Prop} (hrefl : ∀ i s, Agree i s s)
    (hwrite : ∀ i a s t, key a ≠ i → Agree i s t → Agree i s (write a t))
    {ops : List α} {s : σ} {i : ι} (hi : i ∉ ops.map key) :
    Agree i s (ops.foldl (fun s a => write a s) s) := by
  refine foldl_writes_inv (P := Agree i s) ?_ (hrefl i s)
  intro a ha t ht
  exact hwrite i a s t (fun he => hi (he ▸ List.mem_map_of_mem ha)) ht

end Writes

end Nydus.Lib
