import Mathlib

/-!
# Outcomes of fallible code

A Rust function leaves either with a value, with an `Err` (what `bail!`, `ensure!` and `?`
return), or by a panic (`unwrap` on `None`, `expect`, `unimplemented!`, a failed `assert!`,
an index out of range). `Outcome α` is `Except Fault α`, where `Fault` keeps the two apart and
the message of each.

The lemmas are the rules the models' proofs use: peeling a successful `bind`, and what a
successful `List.foldlM` (a `for` loop over a list with an accumulator) says about its
accumulator: an invariant that every step keeps holds at the end (`foldlM_inv`), and a loop
over a list with an element on which every step fails never succeeds (`foldlM_ne_ok_of_mem`);
a measure that every step raises by a weight of its element is raised by the weights' sum
(`foldlM_measure`).
A `List.mapM` whose every call succeeds gives the list of results (`mapM_eq_ok`), and a
`List.foldlM` whose every step succeeds the pure fold (`foldlM_eq_ok_foldl`); conversely a
successful `forM` or `mapM` succeeded on every element (`forM_eq_ok`, `exists_of_mem_mapM`), and a
failed loop failed at one of its steps (`foldlM_eq_error`).
A map of results that turns each step of a loop into the step of another loop turns the whole
loop into the other (`foldlM_map`), and a loop whose steps all return values returns one
(`foldlM_exists_ok`).

`NoPanic x` says that `x` returns a value or an `Err`: what a reader of untrusted input should
do. It passes through `bind` and `if` (`NoPanic.bind`, `NoPanic.ite`).
-/

namespace Nydus.Lib

/-- How a function leaves without a value. -/
inductive Fault where
  /-- An `Err`, with its message. -/
  | err (msg : String)
  /-- A panic, with its message. -/
  | panic (msg : String)
  deriving DecidableEq, Repr

/-- A value, or the fault that stopped the computation. -/
abbrev Outcome (α : Type) := Except Fault α

namespace Outcome

/-- `bail!(msg)`. -/
def bail {α : Type} (msg : String) : Outcome α := .error (.err msg)

/-- `panic!(msg)` and the library calls that panic. -/
def panic {α : Type} (msg : String) : Outcome α := .error (.panic msg)

/-- `ensure!(c, msg)`. -/
def ensure (c : Bool) (msg : String) : Outcome Unit :=
  if c then .ok () else bail msg

/-- `v[i]` on a `Vec`: panics out of range. -/
def get {α : Type} (l : List α) (i : Nat) : Outcome α :=
  match l[i]? with
  | some a => .ok a
  | none => panic "index out of bounds"

/-- `v[i] = a` on a `Vec`: panics out of range. -/
def set {α : Type} (l : List α) (i : Nat) (a : α) : Outcome (List α) :=
  if i < l.length then .ok (l.set i a) else panic "index out of bounds"

end Outcome

section Rules

variable {ε α β : Type}

theorem bind_eq_ok {x : Except ε α} {f : α → Except ε β} {b : β} :
    x >>= f = .ok b ↔ ∃ a, x = .ok a ∧ f a = .ok b := by
  cases x with
  | error e => simp [bind, Except.bind]
  | ok a => simp [bind, Except.bind]

@[simp] theorem pure_eq_ok (a : α) : (pure a : Except ε α) = .ok a := rfl

@[simp] theorem ok_bind (a : α) (f : α → Except ε β) : (Except.ok a >>= f) = f a := rfl

@[simp] theorem error_bind (e : ε) (f : α → Except ε β) : (Except.error e >>= f) = .error e := rfl

@[simp] theorem Outcome.get_eq_ok {l : List α} {i : Nat} {a : α} :
    Outcome.get l i = .ok a ↔ l[i]? = some a := by
  unfold Outcome.get
  split <;> simp_all [Outcome.panic]

theorem ite_error_eq_ok {c : Prop} [Decidable c] {e : ε} {r : Except ε α} {a : α} :
    (if c then .error e else r) = .ok a ↔ ¬c ∧ r = .ok a := by
  split_ifs with hc <;> simp [hc]

theorem ite_ok_eq_ok {c : Prop} [Decidable c] {e : ε} {x a : α} :
    (if c then .ok x else .error e) = (.ok a : Except ε α) ↔ c ∧ x = a := by
  split_ifs with hc <;> simp [hc]

@[simp] theorem Outcome.ensure_eq_ok {c : Bool} {msg : String} {u : Unit} :
    Outcome.ensure c msg = .ok u ↔ c = true := by
  unfold Outcome.ensure
  split <;> simp_all [Outcome.bail]

/-- **Loop invariant.** What every step of a successful loop keeps holds at its end. -/
theorem foldlM_inv {f : β → α → Except ε β} {P : β → Prop} :
    ∀ {xs : List α} {b r : β}, (∀ b a r, a ∈ xs → P b → f b a = .ok r → P r) →
      P b → xs.foldlM f b = .ok r → P r
  | [], b, r, _, hb, h => by
    simp only [List.foldlM_nil, pure, Except.pure, Except.ok.injEq] at h
    exact h ▸ hb
  | x :: xs, b, r, hstep, hb, h => by
    rw [List.foldlM_cons, bind_eq_ok] at h
    obtain ⟨b', hx, hrest⟩ := h
    exact foldlM_inv (fun b a r ha => hstep b a r (List.mem_cons_of_mem x ha))
      (hstep b x b' List.mem_cons_self hb hx) hrest

/-- A `map` over a list (`iter().map(f).collect()` into a `Result`, or a loop pushing each result)
on which every call succeeds gives every result. -/
theorem mapM_eq_ok {f : α → Except ε β} {g : α → β} :
    ∀ {xs : List α}, (∀ a ∈ xs, f a = .ok (g a)) → xs.mapM f = .ok (xs.map g)
  | [], _ => rfl
  | x :: xs, h => by
    have hrest := mapM_eq_ok (fun a ha => h a (List.mem_cons_of_mem x ha))
    rw [List.mapM_cons, h x List.mem_cons_self, ok_bind, hrest]
    rfl

/-- **Loop measure.** When every step of a loop adds `w a` to a measure of its accumulator, the
whole loop adds the sum of `w` over the list. -/
theorem foldlM_measure {f : β → α → Except ε β} {m : β → Nat} {w : α → Nat} :
    ∀ {xs : List α} {b r : β}, (∀ b a r, a ∈ xs → f b a = .ok r → m r = m b + w a) →
      xs.foldlM f b = .ok r → m r = m b + (xs.map w).sum
  | [], b, r, _, h => by
    simp only [List.foldlM_nil, pure, Except.pure, Except.ok.injEq] at h
    rw [← h, List.map_nil, List.sum_nil, Nat.add_zero]
  | x :: xs, b, r, hstep, h => by
    rw [List.foldlM_cons, bind_eq_ok] at h
    obtain ⟨b', hx, hrest⟩ := h
    have hb' : m b' = m b + w x := hstep b x b' List.mem_cons_self hx
    rw [foldlM_measure (fun b a r ha => hstep b a r (List.mem_cons_of_mem x ha)) hrest, hb',
      List.map_cons, List.sum_cons, Nat.add_assoc]

/-- A loop whose every step succeeds computes the pure fold of its steps. -/
theorem foldlM_eq_ok_foldl {f : β → α → Except ε β} {g : β → α → β} :
    ∀ {xs : List α} {b : β}, (∀ b, ∀ a ∈ xs, f b a = .ok (g b a)) →
      xs.foldlM f b = .ok (xs.foldl g b)
  | [], _, _ => rfl
  | x :: xs, b, h => by
    rw [List.foldlM_cons, h b x List.mem_cons_self, ok_bind, List.foldl_cons]
    exact foldlM_eq_ok_foldl (fun b a ha => h b a (List.mem_cons_of_mem x ha))

/-- A `for` loop with no state that finishes has succeeded on every element. -/
theorem forM_eq_ok {f : α → Except ε Unit} :
    ∀ {xs : List α} {u : Unit}, xs.forM f = .ok u → ∀ a ∈ xs, f a = .ok ()
  | [], _, _ => by simp
  | x :: xs, _, h => by
    rw [List.forM_eq_forM, List.forM_cons, bind_eq_ok] at h
    obtain ⟨⟨⟩, hx, hrest⟩ := h
    intro a ha
    rcases List.mem_cons.mp ha with rfl | ha
    · exact hx
    · exact forM_eq_ok hrest a ha

/-- Every result of a successful `map` is the result of one of its inputs. -/
theorem exists_of_mem_mapM {f : α → Except ε β} :
    ∀ {xs : List α} {ys : List β}, xs.mapM f = .ok ys → ∀ y ∈ ys, ∃ x ∈ xs, f x = .ok y
  | [], ys, h => by
    cases h
    simp
  | x :: xs, ys, h => by
    rw [List.mapM_cons, bind_eq_ok] at h
    obtain ⟨y, hy, h⟩ := h
    rw [bind_eq_ok] at h
    obtain ⟨ys', hys', h⟩ := h
    cases h
    intro z hz
    rcases List.mem_cons.mp hz with rfl | hz
    · exact ⟨x, List.mem_cons_self, hy⟩
    · obtain ⟨w, hw, hfw⟩ := exists_of_mem_mapM hys' z hz
      exact ⟨w, List.mem_cons_of_mem _ hw, hfw⟩

/-- A loop over a list holding an element on which every step fails never succeeds. -/
theorem foldlM_ne_ok_of_mem {f : β → α → Except ε β} {a : α} (hbad : ∀ b r, f b a ≠ .ok r) :
    ∀ {xs : List α} {b r : β}, a ∈ xs → xs.foldlM f b ≠ .ok r
  | [], _, _, ha, _ => by cases ha
  | x :: xs, b, r, ha, h => by
    rw [List.foldlM_cons, bind_eq_ok] at h
    obtain ⟨b', hx, hrest⟩ := h
    rcases List.mem_cons.mp ha with rfl | ha
    · exact hbad b b' hx
    · exact foldlM_ne_ok_of_mem hbad ha hrest

/-- A loop fails only as one of its steps fails. -/
theorem foldlM_eq_error {f : β → α → Except ε β} {P : ε → Prop} :
    ∀ {xs : List α} {b : β} {e : ε}, (∀ b a e, a ∈ xs → f b a = .error e → P e) →
      xs.foldlM f b = .error e → P e
  | [], _, _, _, h => by cases h
  | x :: xs, b, e, hstep, h => by
    rw [List.foldlM_cons] at h
    cases hx : f b x with
    | error e' =>
      rw [hx, error_bind] at h
      exact Except.error.inj h ▸ hstep b x e' List.mem_cons_self hx
    | ok b' =>
      rw [hx, ok_bind] at h
      exact foldlM_eq_error (fun b a e ha => hstep b a e (List.mem_cons_of_mem x ha)) h

theorem map_eq_ok {φ : α → β} {x : Except ε α} {b : β} :
    x.map φ = .ok b ↔ ∃ a, x = .ok a ∧ φ a = b := by
  cases x <;> simp [Except.map]

theorem fmap_eq_ok {φ : α → β} {x : Except ε α} {b : β} :
    φ <$> x = .ok b ↔ ∃ a, x = .ok a ∧ φ a = b :=
  map_eq_ok

theorem foldlM_congr {f g : β → α → Except ε β} :
    ∀ {xs : List α} {b : β}, (∀ b, ∀ a ∈ xs, f b a = g b a) → xs.foldlM f b = xs.foldlM g b
  | [], _, _ => rfl
  | x :: xs, b, h => by
    rw [List.foldlM_cons, List.foldlM_cons, h b x List.mem_cons_self]
    congr 1
    funext b'
    exact foldlM_congr fun b a ha => h b a (List.mem_cons_of_mem x ha)

theorem foldlM_flatMap {γ : Type} {f : γ → List α} {g : β → α → Except ε β} :
    ∀ {l : List γ} {b : β}, (l.flatMap f).foldlM g b = l.foldlM (fun b c => (f c).foldlM g b) b
  | [], _ => rfl
  | c :: l, b => by
    rw [List.flatMap_cons, List.foldlM_append, List.foldlM_cons]
    congr 1
    funext b'
    exact foldlM_flatMap

/-- A run of calls through a map that turns each call on `β` into the same call on `γ`. -/
theorem foldlM_map {γ : Type} {f : β → α → Except ε β} {g : γ → α → Except ε γ}
    {φ : β → γ} :
    ∀ {xs : List α} {b : β}, (∀ b, ∀ a ∈ xs, (f b a).map φ = g (φ b) a) →
      (xs.foldlM f b).map φ = xs.foldlM g (φ b)
  | [], _, _ => rfl
  | x :: xs, b, h => by
    rw [List.foldlM_cons, List.foldlM_cons, ← h b x List.mem_cons_self]
    cases f b x with
    | error e => rfl
    | ok b' => exact foldlM_map (fun b a ha => h b a (List.mem_cons_of_mem x ha))

/-- **Loop invariant over the elements seen.** An invariant of the state and of the elements
already handled, that every step keeps, holds at the end with the whole list handled. -/
theorem foldlM_inv_prefix {f : β → α → Except ε β} {P : List α → β → Prop}
    (hstep : ∀ pre b a r, P pre b → f b a = .ok r → P (pre ++ [a]) r) :
    ∀ {xs pre : List α} {b r : β}, P pre b → xs.foldlM f b = .ok r → P (pre ++ xs) r
  | [], pre, b, r, hb, h => by
    simp only [List.foldlM_nil, pure, Except.pure, Except.ok.injEq] at h
    rw [List.append_nil, ← h]
    exact hb
  | x :: xs, pre, b, r, hb, h => by
    rw [List.foldlM_cons, bind_eq_ok] at h
    obtain ⟨b', hx, hrest⟩ := h
    have := foldlM_inv_prefix hstep (hstep pre b x b' hb hx) hrest
    rwa [List.append_assoc, List.singleton_append] at this

/-- A loop whose every step returns a value returns a value. -/
theorem foldlM_exists_ok {f : β → α → Except ε β} :
    ∀ {xs : List α} {b : β}, (∀ b, ∀ a ∈ xs, ∃ r, f b a = .ok r) → ∃ r, xs.foldlM f b = .ok r
  | [], b, _ => ⟨b, rfl⟩
  | x :: xs, b, h => by
    obtain ⟨b', hx⟩ := h b x List.mem_cons_self
    rw [List.foldlM_cons, hx, ok_bind]
    exact foldlM_exists_ok fun b a ha => h b a (List.mem_cons_of_mem x ha)

end Rules

/-! ## Computations that do not panic -/

section NoPanic

variable {α β : Type}

/-- A computation that returns a value or an `Err`, and does not panic. -/
def NoPanic (x : Outcome α) : Prop := ∀ msg, x ≠ Outcome.panic msg

theorem noPanic_ok (a : α) : NoPanic (.ok a : Outcome α) := fun _ h => by cases h

theorem noPanic_bail (msg : String) : NoPanic (Outcome.bail msg : Outcome α) := fun _ h => by
  simp [Outcome.bail, Outcome.panic] at h

theorem NoPanic.bind {x : Outcome α} {f : α → Outcome β} (hx : NoPanic x)
    (hf : ∀ a, x = .ok a → NoPanic (f a)) : NoPanic (x >>= f) := by
  intro msg h
  cases hxa : x with
  | error e =>
    rw [hxa, error_bind] at h
    have he : e = .panic msg := Except.error.inj h
    exact hx msg (by rw [hxa, he]; rfl)
  | ok a =>
    rw [hxa, ok_bind] at h
    exact hf a hxa msg h

theorem NoPanic.ite {c : Prop} [Decidable c] {x y : Outcome α} (hx : c → NoPanic x)
    (hy : ¬c → NoPanic y) : NoPanic (if c then x else y) := by
  split_ifs with hc
  · exact hx hc
  · exact hy hc

/-- A loop whose every step does not panic does not panic. -/
theorem NoPanic.foldlM {f : β → α → Outcome β} (hf : ∀ b a, NoPanic (f b a)) :
    ∀ (xs : List α) (b : β), NoPanic (xs.foldlM f b)
  | [], b => noPanic_ok b
  | x :: xs, b => by
    rw [List.foldlM_cons]
    exact NoPanic.bind (hf b x) fun b' _ => NoPanic.foldlM hf xs b'

theorem NoPanic.exists_bail {x : Outcome α} (hx : NoPanic x) {e : Fault} (h : x = .error e) :
    ∃ msg, x = Outcome.bail msg := by
  cases e with
  | err msg => exact ⟨msg, h⟩
  | panic msg => exact absurd h (hx msg)

end NoPanic

end Nydus.Lib
