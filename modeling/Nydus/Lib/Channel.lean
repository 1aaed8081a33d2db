import Mathlib.Data.List.Basic
import Mathlib.Data.List.Infix
import Nydus.Lib.Reach

/-!
# A server behind two channels

Callers send requests into one FIFO channel and then wait for a reply on a second one; a server
thread takes the requests in order, sends a reply to each into the second channel, and may quit.
A send to a server that has quit fails, and so does a wait once the server has quit and no reply
is left; neither moves anything, and no reply is received after the second, so both are left out
of the steps.

The two channels are not tied together: a caller that has sent may be overtaken by another one at
the reply channel. What every run keeps is the order: the replies received are, in order, those
the requests sent would get if they were made one after another in the order sent
(`Server.serial`, `received_isPrefix`). A caller gets the reply to its own request when no two
callers wait at once (`received_own`); two callers that wait at once can get each other's replies
(`crossed`).
-/

namespace Nydus.Lib.Channel

/-- The server: its reply to a request and its state after it, whether it still runs, and what a
request gets once it has quit. -/
structure Server (Q R S : Type) where
  step : S → Q → R × S
  live : S → Bool
  refused : R

variable {C Q R S : Type}

/-- One request made to the server: its reply and the server's state after it. -/
def Server.call (srv : Server Q R S) (s : S) (q : Q) : R × S :=
  if srv.live s then srv.step s q else (srv.refused, s)

/-- Requests made one after another, each waiting for its reply: the replies, and the server's
state after them. -/
def Server.serial (srv : Server Q R S) : S → List Q → List R × S
  | s, [] => ([], s)
  | s, q :: qs =>
    let res := Server.serial srv (srv.call s q).2 qs
    ((srv.call s q).1 :: res.1, res.2)

/-- A run of the system: the server's state, the two channels, the callers waiting for a reply,
and, for the statements, every request sent and every reply received with its caller. -/
structure Conf (C Q R S : Type) where
  server : S
  requests : List Q
  replies : List R
  waiting : List C
  sent : List (C × Q)
  received : List (C × R)

/-- Nothing sent yet. -/
def Conf.init (s₀ : S) : Conf C Q R S := ⟨s₀, [], [], [], [], []⟩

variable {srv : Server Q R S}

theorem Server.serial_append (s : S) :
    ∀ xs ys : List Q, srv.serial s (xs ++ ys) =
      ((srv.serial s xs).1 ++ (srv.serial (srv.serial s xs).2 ys).1,
        (srv.serial (srv.serial s xs).2 ys).2)
  | [], ys => rfl
  | x :: xs, ys => by
    simp only [List.cons_append, Server.serial, Server.serial_append _ xs ys]

/-- What every run keeps: the requests sent are those the server has taken, then those still in
the channel; and the replies to those it has taken, made one after another, are the replies
received, then those still in the channel. -/
def Inv (srv : Server Q R S) (s₀ : S) (k : Conf C Q R S) : Prop :=
  ∃ taken, k.sent.map Prod.snd = taken ++ k.requests ∧
    srv.serial s₀ taken = (k.received.map Prod.snd ++ k.replies, k.server)

theorem inv_init (s₀ : S) : Inv srv s₀ (Conf.init s₀ : Conf C Q R S) :=
  ⟨[], rfl, rfl⟩

variable [DecidableEq C]

/-- A step: a caller that does not wait sends a request; the server takes the first request and
replies; a waiting caller receives the first reply. -/
inductive Step (srv : Server Q R S) : Conf C Q R S → Conf C Q R S → Prop
  | send {k : Conf C Q R S} (c : C) (q : Q) : c ∉ k.waiting → srv.live k.server = true →
      Step srv k { k with requests := k.requests ++ [q], waiting := c :: k.waiting,
                          sent := k.sent ++ [(c, q)] }
  | serve {k : Conf C Q R S} {q : Q} {qs : List Q} : k.requests = q :: qs →
      srv.live k.server = true →
      Step srv k { k with server := (srv.step k.server q).2, requests := qs,
                          replies := k.replies ++ [(srv.step k.server q).1] }
  | recv {k : Conf C Q R S} {r : R} {rs : List R} (c : C) : c ∈ k.waiting → k.replies = r :: rs →
      Step srv k { k with replies := rs, waiting := k.waiting.erase c,
                          received := k.received ++ [(c, r)] }

/-- The steps in which a caller sends only while no other one waits. -/
inductive ExclusiveStep (srv : Server Q R S) : Conf C Q R S → Conf C Q R S → Prop
  | send {k : Conf C Q R S} (c : C) (q : Q) : k.waiting = [] → srv.live k.server = true →
      ExclusiveStep srv k { k with requests := k.requests ++ [q], waiting := c :: k.waiting,
                                   sent := k.sent ++ [(c, q)] }
  | other {k k' : Conf C Q R S} : Step srv k k' → k'.sent = k.sent → ExclusiveStep srv k k'

theorem Inv.step {s₀ : S} {k k' : Conf C Q R S} (hinv : Inv srv s₀ k)
    (h : Step srv k k') : Inv srv s₀ k' := by
  obtain ⟨taken, hsent, hrun⟩ := hinv
  cases h with
  | send c q =>
    refine ⟨taken, ?_, hrun⟩
    rw [List.map_append, hsent, List.append_assoc]
    rfl
  | @serve q qs hreq hlive =>
    refine ⟨taken ++ [q], by rw [hsent, hreq, List.append_assoc]; rfl, ?_⟩
    rw [Server.serial_append, hrun]
    simp [Server.serial, Server.call, hlive]
  | @recv r rs c _ hrep =>
    refine ⟨taken, hsent, ?_⟩
    rw [hrun, hrep]
    simp

/-- **The order of the replies.** In every run, the replies received, in the order they are
received, are those the requests sent get when made one after another in the order sent: each
reply is received once, and none before the replies to the requests sent before it. -/
theorem received_isPrefix {s₀ : S} {k : Conf C Q R S}
    (h : Reachable (· = Conf.init s₀) (Step srv) k) :
    k.received.map Prod.snd <+: (srv.serial s₀ (k.sent.map Prod.snd)).1 := by
  obtain ⟨taken, hsent, hrun⟩ : Inv srv s₀ k :=
    h.inv (fun _ h => h ▸ inv_init s₀) fun _ _ hinv hs => hinv.step hs
  rw [hsent, Server.serial_append, hrun, List.append_assoc]
  exact List.prefix_append _ _

/-- With exclusive sends, the callers that received, in order, are those that sent, and the one
caller waiting, if any, sent last. -/
def Owners (k : Conf C Q R S) : Prop :=
  k.sent.map Prod.fst = k.received.map Prod.fst ++ k.waiting ∧ k.waiting.length ≤ 1

theorem ExclusiveStep.step {k k' : Conf C Q R S} (h : ExclusiveStep srv k k') :
    Step srv k k' := by
  cases h with
  | send c q hw hl => exact Step.send c q (by simp [hw]) hl
  | other hs _ => exact hs

theorem Owners.step {k k' : Conf C Q R S} (ho : Owners k) (h : ExclusiveStep srv k k') :
    Owners k' := by
  obtain ⟨hsent, hlen⟩ := ho
  cases h with
  | send c q hw _ =>
    rw [hw, List.append_nil] at hsent
    exact ⟨by simp [hsent, hw], by simp [hw]⟩
  | other hs hsame =>
    revert hsame
    cases hs with
    | send c q _ _ => simp
    | serve _ _ => exact fun _ => ⟨hsent, hlen⟩
    | recv c hc _ =>
      intro _
      -- the one caller waiting is the one that receives
      obtain ⟨w, hw⟩ : ∃ w, k.waiting = [w] := by
        match hk : k.waiting, hc with
        | [w], _ => exact ⟨w, rfl⟩
        | _ :: _ :: _, _ => simp [hk] at hlen
      rw [hw, List.mem_singleton] at hc
      subst hc
      refine ⟨?_, by simp [hw]⟩
      simp [hsent, hw]

/-- **Callers one at a time.** When a caller sends only while no other one waits, every caller
receives the server's reply to its own request: the `i`-th reply received goes to the caller of
the `i`-th request sent, and is the server's reply to that request. -/
theorem received_own {s₀ : S} {k : Conf C Q R S}
    (h : Reachable (· = Conf.init s₀) (ExclusiveStep srv) k) :
    k.received.map Prod.fst <+: k.sent.map Prod.fst ∧
      k.received.map Prod.snd <+: (srv.serial s₀ (k.sent.map Prod.snd)).1 := by
  have hreach : Reachable (· = Conf.init s₀) (Step srv) k := by
    obtain ⟨k₀, h₀, hr⟩ := h
    refine ⟨k₀, h₀, ?_⟩
    induction hr with
    | refl => exact .refl
    | tail _ hs ih => exact ih.tail hs.step
  have hown : Owners k := h.inv (fun _ h => h ▸ ⟨rfl, Nat.zero_le _⟩) fun _ _ ho hs => ho.step hs
  exact ⟨hown.1 ▸ List.prefix_append _ _, received_isPrefix hreach⟩

/-- **Crossed replies.** Two callers that wait at once can get each other's replies: the second
to send receives the reply to the first's request, while the server still runs after it. -/
theorem crossed (s₀ : S) {c₁ c₂ : C} (hc : c₁ ≠ c₂) (q₁ q₂ : Q) (hlive : srv.live s₀ = true) :
    Reachable (· = Conf.init s₀) (Step srv)
      ⟨(srv.step s₀ q₁).2, [q₂], [], [c₁], [(c₁, q₁), (c₂, q₂)], [(c₂, (srv.step s₀ q₁).1)]⟩ := by
  have h₀ : Reachable (· = Conf.init s₀) (Step srv) (Conf.init s₀ : Conf C Q R S) :=
    Reachable.of_init rfl
  have h₁ := h₀.tail (Step.send c₁ q₁ (by simp [Conf.init]) hlive)
  have h₂ := h₁.tail (Step.send c₂ q₂ (by simpa [Conf.init] using hc.symm) hlive)
  have h₃ := h₂.tail (Step.serve rfl hlive)
  have h₄ := h₃.tail (Step.recv c₂ (by simp) rfl)
  simpa [Conf.init, List.erase_cons_head, List.erase_cons_tail, hc] using h₄

end Nydus.Lib.Channel
