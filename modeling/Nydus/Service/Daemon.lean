import Mathlib
import Nydus.Lib.Channel
import Nydus.Lib.Fsm
import Nydus.Lib.Reach

/-!
# The daemon's state machine and its event loop

A daemon runs a `state_machine!` machine (`daemonStateMachine`) on a thread of its own
(`run_state_machine_event_loop`). Callers send it events through a channel and wait for the reply
(`on_event`); `trigger_stop` and `trigger_exit` send one or two events, chosen by the state the
daemon reports. For each event the loop makes the transition, runs the action the transition
outputs (start, stop or umount the service, restore it), sets the daemon's state when the action
succeeds, replies, and quits once the daemon is `STOPPED`. An event the machine has no transition
for is refused, and nothing changes.

The daemon's own calls (`start`, `wait_service`, `umount`, `restore`) may fail: their results are
an input of each step (`Calls`). Whatever they return, every daemon reached reports `STOPPED`
exactly when the loop has quit, and then the machine is in `Die` (`Daemon.Inv`). Once the machine
is in `Die` nothing changes again; if the loop still runs there, it refuses every event. When no
call fails, `trigger_stop` and `trigger_exit` stop every daemon reached.

`on_event` sends on one channel and waits on another, so callers at once may overtake each other
at the second. Behind the channels the loop is a `Nydus.Lib.Channel.Server` (`eventLoop`): however
the callers interleave, the replies received, in order, are those the events sent get from
`on_event` called for each in turn; callers that never wait at once each get their own.
-/

namespace Nydus.Service

open Nydus.Lib

/-- `DaemonState`: the working state a daemon reports. -/
inductive DaemonState where
  | init
  | running
  | ready
  | stopped
  | unknown
  deriving DecidableEq, Repr

namespace DaemonState

/-- The discriminant, as the daemon stores it in its `AtomicI32`. -/
def toI32 : DaemonState → Int
  | init => 1
  | running => 2
  | ready => 3
  | stopped => 4
  | unknown => 5

/-- `From<i32>`. -/
def ofI32 (i : Int) : DaemonState :=
  if i = 1 then init
  else if i = 2 then running
  else if i = 3 then ready
  else if i = 4 then stopped
  else unknown

@[simp] theorem ofI32_toI32 (s : DaemonState) : ofI32 s.toI32 = s := by
  cases s <;> rfl

end DaemonState

inductive DaemonStateMachineState where
  | init
  | ready
  | running
  | die
  deriving DecidableEq, Repr

inductive DaemonStateMachineInput where
  | mount
  | takeover
  | stop
  | start
  | exit
  deriving DecidableEq, Repr

inductive DaemonStateMachineOutput where
  | restore
  | stopStateMachine
  | startService
  | umount
  | terminateService
  deriving DecidableEq, Repr

open DaemonStateMachineState DaemonStateMachineInput DaemonStateMachineOutput

/-- `DaemonStateMachine`, the machine `state_machine!` generates from its table. -/
def daemonStateMachine :
    Fsm DaemonStateMachineState DaemonStateMachineInput DaemonStateMachineOutput where
  transition
    | .init, .mount => some .ready
    | .init, .takeover => some .ready
    | .init, .stop => some .die
    | .ready, .start => some .running
    | .ready, .stop => some .die
    | .ready, .exit => some .die
    | .running, .stop => some .ready
    | _, _ => none
  output
    | .init, .takeover => some .restore
    | .init, .stop => some .stopStateMachine
    | .ready, .start => some .startService
    | .ready, .stop => some .umount
    | .ready, .exit => some .stopStateMachine
    | .running, .stop => some .terminateService
    | _, _ => none

/-- The errors a caller of the state machine gets back: an event the machine refuses, a send to a
loop that has quit, or another error, which a call of the daemon returned, by its message. -/
inductive Error where
  | unexpectedEvent (event : DaemonStateMachineInput)
  | channelSend
  | other (msg : String)
  deriving DecidableEq, Repr

/-- What the daemon's own calls return while the loop handles one event: `start`,
`wait_service`, `umount` and `restore` (`stop` returns nothing). -/
structure Calls where
  start : Except Error Unit
  waitService : Except Error Unit
  umount : Except Error Unit
  restore : Except Error Unit
  deriving DecidableEq, Repr

/-- Every call succeeds. -/
def Calls.ok : Calls := ⟨.ok (), .ok (), .ok (), .ok ()⟩

/-- A daemon with its state machine thread: the machine's state, the daemon's `state` word, and
whether the loop still runs (it holds the receiving end of the event channel). -/
structure Daemon where
  sm : DaemonStateMachineState
  state : Int
  alive : Bool
  deriving DecidableEq, Repr

namespace Daemon

def getState (d : Daemon) : DaemonState := DaemonState.ofI32 d.state

def setState (d : Daemon) (s : DaemonState) : Daemon := { d with state := s.toI32 }

@[simp] theorem getState_setState (d : Daemon) (s : DaemonState) : (d.setState s).getState = s :=
  DaemonState.ofI32_toI32 s

@[simp] theorem sm_setState (d : Daemon) (s : DaemonState) : (d.setState s).sm = d.sm := rfl

@[simp] theorem alive_setState (d : Daemon) (s : DaemonState) : (d.setState s).alive = d.alive :=
  rfl

/-- A daemon as it is created, `INIT`, with its state machine thread started
(`kick_state_machine`). -/
def new : Daemon := ⟨.init, DaemonState.init.toI32, true⟩

/-- An action that calls the daemon and, when the call succeeds, sets the daemon's state. -/
def setOnOk (d : Daemon) (res : Except Error Unit) (s : DaemonState) :
    Except Error Unit × Daemon :=
  match res with
  | .ok () => (.ok (), d.setState s)
  | .error e => (.error e, d)

/-- The action of a transition, as the loop runs it, and the reply it sends. -/
def runAction (d : Daemon) (calls : Calls) :
    Option DaemonStateMachineOutput → Except Error Unit × Daemon
  | some .startService => d.setOnOk calls.start .running
  -- `stop` first; the state is set when `wait_service` succeeds
  | some .terminateService => d.setOnOk calls.waitService .ready
  -- after a successful `umount`, the error of `wait_service` is only logged
  | some .umount => d.setOnOk calls.umount .stopped
  | some .restore => d.setOnOk calls.restore .ready
  | some .stopStateMachine => (.ok (), d.setState .stopped)
  | none => (.ok (), d)

/-- The loop's check after each reply: it quits once the daemon is `STOPPED`. -/
def checkStopped (d : Daemon) : Daemon := { d with alive := d.getState != .stopped }

/-- One turn of `run_state_machine_event_loop`: the reply to `event`, and the daemon after it. A
refused event changes nothing; after a transition the loop quits if the daemon is `STOPPED`. -/
def handleEvent (d : Daemon) (event : DaemonStateMachineInput) (calls : Calls) :
    Except Error Unit × Daemon :=
  match daemonStateMachine.consume d.sm event with
  | none => (.error (.unexpectedEvent event), d)
  | some (action, sm) =>
    let res := runAction { d with sm := sm } calls action
    (res.1, res.2.checkStopped)

/-- `on_event`: send the event to the loop and wait for its reply. Once the loop has quit, the
receiving end of the channel is gone and the send fails. -/
def onEvent (d : Daemon) (event : DaemonStateMachineInput) (calls : Calls) :
    Except Error Unit × Daemon :=
  if d.alive then d.handleEvent event calls else (.error .channelSend, d)

/-- `trigger_stop`. -/
def triggerStop (d : Daemon) (calls₁ calls₂ : Calls) : Except Error Unit × Daemon :=
  if d.getState = .stopped then (.ok (), d)
  else if d.getState = .running then
    match d.onEvent .stop calls₁ with
    | (.ok (), d) => d.onEvent .stop calls₂
    | (.error e, d) => (.error e, d)
  else d.onEvent .stop calls₁

/-- `trigger_exit`. -/
def triggerExit (d : Daemon) (calls₁ calls₂ : Calls) : Except Error Unit × Daemon :=
  if d.getState = .stopped then (.ok (), d)
  else if d.getState = .init then d.onEvent .stop calls₁
  else if d.getState = .running then
    match d.onEvent .stop calls₁ with
    | (.ok (), d) => d.onEvent .exit calls₂
    | (.error e, d) => (.error e, d)
  else d.onEvent .exit calls₁

end Daemon

/-- What a caller asks of the daemon: one event (`Mount` and `Start` as the daemon is set up,
`trigger_takeover`, `trigger_start`), `trigger_stop` or `trigger_exit`. -/
inductive Request where
  | event (e : DaemonStateMachineInput)
  | triggerStop
  | triggerExit
  deriving DecidableEq, Repr

namespace Daemon

/-- A request served, with the daemon's calls returning `calls₁` for the first event it sends
and `calls₂` for the second. -/
def serve (d : Daemon) (calls₁ calls₂ : Calls) : Request → Except Error Unit × Daemon
  | .event e => d.onEvent e calls₁
  | .triggerStop => d.triggerStop calls₁ calls₂
  | .triggerExit => d.triggerExit calls₁ calls₂

/-- One request served, whatever the daemon's calls return. -/
def Step (d d' : Daemon) : Prop :=
  ∃ (req : Request) (calls₁ calls₂ : Calls), (d.serve calls₁ calls₂ req).2 = d'

end Daemon

/-! ## One event -/

/-- The state the action of a transition sets when it succeeds. -/
def DaemonStateMachineOutput.target : DaemonStateMachineOutput → DaemonState
  | restore => .ready
  | stopStateMachine => .stopped
  | startService => .running
  | umount => .stopped
  | terminateService => .ready

theorem consume_ne_init {s s' : DaemonStateMachineState} {i : DaemonStateMachineInput}
    {o : Option DaemonStateMachineOutput} (h : daemonStateMachine.consume s i = some (o, s')) :
    s' ≠ .init := by
  rw [Fsm.consume_eq_some] at h
  cases s <;> cases i <;> simp [daemonStateMachine] at h <;> (obtain ⟨rfl, -⟩ := h; decide)

theorem consume_die_of_target {s s' : DaemonStateMachineState} {i : DaemonStateMachineInput}
    {a : DaemonStateMachineOutput} (h : daemonStateMachine.consume s i = some (some a, s'))
    (ha : a.target = .stopped) : s' = .die := by
  rw [Fsm.consume_eq_some] at h
  cases s <;> cases i <;> simp [daemonStateMachine] at h <;>
    (obtain ⟨rfl, rfl⟩ := h; first | rfl | cases ha)

theorem final_die : daemonStateMachine.Final .die := fun i => by
  cases i <;> rfl

namespace Daemon

variable {d : Daemon}

@[simp] theorem getState_checkStopped (d : Daemon) : d.checkStopped.getState = d.getState := rfl

@[simp] theorem sm_checkStopped (d : Daemon) : d.checkStopped.sm = d.sm := rfl

theorem alive_checkStopped (d : Daemon) : d.checkStopped.alive = true ↔ d.getState ≠ .stopped := by
  simp [checkStopped]

theorem setOnOk_cases (d : Daemon) (res : Except Error Unit) (s : DaemonState) :
    (d.setOnOk res s).2 = d ∨ (d.setOnOk res s).2 = d.setState s := by
  cases res <;> simp [setOnOk]

theorem runAction_cases (d : Daemon) (calls : Calls) (o : Option DaemonStateMachineOutput) :
    (d.runAction calls o).2 = d ∨
      ∃ a, o = some a ∧ (d.runAction calls o).2 = d.setState a.target := by
  rcases o with _ | a
  · exact .inl rfl
  · cases a <;> simp only [runAction, DaemonStateMachineOutput.target]
    case stopStateMachine => exact .inr ⟨_, rfl, rfl⟩
    all_goals
      rcases setOnOk_cases d _ _ with h | h
      · exact .inl h
      · exact .inr ⟨_, rfl, h⟩

@[simp] theorem sm_runAction (d : Daemon) (calls : Calls) (o : Option DaemonStateMachineOutput) :
    (d.runAction calls o).2.sm = d.sm := by
  rcases runAction_cases d calls o with h | ⟨a, -, h⟩ <;> rw [h]
  rfl

@[simp] theorem alive_runAction (d : Daemon) (calls : Calls)
    (o : Option DaemonStateMachineOutput) : (d.runAction calls o).2.alive = d.alive := by
  rcases runAction_cases d calls o with h | ⟨a, -, h⟩ <;> rw [h]
  rfl

/-- What every daemon reached satisfies, whatever its calls returned. -/
structure Inv (d : Daemon) : Prop where
  known : d.getState ≠ .unknown
  alive_iff : d.alive = true ↔ d.getState ≠ .stopped
  die_of_stopped : d.getState = .stopped → d.sm = .die
  init_of_init : d.sm = .init → d.getState = .init

theorem inv_new : Inv new where
  known := by decide
  alive_iff := by decide
  die_of_stopped := by decide
  init_of_init := fun _ => rfl

theorem Inv.handleEvent (hinv : Inv d) (e : DaemonStateMachineInput) (calls : Calls) :
    Inv (d.handleEvent e calls).2 := by
  unfold Daemon.handleEvent
  rcases hc : daemonStateMachine.consume d.sm e with _ | ⟨o, sm'⟩
  · exact hinv
  · dsimp only
    refine ⟨?_, alive_checkStopped _, fun hst => ?_, fun h => ?_⟩
    · rw [getState_checkStopped]
      rcases runAction_cases { d with sm := sm' } calls o with h | ⟨a, rfl, h⟩ <;> rw [h]
      · exact hinv.known
      · cases a <;> simp [DaemonStateMachineOutput.target]
    · rw [getState_checkStopped] at hst
      rw [sm_checkStopped]
      rcases runAction_cases { d with sm := sm' } calls o with h | ⟨a, rfl, h⟩ <;> rw [h] at hst ⊢
      · -- a stopped daemon is in `Die` already, where no event has a transition
        rw [hinv.die_of_stopped hst, Fsm.consume_of_final final_die] at hc
        cases hc
      · exact consume_die_of_target hc (by simpa using hst)
    · rw [sm_checkStopped, sm_runAction] at h
      exact absurd h (consume_ne_init hc)

theorem Inv.onEvent (hinv : Inv d) (e : DaemonStateMachineInput) (calls : Calls) :
    Inv (d.onEvent e calls).2 := by
  unfold Daemon.onEvent
  split
  · exact hinv.handleEvent e calls
  · exact hinv

theorem Inv.of_onEvent (hinv : Inv d) {e : DaemonStateMachineInput} {calls : Calls}
    {r : Except Error Unit} {d' : Daemon} (h : d.onEvent e calls = (r, d')) : Inv d' := by
  have := hinv.onEvent e calls
  rwa [h] at this

theorem Inv.serve (hinv : Inv d) (calls₁ calls₂ : Calls) (req : Request) :
    Inv (d.serve calls₁ calls₂ req).2 := by
  cases req with
  | event e => exact hinv.onEvent e calls₁
  | triggerStop =>
    show Inv (d.triggerStop calls₁ calls₂).2
    unfold Daemon.triggerStop
    split_ifs
    · exact hinv
    · split
      next d₁ h => exact (hinv.of_onEvent h).onEvent _ _
      next d₁ h => exact hinv.of_onEvent h
    · exact hinv.onEvent _ _
  | triggerExit =>
    show Inv (d.triggerExit calls₁ calls₂).2
    unfold Daemon.triggerExit
    split_ifs
    · exact hinv
    · exact hinv.onEvent _ _
    · split
      next d₁ h => exact (hinv.of_onEvent h).onEvent _ _
      next d₁ h => exact hinv.of_onEvent h
    · exact hinv.onEvent _ _

theorem Step.of_serve (calls₁ calls₂ : Calls) (req : Request) :
    Step d (d.serve calls₁ calls₂ req).2 :=
  ⟨req, calls₁, calls₂, rfl⟩

theorem inv_of_reachable (h : Reachable (· = new) Step d) : Inv d :=
  h.inv (fun _ h => h ▸ inv_new) fun _ _ hinv ⟨req, _, _, hs⟩ => hs ▸ hinv.serve _ _ req

/-- **What a daemon reports.** In every daemon reached, whatever its calls returned, the state it
reports is a known one; it reports `STOPPED` exactly when its event loop has quit, and then the
machine is in `Die`; while the machine is in `Init` it reports `INIT`. -/
theorem daemon_reports_stopped_iff_quit (h : Reachable (· = new) Step d) :
    d.getState ≠ .unknown ∧ (d.getState = .stopped ↔ d.alive = false) ∧
      (d.getState = .stopped → d.sm = .die) ∧ (d.sm = .init → d.getState = .init) := by
  have hinv := inv_of_reachable h
  refine ⟨hinv.known, ?_, hinv.die_of_stopped, hinv.init_of_init⟩
  rw [← Bool.not_eq_true, hinv.alive_iff, not_not]

/-- The daemon after `Mount`, then a `trigger_stop` whose `umount` fails. -/
def failedUmount : Daemon :=
  ((new.serve .ok .ok (.event .mount)).2.serve { Calls.ok with umount := .error (.other "busy") }
    .ok .triggerStop).2

theorem reachable_failedUmount : Reachable (· = new) Step failedUmount := by
  have h₀ : Reachable (· = new) Step new := Reachable.of_init rfl
  exact (h₀.tail (Step.of_serve _ _ _)).tail (Step.of_serve _ _ _)

theorem daemon_reports_stopped_iff_quit_failedUmount :
    failedUmount.getState ≠ .unknown ∧ (failedUmount.getState = .stopped ↔ failedUmount.alive = false) ∧
      (failedUmount.getState = .stopped → failedUmount.sm = .die) ∧
      (failedUmount.sm = .init → failedUmount.getState = .init) :=
  daemon_reports_stopped_iff_quit reachable_failedUmount

/-! ## `Die` is final -/

theorem handleEvent_of_die (hd : d.sm = .die) (e : DaemonStateMachineInput) (calls : Calls) :
    d.handleEvent e calls = (.error (.unexpectedEvent e), d) := by
  unfold Daemon.handleEvent
  rw [hd, Fsm.consume_of_final final_die]

theorem onEvent_of_die (hd : d.sm = .die) (e : DaemonStateMachineInput) (calls : Calls) :
    d.onEvent e calls = (.error (if d.alive then .unexpectedEvent e else .channelSend), d) := by
  unfold Daemon.onEvent
  split
  · exact handleEvent_of_die hd e calls
  · rfl

theorem serve_of_die (hd : d.sm = .die) (hst : d.getState ≠ .stopped) (calls₁ calls₂ : Calls)
    (req : Request) : (d.serve calls₁ calls₂ req).2 = d ∧
      (d.alive = true → ∃ e, (d.serve calls₁ calls₂ req).1 = .error (.unexpectedEvent e)) := by
  cases req with
  | event e =>
    show (d.onEvent e calls₁).2 = d ∧ (d.alive = true → ∃ e', (d.onEvent e calls₁).1 = _)
    rw [onEvent_of_die hd]
    exact ⟨rfl, fun ha => ⟨e, by rw [if_pos ha]⟩⟩
  | triggerStop =>
    show (d.triggerStop calls₁ calls₂).2 = d ∧ (d.alive = true → ∃ e, (d.triggerStop calls₁ calls₂).1 = _)
    unfold Daemon.triggerStop
    rw [if_neg hst]
    split_ifs <;> simp only [onEvent_of_die hd, true_and] <;>
      exact fun ha => ⟨_, by rw [if_pos ha]⟩
  | triggerExit =>
    show (d.triggerExit calls₁ calls₂).2 = d ∧ (d.alive = true → ∃ e, (d.triggerExit calls₁ calls₂).1 = _)
    unfold Daemon.triggerExit
    rw [if_neg hst]
    split_ifs <;> simp only [onEvent_of_die hd, true_and] <;>
      exact fun ha => ⟨_, by rw [if_pos ha]⟩

theorem serve_of_stopped (hst : d.getState = .stopped) (ha : d.alive = false)
    (calls₁ calls₂ : Calls) (req : Request) : (d.serve calls₁ calls₂ req).2 = d := by
  cases req with
  | event e =>
    show (d.onEvent e calls₁).2 = d
    rw [Daemon.onEvent, if_neg (by simp [ha])]
  | triggerStop =>
    show (d.triggerStop calls₁ calls₂).2 = d
    rw [Daemon.triggerStop, if_pos hst]
  | triggerExit =>
    show (d.triggerExit calls₁ calls₂).2 = d
    rw [Daemon.triggerExit, if_pos hst]

/-- **`Die` is final.** A daemon reached whose machine is in `Die` never changes again, whatever
is asked of it and whatever its calls return. While its loop still runs there, as a failed
`umount` leaves it, every request gets an `UnexpectedEvent` error back. -/
theorem die_is_final (h : Reachable (· = new) Step d) (hd : d.sm = .die) (calls₁ calls₂ : Calls)
    (req : Request) : (d.serve calls₁ calls₂ req).2 = d ∧
      (d.alive = true → ∃ e, (d.serve calls₁ calls₂ req).1 = .error (.unexpectedEvent e)) := by
  have hinv := inv_of_reachable h
  by_cases ha : d.alive = true
  · exact serve_of_die hd (hinv.alive_iff.mp ha) calls₁ calls₂ req
  · -- the loop has quit: the daemon is `STOPPED`
    have hst : d.getState = .stopped := not_not.mp (mt hinv.alive_iff.mpr ha)
    exact ⟨serve_of_stopped hst (by simpa using ha) calls₁ calls₂ req, fun h => absurd h ha⟩

theorem die_is_final_failedUmount :
    failedUmount.sm = .die ∧ failedUmount.alive = true ∧
      (failedUmount.serve .ok .ok .triggerExit).2 = failedUmount ∧
      ∃ e, (failedUmount.serve .ok .ok .triggerExit).1 = .error (.unexpectedEvent e) := by
  have hfinal := die_is_final reachable_failedUmount rfl .ok .ok .triggerExit
  exact ⟨rfl, rfl, hfinal.1, hfinal.2 rfl⟩

/-! ## Shutdown when no call fails -/

/-- One request served, with every call of the daemon succeeding. -/
def HealthyStep (d d' : Daemon) : Prop := ∃ req : Request, (d.serve .ok .ok req).2 = d'

/-- A daemon stopped: `STOPPED`, in `Die`, its loop quit. -/
def stoppedDaemon : Daemon := ⟨.die, DaemonState.stopped.toI32, false⟩

/-- The daemons reached when no call fails. -/
def healthy : List Daemon :=
  [new, ⟨.ready, DaemonState.init.toI32, true⟩, ⟨.ready, DaemonState.ready.toI32, true⟩,
    ⟨.running, DaemonState.running.toI32, true⟩, stoppedDaemon]

/-- Every request. -/
def requests : List Request :=
  [.event .mount, .event .takeover, .event .stop, .event .start, .event .exit, .triggerStop,
    .triggerExit]

theorem mem_requests (req : Request) : req ∈ requests := by
  rcases req with ⟨_ | _ | _ | _ | _⟩ | _ | _ <;> decide

theorem healthy_serve : ∀ d ∈ healthy, ∀ req ∈ requests, (d.serve .ok .ok req).2 ∈ healthy := by
  decide

theorem healthy_triggers : ∀ d ∈ healthy, d.triggerStop .ok .ok = (.ok (), stoppedDaemon) ∧
    d.triggerExit .ok .ok = (.ok (), stoppedDaemon) := by
  decide

theorem healthy_of_reachable (h : Reachable (· = new) HealthyStep d) : d ∈ healthy :=
  h.inv (fun _ h => h ▸ List.mem_cons_self) fun d _ hd ⟨req, hs⟩ =>
    hs ▸ healthy_serve d hd req (mem_requests req)

/-- **Shutdown.** When no call of the daemon fails, `trigger_stop` and `trigger_exit` succeed from
every daemon reached, and leave it `STOPPED`, its machine in `Die` and its loop quit. -/
theorem triggers_stop_daemon (h : Reachable (· = new) HealthyStep d) :
    d.triggerStop .ok .ok = (.ok (), stoppedDaemon) ∧
      d.triggerExit .ok .ok = (.ok (), stoppedDaemon) :=
  healthy_triggers d (healthy_of_reachable h)

theorem triggers_stop_daemon_running :
    Reachable (· = new) HealthyStep ⟨.running, DaemonState.running.toI32, true⟩ ∧
      (Daemon.mk .running (DaemonState.running.toI32) true).triggerStop .ok .ok =
        (.ok (), stoppedDaemon) ∧
      (Daemon.mk .running (DaemonState.running.toI32) true).triggerExit .ok .ok =
        (.ok (), stoppedDaemon) := by
  have h₀ : Reachable (· = new) HealthyStep new := Reachable.of_init rfl
  have h : Reachable (· = new) HealthyStep ⟨.running, DaemonState.running.toI32, true⟩ :=
    (h₀.tail ⟨.event .mount, rfl⟩).tail ⟨.event .start, rfl⟩
  exact ⟨h, triggers_stop_daemon h⟩

/-! ## Callers at once -/

/-- `on_event` called for each event in turn, each with what the daemon's calls return while the
loop handles it. -/
def onEvents : Daemon → List (DaemonStateMachineInput × Calls) → List (Except Error Unit) × Daemon
  | d, [] => ([], d)
  | d, (e, calls) :: es =>
    let res := onEvents (d.onEvent e calls).2 es
    ((d.onEvent e calls).1 :: res.1, res.2)

/-- The event loop behind the two channels of `on_event`: an event comes with what the daemon's
calls return while the loop handles it, and a send to a loop that has quit fails. -/
def eventLoop : Channel.Server (DaemonStateMachineInput × Calls) (Except Error Unit) Daemon where
  step d ec := d.handleEvent ec.1 ec.2
  live d := d.alive
  refused := .error .channelSend

theorem serial_eventLoop :
    ∀ (d : Daemon) (es : List (DaemonStateMachineInput × Calls)), eventLoop.serial d es = d.onEvents es
  | d, [] => rfl
  | d, (e, calls) :: es => by
    simp only [Channel.Server.serial, onEvents, serial_eventLoop _ es]
    rfl

variable {C : Type} [DecidableEq C]

/-- **Callers at once.** However the callers of `on_event` on a new daemon interleave, the replies
they receive, in the order received, are those the events sent get when `on_event` is called for
each in turn, in the order sent: no reply is lost, received twice or overtaken. -/
theorem onEvent_replies_in_send_order
    {k : Channel.Conf C (DaemonStateMachineInput × Calls) (Except Error Unit) Daemon}
    (h : Reachable (· = Channel.Conf.init new) (Channel.Step eventLoop) k) :
    k.received.map Prod.snd <+: (new.onEvents (k.sent.map Prod.snd)).1 := by
  rw [← serial_eventLoop]
  exact Channel.received_isPrefix h

/-- One caller sends `Mount` to a new daemon and receives the loop's reply. -/
def mountCall : Channel.Conf Nat (DaemonStateMachineInput × Calls) (Except Error Unit) Daemon :=
  ⟨(new.handleEvent .mount .ok).2, [], [], [], [(0, (.mount, .ok))],
    [(0, (new.handleEvent .mount .ok).1)]⟩

theorem onEvent_replies_in_send_order_mountCall :
    Reachable (· = Channel.Conf.init new) (Channel.Step eventLoop) mountCall ∧
      mountCall.received.map Prod.snd <+: (new.onEvents (mountCall.sent.map Prod.snd)).1 := by
  have h₀ : Reachable (· = Channel.Conf.init new) (Channel.Step eventLoop)
      (Channel.Conf.init new : Channel.Conf Nat _ _ _) := Reachable.of_init rfl
  have h₁ := h₀.tail (Channel.Step.send 0 (.mount, .ok) (by simp [Channel.Conf.init]) rfl)
  have h₂ := h₁.tail (Channel.Step.serve rfl rfl)
  have h : Reachable (· = Channel.Conf.init new) (Channel.Step eventLoop) mountCall :=
    h₂.tail (Channel.Step.recv 0 (by simp) rfl)
  exact ⟨h, onEvent_replies_in_send_order h⟩

/-- **Callers one at a time.** Callers of `on_event` that send only while no other one waits each
receive the reply their own event gets when the events are sent one after another: the callers
that receive, in order, are those that sent, and the replies are those of `on_event` called for
each event in turn. -/
theorem onEvent_own_replies
    {k : Channel.Conf C (DaemonStateMachineInput × Calls) (Except Error Unit) Daemon}
    (h : Reachable (· = Channel.Conf.init new) (Channel.ExclusiveStep eventLoop) k) :
    k.received.map Prod.fst <+: k.sent.map Prod.fst ∧
      k.received.map Prod.snd <+: (new.onEvents (k.sent.map Prod.snd)).1 := by
  rw [← serial_eventLoop]
  exact Channel.received_own h

theorem onEvent_own_replies_mountCall :
    Reachable (· = Channel.Conf.init new) (Channel.ExclusiveStep eventLoop) mountCall ∧
      mountCall.received.map Prod.fst <+: mountCall.sent.map Prod.fst ∧
      mountCall.received.map Prod.snd <+: (new.onEvents (mountCall.sent.map Prod.snd)).1 := by
  have h₀ : Reachable (· = Channel.Conf.init new) (Channel.ExclusiveStep eventLoop)
      (Channel.Conf.init new : Channel.Conf Nat _ _ _) := Reachable.of_init rfl
  have h₁ := h₀.tail (Channel.ExclusiveStep.send 0 (.mount, .ok) rfl rfl)
  have h₂ := h₁.tail (Channel.ExclusiveStep.other (Channel.Step.serve rfl rfl) rfl)
  have h : Reachable (· = Channel.Conf.init new) (Channel.ExclusiveStep eventLoop) mountCall :=
    h₂.tail (Channel.ExclusiveStep.other (Channel.Step.recv 0 (by simp) rfl) rfl)
  exact ⟨h, onEvent_own_replies h⟩

theorem mount_caller_gets_exit_refusal {c₁ c₂ : C} (hc : c₁ ≠ c₂) (calls₁ calls₂ : Calls) :
    ∃ k, Reachable (· = Channel.Conf.init new) (Channel.Step eventLoop) k ∧
      k.sent = [(c₁, (.exit, calls₁)), (c₂, (.mount, calls₂))] ∧
      k.received = [(c₂, .error (.unexpectedEvent .exit))] :=
  ⟨_, Channel.crossed new hc (.exit, calls₁) (.mount, calls₂) rfl, rfl, rfl⟩

end Daemon

end Nydus.Service
