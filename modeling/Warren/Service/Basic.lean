import Warren.Cleanup.Task
import Warren.Controller.Answer
import Warren.Controller.Expiry
import Warren.Service.Startup

/-!
# The running service

The service has one queue of messages for the controller, and work that goes on beside it: cleanup
tasks, the time limits of stages, the watches. Whatever pauses until an instant is woken when the
clock gets there, in the order of the instants; work that was woken runs in the order in which it
was woken.
-/

namespace Warren

inductive Message where
  | request (ticket : Nat) (asked : Request)
  | event (event : Api.Event)
  | timeout (id : JobId) (stage : Stage)

/-- A cleanup task that pauses until an instant. -/
structure Pause where
  task : Cleanup.Task
  deadline : Span
  ticket : Nat

/-- Something that happens once in a period. -/
structure Ticker where
  deadline : Span
  period : Span
  ticket : Nat

inductive Work where
  /-- Takes requests for the cleanup on. -/
  | takeOn
  | clean (request : Cleanup.Request)
  | retry (task : Cleanup.Task)
  /-- A time limit is reached. -/
  | expire (id : JobId) (ticket : Nat)
  /-- The controller looks at its queue, and at the clock for its sweeps. -/
  | control
  /-- The watches are polled. -/
  | poll

structure Service where
  controller : Controller
  /-- The messages for the controller, the oldest first. -/
  inbox : List Message
  /-- The answers so far, with the tickets of their requests. -/
  answers : List (Nat × Except Refusal Reply)
  pauses : List Pause
  watches : List Watch
  /-- When conditions are swept, if that is done by itself. -/
  sweeps : Option Ticker
  /-- When the watches are polled, if that is done by itself. -/
  polls : Option Ticker
  /-- Whether requests for the cleanup are served. -/
  cleans : Bool
  /-- The work to do, the next first. -/
  ready : List Work

namespace Service

/-- A service around a world that does nothing by itself, apart from the cleanup. -/
def idle (world : World) (cleans : Bool) : Service :=
  ⟨⟨[], world⟩, [], [], [], [], none, none, cleans, []⟩

def world (s : Service) : World := s.controller.world

def now (s : Service) : Span := s.world.now

def mapWorld (s : Service) (f : World → World) : Service :=
  { s with controller := { s.controller with world := f s.controller.world } }

def control (action : StateM Controller α) : StateM Service α := fun s =>
  let (a, controller) := action s.controller
  (a, { s with controller })

def inWorld (action : StateM World α) : StateM Service α := fun s =>
  let (a, world) := action s.world
  (a, s.mapWorld fun _ => world)

def handle (site : Site) : Message → StateM Service Unit
  | .request ticket asked => do
    let answer ← control (Controller.onRequest site asked).run
    modify fun s => { s with answers := s.answers ++ [(ticket, answer)] }
  | .event event => control (Controller.onEvent site event)
  | .timeout id stage => control (Controller.onTimeout site id stage)

/-! ### Waking -/

/-- What has to be done when an instant is reached. -/
structure Wake where
  deadline : Span
  ticket : Nat
  work : Work

def Wake.before (a b : Wake) : Bool :=
  a.deadline < b.deadline || (a.deadline.nanos = b.deadline.nanos && a.ticket ≤ b.ticket)

/-- The time limits of all jobs that are still to come. -/
def limits (s : Service) : List Wake :=
  s.controller.registry.filterMap fun (id, r) => match r.timer with
    | some t => if t.fired then none else some ⟨t.deadline, t.ticket, .expire id t.ticket⟩
    | none => none

def waiting (s : Service) : List Wake :=
  s.pauses.map (fun p => ⟨p.deadline, p.ticket, .retry p.task⟩) ++ s.limits
    ++ (s.sweeps.map fun t => ⟨t.deadline, t.ticket, .control⟩).toList
    ++ (s.polls.map fun t => ⟨t.deadline, t.ticket, .poll⟩).toList

/-- What has to be done by now, in order. -/
def due (s : Service) : List Work :=
  ((s.waiting.filter (·.deadline ≤ s.now)).mergeSort Wake.before).map Wake.work

/-- Moves the clock, and wakes what waited for an instant up to then. -/
def advance (s : Service) (time : Span) : Service :=
  let s := s.mapWorld fun w => { w with now := w.now + time }
  { s with
    ready := s.ready ++ s.due
    pauses := s.pauses.filter fun p => !(p.deadline ≤ s.now) }

end Service

end Warren
