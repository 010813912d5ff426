import Warren.Service.Basic

/-!
# Running the service

`settle` runs all work that is ready, and the work that this makes ready, until nothing is left to
do before the clock moves. `begin` sets a service going that acts by itself; `drain` runs one whose
messages are handled between two pieces of other work.
-/

namespace Warren

namespace Ticker

/-- How late a tick may come without the later ones being put off. -/
def slack : Span := .millis 5

/-- The ticker after a tick at an instant. -/
def next (t : Ticker) (now : Span) (ticket : Nat) : Ticker :=
  { t with deadline := (if t.deadline + slack < now then now else t.deadline) + t.period, ticket }

end Ticker

namespace Service

def draw : StateM Service Nat := inWorld World.draw

def tellAll (notices : List Notice) : StateM Service Unit :=
  modify (·.mapWorld (·.tellAll notices))

/-! ### The cleanup -/

/-- Lets a task that goes on pause, unless its delay is over at once. -/
def pause : Option Cleanup.Task → StateM Service Unit
  | none => pure ()
  | some task => do
    let now := (← get).now
    let deadline := now + task.backoff.delay
    if deadline ≤ now then modify fun s => { s with ready := .retry task :: s.ready }
    else
      let ticket ← draw
      modify fun s => { s with pauses := s.pauses ++ [⟨task, deadline, ticket⟩] }

def takeOn : StateM Service Unit := modify fun s =>
  { s.mapWorld fun w => { w with cleanups := [] } with
    ready := s.ready ++ s.world.cleanups.map .clean }

def clean (site : Site) (request : Cleanup.Request) : StateM Service Unit := do
  tellAll (← inWorld (World.serve (Cleanup.prepare request)))
  let task := Cleanup.Task.ofRequest (Startup.ladder site.config) request
  pause (← inWorld (World.serve task.attempt))

def retry (task : Cleanup.Task) : StateM Service Unit := do
  pause (← inWorld (World.serve task.resume))

/-! ### The controller and the watches -/

/-- Tells the controller that a time limit is reached, if it is still in force. -/
def expire (id : JobId) (ticket : Nat) : StateM Service Unit := modify fun s =>
  match s.controller.registry.find? id with
  | none => s
  | some r => match r.timer with
    | none => s
    | some t =>
      if t.ticket = ticket ∧ !t.fired then
        let r := { r with timer := some { t with fired := true } }
        { s with
          controller := { s.controller with registry := s.controller.registry.put r }
          inbox := s.inbox ++ [.timeout id t.stage] }
      else s

/-- Sweeps conditions, if it is time to. -/
def sweepIfDue (site : Site) : StateM Service Unit := do
  let s ← get
  match s.sweeps with
  | none => pure ()
  | some t =>
    if t.deadline ≤ s.now then
      control (Controller.sweep site)
      let ticket ← draw
      modify fun s => { s with sweeps := some (t.next s.now ticket) }

def handleAll (site : Site) : StateM Service Unit := do
  let messages := (← get).inbox
  modify fun s => { s with inbox := [] }
  messages.forM (handle site)

/-- Passes an event on: the health of storage at once, the state of workflows by a message. -/
def deliver (site : Site) (kind : Api.Kind) (event : Api.Event) : StateM Service Unit :=
  if kind = .storage then modify (·.mapWorld (·.announce (Health.onEvent site event)))
  else modify fun s => { s with inbox := s.inbox ++ [.event event] }

def pollWatch (site : Site) (w : Watch) : StateM Service Watch := do
  let (w, events) ← inWorld (World.serve (w.poll (← get).now))
  events.forM (deliver site w.kind)
  return w

def pollAll (site : Site) : StateM Service Unit := do
  let watches ← (← get).watches.mapM (pollWatch site)
  modify fun s => { s with watches }

def pollIfDue (site : Site) : StateM Service Unit := do
  let s ← get
  match s.polls with
  | none => pure ()
  | some t =>
    if t.deadline ≤ s.now then
      pollAll site
      let ticket ← draw
      let next := t.next s.now ticket
      modify fun s => { s with
        polls := some next
        ready := if next.deadline ≤ s.now then .poll :: s.ready else s.ready }

/-! ### Work -/

def perform (site : Site) : Work → StateM Service Unit
  | .takeOn => takeOn
  | .clean request => clean site request
  | .retry task => retry task
  | .expire id ticket => expire id ticket
  | .control => do
    sweepIfDue site
    handleAll site
  | .poll => pollIfDue site

/-- Whether requests for the cleanup are to be taken on already. -/
def isTakingOn (s : Service) : Bool := s.ready.any fun
  | .takeOn => true
  | _ => false

def isControlling (s : Service) : Bool := s.ready.any fun
  | .control => true
  | _ => false

/-- Whether the end of a time limit is to be reported already. -/
def isExpiring (s : Service) (ticket : Nat) : Bool := s.ready.any fun
  | .expire _ t => t = ticket
  | _ => false

/-- Wakes the work that has something to do. -/
def rouse (s : Service) : Service :=
  let takesOn := s.cleans && !s.world.cleanups.isEmpty && !s.isTakingOn
  let limits := s.limits.filter fun l => l.deadline ≤ s.now && !s.isExpiring l.ticket
  let controls := s.sweeps.isSome && !s.inbox.isEmpty && !s.isControlling
  { s with ready := s.ready ++ (if takesOn then [.takeOn] else []) ++ limits.map Wake.work
      ++ if controls then [.control] else [] }

/-- Whether the program crashed: in its world, or over a request. -/
def hasCrashed (s : Service) : Bool :=
  s.world.crashed || s.answers.any fun
    | (_, .error .stopped) => true
    | _ => false

/-- Does all work that is ready, up to `fuel` pieces of it, unless the program crashes. -/
def settleWithin (site : Site) : (fuel : Nat) → StateM Service Unit
  | 0 => pure ()
  | fuel + 1 => do
    modify rouse
    if (← get).hasCrashed then pure ()
    else match (← get).ready with
    | [] => pure ()
    | work :: rest =>
      modify fun s => { s with ready := rest }
      perform site work
      settleWithin site fuel

/-- The number of pieces of work that may follow from one step. -/
def workLimit : Nat := 100000

def settle (site : Site) : StateM Service Unit := settleWithin site workLimit

/-- Handles the waiting messages one by one, up to `fuel` of them, with all other work done before
and after each. -/
def drainWithin (site : Site) : (fuel : Nat) → StateM Service Unit
  | 0 => settle site
  | fuel + 1 => do
    settle site
    if (← get).hasCrashed then pure ()
    else match (← get).inbox with
    | [] => pure ()
    | message :: rest =>
      modify fun s => { s with inbox := rest }
      handle site message
      drainWithin site fuel

def drain (site : Site) : StateM Service Unit := drainWithin site workLimit

/-- The time between two sweeps: half of the time that a condition may last. -/
def sweepPeriod (config : Configuration) : Span := config.conditionTimeout.half.longer (.millis 100)

/-- A service that acts by itself, before it has done anything. -/
def begin (site : Site) (world : World) (watches : List Watch) : Service :=
  let period := sweepPeriod site.config
  let (first, world) := world.draw
  let (second, world) := world.draw
  { idle world true with
    watches
    sweeps := some ⟨world.now + period, period, first⟩
    polls := some ⟨world.now, site.config.watchInterval, second⟩
    ready := [.control, .poll] }

end Service

end Warren
