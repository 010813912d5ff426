import Warren.Controller.Answer
import Warren.Message.Frame

/-!
# The gateway

Any number of job managers may be connected to the service. Every request that comes in on a
connection is a task of its own: it passes the request on to the controller, waits for the answer
and queues it on the connection that the request came from. Notices for the job managers wait in a
channel, from which the gateway queues them one after the other on all connections.

Connections and tasks are numbered in the order in which they come about. What runs next is open, so
an event is one of the things that any of the parties does without being interrupted.
-/

namespace Warren

structure Connection where
  isOpen : Bool
  /-- Everything queued on the connection, the oldest first. -/
  queue : List Outgoing

/-- The connection with one more frame in its queue, if it is open. -/
def Connection.push (frame : Outgoing) (c : Connection) : Connection :=
  if c.isOpen then { c with queue := c.queue ++ [frame] } else c

/-- How far the task of a request has come. An answer that is missing stands for a request that was
dropped. -/
inductive Phase where
  | fresh
  /-- The controller has the request. -/
  | waiting
  | settled (answer : Option (Except Refusal Reply))
  /-- The task is over, and its response was queued unless the connection was closed by then. -/
  | ended (answer : Option (Except Refusal Reply)) (queued : Bool)

structure RequestTask where
  /-- The connection that the request came from. -/
  connection : Nat
  /-- The number of the request on its connection. -/
  number : UInt64
  asked : Request
  phase : Phase

/-- The response to the request, after an answer or none. -/
def RequestTask.response (task : RequestTask) (answer : Option (Except Refusal Reply)) : Response :=
  .ofAnswer task.number (answer.getD (.error .stopped))

/-- The task after the controller dropped all the requests that it has. -/
def RequestTask.drop (task : RequestTask) : RequestTask :=
  match task.phase with
  | .waiting => { task with phase := .settled none }
  | _ => task

structure Gateway where
  connections : List Connection
  tasks : List RequestTask
  /-- The notices that were sent and are not on the connections yet, the oldest first. -/
  notices : List Notice
  /-- Whether the controller takes requests. -/
  isServed : Bool
  /-- Whether the gateway takes connections and notices. -/
  isRunning : Bool

namespace Gateway

def idle : Gateway := ⟨[], [], [], true, true⟩

def isOpen (g : Gateway) (connection : Nat) : Bool :=
  g.connections[connection]?.any Connection.isOpen

def queue (g : Gateway) (connection : Nat) : List Outgoing :=
  (g.connections[connection]?.map Connection.queue).getD []

/-! ### Connections -/

def attach (g : Gateway) : Gateway :=
  if g.isRunning then { g with connections := g.connections ++ [⟨true, []⟩] } else g

def detach (g : Gateway) (connection : Nat) : Gateway :=
  { g with connections := g.connections.modify connection fun c => { c with isOpen := false } }

/-- A frame on a connection, none if it cannot be read, which is the end of the connection. A notice
that could not be delivered is not answered. -/
def hear (g : Gateway) (connection : Nat) (frame : Option Incoming) : Gateway :=
  if g.isOpen connection then
    match frame with
    | some (.request number asked) =>
      { g with tasks := g.tasks ++ [⟨connection, number, asked, .fresh⟩] }
    | some (.noticeFailed ..) => g
    | none => g.detach connection
  else g

/-! ### Requests -/

def setPhase (g : Gateway) (ticket : Nat) (phase : Phase) : Gateway :=
  { g with tasks := g.tasks.modify ticket fun task => { task with phase } }

/-- The end of a task, with its response in the queue of its connection if that is open. -/
def conclude (g : Gateway) (ticket : Nat) (task : RequestTask)
    (answer : Option (Except Refusal Reply)) : Gateway :=
  let ended := g.setPhase ticket (.ended answer (g.isOpen task.connection))
  { ended with
    connections := g.connections.modify task.connection
      (Connection.push (.response (task.response answer))) }

/-- The first turn of a task, and the request that it passes on. A controller that has stopped drops
the request at once. -/
def pass (g : Gateway) (ticket : Nat) : Gateway × Option (Nat × Request) :=
  match g.tasks[ticket]? with
  | some task =>
    match task.phase with
    | .fresh =>
      if g.isServed then (g.setPhase ticket .waiting, some (ticket, task.asked))
      else (g.conclude ticket task none, none)
    | _ => (g, none)
  | none => (g, none)

/-- The answer of the controller to a request that it has, none if it dropped the request. Only the
first answer counts. -/
def settle (g : Gateway) (ticket : Nat) (answer : Option (Except Refusal Reply)) : Gateway :=
  match g.tasks[ticket]? with
  | some task =>
    match task.phase with
    | .waiting => g.setPhase ticket (.settled answer)
    | _ => g
  | none => g

/-- The last turn of a task. -/
def respond (g : Gateway) (ticket : Nat) : Gateway :=
  match g.tasks[ticket]? with
  | some task =>
    match task.phase with
    | .settled answer => g.conclude ticket task answer
    | _ => g
  | none => g

/-- The controller stops, and drops all the requests that it has. -/
def stop (g : Gateway) : Gateway :=
  { g with isServed := false, tasks := g.tasks.map RequestTask.drop }

/-! ### Notices -/

def notify (g : Gateway) (notice : Notice) : Gateway :=
  if g.isRunning then { g with notices := g.notices ++ [notice] } else g

/-- The oldest notice goes to all connections that are open. -/
def fanOut (g : Gateway) : Gateway :=
  match g.isRunning, g.notices with
  | true, notice :: rest =>
    { g with
      notices := rest
      connections := g.connections.map (Connection.push (.notice notice)) }
  | _, _ => g

/-- The end of the gateway, as soon as no one is left to send notices and all of them were taken.
The connections that there are outlive it. -/
def quit (g : Gateway) : Gateway :=
  if g.notices.isEmpty then { g with isRunning := false } else g

/-! ### Runs -/

inductive Event where
  | attach
  | detach (connection : Nat)
  | hear (connection : Nat) (frame : Option Incoming)
  | pass (ticket : Nat)
  | settle (ticket : Nat) (answer : Option (Except Refusal Reply))
  | respond (ticket : Nat)
  | stop
  | notify (notice : Notice)
  | fanOut
  | quit

def step (g : Gateway) : Event → Gateway
  | .attach => g.attach
  | .detach connection => g.detach connection
  | .hear connection frame => g.hear connection frame
  | .pass ticket => (g.pass ticket).1
  | .settle ticket answer => g.settle ticket answer
  | .respond ticket => g.respond ticket
  | .stop => g.stop
  | .notify notice => g.notify notice
  | .fanOut => g.fanOut
  | .quit => g.quit

def run (g : Gateway) (events : List Event) : Gateway := events.foldl step g

end Gateway

end Warren
