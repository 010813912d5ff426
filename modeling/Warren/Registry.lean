import Warren.Allocation.Jobspec
import Warren.JobId
import Warren.Span
import Warren.Stage

/-!
# The registry

For every job with a workflow the service keeps a record. A record that is not there when it is
needed, for instance after a restart, is made up without the resources of the job.
-/

namespace Warren

/-- What the service knows of the resources that a job asked for. -/
inductive Resources where
  /-- They came with the request for a workflow. -/
  | pending (resources : List JobResource)
  /-- They were handed back. -/
  | consumed
  | unknown
deriving Repr

namespace Resources

def isUnknown : Resources → Bool
  | .unknown => true
  | _ => false

def name : Resources → String
  | .pending _ => "pending"
  | .consumed => "consumed"
  | .unknown => "unknown"

end Resources

/-- A condition of a workflow that should pass by itself. -/
structure Transient where
  since : Span
  message : String
  /-- The stage that was desired when it was last reported. -/
  stage : Stage
deriving DecidableEq, Repr

structure Timer where
  stage : Stage
  deadline : Span
  /-- Timers with the same deadline expire in the order in which they were set. -/
  ticket : Nat
  /-- Whether the limit was reached, and the controller told so. -/
  fired : Bool
deriving DecidableEq, Repr

/-- What the service knows of a job. -/
structure Record where
  id : JobId
  resources : Resources
  /-- The workflow was moved to its last stage. -/
  tornDown : Bool
  /-- The deletion of the workflow was asked for. -/
  deleted : Bool
  /-- The job was told that it may end. -/
  epilogRemoved : Bool
  /-- The storage servers of the job. -/
  servers : Option (List String)
  /-- The compute nodes of the job. -/
  hosts : List String
  /-- The number of compute nodes that the job can still do without. -/
  tolerance : UInt32
  timer : Option Timer
  condition : Option Transient
deriving Repr

namespace Record

/-- A record of a job of which nothing has happened. -/
def fresh (id : JobId) (resources : Resources) : Record :=
  ⟨id, resources, false, false, false, none, [], 0, none, none⟩

def name (r : Record) : String := r.id.workflowName

def timerStage (r : Record) : Option Stage := r.timer.map Timer.stage

def cancelTimer (r : Record) : Record := { r with timer := none }

@[simp] theorem timerStage_cancelTimer (r : Record) : r.cancelTimer.timerStage = none := rfl

end Record

abbrev Registry := Dict JobId Record

namespace Registry

/-- The record of a job, or a new one without resources. -/
def recordOf (g : Registry) (id : JobId) : Record := (g.find? id).getD (.fresh id .unknown)

def put (g : Registry) (r : Record) : Registry := g.insert r.id r

/-- The registry with a record of a job, which is made up if it is missing. -/
def ensure (g : Registry) (id : JobId) : Registry := g.put (g.recordOf id)

def ids (g : Registry) : List JobId := g.keys

end Registry

end Warren
