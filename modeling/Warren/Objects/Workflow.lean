import Warren.JobId
import Warren.Objects.Metadata
import Warren.Stage

/-!
# Workflows

A workflow object leads the storage of one job through its stages. Its specification says which
stage is desired, its status which stage it works on, whether that stage is complete and whether
something is wrong with it.
-/

namespace Warren

namespace Workflow

structure Status where
  state : Option Stage
  ready : Bool
  /-- Progress in the current stage. -/
  progress : Option String
  message : Option String
  /-- Variables for the environment of the job. -/
  environment : Dict String String
  computes : Option Reference
  breakdowns : List Reference
  /-- The time that the last stage took, as the server words it. -/
  elapsed : Option String
  token : Option Reference
deriving DecidableEq, Repr

/-- Whether something is wrong with a workflow. -/
inductive Condition where
  | error
  | transient
  | normal
deriving DecidableEq, Repr

def Condition.name : Condition → String
  | .error => "Error"
  | .transient => "TransientCondition"
  | .normal => "Normal"

end Workflow

structure Workflow where
  metadata : Metadata
  /-- The stage that the workflow is asked to reach. -/
  desired : Stage
  directives : List String
  jobId : JobId
  user : UInt32
  group : UInt32
  /-- The workload manager that the workflow belongs to. -/
  manager : String
  status : Option Workflow.Status
deriving DecidableEq

namespace Workflow

def name (w : Workflow) : String := w.metadata.name

def finalizers (w : Workflow) : List String := w.metadata.finalizers

def reported (w : Workflow) : Option Stage := w.status.bind Status.state

/-- Whether the workflow works on a stage that is still desired; it may have completed it. -/
def isActive (w : Workflow) (stage : Stage) : Bool := w.desired = stage && w.reported = some stage

/-- Whether the workflow has completed a stage and waits for the next one. -/
def isComplete (w : Workflow) (stage : Stage) : Bool :=
  w.isActive stage && w.status.any Status.ready

theorem isActive_of_isComplete {w : Workflow} {stage : Stage} (h : w.isComplete stage) :
    w.isActive stage := by
  simp only [isComplete, Bool.and_eq_true] at h
  exact h.1

theorem isActive_of_ne {w : Workflow} {stage : Stage} (h : w.desired ≠ stage) :
    w.isActive stage = false := by
  simp [isActive, h]

theorem desired_of_isActive {w : Workflow} {stage : Stage} (h : w.isActive stage) :
    w.desired = stage := by
  simp only [isActive, Bool.and_eq_true, decide_eq_true_eq] at h
  exact h.1

theorem desired_of_isComplete {w : Workflow} {stage : Stage} (h : w.isComplete stage) :
    w.desired = stage := desired_of_isActive (isActive_of_isComplete h)

def condition (w : Workflow) : Condition :=
  match w.status.bind Status.progress with
  | some "Error" => .error
  | some "TransientCondition" => .transient
  | _ => .normal

def message (w : Workflow) : String := (w.status.bind Status.message).getD ""

/-- The token of a workflow; its parts are empty where they are missing. -/
def decodeToken? : Decoder Reference := fun j => do
  let fields ← j.record? ["secretName", "secretNamespace"]
  some {
    name := ← fields.defaulted "secretName" Json.string? ""
    space := ← fields.defaulted "secretNamespace" Json.string? "" }

def Status.decode? : Decoder Status := fun j => do
  let fields ← j.record? ["state", "ready", "status", "message", "env", "computes",
    "directiveBreakdowns", "elapsedTimeLastState", "workflowToken"]
  some {
    state := ← fields.optional "state" Stage.decode?
    ready := ← fields.defaulted "ready" Json.boolean? false
    progress := ← fields.optional "status" Json.string?
    message := ← fields.optional "message" Json.string?
    environment := ← fields.defaulted "env" (Json.dict? Json.string?) []
    computes := ← fields.optional "computes" Reference.decode?
    breakdowns := ← fields.defaulted "directiveBreakdowns" (Json.list? Reference.decode?) []
    elapsed := ← fields.optional "elapsedTimeLastState" Json.string?
    token := ← fields.optional "workflowToken" decodeToken? }

def decode? : Decoder Workflow := fun j => do
  let fields ← j.record? ["metadata", "spec", "status"]
  let metadata ← fields.defaulted "metadata" Metadata.decode? .empty
  let spec ← fields.required "spec" (Json.record? ["desiredState", "dwDirectives", "jobID",
    "userID", "groupID", "wlmID"])
  some {
    metadata
    desired := ← spec.required "desiredState" Stage.decode?
    directives := ← spec.defaulted "dwDirectives" (Json.list? Json.string?) []
    jobId := ← spec.required "jobID" JobId.decode?
    user := ← spec.defaulted "userID" Json.word32? 0
    group := ← spec.defaulted "groupID" Json.word32? 0
    manager := ← spec.defaulted "wlmID" Json.string? ""
    status := ← fields.optional "status" Status.decode? }

end Workflow

end Warren
