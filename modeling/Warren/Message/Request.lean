import Warren.Allocation.Jobspec
import Warren.JobId

/-!
# Requests of the job manager

What the job manager asks for in the course of a job.
-/

namespace Warren

/-- A request to create the workflow of a job. -/
structure CreateRequest where
  id : JobId
  user : UInt32
  /-- A text or a list of texts, which is checked when the request is handled. -/
  directives : Json
  resources : List JobResource
  /-- The number of compute nodes that the job can do without. -/
  tolerance : UInt32
deriving Repr

inductive Request where
  | create (details : CreateRequest)
  /-- The job got compute nodes. -/
  | setup (id : JobId) (nodelist : List String)
  /-- The job ended, if it ran at all. -/
  | postRun (id : JobId) (started : Bool)
  | teardown (id : JobId)
  /-- The job is given up, whether it has a workflow or not. -/
  | abort (id : JobId)
  /-- Which jobs have a workflow? -/
  | status
deriving Repr

namespace Request

def job? : Request → Option JobId
  | .create details => some details.id
  | .setup id _ | .postRun id _ | .teardown id | .abort id => some id
  | .status => none

/-! ### Reading -/

def methods : List String := ["create", "setup", "post_run", "teardown", "abort", "status"]

def decodeCreate? : Decoder Request := fun j => do
  let fields ← j.record? ["job_id", "user_id", "dw_directives", "resources", "failure_tolerance"]
  some (.create {
    id := ← fields.required "job_id" JobId.decode?
    user := ← fields.required "user_id" Json.word32?
    directives := ← fields.required "dw_directives" some
    resources := ← fields.required "resources" JobResource.decodeArray?
    tolerance := ← fields.defaulted "failure_tolerance" Json.word32? 0 })

def decodeNodelist? : Decoder (List String) := fun j => do
  let fields ← j.record? ["execution"]
  let execution ← fields.required "execution" (Json.record? ["nodelist"])
  execution.defaulted "nodelist" (Json.list? Json.string?) []

def decodeSetup? : Decoder Request := fun j => do
  let fields ← j.record? ["job_id", "R"]
  some (.setup (← fields.required "job_id" JobId.decode?) (← fields.required "R" decodeNodelist?))

/-- The content of a request about the end of a job. -/
def decodePostRun? : Decoder Request := fun j => do
  let fields ← j.record? ["job_id", "run_started"]
  some (.postRun (← fields.required "job_id" JobId.decode?)
    (← fields.required "run_started" Json.boolean?))

def decodeJob? : Decoder JobId := fun j => do
  let fields ← j.record? ["job_id"]
  fields.required "job_id" JobId.decode?

/-- No content: the other fields of an object are ignored, an array has no other items. -/
def decodeEmpty? : Decoder Unit
  | .object _ => some ()
  | .array [] => some ()
  | _ => none

def decodeContent? (method : String) (content : Json) : Option Request :=
  match method with
  | "create" => decodeCreate? content
  | "setup" => decodeSetup? content
  | "post_run" => decodePostRun? content
  | "teardown" => (decodeJob? content).map .teardown
  | "abort" => (decodeJob? content).map .abort
  | "status" => (decodeEmpty? content).map fun _ => .status
  | _ => none

/-- The name of a method, which may also be given by its place in the list of methods. -/
def decodeMethod? (byNumber : Bool) : Decoder String
  | .string s => some s
  | j => if byNumber then (j.below? methods.length).bind fun n => methods[n]? else none

/-- A request: an object with its method, or an array that starts with the method. Methods are
given by number only within a message. -/
def decode? (byNumber : Bool) : Decoder Request
  | .object fields => do
    let method ← Dict.required fields "method" (decodeMethod? byNumber)
    decodeContent? method (.object (Dict.erase fields "method"))
  | .array (method :: rest) => do
    decodeContent? (← decodeMethod? byNumber method) (.array rest)
  | _ => none

/-! ### Writing -/

def encodeFields : Request → List (String × Json)
  | .create r => [("job_id", r.id.encode), ("user_id", .nat r.user.toNat),
      ("dw_directives", r.directives), ("resources", .array (JobResource.encodeAll r.resources)),
      ("failure_tolerance", .nat r.tolerance.toNat)]
  | .setup id nodelist => [("job_id", id.encode),
      ("R", .ofFields [("execution", .ofFields [("nodelist", .strings nodelist)])])]
  | .postRun id started => [("job_id", id.encode), ("run_started", .boolean started)]
  | .teardown id | .abort id => [("job_id", id.encode)]
  | .status => []

def method : Request → String
  | .create _ => "create"
  | .setup .. => "setup"
  | .postRun .. => "post_run"
  | .teardown _ => "teardown"
  | .abort _ => "abort"
  | .status => "status"

def encode (r : Request) : Json := .ofFields (("method", .string r.method) :: r.encodeFields)

end Request

end Warren
