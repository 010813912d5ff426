import Warren.Allocation.Jobspec
import Warren.Hostlist
import Warren.JobId

/-!
# Notices for the job manager

What the service tells the job manager without being asked.
-/

namespace Warren

/-- What becomes of the resources of a job. -/
structure ResourceUpdate where
  id : JobId
  resources : List JobResource
  copyOffload : Bool
  /-- Why the job cannot have its storage. -/
  failure : Option String
  /-- The property of compute nodes that the job has to avoid. -/
  exclude : Option String
deriving Repr

inductive Notice where
  | resourceUpdate (update : ResourceUpdate)
  /-- The job may start. -/
  | prologRemove (id : JobId) (environment : Dict String String) (token : Option String)
  /-- The job may end. -/
  | epilogRemove (id : JobId)
  | memo (id : JobId) (content : Json)
  | jobRaise (id : JobId) (severity : UInt32) (kind message : String)
  /-- The job goes on without some of its compute nodes. -/
  | nodeFailure (id : JobId) (nodes : List String)
  /-- Entries for the record of a job. -/
  | kvsPut (id : JobId) (entries : Dict String Json)
  | drain (targets mode reason : String)
  | setProperty (targets property : String)
  | removeProperty (targets property : String)
  /-- A storage device went up or down. -/
  | setStatus (path : String) (up : Bool)
deriving Repr

namespace Notice

def raise (id : JobId) (message : String) : Notice := .jobRaise id 0 "exception" message

def drainHosts (hosts : List String) (reason : String) : Except Crash Notice := do
  return .drain (← Hostlist.encode hosts) "update" reason

/-- The property of compute nodes that jobs with storage avoid. -/
def exclusion : String := "badrabbit"

def exclusionValue : String := exclusion ++ "=bad"

def markHosts (hosts : List String) : Except Crash Notice := do
  return .setProperty (← Hostlist.encode hosts) exclusionValue

def unmarkHosts (hosts : List String) : Except Crash Notice := do
  return .removeProperty (← Hostlist.encode hosts) exclusion

/-- The notices that are sent one by one, up to the first one that cannot be written. -/
def upToCrash : List (Except Crash Notice) → List Notice
  | .ok notice :: rest => notice :: upToCrash rest
  | _ => []

/-! ### Writing -/

def topic : Notice → String
  | .resourceUpdate _ => "resource-update"
  | .prologRemove .. => "prolog-remove"
  | .epilogRemove _ => "epilog-remove"
  | .memo .. => "memo"
  | .jobRaise .. => "job-raise"
  | .nodeFailure .. => "node-failure"
  | .kvsPut .. => "kvs-put"
  | .drain .. => "drain"
  | .setProperty .. => "set-property"
  | .removeProperty .. => "remove-property"
  | .setStatus .. => "set-status"

def payload : Notice → Json
  | .resourceUpdate u => .ofFields ([("id", u.id.encode),
      ("resources", .array (JobResource.encodeAll u.resources)),
      ("copy_offload", .boolean u.copyOffload)]
      ++ JobResource.optionalField "errmsg" (u.failure.map .string)
      ++ JobResource.optionalField "exclude" (u.exclude.map .string))
  | .prologRemove id environment token => .ofFields ([("id", id.encode),
      ("variables", .object (environment.map fun (key, value) => (key, .string value)))]
      ++ JobResource.optionalField "token" (token.map .string))
  | .epilogRemove id => .ofFields [("id", id.encode)]
  | .memo id content => .ofFields [("id", id.encode), ("memo", content)]
  | .jobRaise id severity kind message => .ofFields [("id", id.encode),
      ("severity", .nat severity.toNat), ("type", .string kind), ("message", .string message)]
  | .nodeFailure id nodes => .ofFields [("id", id.encode), ("nodes", .strings nodes)]
  | .kvsPut id entries => .ofFields [("id", id.encode), ("entries", .object entries)]
  | .drain targets mode reason => .ofFields [("targets", .string targets),
      ("mode", .string mode), ("reason", .string reason)]
  | .setProperty targets property | .removeProperty targets property =>
    .ofFields [("targets", .string targets), ("property", .string property)]
  | .setStatus path up => .ofFields [("path", .string path), ("up", .boolean up)]

/-! ### Reading -/

def jobOf (fields : Dict String Json) : Option JobId := fields.required "id" JobId.decode?

def decodeUpdate? : Decoder Notice := fun j => do
  let fields ← j.record? ["id", "resources", "copy_offload", "errmsg", "exclude"]
  some (.resourceUpdate {
    id := ← jobOf fields
    resources := ← fields.required "resources" JobResource.decodeArray?
    copyOffload := ← fields.required "copy_offload" Json.boolean?
    failure := ← fields.optional "errmsg" Json.string?
    exclude := ← fields.optional "exclude" Json.string? })

def decodeProlog? : Decoder Notice := fun j => do
  let fields ← j.record? ["id", "variables", "token"]
  some (.prologRemove (← jobOf fields) (← fields.required "variables" (Json.dict? Json.string?))
    (← fields.optional "token" Json.string?))

def decodeRaise? : Decoder Notice := fun j => do
  let fields ← j.record? ["id", "severity", "type", "message"]
  some (.jobRaise (← jobOf fields) (← fields.required "severity" Json.word32?)
    (← fields.required "type" Json.string?) (← fields.required "message" Json.string?))

def decodeDrain? : Decoder Notice := fun j => do
  let fields ← j.record? ["targets", "mode", "reason"]
  some (.drain (← fields.required "targets" Json.string?) (← fields.required "mode" Json.string?)
    (← fields.required "reason" Json.string?))

def decodeProperty? (make : String → String → Notice) : Decoder Notice := fun j => do
  let fields ← j.record? ["targets", "property"]
  some (make (← fields.required "targets" Json.string?) (← fields.required "property" Json.string?))

def decode? (topic : String) : Decoder Notice := fun j =>
  match topic with
  | "resource-update" => decodeUpdate? j
  | "prolog-remove" => decodeProlog? j
  | "epilog-remove" => do
    let fields ← j.record? ["id"]
    some (.epilogRemove (← jobOf fields))
  | "memo" => do
    let fields ← j.record? ["id", "memo"]
    some (.memo (← jobOf fields) (← fields.required "memo" some))
  | "job-raise" => decodeRaise? j
  | "node-failure" => do
    let fields ← j.record? ["id", "nodes"]
    some (.nodeFailure (← jobOf fields) (← fields.required "nodes" (Json.list? Json.string?)))
  | "kvs-put" => do
    let fields ← j.record? ["id", "entries"]
    some (.kvsPut (← jobOf fields) (← fields.required "entries" Json.fields?))
  | "drain" => decodeDrain? j
  | "set-property" => decodeProperty? .setProperty j
  | "remove-property" => decodeProperty? .removeProperty j
  | "set-status" => do
    let fields ← j.record? ["path", "up"]
    some (.setStatus (← fields.required "path" Json.string?)
      (← fields.required "up" Json.boolean?))
  | _ => none

end Notice

end Warren
