import Warren.Controller.Basic

/-!
# Answers to requests

A request about a job is answered once what it asks for was done or handed over. A request that
comes again finds the job further on and changes nothing.
-/

namespace Warren

inductive Reply where
  | done
  | workflows (ids : List JobId)
deriving Repr

inductive Refusal where
  | malformedDirectives (directives : Json)
  /-- The user may not create file systems that outlive the job. -/
  | persistent
  | invalidNodelist (text : String)
  | unattached (hosts : List String)
  /-- A workflow does not say where its compute nodes are listed. -/
  | noComputes (workflow : String)
  | plan (fault : Allocation.Fault)
  | api (fault : Api.Fault)
  /-- The controller does not run any more. -/
  | stopped
deriving Repr

namespace Refusal

/-- Whether the user asked for something impossible, rather than something having failed. -/
def isUserError : Refusal → Bool
  | .malformedDirectives _ | .persistent | .invalidNodelist _ => true
  | _ => false

def kind (r : Refusal) : String := if r.isUserError then "user" else "internal"

def message : Refusal → String
  | .malformedDirectives directives => Directive.malformedMessage directives
  | .persistent => Directive.persistentMessage
  | .invalidNodelist text => "Invalid nodelist: " ++ Hostlist.invalidMessage text
  | .unattached hosts => Topology.unattachedMessage hosts
  | .noComputes workflow => s!"Workflow {workflow} has no Computes resource"
  | .plan fault => fault.message
  | .api fault => fault.message
  | .stopped => "workflow reconciler is not running"

end Refusal

def Response.ofAnswer (number : UInt64) : Except Refusal Reply → Response
  | .ok .done => ⟨number, true, none, none, none⟩
  | .ok (.workflows ids) => ⟨number, true, none, none, some ids⟩
  | .error refusal => ⟨number, false, some refusal.message, some refusal.kind, none⟩

namespace Controller

abbrev Answering := ExceptT Refusal (StateM Controller)

def inWorld (e : Effect α) : Answering α := fun c =>
  let (outcome, world) := e.run c.world
  (outcome.mapError .api, { c with world })

def ask (conversation : Api.Call α) : Answering α := inWorld (.call conversation)

/-- A value, or the refusal to which its absence leads. -/
def demand (refusal : Refusal) : Option α → Answering α
  | some a => pure a
  | none => throw refusal

/-- A result, unless the program crashes before there is one. -/
def survive : Except Crash α → Answering α
  | .ok a => pure a
  | .error _ => throw .stopped

def drop (id : JobId) : Answering Unit := ExceptT.lift (forget id)

/-! ### A workflow is created -/

def newWorkflow (site : Site) (id : JobId) (user : UInt32) (directives : List String) : Json :=
  .ofFields [("kind", .string Api.Kind.workflow.kind),
    ("apiVersion", .string Api.Kind.workflow.apiVersion),
    ("metadata", .ofFields [("name", .string id.workflowName),
      ("namespace", .string Api.defaultSpace), ("finalizers", .strings [Cleanup.finalizer])]),
    ("spec", .ofFields [("desiredState", Stage.proposal.encode),
      ("dwDirectives", .strings directives), ("jobID", .string id.f58),
      ("userID", .nat user.toNat), ("groupID", .nat (site.groupOf user).toNat),
      ("wlmID", .string "flux")])]

/-- A record with what a request to create a workflow says. -/
def refill (details : CreateRequest) (r : Record) : Record :=
  { r with
    resources := if r.resources.isUnknown then .pending details.resources else r.resources
    tolerance := details.tolerance }

/-- Creates a workflow object, unless there is one already. -/
def createObject (body : Json) : Api.Call Unit := do
  match ← Api.observe (Api.create .workflow Api.defaultSpace body) with
  | .ok _ => pure ()
  | .error fault => if fault.isConflict then pure () else throw fault

def create (site : Site) (details : CreateRequest) : Answering Reply := do
  let directives ← demand (.malformedDirectives details.directives)
    (Directive.read? site.config.presets details.directives)
  if site.config.restrictsPersistent
      && !Directive.allowed directives details.user site.config.owner then
    throw .persistent
  match (← get).registry.find? details.id with
  | some record => modify fun c => { c with registry := c.registry.put (refill details record) }
  | none =>
    ask (createObject (newWorkflow site details.id details.user directives))
    let record := Record.fresh details.id (.pending details.resources)
    modify fun c => { c with
      registry := c.registry.put { record with tolerance := details.tolerance } }
    inWorld (.tell (.memo details.id
      (.ofFields [("rabbit_workflow", .string details.id.workflowName)])))
  return .done

/-! ### A job gets its compute nodes -/

/-- Lists the compute nodes of a job in an object. -/
def writeComputes (reference : Reference) (hosts : List String) : Api.Call Unit := do
  let data := Json.array (hosts.map fun host => .ofFields [("name", .string host)])
  discard <| Api.patch .computes (Api.spaceOrDefault reference.space) reference.name
    (.ofFields [("data", data)])

def writePlans (reference : Reference) (plans : List Allocation.Plan) : Api.Call Unit := do
  let sets := Json.array (plans.map Allocation.Plan.encode)
  discard <| Api.patch .servers (Api.spaceOrDefault reference.space) reference.name
    (.ofFields [("spec", .ofFields [("allocationSets", sets)])])

/-- Lists the allocations of a breakdown in the object that it names. A breakdown that allocates
nothing names none. -/
def writeServers (site : Site) (counts : Allocation.ServerCounts) (b : Breakdown) :
    Answering Unit := do
  match b.servers? with
  | none => pure ()
  | some reference =>
    match Allocation.planSets b.sets counts site.config.leastAllocation with
    | .error (.fault fault) => throw (.plan fault)
    | .error (.crash _) => throw .stopped
    | .ok plans => ask (writePlans reference plans)

/-- Reads the workflow of a job, whose record goes if there is no workflow. -/
def readWorkflow (id : JobId) : Answering Workflow := do
  match ← ask (Api.observe (Api.getWorkflow id.workflowName)) with
  | .ok object => ask (Api.decoded Workflow.decode? object)
  | .error fault =>
    if fault.isNotFound then drop id
    throw (.api fault)

/-- Whether a job is on its way out. -/
def isLeaving (g : Registry) (id : JobId) : Bool :=
  (g.find? id).any fun r => r.tornDown || r.deleted

/-- Notes the compute nodes and the servers of a job, and starts the time limit of its setup. -/
def settle (site : Site) (id : JobId) (hosts servers : List String) : Answering Unit := do
  let record := { (← get).registry.recordOf id with servers := some servers, hosts }
  discard <| ExceptT.lift (work record (Handling.startTimer site .setup))

def countServers (site : Site) (hosts : List String) : Answering Allocation.ServerCounts :=
  match site.topology.serverCounts hosts with
  | .ok counts => pure counts
  | .error (.fault unknown) => throw (.unattached unknown)
  | .error (.crash _) => throw .stopped

/-- Places the storage of a job on the servers next to its compute nodes, and lists both where the
workflow asks for it. The answer names the compute nodes and the servers. -/
def place (site : Site) (id : JobId) (nodelist : List String) :
    Answering (List String × List String) := do
  let text := ",".intercalate nodelist
  let hosts ← demand (.invalidNodelist text) (← survive (Hostlist.expandUnique? text))
  let w ← readWorkflow id
  let counts ← countServers site hosts
  let servers := counts.servers
  let rabbits ← survive (Hostlist.encode servers)
  inWorld (.tell (.memo id (.ofFields [("rabbits", .string rabbits)])))
  let computes ← demand (.noComputes id.workflowName) (w.status.bind Workflow.Status.computes)
  ask (writeComputes computes hosts)
  (← ask (Handling.breakdowns w)).forM (writeServers site counts)
  return (hosts, servers)

/-- Has the storage of a job set up, unless the job is on its way out. -/
def setup (site : Site) (id : JobId) (nodelist : List String) : Answering Reply := do
  -- the stage of the workflow itself is not looked at
  if isLeaving (← get).registry id then return .done
  let (hosts, servers) ← place site id nodelist
  ask (Handling.requestStage id.workflowName .setup)
  settle site id hosts servers
  return .done

/-! ### A job ends -/

/-- Works on the record of a job, which is made up if it is missing; a job that is torn down
already is left alone. -/
def unlessTornDown (id : JobId) (work : Record → Answering Unit) : Answering Reply := do
  modify fun c => { c with registry := c.registry.ensure id }
  let record := (← get).registry.recordOf id
  if record.tornDown then pure () else work record
  return .done

/-- Tears the workflow of a job down. The record goes if there is no workflow. -/
def moveToTeardown (site : Site) (record : Record) : Answering Unit := do
  match ← ExceptT.lift (work record (Handling.tearDownStored site)) with
  | .ok true => pure ()
  | .ok false => drop record.id
  | .error fault => throw (.api fault)

/-- Moves the workflow of a job on after the job ran. A new record goes if that fails, and any
record if there is no workflow. -/
def moveToPostRun (site : Site) (known : Bool) (record : Record) : Answering Unit := do
  match ← ask (Api.observe (Handling.requestStage record.name .postRun)) with
  | .ok () => discard <| ExceptT.lift (work record (Handling.startTimer site .postRun))
  | .error fault =>
    if !known || fault.isNotFound then drop record.id
    throw (.api fault)

/-- Stages the data of a job out; a job that never ran has none. -/
def postRun (site : Site) (id : JobId) (started : Bool) : Answering Reply := do
  let known := (← get).registry.has id
  unlessTornDown id fun record =>
    if started then moveToPostRun site known record else moveToTeardown site record

/-- Tears the workflow of a job down. A new record goes if that fails. -/
def teardown (site : Site) (id : JobId) : Answering Reply := do
  let known := (← get).registry.has id
  unlessTornDown id fun record =>
    tryCatch (moveToTeardown site record) fun refusal => do
      if !known then drop id
      throw refusal

/-- Tears down the workflow of a job without a record, if there is one. -/
def abortUnknown (site : Site) (id : JobId) : Answering Reply := do
  match ← ask (Api.observe (Api.getWorkflow id.workflowName)) with
  | .ok object =>
    discard <| ExceptT.lift (work (.fresh id .unknown) (Handling.tearDown site object))
    return .done
  | .error fault => if fault.isNotFound then return .done else throw (.api fault)

def abort (site : Site) (id : JobId) : Answering Reply := do
  if (← get).registry.has id then teardown site id else abortUnknown site id

def onRequest (site : Site) : Request → Answering Reply
  | .create details => create site details
  | .setup id nodelist => setup site id nodelist
  | .postRun id started => postRun site id started
  | .teardown id => teardown site id
  | .abort id => abort site id
  | .status => do return .workflows (← get).registry.ids

end Controller

end Warren
