import Warren.Controller.Basic

/-!
# Progress of workflows

A workflow reports which stage it works on, whether the stage is complete and whether something is
wrong. The controller answers a completed stage with the next step, and a fault of that step by
giving the job up.
-/

namespace Warren.Handling

/-- The property that a job has to avoid, if compute nodes without storage are marked. -/
def exclusionFor (config : Configuration) : Option String :=
  if config.withoutGraph || !config.drains then some Notice.exclusion else none

/-- The resources that a job gets, and why it cannot have its storage. -/
def assign (config : Configuration) (resources : List JobResource) (found : List Breakdown) :
    Except Crash (List JobResource × Option String) :=
  match Allocation.augment resources found (config.leastAllocation / Allocation.gib)
      config.limits with
  | .ok (.extended extended) =>
    .ok (if config.withoutGraph then resources else extended, none)
  | .ok _ => .ok (resources, none)
  | .error (.fault fault) => .ok (resources, some fault.message)
  | .error (.crash cause) => .error cause

def unknownResources : String := "resources of the job are unknown to the rabbit service"

/-- Hands the resources of the job back, with the storage that its directives ask for. This is done
once. -/
def applyBreakdowns (site : Site) (w : Workflow) (object : Json) : Handling Unit := do
  let resources := (← record).resources
  update fun r => { r with resources := .consumed }
  match resources with
  | .consumed => pure ()
  | .unknown =>
    tell fun id => .resourceUpdate ⟨id, [], false, some unknownResources, none⟩
  | .pending resources =>
    let found ← call (breakdowns w)
    match assign site.config resources found with
    | .error _ => crash
    | .ok (resources, failure) =>
      tell fun id => .resourceUpdate
        ⟨id, resources, Allocation.copyOffload found, failure, exclusionFor site.config⟩
      saveWorkflow object

/-- The one-time token of a workflow, if it has one. -/
def token (w : Workflow) : Api.Call (Option String) :=
  match w.status.bind Workflow.Status.token with
  | none => pure none
  | some reference => do
    let secret ← Api.get .secret (Api.spaceOrDefault reference.space) reference.name
    return (secret.path? ["data", "token"]).bind Json.string?

def advance (site : Site) (next : Stage) (object : Json) : Handling Unit := do
  call (requestStage (← record).name next)
  saveTiming object
  startTimer site next

def releaseProlog (w : Workflow) (object : Json) : Handling Unit := do
  let token ← call (token w)
  let environment := (w.status.map Workflow.Status.environment).getD []
  tell (.prologRemove · environment token)
  saveTiming object

/-- Tells the job, once, that it may end. -/
def releaseEpilog : Handling Unit := do
  if (← record).epilogRemoved then pure ()
  else
    tell .epilogRemove
    update fun r => { r with epilogRemoved := true }

def finish (object : Json) : Handling Unit := do
  releaseEpilog
  saveTiming object
  handOver (.delete (← record).name (finalizersIn object))
  update fun r => { r with deleted := true }

def act (site : Site) (w : Workflow) (object : Json) : Stage.Action → Handling Unit
  | .applyBreakdowns => applyBreakdowns site w object
  | .advance next => advance site next object
  | .releaseProlog => releaseProlog w object
  | .moveToTeardown => tearDown site object
  | .finish => finish object

def complete (site : Site) (w : Workflow) (object : Json) (stage : Stage) : Handling Unit := do
  if (← record).timerStage = some stage then cancelTimer
  act site w object stage.onComplete

def failureText (reason : String) : String := "DWS/Rabbit interactions failed: " ++ reason

/-- Tears a workflow down in whose stage the job cannot end by itself. -/
def tearDownBlocked (site : Site) (stage : Stage) (object : Json) : Handling Unit := do
  if stage.blocksOnEpilog && !(← record).tornDown then tearDown site object

/-- A condition that was reported at an instant; it lasts since it was first reported. -/
def observed (now : Span) (w : Workflow) (before : Option Transient) : Transient :=
  ⟨(before.map Transient.since).getD now, w.message, w.desired⟩

/-- What a condition of a workflow leads to. -/
def react (site : Site) (w : Workflow) (object : Json) : Handling Unit :=
  match w.condition with
  | .error => do
    tell (.raise · (failureText ("workflow hit an error: " ++ w.message)))
    tearDownBlocked site w.desired object
  | .transient => modify fun c =>
    let condition := observed c.world.now w c.record.condition
    { c with record := { c.record with condition := some condition } }
  | .normal => update fun r => { r with condition := none }

/-- What a report of a workflow leads to. A workflow that was not picked up yet or is to be deleted
is left alone, and so is one that is on its way to its last stage. -/
def follow (site : Site) (w : Workflow) (object : Json) : Handling Unit := do
  let r ← record
  if w.reported.isNone || r.deleted then pure ()
  else if w.isActive .teardown && !w.isComplete .teardown then do
    call (Cleanup.releaseFinalizer r.name w.finalizers)
    react site w object
  -- reports that come late do not move a workflow back that is torn down
  else if r.tornDown && !w.isComplete .teardown then pure ()
  else do
    if w.isComplete w.desired then complete site w object w.desired
    react site w object

def giveUp (site : Site) (object : Json) : Handling Unit := do
  if !(← record).tornDown then tearDown site object
  tell (.raise · "DWS/Rabbit interactions failed")

/-- What a report of a workflow leads to, faults included. -/
def report (site : Site) (w : Workflow) (object : Json) : Handling Unit := do
  match ← ExceptT.lift (follow site w object).run with
  | .ok () => pure ()
  | .error _ => giveUp site object

end Warren.Handling

namespace Warren.Controller

def isOurs (w : Workflow) : Bool := JobId.namePrefix.toList.isPrefixOf w.name.toList

def onReport (site : Site) (w : Workflow) (object : Json) : StateM Controller Unit := do
  discard <| work ((← get).registry.recordOf w.jobId) (Handling.report site w object)

def onEvent (site : Site) : Api.Event → StateM Controller Unit
  | .added object | .modified object =>
    match (Workflow.decode? object).filter isOurs with
    | some w => onReport site w object
    | none => pure ()
  | .deleted object =>
    match (Workflow.decode? object).filter isOurs with
    | some w => forget w.jobId
    | none => pure ()
  | .bookmark _ | .error _ _ => pure ()

end Warren.Controller
