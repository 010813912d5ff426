import Warren.Controller.Progress
import Warren.Health

/-!
# Expired limits

A stage that takes too long costs the job the compute nodes that hold it up, as long as it can do
without them, and else the job itself. A transient condition that lasts too long ends the job.
-/

namespace Warren

namespace Handling

/-- Whether the mounts of a node are as a stage needs them. -/
def isSettled (stage : Stage) (m : ClientMount) : Bool :=
  if stage = .postRun then m.isUnmounted else m.isMounted

/-- The compute nodes of a workflow that hold a stage up, each once. -/
def lagging (name : String) (stage : Stage) : Api.Call (List String) := do
  let (objects, _) ← Api.list .clientMount .cluster (some (Api.workflowSelector name)) none
  let mounts ← objects.mapM (Api.decoded ClientMount.decode?)
  return ((mounts.filter fun m => !isSettled stage m).map ClientMount.node).eraseDups

/-- Whether a job can do without some compute nodes. -/
def isTolerable (tolerance : UInt32) (nodes : List String) : Bool :=
  !nodes.isEmpty && nodes.length ≤ tolerance.toNat

/-- The compute nodes that a job is to go on without, if it can. Nothing can be left out while the
storage is set up. -/
def dispensable (stage : Stage) : Handling (Option (List String)) := do
  let r ← record
  if r.tolerance = 0 || stage = .setup then return none
  else match ← call (Api.observe (lagging r.name stage)) with
    | .ok nodes => return if isTolerable r.tolerance nodes then some nodes else none
    | .error _ => return none

def dispense (site : Site) (stage : Stage) (nodes : List String) : Handling Unit := do
  update fun r => { r with tolerance := r.tolerance - UInt32.ofNat nodes.length }
  tell (.nodeFailure · nodes)
  startTimer site stage

/-- Tears a workflow down in whose stage the job cannot end by itself, if the server lets it be
read. -/
def tearDownStuck (site : Site) (stage : Stage) : Handling Unit := do
  if stage.blocksOnEpilog && !(← record).tornDown then
    discard <| ExceptT.lift (tearDownStored site).run

def overrun (site : Site) (stage : Stage) : Handling Unit := do
  tell (.raise · (failureText s!"workflow timed out in '{stage.name}'"))
  tearDownStuck site stage

def expire (site : Site) (stage : Stage) : Handling Unit := do
  -- a limit that was replaced in the meantime is not acted upon
  if (← record).timerStage = some stage then
    cancelTimer
    if (← record).tornDown then pure ()
    else match ← dispensable stage with
      | some nodes => dispense site stage nodes
      | none => overrun site stage

/-- Why compute nodes are marked whose file systems are not mounted. -/
def mountReason : String := "rabbit mount timed out"

/-- Keeps other jobs away from the compute nodes that hold a workflow up. -/
def markLagging (site : Site) : Handling Unit := do
  match ← call (Api.observe (lagging (← record).name .preRun)) with
  | .ok nodes => announce (Health.mark site nodes mountReason)
  | .error _ => pure ()

/-- The end of a transient condition that lasted too long. -/
def condemn (site : Site) : Handling Unit := do
  match (← record).condition with
  | none => pure ()
  | some condition =>
    update fun r => { r with condition := none }
    if condition.stage = .preRun then markLagging site
    tell (.raise · (failureText
      ("workflow in 'TransientCondition' state too long: " ++ condition.message)))
    tearDownStuck site condition.stage

end Handling

def Transient.isOverdue (c : Transient) (now limit : Span) : Bool := limit < now.since c.since

namespace Controller

/-- Works on a job that has a record. -/
def revisit (id : JobId) (handling : Handling Unit) : StateM Controller Unit := do
  match (← get).registry.find? id with
  | none => pure ()
  | some record => discard <| work record handling

/-- Handles the end of the time limit of a stage. -/
def onTimeout (site : Site) (id : JobId) (stage : Stage) : StateM Controller Unit :=
  revisit id (Handling.expire site stage)

def overdue (site : Site) (c : Controller) : List JobId :=
  Dict.keys <| c.registry.filter fun (_, r) =>
    r.condition.any (·.isOverdue c.world.now site.config.conditionTimeout)

def sweep (site : Site) : StateM Controller Unit := do
  (← get).overdue site |>.forM fun id => revisit id (Handling.condemn site)

end Controller

end Warren
