import Warren.Cleanup.Basic
import Warren.Message.Frame
import Warren.Registry
import Warren.Site
import Warren.Text.Lowercase

/-!
# The controller

The controller leads the workflow of every job through its stages. It handles requests, events of
the workflows and expired time limits one after the other. What it does to its surroundings is part
of its world: the requests to the server, the notices for the job manager and the requests for the
cleanup.
-/

namespace Warren

/-- The surroundings that the controller acts on. -/
structure World where
  now : Span
  api : Api.Server
  /-- The number of the next pause or time limit. -/
  ticket : Nat
  /-- The notices sent so far, the oldest first. -/
  notices : List Notice
  /-- The requests for the cleanup so far, the oldest first. -/
  cleanups : List Cleanup.Request
  /-- Whether the program crashed. What would be done after that is not done. -/
  crashed : Bool

/-- Work in the world that may end in a fault of a request. -/
abbrev Effect := ExceptT Api.Fault (StateM World)

namespace World

/-- A world at the start, around a server. -/
def start (api : Api.Server) : World := ⟨.zero, api, 0, [], [], false⟩

def serve (action : StateM Api.Server α) : StateM World α := fun w =>
  let (a, api) := action w.api
  (a, { w with api })

def tellAll (w : World) (notices : List Notice) : World :=
  { w with notices := w.notices ++ notices }

def tell (w : World) (notice : Notice) : World := w.tellAll [notice]

def crash (w : World) : World := { w with crashed := true }

/-- Sends notices one by one, until one cannot be written. -/
def announce (w : World) (notices : List (Except Crash Notice)) : World :=
  let told := w.tellAll (Notice.upToCrash notices)
  if notices.all Except.isOk then told else told.crash

theorem announce_eq (w : World) (notices : List (Except Crash Notice)) :
    w.announce notices = { w with
      notices := w.notices ++ Notice.upToCrash notices
      crashed := w.crashed || !notices.all Except.isOk } := by
  unfold announce
  split <;> simp_all [tellAll, crash]

@[simp] theorem api_announce (w : World) (notices : List (Except Crash Notice)) :
    (w.announce notices).api = w.api := by
  rw [announce_eq]

@[simp] theorem ticket_announce (w : World) (notices : List (Except Crash Notice)) :
    (w.announce notices).ticket = w.ticket := by
  rw [announce_eq]

def handOver (w : World) (request : Cleanup.Request) : World :=
  { w with cleanups := w.cleanups ++ [request] }

def draw (w : World) : Nat × World := (w.ticket, { w with ticket := w.ticket + 1 })

end World

namespace Effect

def call (conversation : Api.Call α) : Effect α := ExceptT.mk (World.serve conversation.run)

def tell (notice : Notice) : Effect Unit := modify (·.tell notice)

end Effect

/-- A job in the hands of the controller. -/
structure Case where
  record : Record
  world : World

/-- Work on a job that may end in a fault of a request. -/
abbrev Handling := ExceptT Api.Fault (StateM Case)

namespace Handling

def effect (e : Effect α) : Handling α := fun c =>
  let (outcome, world) := e.run c.world
  (outcome, { c with world })

def call (conversation : Api.Call α) : Handling α := effect (.call conversation)

def record : Handling Record := return (← get).record

def update (f : Record → Record) : Handling Unit := modify fun c => { c with record := f c.record }

def tell (notice : JobId → Notice) : Handling Unit :=
  modify fun c => { c with world := c.world.tell (notice c.record.id) }

def handOver (request : Cleanup.Request) : Handling Unit :=
  modify fun c => { c with world := c.world.handOver request }

def announce (notices : List (Except Crash Notice)) : Handling Unit :=
  modify fun c => { c with world := c.world.announce notices }

def crash : Handling Unit := modify fun c => { c with world := c.world.crash }

/-! ### Steps that several messages lead to -/

def finalizersIn (object : Json) : List String := (Api.finalizersOf object).filterMap Json.string?

/-- The entry with the time that the last stage took. -/
def timing? (object : Json) : Option (String × Json) := do
  let timing ← object.path? ["status", "elapsedTimeLastState"]
  let state ← (← object.path? ["status", "state"]).string?
  let lower := Text.lower state
  some (s!"rabbit_{lower}_timing", timing)

/-- Keeps the time that the last stage took in the record of the job. -/
def saveTiming (object : Json) : Handling Unit :=
  match timing? object with
  | some entry => tell (.kvsPut · [entry])
  | none => pure ()

def saveWorkflow (object : Json) : Handling Unit :=
  tell (.kvsPut · (Dict.ofEntries (("rabbit_workflow", object) :: (timing? object).toList)))

def breakdowns (w : Workflow) : Api.Call (List Breakdown) :=
  ((w.status.map Workflow.Status.breakdowns).getD []).mapM fun reference => do
    let object ← Api.get .breakdown (Api.spaceOrDefault reference.space) reference.name
    Api.decoded Breakdown.decode? object

def requestStage (name : String) (stage : Stage) : Api.Call Unit :=
  Api.patchWorkflow name (Api.stagePatch stage)

/-- Starts the time limit of a stage, if it has one. A limit that runs for the stage is kept. -/
def startTimer (site : Site) (stage : Stage) : Handling Unit :=
  match site.config.timeouts.of stage with
  | none => pure ()
  | some limit => modify fun c =>
    if c.record.timerStage = some stage then c
    else
      let (ticket, world) := c.world.draw
      let timer : Timer := ⟨stage, world.now + limit, ticket, false⟩
      { record := { c.record with timer := some timer }, world }

def cancelTimer : Handling Unit := update Record.cancelTimer

/-- Hands a workflow to the cleanup, to be moved to its last stage. -/
def tearDown (site : Site) (object : Json) : Handling Unit := do
  saveWorkflow object
  let r ← record
  handOver (.teardown r.id r.name (finalizersIn object) site.config.savedMovements)
  update fun r => { r.cancelTimer with tornDown := true, condition := none }

/-- Reads a workflow and hands it to the cleanup. The answer is false if the workflow is gone. -/
def tearDownStored (site : Site) : Handling Bool := do
  let r ← record
  match ← call (Api.observe (Api.getWorkflow r.name)) with
  | .ok object =>
    tearDown site object
    return true
  | .error fault =>
    if fault.isNotFound then
      update fun r => { r.cancelTimer with tornDown := true, deleted := true }
      return false
    else throw fault

end Handling

structure Controller where
  registry : Registry
  world : World

namespace Controller

/-- Works on a job with a record, and keeps the record that comes out of it. -/
def work (record : Record) (handling : Handling α) : StateM Controller (Except Api.Fault α) :=
  fun c =>
    let (outcome, case) := handling.run ⟨record, c.world⟩
    (outcome, ⟨c.registry.put case.record, case.world⟩)

def forget (id : JobId) : StateM Controller Unit :=
  modify fun c => { c with registry := c.registry.erase id }

end Controller

end Warren
