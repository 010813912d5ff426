import Warren.Proofs.Controller.Requests

/-!
# Turns of the controller

A turn about a job moves that job, and a turn about no job moves nothing, except for the sweep,
which revisits one job after the other. So the records are kept along every run. The module ends
with a small site on which runs are tried.
-/

namespace Warren

namespace Controller

variable {site : Site} {id : JobId} {c : Controller}

/-! ### Turns -/

theorem take_event (site : Site) (c : Controller) (event : Api.Event) :
    match reported? event with
    | none => c.take site (.event event) = c
    | some w =>
      (∃ object, (event = .added object ∨ event = .modified object) ∧
        c.take site (.event event) =
          (work (c.registry.recordOf w.jobId) (Handling.report site w object) c).2) ∨
      (∃ object, event = .deleted object) ∧
        c.take site (.event event) = { c with registry := c.registry.erase w.jobId } := by
  cases event with
  | added object =>
    have hw : reported? (.added object) = (Workflow.decode? object).filter isOurs := rfl
    rw [hw, take, onEvent]
    cases (Workflow.decode? object).filter isOurs with
    | none => rfl
    | some w => exact Or.inl ⟨object, Or.inl rfl, rfl⟩
  | modified object =>
    have hw : reported? (.modified object) = (Workflow.decode? object).filter isOurs := rfl
    rw [hw, take, onEvent]
    cases (Workflow.decode? object).filter isOurs with
    | none => rfl
    | some w => exact Or.inl ⟨object, Or.inr rfl, rfl⟩
  | deleted object =>
    have hw : reported? (.deleted object) = (Workflow.decode? object).filter isOurs := rfl
    rw [hw, take, onEvent]
    cases (Workflow.decode? object).filter isOurs with
    | none => rfl
    | some w => exact Or.inr ⟨⟨object, rfl⟩, rfl⟩
  | bookmark version => rfl
  | error code message => rfl

theorem state_revisit (id : JobId) (handling : Handling Unit) (c : Controller) :
    (revisit id handling c).2 = match c.registry.find? id with
      | none => c
      | some record => (work record handling c).2 := by
  change ((match c.registry.find? id with
    | none => pure ()
    | some record => discard <| work record handling : StateM Controller Unit) c).2 = _
  cases c.registry.find? id <;> rfl

theorem moves_revisit {handling : Handling Unit} {P : Deed → Prop}
    (h : ∀ case, Leads (Case.Did site P) handling case) :
    Moves (Api.Request.SetsOnly id.workflowName) id c (revisit id handling c).2 := by
  rw [state_revisit]
  cases hf : c.registry.find? id with
  | none => exact Std.Refl.refl c
  | some r =>
    exact moves_work_of_leads (fun hc => hc.own id r hf) (fun hc => hc.drawn id r hf) (h _)

theorem moves_take {turn : Turn} (h : turn.job? = some id) (site : Site) (c : Controller) :
    Moves (Api.Request.SetsOnly id.workflowName) id c (c.take site turn) := by
  cases turn with
  | request asked =>
    cases asked with
    | create details =>
      obtain rfl : details.id = id := Option.some.inj h
      exact leads_create site details c
    | setup job nodelist =>
      obtain rfl : job = id := Option.some.inj h
      exact leads_setup site job nodelist c
    | postRun job started =>
      obtain rfl : job = id := Option.some.inj h
      exact leads_postRun site job started c
    | teardown job =>
      obtain rfl : job = id := Option.some.inj h
      exact leads_teardown site job c
    | abort job =>
      obtain rfl : job = id := Option.some.inj h
      exact leads_abort site job c
    | status => cases h
  | event change =>
    obtain ⟨w, hw, rfl⟩ := Option.map_eq_some_iff.mp h
    have hevent := take_event site c change
    rw [hw] at hevent
    rcases hevent with ⟨object, _, htake⟩ | ⟨_, htake⟩
    · rw [htake]
      exact moves_work_of_leads (fun hc => (hc.recordOf _).1) (fun hc => (hc.recordOf _).2)
        (Handling.leads_report w object _)
    · rw [htake]
      exact moves_erase w.jobId c
  | timeout job stage =>
    obtain rfl : job = id := Option.some.inj h
    exact moves_revisit (Handling.leads_expire stage)
  | sweep => cases h

theorem take_of_job?_eq_none {turn : Turn} (h : turn.job? = none) (hsweep : turn ≠ .sweep)
    (site : Site) (c : Controller) : c.take site turn = c := by
  cases turn with
  | request asked =>
    cases asked with
    | status => rfl
    | _ => cases h
  | event change =>
    have hw : reported? change = none := Option.map_eq_none_iff.mp h
    have hevent := take_event site c change
    rw [hw] at hevent
    exact hevent
  | timeout job stage => cases h
  | sweep => exact absurd rfl hsweep

/-- A sweep revisits the jobs whose condition lasted too long, one after the other. -/
theorem take_sweep (site : Site) (c : Controller) : c.take site .sweep =
    (c.overdue site).foldl (fun c id => (revisit id (Handling.condemn site) c).2) c := by
  change ((c.overdue site).forM (fun id => revisit id (Handling.condemn site)) c).2 = _
  -- the jobs are picked once, before the first of them is revisited
  generalize c.overdue site = ids
  induction ids generalizing c with
  | nil => rfl
  | cons id rest ih => exact ih (revisit id (Handling.condemn site) c).2

/-- The records were kept in their order, no time went by and no ticket was given back. -/
structure Passed (c t : Controller) : Prop where
  kept : t.Kept
  sorted : c.registry.Sorted → t.registry.Sorted
  now : t.world.now = c.world.now
  ticket_le : c.world.ticket ≤ t.world.ticket

theorem Moved.passed {P : Api.Request → Prop} (h : Moved P id c t) : Passed c t :=
  ⟨h.kept, h.sorted, h.now, h.ticket_le⟩

theorem passed_take (hc : c.Kept) (site : Site) (turn : Turn) : Passed c (c.take site turn) := by
  cases hj : turn.job? with
  | some id => exact (moves_take hj site c hc).passed
  | none =>
    by_cases hsweep : turn = .sweep
    · rw [hsweep, take_sweep]
      generalize c.overdue site = ids
      induction ids generalizing c with
      | nil => exact ⟨hc, fun h => h, rfl, Nat.le_refl _⟩
      | cons id rest ih =>
        have first : Passed c (revisit id (Handling.condemn site) c).2 :=
          (moves_revisit Handling.leads_condemn hc).passed
        have later := ih first.kept
        exact ⟨later.kept, later.sorted ∘ first.sorted, later.now.trans first.now,
          Nat.le_trans first.ticket_le later.ticket_le⟩
    · rw [take_of_job?_eq_none hj hsweep]
      exact ⟨hc, fun h => h, rfl, Nat.le_refl _⟩

theorem sweep_of_visits {R : Controller → Controller → Prop} [Std.Refl R] [Trans R R R]
    (hc : c.Kept)
    (visit : ∀ t : Controller, t.Kept → ∀ id, R t (revisit id (Handling.condemn site) t).2) :
    R c (c.take site .sweep) := by
  rw [take_sweep]
  generalize c.overdue site = ids
  induction ids generalizing c with
  | nil => exact Std.Refl.refl c
  | cons id rest ih =>
    have kept : (revisit id (Handling.condemn site) c).2.Kept :=
      (moves_revisit Handling.leads_condemn hc).kept
    exact Trans.trans (visit c hc id) (ih kept)

theorem kept_take (hc : c.Kept) (site : Site) (turn : Turn) : (c.take site turn).Kept :=
  (passed_take hc site turn).kept

theorem kept_step (hc : c.Kept) (site : Site) (h : Happening) : (c.step site h).Kept := by
  cases h with
  | turn turn => exact kept_take hc site turn
  | ring id => exact hc.ring id
  | outside world drawn => exact hc.world (Nat.le_add_right _ _)

theorem kept_run (hc : c.Kept) (site : Site) (course : List Happening) :
    (c.run site course).Kept := by
  induction course generalizing c with
  | nil => exact hc
  | cons h rest ih => exact ih (kept_step hc site h)

/-- A state of the controller that some course of happenings leads to. -/
def Reachable (site : Site) (c : Controller) : Prop :=
  ∃ world course, c = (start world).run site course

theorem Reachable.kept (h : Reachable site c) : c.Kept := by
  obtain ⟨world, course, rfl⟩ := h
  exact kept_run (kept_start world) site course

theorem sorted_step (hc : c.Kept) (hsorted : c.registry.Sorted) (site : Site) (h : Happening) :
    (c.step site h).registry.Sorted := by
  cases h with
  | turn turn => exact (passed_take hc site turn).sorted hsorted
  | ring id =>
    rw [step, Controller.ring]
    split
    · exact hsorted.insert _ _
    · exact hsorted
  | outside world drawn => exact hsorted

/-- The records are in the order of their jobs, one for each. -/
theorem sorted_run (hc : c.Kept) (hsorted : c.registry.Sorted) (site : Site)
    (course : List Happening) : (c.run site course).registry.Sorted := by
  induction course generalizing c with
  | nil => exact hsorted
  | cons h rest ih => exact ih (kept_step hc site h) (sorted_step hc hsorted site h)

theorem Reachable.sorted (h : Reachable site c) : c.registry.Sorted := by
  obtain ⟨world, course, rfl⟩ := h
  exact sorted_run (kept_start world) Dict.sorted_nil site course

theorem Reachable.step (h : Reachable site c) (happening : Happening) :
    Reachable site (c.step site happening) := by
  obtain ⟨world, course, rfl⟩ := h
  refine ⟨world, course ++ [happening], ?_⟩
  rw [run_append, run_cons, run_nil]

theorem Reachable.take (h : Reachable site c) (turn : Turn) : Reachable site (c.take site turn) :=
  h.step (.turn turn)

theorem reachable_start (site : Site) (world : World) : Reachable site (start world) :=
  ⟨world, [], rfl⟩

end Controller

/-! ### A site with one job -/

namespace Sample

/-- A site with one compute node, where the end of a run is limited to a minute. -/
def site : Site where
  config := { Configuration.standard 0 with timeouts := ⟨none, none, some (.seconds 60)⟩ }
  topology := ⟨[("node1", "rabbit1")], [("rabbit1", ["node1"])]⟩
  graph := none
  groupOf user := user

def job : JobId := ⟨1, by decide⟩

def key : Api.Key := Api.workflowKey job.workflowName

/-- The status of a workflow that completed a stage. -/
def status (stage : Stage) : Json :=
  .ofFields [("computes", .ofFields [("name", .string job.workflowName)]),
    ("ready", .boolean true), ("state", stage.encode)]

/-- The workflow of the job, complete in a stage. -/
def workflow (stage : Stage) : Json :=
  .ofFields [("spec", .ofFields [("desiredState", stage.encode), ("jobID", .nat job.value)]),
    ("status", status stage)]

/-- A controller that starts beside that workflow. -/
def start (stage : Stage) : Controller :=
  let computes := Api.Kind.computes.key Api.defaultSpace job.workflowName
  .start (.start ((Api.Server.empty.put computes (.ofFields [("data", .array [])])).put key
    (workflow stage)))

/-- The stored workflow of the job. -/
def stored (c : Controller) : Json := (c.world.api.object? key).getD .null

/-- The controller is told of the stored workflow. -/
def report (c : Controller) : Controller := c.take site (.event (.modified (stored c)))

/-- The workflow completes a stage, and the controller is told so. -/
def complete (stage : Stage) (c : Controller) : Controller :=
  let api := c.world.api.update key (.ofFields [("status", status stage)])
  report (c.step site (.outside { c.world with api } 0))

/-- A request for the setup of the job. -/
def setup : Request := .setup job ["node1"]

/-- The job is set up. -/
def ready : Controller := complete .setup ((start .proposal).take site (.request setup))

theorem reachable_start (stage : Stage) : Controller.Reachable site (start stage) :=
  Controller.reachable_start site _

theorem reachable_report {c : Controller} (h : Controller.Reachable site c) :
    Controller.Reachable site (report c) := h.take (.event (.modified (stored c)))

theorem reachable_complete {c : Controller} (h : Controller.Reachable site c) (stage : Stage) :
    Controller.Reachable site (complete stage c) := by
  let api := c.world.api.update key (.ofFields [("status", status stage)])
  exact reachable_report (h.step (.outside { c.world with api } 0))

theorem reachable_ready : Controller.Reachable site ready :=
  reachable_complete ((reachable_start .proposal).take (.request setup)) .setup

end Sample

end Warren
