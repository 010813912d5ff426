import Warren.Proofs.Controller.Closing

/-!
# Requests and events that are delivered twice

A delivery may be repeated. `taken_twice` says that a request or an event that comes again right
away is answered as before and changes nothing, where no request to the server fails. The exception
is the setup of a job whose workflow lists the parts of its specification: see `setup_listed`.
-/

namespace Warren

namespace Controller

variable {site : Site} {id : JobId} {c t : Controller}

/-! ### A workflow is created -/

theorem run_demand {α : Type} (refusal : Refusal) (a : α) (c : Controller) :
    (demand refusal (some a)).run c = (.ok a, c) := rfl

theorem run_createObject {api : Api.Server} (hwilling : api.IsWilling) (body : Json) :
    ∃ after, (createObject body).run api = (.ok (), after) := by
  have hrun : (Api.create .workflow Api.defaultSpace body).run api =
      (api.noted (.create .workflow Api.defaultSpace body)).applyCreate
        (Api.Kind.workflow.key Api.defaultSpace (Api.nameOf body)) body := by
    rw [Api.create, Api.run_answer_of_grants (hwilling.grants _)]
  have hobserved := Api.run_observe (Api.create .workflow Api.defaultSpace body) api
  rw [hrun, Api.Server.applyCreate] at hobserved
  split at hobserved
  · exact ⟨_, run_bind_ok hobserved _⟩
  · exact ⟨_, run_bind_ok hobserved _⟩

theorem refill_refill (details : CreateRequest) (r : Record) :
    refill details (refill details r) = refill details r := by
  unfold refill
  cases hr : r.resources with
  | unknown => simp [Resources.isUnknown]
  | pending resources => simp [Resources.isUnknown]
  | consumed => simp [Resources.isUnknown]

section

variable {details : CreateRequest} {directives : List String}
  (hread : Directive.read? site.config.presets details.directives = some directives)
  (hallowed : ¬(site.config.restrictsPersistent &&
    !Directive.allowed directives details.user site.config.owner) = true)

include hread hallowed

theorem run_create_of_some {record : Record} (hfind : c.registry.find? details.id = some record) :
    (create site details).run c =
      (.ok .done, { c with registry := c.registry.put (refill details record) }) := by
  rw [create, hread, run_bind_ok (run_demand _ _ c), if_neg hallowed,
    run_bind_ok (run_get_apply c), hfind]
  rfl

theorem run_create_of_none (hwilling : c.world.api.IsWilling)
    (hnone : c.registry.find? details.id = none) :
    ∃ t, (create site details).run c = (.ok .done, t) ∧
      t.registry = c.registry.put { Record.fresh details.id (.pending details.resources) with
        tolerance := details.tolerance } := by
  obtain ⟨api, hcreated⟩ :=
    run_createObject hwilling (newWorkflow site details.id details.user directives)
  have asked : (ask (createObject (newWorkflow site details.id details.user directives))).run c =
      (.ok (), { c with world := { c.world with api } }) := by
    rw [run_ask, hcreated]
    rfl
  rw [create, hread, run_bind_ok (run_demand _ _ c), if_neg hallowed,
    run_bind_ok (run_get_apply c), hnone]
  exact ⟨_, run_bind_ok asked _, rfl⟩

theorem alike_create {g : Registry} {record : Record} (hregistry : c.registry = g.put record)
    (hid : record.id = details.id) (hfilled : refill details record = record) :
    ∃ t, (create site details).run c = (.ok .done, t) ∧ c.Alike t := by
  have hfind : c.registry.find? details.id = some record := by
    rw [hregistry, Registry.find?_put, if_pos hid]
  refine ⟨_, run_create_of_some hread hallowed hfind, ?_, rfl, Std.Refl.refl c.world.api⟩
  change c.registry.put (refill details record) = c.registry
  rw [hfilled, hregistry]
  exact Dict.insert_insert g record.id record record

end

theorem repeats_create (hc : c.Kept) (hwilling : c.world.api.IsWilling) (site : Site)
    (details : CreateRequest) : Repeats (create site details) c := by
  cases hread : Directive.read? site.config.presets details.directives with
  | none =>
    have refused : (create site details).run c =
        (.error (.malformedDirectives details.directives), c) := by
      rw [create, hread]
      rfl
    exact repeats_of_run refused refused (alike_refl c)
  | some directives =>
    by_cases hpersistent : (site.config.restrictsPersistent &&
        !Directive.allowed directives details.user site.config.owner) = true
    · have refused : (create site details).run c = (.error .persistent, c) := by
        rw [create, hread, run_bind_ok (run_demand _ _ c), if_pos hpersistent]
        rfl
      exact repeats_of_run refused refused (alike_refl c)
    · cases hfind : c.registry.find? details.id with
      | some record =>
        have first := run_create_of_some hread hpersistent hfind
        obtain ⟨t, second, alike⟩ := alike_create hread hpersistent
          (c := { c with registry := c.registry.put (refill details record) }) rfl
          (hc.own details.id record hfind) (refill_refill details record)
        exact repeats_of_run first second alike
      | none =>
        obtain ⟨t, first, hregistry⟩ := run_create_of_none hread hpersistent hwilling hfind
        obtain ⟨u, second, alike⟩ := alike_create hread hpersistent hregistry rfl rfl
        exact repeats_of_run first second alike

/-! ### A job is over -/

theorem run_postRun_of_tornDown (htorn : (c.registry.recordOf id).tornDown = true) (site : Site)
    (started : Bool) : (postRun site id started).run c =
      (.ok .done, { c with registry := c.registry.ensure id }) := by
  rw [postRun, run_bind_ok (run_get_apply c), run_unlessTornDown, if_pos htorn]

/-- The stage after the run is asked for once more, and the time limit of it runs already. -/
theorem repeats_postRun_of_some (hc : c.Kept) (hwilling : c.world.api.IsWilling)
    (hpart : c.world.api.NonePart) (htorn : (c.registry.recordOf id).tornDown = false)
    (hobject : (c.world.api.workflow? id.workflowName).isSome = true) (site : Site) :
    Repeats (postRun site id true) c := by
  have run {c : Controller} (hc : c.Kept) (hwilling : c.world.api.IsWilling)
      (htorn : (c.registry.recordOf id).tornDown = false)
      (hobject : (c.world.api.workflow? id.workflowName).isSome = true) :
      (postRun site id true).run c = (.ok .done, (work (c.registry.recordOf id)
        (Handling.startTimer site .postRun) ⟨c.registry.ensure id,
          { c.world with api := c.world.api.staged id.workflowName .postRun }⟩).2) := by
    obtain ⟨object, hsome⟩ := Option.isSome_iff_exists.mp hobject
    rw [run_postRun site hc htorn, run_requestStage hwilling, hsome]
  let before : Case := ⟨c.registry.recordOf id,
    { c.world with api := c.world.api.staged id.workflowName .postRun }⟩
  obtain ⟨_, case, hrun, timed⟩ := (Handling.yields_startTimer site .postRun before).ok
  let t : Controller := ⟨(c.registry.ensure id).put case.record, case.world⟩
  have first : (postRun site id true).run c = (.ok .done, t) := by
    rw [run hc hwilling htorn hobject, state_work, hrun]
  have hapi : t.world.api = c.world.api.staged id.workflowName .postRun := timed.api
  have hkept : t.Kept := by
    have kept := kept_take hc site (.request (.postRun id true))
    change ((postRun site id true).run c).2.Kept at kept
    rwa [first] at kept
  have hid : case.record.id = id := by
    rw [timed.record]
    exact (hc.recordOf id).1
  have hrecord : t.registry.recordOf id = case.record := by
    rw [Registry.recordOf_put, if_pos hid]
  have hensure : t.registry.ensure id = t.registry := ensure_put hid
  have second := run hkept (hapi ▸ Api.Server.isWilling_staged hwilling _ _)
    (by rw [hrecord, timed.record]; exact htorn)
    (by rw [hapi, Api.Server.workflow?_staged hpart, if_pos rfl, Option.isSome_map, hobject])
  rw [hrecord, hensure] at second
  -- the request makes no difference to the objects, and the time limit none to the record
  let u : Controller := ⟨t.registry,
    { t.world with api := t.world.api.staged id.workflowName .postRun }⟩
  have asked : Api.Server.SameContents t.world.api u.world.api := by
    change Api.Server.SameContents t.world.api (t.world.api.staged id.workflowName .postRun)
    rw [hapi]
    exact Api.Server.sameContents_staged _ _ _
  have alike : u.Alike (work case.record (Handling.startTimer site .postRun) u).2 :=
    alike_work rfl (Handling.quiet_startTimer timed.runs)
  exact repeats_of_run first second ⟨alike.registry, alike.cleanups,
    Trans.trans asked alike.contents⟩

theorem repeats_postRun_of_none (hc : c.Kept) (hwilling : c.world.api.IsWilling)
    (htorn : (c.registry.recordOf id).tornDown = false)
    (hnone : c.world.api.workflow? id.workflowName = none) (site : Site) :
    Repeats (postRun site id true) c := by
  let q : Api.Request := Api.stageRequest id.workflowName .postRun
  have run {c : Controller} (hc : c.Kept) (hwilling : c.world.api.IsWilling)
      (htorn : (c.registry.recordOf id).tornDown = false)
      (hnone : c.world.api.workflow? id.workflowName = none) :
      (postRun site id true).run c = (.error (.api (.notFound id.workflowName)),
        ⟨c.registry.erase id, { c.world with api := c.world.api.noted q }⟩) := by
    have hensured : (c.registry.ensure id).erase id = c.registry.erase id := by
      rw [Registry.ensure, Registry.put, (hc.recordOf id).1, Dict.erase_insert]
    rw [run_postRun site hc htorn, run_requestStage hwilling, hnone]
    simp only [Api.Fault.isNotFound_notFound, Bool.or_true, if_true, hensured]
    rfl
  let t : Controller := ⟨c.registry.erase id, { c.world with api := c.world.api.noted q }⟩
  have hkept : t.Kept := (hc.erase id).world (Nat.le_refl _)
  have hfresh : t.registry.recordOf id = .fresh id .unknown :=
    Registry.recordOf_of_find?_none (by rw [Dict.find?_erase, if_pos rfl])
  have second := run hkept (hwilling.noted q) (by rw [hfresh]; rfl)
    ((Api.Server.object?_noted c.world.api q _).trans hnone)
  exact repeats_of_run (run hc hwilling htorn hnone) second
    ⟨Dict.erase_erase c.registry id, rfl, Api.Server.sameContents_noted t.world.api q⟩

theorem repeats_postRun (hc : c.Kept) (hwilling : c.world.api.IsWilling)
    (hpart : c.world.api.NonePart) (site : Site) (id : JobId) (started : Bool) :
    Repeats (postRun site id started) c := by
  cases htorn : (c.registry.recordOf id).tornDown with
  | true =>
    let t : Controller := { c with registry := c.registry.ensure id }
    have htorn' : (t.registry.recordOf id).tornDown = true := by
      rw [Registry.recordOf_ensure, htorn]
    refine repeats_of_run (run_postRun_of_tornDown htorn site started)
      (run_postRun_of_tornDown htorn' site started) ⟨?_, rfl, Std.Refl.refl c.world.api⟩
    exact ensure_put (hc.recordOf id).1
  | false =>
    cases started with
    | false => exact (closes_postRun site id).repeats hc hwilling
    | true =>
      cases hobject : c.world.api.workflow? id.workflowName with
      | some object =>
        exact repeats_postRun_of_some hc hwilling hpart htorn (by rw [hobject]; rfl) site
      | none => exact repeats_postRun_of_none hc hwilling htorn hobject site

end Controller

/-! ### A site with a workflow of its own -/

namespace Sample

/-- A controller that starts beside a workflow of the job. -/
def beside (workflow : Json) : Controller :=
  let computes := Api.Kind.computes.key Api.defaultSpace job.workflowName
  .start (.start ((Api.Server.empty.put computes (.ofFields [("data", .array [])])).put key
    workflow))

/-- A proposed workflow whose specification lists its parts without their names. -/
def listed : Json :=
  .ofFields [("spec", .array [Stage.proposal.encode, .array [], .nat job.value, .nat 0, .nat 0,
    .string "flux"]), ("status", status .proposal)]

theorem logged_beside (workflow : Json) : (beside workflow).world.api.Logged := by
  let computes := Api.Kind.computes.key Api.defaultSpace job.workflowName
  exact (Api.Server.logged_after Api.Server.logged_empty rfl
    [.put computes (.ofFields [("data", .array [])]), .put key workflow]).1

theorem isWilling_beside (workflow : Json) : (beside workflow).world.api.IsWilling := by
  intro verb outcome hout
  cases hout

theorem nonePart_beside {workflow : Json} (h : ((beside workflow).world.api.objects.all fun e =>
    !Api.isParting e.2) = true) : (beside workflow).world.api.NonePart := by
  intro key object hobject
  have hmem := ((logged_beside workflow).sorted.mem_iff key object).mpr hobject
  simpa using List.all_eq_true.mp h _ hmem

end Sample

namespace Controller

variable {site : Site} {c : Controller}

/-! ### Requests and events -/

/-- A request does not set up a job whose workflow lists the parts of its specification without
their names. -/
def NamesSpec (c : Controller) : Request → Prop
  | .setup id _ => ∀ object, c.world.api.workflow? id.workflowName = some object →
      ∀ items, object.field? "spec" ≠ some (.array items)
  | _ => True

theorem repeats_onRequest {asked : Request} (hc : c.Kept) (hlogged : c.world.api.Logged)
    (hwilling : c.world.api.IsWilling) (hpart : c.world.api.NonePart) (hspec : c.NamesSpec asked)
    (site : Site) : Repeats (onRequest site asked) c := by
  cases asked with
  | create details => exact repeats_create hc hwilling site details
  | setup id nodelist => exact repeats_setup hc hlogged hwilling hpart hspec site nodelist
  | postRun id started => exact repeats_postRun hc hwilling hpart site id started
  | teardown id => exact (closes_teardown site id).repeats hc hwilling
  | abort id => exact (closes_abort site id).repeats hc hwilling
  | status => exact repeats_of_run rfl rfl (alike_refl c)

theorem alike_event (hc : c.Kept) (hwilling : c.world.api.IsWilling)
    (hpart : c.world.api.NonePart) (site : Site) (event : Api.Event) :
    (c.take site (.event event)).Alike ((c.take site (.event event)).take site (.event event)) := by
  cases hw : reported? event with
  | none =>
    have nothing (c : Controller) : c.take site (.event event) = c := by
      have htake := take_event site c event
      rwa [hw] at htake
    rw [nothing c, nothing c]
    exact alike_refl c
  | some w =>
    have told (c : Controller) := take_event site c event
    simp only [hw] at told
    let t : Controller := c.take site (.event event)
    change t.Alike (t.take site (.event event))
    obtain ⟨object, hkind, htake⟩ | ⟨⟨gone, hkind⟩, htake⟩ := told c
    · obtain ⟨other, hkind', htake'⟩ | ⟨⟨gone, hkind'⟩, _⟩ := told t
      · have hsame : object = other := by rcases hkind with rfl | rfl <;> simpa using hkind'
        subst hsame
        rw [htake', show t = _ from htake]
        exact alike_report hc hwilling hpart site w object
      · rcases hkind with rfl | rfl <;> cases hkind'
    · obtain ⟨other, hkind', _⟩ | ⟨_, htake'⟩ := told t
      · subst hkind
        rcases hkind' with hkind' | hkind' <;> cases hkind'
      · rw [htake', show t = _ from htake]
        exact ⟨Dict.erase_erase c.registry w.jobId, rfl, Std.Refl.refl c.world.api⟩

/-- A request that comes again right away is answered as before, and neither a request nor an event
that comes again changes the records, the requests for the cleanup or the objects, if no request to
the server fails and no object is about to go. -/
theorem taken_twice (hreach : Reachable site c) (hlogged : c.world.api.Logged)
    (hwilling : c.world.api.IsWilling) (hpart : c.world.api.NonePart) :
    (∀ asked, c.NamesSpec asked → let t := c.take site (.request asked)
      ((onRequest site asked).run t).1 = ((onRequest site asked).run c).1 ∧
        t.Alike (t.take site (.request asked))) ∧
    ∀ event, let t := c.take site (.event event)
      t.Alike (t.take site (.event event)) := by
  refine ⟨fun asked hspec => ?_, fun event => alike_event hreach.kept hwilling hpart site event⟩
  have repeats := repeats_onRequest hreach.kept hlogged hwilling hpart hspec site
  exact ⟨repeats.outcome, repeats.alike⟩

/-- The theorem applies to a job that is set up. -/
theorem taken_twice_setup :
    let c := Sample.beside (Sample.workflow .proposal)
    let t := c.take Sample.site (.request Sample.setup)
    (Response.ofAnswer 0 ((onRequest Sample.site Sample.setup).run c).1).success = true ∧
    ((onRequest Sample.site Sample.setup).run t).1 =
      ((onRequest Sample.site Sample.setup).run c).1 ∧
    t.Alike (t.take Sample.site (.request Sample.setup)) := by
  intro c t
  have reached : Reachable Sample.site c := reachable_start _ _
  have hlogged : c.world.api.Logged := Sample.logged_beside _
  have named : c.NamesSpec Sample.setup := by
    intro object hobject items hspec
    have hmem := (hlogged.sorted.mem_iff (Api.workflowKey Sample.job.workflowName) object).mpr
      hobject
    have hnone : (c.world.api.objects.all fun e => ((e.2.field? "spec").bind Json.items?).isNone) =
        true := by decide +kernel
    have hitems := List.all_eq_true.mp hnone _ hmem
    rw [hspec] at hitems
    cases hitems
  have twice := taken_twice reached hlogged (Sample.isWilling_beside _)
    (Sample.nonePart_beside (by decide +kernel))
  exact ⟨by decide +kernel, twice.1 Sample.setup named⟩

/-- A workflow that lists its specification is readable until a stage is asked for. -/
theorem setup_listed :
    let c := Sample.beside Sample.listed
    let t := c.take Sample.site (.request Sample.setup)
    Reachable Sample.site c ∧ c.world.api.Logged ∧ c.world.api.IsWilling ∧
    c.world.api.NonePart ∧
    ((onRequest Sample.site Sample.setup).run t).1 ≠
      ((onRequest Sample.site Sample.setup).run c).1 := by
  intro c t
  have first : (Response.ofAnswer 0
      ((onRequest Sample.site Sample.setup).run c).1).success = true := by decide +kernel
  have second : (Response.ofAnswer 0
      ((onRequest Sample.site Sample.setup).run t).1).success = false := by decide +kernel
  refine ⟨reachable_start _ _, Sample.logged_beside _, Sample.isWilling_beside _,
    Sample.nonePart_beside (by decide +kernel), fun hsame => ?_⟩
  rw [hsame, first] at second
  cases second

end Controller

end Warren
