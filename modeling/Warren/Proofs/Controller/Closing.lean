import Warren.Proofs.Controller.Look
import Warren.Proofs.Controller.Setup

/-!
# Jobs that are ended once more

A request that ends a job leaves it torn down, or without a record if there is no workflow. Any
request of this kind is answered at once then, and changes nothing (`Closes.repeats`).
-/

namespace Warren

open Api (lookRequest)

theorem Api.Server.IsWilling.fault?_look {s : Api.Server} (h : s.IsWilling) (name : String) :
    s.fault? (lookRequest name) = match s.workflow? name with
      | some _ => none
      | none => some (.notFound name) := by
  have hget := h.run_get .workflow Api.defaultSpace name
  change Api.faultOf ((Api.get .workflow Api.defaultSpace name).run s).1 = _
  rw [hget]
  change Api.faultOf (match s.workflow? name with
    | some object => .ok object
    | none => .error (.notFound name)) = _
  cases s.workflow? name <;> rfl

theorem Api.Server.sameContents_look (s : Api.Server) (name : String) :
    SameContents s (s.serve (lookRequest name)) :=
  sameContents_of_objects fun key => object?_serve_get s .workflow Api.defaultSpace name key

namespace Controller

variable {site : Site} {id : JobId} {c t : Controller}

/-! ### Closed jobs -/

/-- A job that is torn down, or that has neither a record nor a workflow. -/
inductive Closed (id : JobId) (c : Controller) : Prop
  | torn (g : Registry) (r : Record) (hregistry : c.registry = g.put r) (hid : r.id = id)
      (htorn : r.tornDown = true)
  | gone (hrecord : c.registry.find? id = none)
      (hworkflow : c.world.api.workflow? id.workflowName = none)

/-- A request that closes a job, and changes nothing about a closed one. -/
structure Closes (id : JobId) (handle : Answering Reply) : Prop where
  closed : ∀ c : Controller, c.Kept → c.world.api.IsWilling → ∃ t, handle.run c = (.ok .done, t) ∧
    t.world.api.IsWilling ∧ Closed id t
  still : ∀ c : Controller, Closed id c → c.world.api.IsWilling → ∃ t,
    handle.run c = (.ok .done, t) ∧ c.Alike t

theorem Closes.repeats {handle : Answering Reply} (h : Closes id handle) (hc : c.Kept)
    (hwilling : c.world.api.IsWilling) : Repeats handle c := by
  obtain ⟨t, first, hwilling', hclosed⟩ := h.closed c hc hwilling
  obtain ⟨u, second, alike⟩ := h.still t hclosed hwilling'
  exact repeats_of_run first second alike

theorem Closes.get {handle : Controller → Answering Reply} (h : ∀ c, Closes id (handle c)) :
    Closes id (MonadState.get >>= handle) :=
  ⟨fun c => (h c).closed c, fun c => (h c).still c⟩

/-! ### Workflows that are torn down -/

/-- What becomes of the record of a job whose workflow is to be torn down. -/
inductive Ended (id : JobId) (c t : Controller) : Prop
  | torn (r : Record) (hworkflow : (c.world.api.workflow? id.workflowName).isSome = true)
      (hregistry : t.registry = c.registry.put r) (hid : r.id = id) (htorn : r.tornDown = true)
  | gone (hworkflow : c.world.api.workflow? id.workflowName = none)
      (hregistry : t.registry = c.registry.erase id)
      (hcleanups : t.world.cleanups = c.world.cleanups)
      (hcontents : Api.Server.SameContents c.world.api t.world.api)

/-- Work on a record that tears the workflow of the job down, where requests are granted. -/
def TearsDown (id : JobId) (handle : Record → Answering Unit) : Prop :=
  ∀ (r : Record) (c : Controller), r.id = id → c.world.api.IsWilling →
    ∃ t, (handle r).run c = (.ok (), t) ∧ t.world.api.IsWilling ∧ Ended id c t

theorem tearsDown_moveToTeardown (site : Site) : TearsDown id (moveToTeardown site) := by
  intro r c hid hwilling
  have hname : r.name = id.workflowName := by rw [Record.name, hid]
  have hstored := Handling.run_tearDownStored site ⟨r, c.world⟩
  dsimp only at hstored
  rw [hname, hwilling.fault?_look] at hstored
  have looked : (c.world.api.serve (lookRequest id.workflowName)).IsWilling := hwilling.serve _
  cases hobject : c.world.api.workflow? id.workflowName with
  | some object =>
    rw [hobject] at hstored
    obtain ⟨t, hrun, hrecord, hapi⟩ := hstored
    have hwork : work r (Handling.tearDownStored site) c =
        (.ok true, ⟨c.registry.put t.record, t.world⟩) := by
      unfold work
      rw [hrun]
    refine ⟨⟨c.registry.put t.record, t.world⟩, by rw [run_moveToTeardown, hwork], ?_, ?_⟩
    · rw [hapi]
      exact looked
    · refine .torn t.record (by rw [hobject]; rfl) rfl ?_ ?_
      · rw [hrecord]
        exact hid
      · rw [hrecord]
        rfl
  | none =>
    rw [hobject] at hstored
    have hrun : (Handling.tearDownStored site).run ⟨r, c.world⟩ = (.ok false,
        { Case.serve ⟨r, c.world⟩ (lookRequest id.workflowName) with record := r.lose }) := hstored
    have hwork : work r (Handling.tearDownStored site) c = (.ok false, ⟨c.registry.put r.lose,
        (Case.serve ⟨r, c.world⟩ (lookRequest id.workflowName)).world⟩) := by
      unfold work
      rw [hrun]
    refine ⟨⟨(c.registry.put r.lose).erase r.id,
      (Case.serve ⟨r, c.world⟩ (lookRequest id.workflowName)).world⟩,
      by rw [run_moveToTeardown, hwork], looked, .gone hobject ?_ rfl ?_⟩
    · have hlost : r.lose.id = r.id := rfl
      change (c.registry.put r.lose).erase r.id = c.registry.erase id
      rw [Registry.put, hlost, hid, Dict.erase_insert]
    · exact c.world.api.sameContents_look id.workflowName

theorem TearsDown.tryCatch {handle : Record → Answering Unit} (h : TearsDown id handle)
    (recover : Record → Refusal → Answering Unit) :
    TearsDown id fun r => tryCatch (handle r) (recover r) := by
  intro r c hid hwilling
  obtain ⟨t, hrun, hrest⟩ := h r c hid hwilling
  exact ⟨t, by rw [run_tryCatch_apply, hrun], hrest⟩

theorem ensure_put {g : Registry} {r : Record} (hid : r.id = id) :
    (g.put r).ensure id = g.put r := by
  rw [Registry.ensure, Registry.recordOf_put, if_pos hid]
  exact Dict.insert_insert g r.id r r

theorem closed_unlessTornDown {handle : Record → Answering Unit} (h : TearsDown id handle)
    (hc : c.Kept) (hwilling : c.world.api.IsWilling) :
    ∃ t, (unlessTornDown id handle).run c = (.ok .done, t) ∧ t.world.api.IsWilling ∧
      Closed id t := by
  rw [run_unlessTornDown]
  split
  · rename_i htorn
    exact ⟨_, rfl, hwilling, .torn c.registry _ rfl (hc.recordOf id).1 htorn⟩
  · obtain ⟨t, hrun, hwilling', hended⟩ := h (c.registry.recordOf id)
      { c with registry := c.registry.ensure id } (hc.recordOf id).1 hwilling
    refine ⟨t, run_bind_ok hrun _, hwilling', ?_⟩
    cases hended with
    | torn r _ hregistry hid htorn => exact .torn _ r hregistry hid htorn
    | gone hworkflow hregistry _ hcontents =>
      refine .gone (by rw [hregistry, Dict.find?_erase, if_pos rfl]) ?_
      have hmap := hcontents (Api.workflowKey id.workflowName)
      have hnone : c.world.api.object? (Api.workflowKey id.workflowName) = none := hworkflow
      rw [hnone, Option.map_none] at hmap
      exact Option.map_eq_none_iff.mp hmap

theorem still_unlessTornDown {handle : Record → Answering Unit} (h : TearsDown id handle)
    (hclosed : Closed id c) (hwilling : c.world.api.IsWilling) :
    ∃ t, (unlessTornDown id handle).run c = (.ok .done, t) ∧ c.Alike t := by
  rw [run_unlessTornDown]
  cases hclosed with
  | torn g r hregistry hid htorn =>
    have hrecord : c.registry.recordOf id = r := by
      rw [hregistry, Registry.recordOf_put, if_pos hid]
    rw [hrecord, if_pos htorn]
    refine ⟨_, rfl, ?_, rfl, Std.Refl.refl c.world.api⟩
    change c.registry.ensure id = c.registry
    rw [hregistry, ensure_put hid]
  | gone hnone hworkflow =>
    -- a record is made up, and goes again since there is still no workflow
    have hrecord : c.registry.recordOf id = .fresh id .unknown :=
      Registry.recordOf_of_find?_none hnone
    rw [hrecord, if_neg (by simp [Record.fresh])]
    obtain ⟨t, hrun, _, hended⟩ := h (.fresh id .unknown)
      { c with registry := c.registry.ensure id } rfl hwilling
    refine ⟨t, run_bind_ok hrun _, ?_⟩
    cases hended with
    | torn _ hsome =>
      rw [hworkflow] at hsome
      cases hsome
    | gone _ hregistry hcleanups hcontents =>
      refine ⟨?_, hcleanups, hcontents⟩
      have herase : (c.registry.put (.fresh id .unknown)).erase id = c.registry.erase id :=
        Dict.erase_insert c.registry id _
      rw [hregistry, Registry.ensure, hrecord, herase, Dict.erase_of_find?_eq_none hnone]

theorem closes_unlessTornDown {handle : Record → Answering Unit} (h : TearsDown id handle) :
    Closes id (unlessTornDown id handle) :=
  ⟨fun _ => closed_unlessTornDown h, fun _ => still_unlessTornDown h⟩

/-! ### Requests that end a job -/

theorem closes_postRun (site : Site) (id : JobId) : Closes id (postRun site id false) :=
  .get fun _ => closes_unlessTornDown (tearsDown_moveToTeardown site)

theorem closes_teardown (site : Site) (id : JobId) : Closes id (teardown site id) :=
  .get fun _ => closes_unlessTornDown ((tearsDown_moveToTeardown site).tryCatch _)

/-- A job without a record is torn down if it has a workflow, and else there is nothing to do. -/
theorem run_abortUnknown (hwilling : c.world.api.IsWilling) (site : Site) (id : JobId) :
    ∃ t, (abortUnknown site id).run c = (.ok .done, t) ∧ t.world.api.IsWilling ∧
      (((c.world.api.workflow? id.workflowName).isSome = true ∧
          ∃ r : Record, t.registry = c.registry.put r ∧ r.id = id ∧ r.tornDown = true) ∨
        (t.world.api.workflow? id.workflowName = none ∧ c.Alike t)) := by
  have hget := hwilling.run_get .workflow Api.defaultSpace id.workflowName
  let q : Api.Request := lookRequest id.workflowName
  let u : Controller := { c with world := { c.world with api := c.world.api.noted q } }
  have looked (found : Except Api.Fault Json)
      (h : (Api.getWorkflow id.workflowName).run c.world.api = (found, c.world.api.noted q)) :
      (ask (Api.observe (Api.getWorkflow id.workflowName))).run c = (.ok found, u) := by
    rw [run_ask, Api.run_observe, h]
    rfl
  cases hobject : c.world.api.workflow? id.workflowName with
  | some object =>
    rw [show c.world.api.object? (Api.Kind.workflow.key Api.defaultSpace id.workflowName) =
      some object from hobject] at hget
    let torn : Case := ((Handling.tearDown site object).run ⟨.fresh id .unknown, u.world⟩).2
    refine ⟨⟨c.registry.put torn.record, torn.world⟩, ?_, hwilling.noted q,
      Or.inl ⟨rfl, torn.record, rfl, rfl, rfl⟩⟩
    exact run_bind_ok (looked (.ok object) hget) _
  | none =>
    rw [show c.world.api.object? (Api.Kind.workflow.key Api.defaultSpace id.workflowName) =
      none from hobject] at hget
    refine ⟨u, run_bind_ok (looked _ hget) _, hwilling.noted q, Or.inr ⟨?_, rfl, rfl, ?_⟩⟩
    · exact (Api.Server.object?_noted c.world.api q _).trans hobject
    · exact Api.Server.sameContents_noted c.world.api q

theorem closes_abort (site : Site) (id : JobId) : Closes id (abort site id) := by
  have run (c : Controller) : (abort site id).run c = if c.registry.has id then
      (teardown site id).run c else (abortUnknown site id).run c := by
    rw [abort, run_bind_ok (run_get_apply c)]
    split <;> rfl
  constructor
  · intro c hc hwilling
    rw [run]
    split
    · exact (closes_teardown site id).closed c hc hwilling
    · rename_i hnone
      obtain ⟨t, hrun, hwilling', ⟨_, r, hregistry, hid, htorn⟩ | ⟨hworkflow, alike⟩⟩ :=
        run_abortUnknown hwilling site id
      · exact ⟨t, hrun, hwilling', .torn _ r hregistry hid htorn⟩
      · refine ⟨t, hrun, hwilling', .gone ?_ hworkflow⟩
        rw [alike.registry]
        simpa [Dict.has] using hnone
  · intro c hclosed hwilling
    rw [run]
    split
    · exact (closes_teardown site id).still c hclosed hwilling
    · rename_i hnone
      cases hclosed with
      | torn g r hregistry hid htorn =>
        rw [hregistry, has_put, hid] at hnone
        exact absurd (by simp) hnone
      | gone hrecord hworkflow =>
        obtain ⟨t, hrun, _, ⟨hsome, _⟩ | ⟨_, alike⟩⟩ := run_abortUnknown hwilling site id
        · rw [hworkflow] at hsome
          cases hsome
        · exact ⟨t, hrun, alike⟩

end Controller

end Warren
