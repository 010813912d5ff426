import Warren.Proofs.Controller.Run

/-!
# What requests for a job leave alone

Every request about a job moves that job only. The end of a run is also written out as a whole,
since it asks for a stage whatever the stored stage is.
-/

namespace Warren.Controller

variable {site : Site} {id : JobId} {c t : Controller}

/-! ### Requests -/

section

variable {P : Api.Request → Prop}

theorem run_ask (conversation : Api.Call α) (c : Controller) : (ask conversation).run c =
    ((conversation.run c.world.api).1.mapError .api,
      { c with world := { c.world with api := (conversation.run c.world.api).2 } }) := rfl

theorem leads_ask {conversation : Api.Call α} (h : Api.Asks P conversation) (c : Controller) :
    Leads (Moves P id) (ask conversation) c :=
  moves_world (w := { c.world with api := (conversation.run c.world.api).2 }) rfl (Nat.le_refl _)
    (h c.world.api)

theorem leads_notice (notice : Notice) (c : Controller) :
    Leads (Moves P id) (inWorld (.tell notice)) c :=
  moves_world (w := c.world.tell notice) rfl (Nat.le_refl _) (Std.Refl.refl c.world.api)

theorem leads_demand (refusal : Refusal) (a : Option α) (c : Controller) :
    Leads (Moves P id) (demand refusal a) c := by
  cases a with
  | some a => exact .pure a c
  | none => exact .throw refusal c

theorem leads_get {R : Controller → Controller → Prop} {f : Controller → Answering α}
    (h : Leads R (f c) c) : Leads R (get >>= f) c := h

theorem leads_survive {R : Controller → Controller → Prop} [Std.Refl R] (outcome : Except Crash α)
    (c : Controller) : Leads R (survive outcome) c := by
  cases outcome with
  | ok a => exact .pure a c
  | error crash => exact .throw _ c

theorem leads_countServers {R : Controller → Controller → Prop} [Std.Refl R] (site : Site)
    (hosts : List String) (c : Controller) : Leads R (countServers site hosts) c := by
  unfold countServers
  split
  · exact .pure _ c
  · exact .throw _ c
  · exact .throw _ c

theorem leads_drop (id : JobId) (c : Controller) : Leads (Moves P id) (drop id) c :=
  moves_erase id c

end

theorem leads_work {record : Record} {handling : Handling α} {P : Deed → Prop}
    (hid : c.Kept → record.id = id) (hdrawn : c.Kept → Drawn c.world record)
    (h : Leads (Case.Did site P) handling ⟨record, c.world⟩) :
    Leads (Moves (Api.Request.SetsOnly id.workflowName) id)
      (ExceptT.lift (work record handling) : Answering _) c := moves_work_of_leads hid hdrawn h

theorem nameOf_newWorkflow (site : Site) (id : JobId) (user : UInt32) (directives : List String) :
    Api.nameOf (newWorkflow site id user directives) = id.workflowName := by
  simp [Api.nameOf, newWorkflow, Json.path?_cons, Json.field?, Json.ofFields, Dict.ofEntries,
    Dict.find?_insert, Json.string?]

theorem asks_createObject (name : String) (body : Json) :
    Api.Asks (Api.Request.SetsOnly name) (createObject body) := by
  refine .bind (.observe (.create fun _ h => h.elim)) fun created => ?_
  cases created with
  | ok _ => exact .pure _
  | error fault =>
    change Api.Asks _ (if fault.isConflict = true then _ else _)
    split
    · exact .pure _
    · exact .throw _

theorem leads_create (site : Site) (details : CreateRequest) (c : Controller) :
    Leads (Moves (Api.Request.SetsOnly details.id.workflowName) details.id) (create site details)
      c := by
  refine .bind (leads_demand _ _ c) fun directives t _ => ?_
  split
  · refine .bind (.throw _ t) fun _ u h => ?_
    cases h
  · refine leads_get ?_
    cases hf : t.registry.find? details.id with
    | some record =>
      have refilled : Leads (Moves (Api.Request.SetsOnly details.id.workflowName) details.id)
          (modify fun c => { c with registry := c.registry.put (refill details record) } :
            Answering Unit) t := by
        intro ht
        exact moves_put (ht.own details.id record hf) (fun ht => ht.drawn details.id record hf) ht
      exact refilled.bind fun _ u _ => .pure _ u
    | none =>
      refine .bind (leads_ask (asks_createObject _ _) t) fun _ u _ => ?_
      let record := Record.fresh details.id (.pending details.resources)
      have untimed : Drawn u.world { record with tolerance := details.tolerance } :=
        drawn_of_untimed rfl
      refine .bind (moves_put rfl fun _ => untimed) fun _ v _ => ?_
      exact .bind (leads_notice _ v) fun _ w _ => .pure _ w

theorem leads_readWorkflow {P : Api.Request → Prop}
    (hget : P (.get .workflow Api.defaultSpace id.workflowName)) (c : Controller) :
    Leads (Moves P id) (readWorkflow id) c := by
  refine .bind (leads_ask (.observe (.get hget)) c) fun found t _ => ?_
  cases found with
  | ok object => exact leads_ask (.decoded _ _) t
  | error fault =>
    change Leads _ (if fault.isNotFound = true then _ else _) t
    split
    · exact .bind (leads_drop id t) fun _ u _ => .throw _ u
    · exact .throw _ t

theorem leads_writeServers (site : Site) (counts : Allocation.ServerCounts) (b : Breakdown)
    (c : Controller) :
    Leads (Moves Api.Request.SparesWorkflows id) (writeServers site counts b) c := by
  unfold writeServers
  cases b.servers? with
  | none => exact .pure _ c
  | some reference =>
    dsimp only
    split
    · exact .throw _ c
    · exact .throw _ c
    · have aside : Api.Kind.servers.plural ≠ Api.Kind.workflow.plural := by decide
      exact leads_ask (.discard (.patch aside)) c

theorem leads_place (site : Site) (id : JobId) (nodelist : List String) (c : Controller) :
    Leads (Moves Api.Request.SparesWorkflows id) (place site id nodelist) c := by
  refine .bind (leads_survive _ c) fun found s _ => ?_
  refine .bind (leads_demand _ found s) fun hosts t _ => ?_
  refine .bind (leads_readWorkflow trivial t) fun w u _ => ?_
  refine .bind (leads_countServers site hosts u) fun counts v _ => ?_
  refine .bind (leads_survive _ v) fun rabbits v' _ => ?_
  refine .bind (leads_notice _ v') fun _ x _ => ?_
  refine .bind (leads_demand _ _ x) fun computes y _ => ?_
  have aside : Api.Kind.computes.plural ≠ Api.Kind.workflow.plural := by decide
  refine .bind (leads_ask (.discard (.patch aside)) y) fun _ z _ => ?_
  refine .bind (leads_ask (Handling.asks_breakdowns (fun _ _ => trivial) w) z) fun found s _ => ?_
  exact .bind (.forM (fun b _ => leads_writeServers site counts b) s) fun _ r _ => .pure _ r

theorem isLeaving_eq (g : Registry) (id : JobId) :
    isLeaving g id = ((g.recordOf id).tornDown || (g.recordOf id).deleted) := by
  rw [isLeaving, Registry.recordOf]
  cases g.find? id <;> rfl

theorem leads_settle (site : Site) (id : JobId) (hosts servers : List String) (c : Controller) :
    Leads (Moves (Api.Request.SetsOnly id.workflowName) id) (settle site id hosts servers) c := by
  refine leads_get (Leads.discard ?_)
  exact moves_work_startTimer site .setup (fun hc => (hc.recordOf id).1)
    fun hc => (hc.recordOf id).2

theorem asks_requestStage (name : String) (stage : Stage) :
    Api.Asks (Api.Request.SetsOnly name) (Handling.requestStage name stage) :=
  .discard (.patch (Api.setsOnly_stageRequest name stage))

theorem leads_setup (site : Site) (id : JobId) (nodelist : List String) (c : Controller) :
    Leads (Moves (Api.Request.SetsOnly id.workflowName) id) (setup site id nodelist) c := by
  refine leads_get ?_
  split
  · exact .pure _ c
  · have placed : Leads (Moves (Api.Request.SetsOnly id.workflowName) id)
        (place site id nodelist) c :=
      (leads_place site id nodelist c).mono fun _ _ =>
        Moves.mono fun _ hq => hq.keepsStages.setsOnly _
    refine placed.bind fun found t _ => ?_
    refine .bind (leads_ask (asks_requestStage _ .setup) t) fun _ u _ => ?_
    exact .bind (leads_settle site id _ _ u) fun _ v _ => .pure _ v

/-! ### The end of a job -/

theorem leads_of_kept {P : Api.Request → Prop} {x : Answering α}
    (h : c.Kept → Leads (Moves P id) x c) : Leads (Moves P id) x c := fun hc => h hc hc

theorem run_unlessTornDown (id : JobId) (handle : Record → Answering Unit) (c : Controller) :
    (unlessTornDown id handle).run c =
      if (c.registry.recordOf id).tornDown then
        (.ok .done, { c with registry := c.registry.ensure id })
      else (do handle (c.registry.recordOf id); return Reply.done : Answering Reply).run
        { c with registry := c.registry.ensure id } := by
  have ensured : (modify fun c => { c with registry := c.registry.ensure id } :
      Answering Unit).run c = (.ok (), { c with registry := c.registry.ensure id }) := rfl
  rw [unlessTornDown, run_bind_ok ensured, run_bind_ok (run_get_apply _)]
  dsimp only
  rw [Registry.recordOf_ensure]
  split <;> rfl

/-- A request for the stage after the run leads to a time limit if it succeeds, and else may cost
the job its record. -/
theorem run_moveToPostRun (site : Site) (known : Bool) (r : Record) (c : Controller) :
    (moveToPostRun site known r).run c =
      match (Handling.requestStage r.name .postRun).run c.world.api with
      | (.ok _, api) => (.ok (),
          (work r (Handling.startTimer site .postRun) { c with world := { c.world with api } }).2)
      | (.error fault, api) => (.error (.api fault), {
          registry := if !known || fault.isNotFound then c.registry.erase r.id else c.registry
          world := { c.world with api } }) := by
  have asked : (ask (Api.observe (Handling.requestStage r.name .postRun))).run c =
      (.ok ((Handling.requestStage r.name .postRun).run c.world.api).1,
        { c with world := { c.world with
          api := ((Handling.requestStage r.name .postRun).run c.world.api).2 } }) := rfl
  rw [moveToPostRun, run_bind_ok asked]
  obtain ⟨outcome, api⟩ := (Handling.requestStage r.name .postRun).run c.world.api
  cases outcome with
  | ok _ =>
    dsimp only
    rw [run_discard]
    rfl
  | error fault =>
    dsimp only
    split <;> rfl

theorem run_postRun (site : Site) {id : JobId} {c : Controller} (hc : c.Kept)
    (htorn : (c.registry.recordOf id).tornDown = false) :
    (postRun site id true).run c =
      match (Handling.requestStage id.workflowName .postRun).run c.world.api with
      | (.ok _, api) => (.ok .done, (work (c.registry.recordOf id)
          (Handling.startTimer site .postRun)
          { registry := c.registry.ensure id, world := { c.world with api } }).2)
      | (.error fault, api) => (.error (.api fault), {
          registry := if !c.registry.has id || fault.isNotFound then
            (c.registry.ensure id).erase id else c.registry.ensure id
          world := { c.world with api } }) := by
  have hid : (c.registry.recordOf id).id = id := (hc.recordOf id).1
  have hname : (c.registry.recordOf id).name = id.workflowName := by rw [Record.name, hid]
  have htorn' : ¬(c.registry.recordOf id).tornDown = true := by simp [htorn]
  rw [postRun, run_bind_ok (run_get_apply c), run_unlessTornDown, if_neg htorn', run_bind_pure,
    if_pos rfl, run_moveToPostRun, hid, hname]
  obtain ⟨outcome, api⟩ := (Handling.requestStage id.workflowName .postRun).run c.world.api
  cases outcome <;> rfl

theorem api_run_postRun (site : Site) {id : JobId} {c : Controller} (hc : c.Kept)
    (htorn : (c.registry.recordOf id).tornDown = false) :
    ((postRun site id true).run c).2.world.api =
      c.world.api.serve (Api.stageRequest id.workflowName .postRun) := by
  have hstate := Handling.state_run_requestStage id.workflowName .postRun c.world.api
  rw [run_postRun site hc htorn]
  generalize (Handling.requestStage id.workflowName .postRun).run c.world.api = answer at hstate
  obtain ⟨outcome, api⟩ := answer
  cases outcome with
  | ok _ =>
    rw [← hstate]
    exact Deed.api_apply_of_silent (d := .startTimer .postRun) trivial _
  | error fault => exact hstate

theorem leads_unlessTornDown {R : Controller → Controller → Prop} [Trans R R R]
    {handle : Record → Answering Unit}
    (hensure : R c { c with registry := c.registry.ensure id })
    (h : (c.registry.recordOf id).tornDown = false →
      Leads R (handle (c.registry.recordOf id)) { c with registry := c.registry.ensure id }) :
    Leads R (unlessTornDown id handle) c := by
  unfold Leads at h ⊢
  rw [run_unlessTornDown]
  split
  · exact hensure
  · rename_i htorn
    rw [run_bind_pure]
    exact Trans.trans hensure (h (by simpa using htorn))

theorem moves_unlessTornDown {P : Api.Request → Prop} {handle : Record → Answering Unit}
    (h : ∀ t r, r.id = id → Drawn t.world r → r.tornDown = false →
      Leads (Moves P id) (handle r) t) (c : Controller) :
    Leads (Moves P id) (unlessTornDown id handle) c := by
  refine leads_of_kept fun hc => ?_
  have hr := hc.recordOf id
  have ensured : Moves P id c { c with registry := c.registry.ensure id } :=
    moves_put hr.1 fun _ => hr.2
  exact leads_unlessTornDown ensured fun htorn => h _ _ hr.1 hr.2 htorn

theorem leads_moveToTeardown {r : Record} (hid : r.id = id) (hdrawn : Drawn c.world r)
    (htorn : r.tornDown = false) (site : Site) :
    Leads (Moves (Api.Request.SetsOnly id.workflowName) id) (moveToTeardown site r) c := by
  have torn : Leads (Case.Did site Deed.Calm) (Handling.tearDownStored site) ⟨r, c.world⟩ :=
    Handling.leads_tearDownStored htorn
  refine .bind (leads_work (fun _ => hid) (fun _ => hdrawn) torn) fun found t _ => ?_
  match found with
  | .ok true => exact .pure _ t
  | .ok false =>
    change Leads _ (drop r.id) t
    rw [hid]
    exact leads_drop id t
  | .error fault => exact .throw _ t

theorem leads_moveToPostRun {r : Record} (hid : r.id = id) (hdrawn : Drawn c.world r) (site : Site)
    (known : Bool) :
    Leads (Moves (Api.Request.SetsOnly id.workflowName) id) (moveToPostRun site known r) c := by
  have named : r.name = id.workflowName := by rw [Record.name, hid]
  have asked : Leads (Moves (Api.Request.SetsOnly id.workflowName) id)
      (ask (Api.observe (Handling.requestStage r.name .postRun))) c := by
    rw [named]
    exact leads_ask (.observe (asks_requestStage _ .postRun)) c
  refine asked.bind fun found t ht => ?_
  have hticket : t.world.ticket = c.world.ticket := congrArg (fun x => x.2.world.ticket) ht.symm
  cases found with
  | ok _ =>
    refine Leads.discard ?_
    exact moves_work_startTimer site .postRun (fun _ => hid)
      fun _ => hdrawn.mono (Nat.le_of_eq hticket.symm)
  | error fault =>
    change Leads _ (if (!known || fault.isNotFound) = true then _ else _) t
    split
    · rw [hid]
      exact .bind (leads_drop id t) fun _ u _ => .throw _ u
    · exact .throw _ t

theorem leads_postRun (site : Site) (id : JobId) (started : Bool) (c : Controller) :
    Leads (Moves (Api.Request.SetsOnly id.workflowName) id) (postRun site id started) c := by
  refine leads_get (moves_unlessTornDown (fun t r hid hdrawn htorn => ?_) c)
  cases started with
  | true => exact leads_moveToPostRun hid hdrawn site _
  | false => exact leads_moveToTeardown hid hdrawn htorn site

theorem leads_teardown (site : Site) (id : JobId) (c : Controller) :
    Leads (Moves (Api.Request.SetsOnly id.workflowName) id) (teardown site id) c := by
  refine leads_get (moves_unlessTornDown (fun t r hid hdrawn htorn => ?_) c)
  refine .tryCatch (leads_moveToTeardown hid hdrawn htorn site) fun refusal u _ => ?_
  split
  · exact .bind (leads_drop id u) fun _ v _ => .throw _ v
  · exact .throw _ u

theorem leads_abort (site : Site) (id : JobId) (c : Controller) :
    Leads (Moves (Api.Request.SetsOnly id.workflowName) id) (abort site id) c := by
  refine leads_get ?_
  split
  · exact leads_teardown site id c
  · refine .bind (leads_ask (.observe (.get fun _ h => h.elim)) c) fun found t _ => ?_
    cases found with
    | ok object =>
      have torn : Leads (Case.Did site Deed.Quiet) (Handling.tearDown site object)
          ⟨.fresh id .unknown, t.world⟩ := Handling.leads_tearDown rfl object
      have fresh : (Record.fresh id .unknown).id = id := rfl
      have moved := leads_work (fun _ => fresh) (fun _ => drawn_fresh _ _ _) torn
      exact .bind moved.discard fun _ u _ => .pure _ u
    | error fault =>
      dsimp only
      split
      · exact .pure _ t
      · exact .throw _ t

end Warren.Controller
