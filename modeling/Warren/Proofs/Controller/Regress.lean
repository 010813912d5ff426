import Warren.Proofs.Controller.Turn

/-!
# Stages that are asked for again

A stage of a workflow is asked for without a look at the stage that is stored, so a request or an
event that comes late moves the workflow back. The theorems say exactly when: unless the job is on
its way out, or the server refuses the change.
-/

namespace Warren

theorem Stage.not_lt_self (stage : Stage) : ¬stage < stage := Nat.lt_irrefl stage.rank

namespace Api

/-- The stored workflow desires an earlier stage on the second server. -/
def MovedBack (name : String) (s t : Server) : Prop :=
  ∃ before after, s.stage? name = some before ∧ t.stage? name = some after ∧ after < before

theorem Server.StagesKept.not_movedBack {s t : Server} (h : s.StagesKept t) (name : String) :
    ¬MovedBack name s t := by
  rintro ⟨before, after, hbefore, hafter, hlt⟩
  rcases h name with hsame | hgone
  · rw [hsame, hbefore] at hafter
    obtain rfl := Option.some.inj hafter
    exact before.not_lt_self hlt
  · rw [hgone] at hafter
    cases hafter

theorem Server.SameWorkflows.stagesKept {s t : Server} (h : s.SameWorkflows t) : s.StagesKept t :=
  fun name => Or.inl (h.stage? name)

theorem not_movedBack_self (name : String) (s : Server) : ¬MovedBack name s s :=
  Server.StagesKept.not_movedBack (fun _ => Or.inl rfl) name

/-- A request for a stage moves back the workflow that it is made for if the stored stage is a later
one, unless the request fails or the workflow goes with the change. -/
theorem movedBack_stageRequest (name other : String) (stage : Stage) (s : Server) :
    MovedBack other s (s.serve (stageRequest name stage)) ↔
      name = other ∧ (∃ before, s.stage? name = some before ∧ stage < before) ∧
        s.grants .patch = true ∧ s.isParting name = false := by
  constructor
  · rintro ⟨before, after, hbefore, hafter, hlt⟩
    rw [Server.stage?_serve_stageRequest] at hafter
    split at hafter
    · rename_i hserved
      obtain ⟨rfl, hgrants⟩ := hserved
      split at hafter
      · cases hafter
      · rename_i hthere
        obtain rfl := Option.some.inj hafter
        have hparting : s.isParting name = false := by
          simp only [not_or, Bool.not_eq_true] at hthere
          exact hthere.2
        exact ⟨rfl, ⟨before, hbefore, hlt⟩, hgrants, hparting⟩
    · rw [hbefore] at hafter
      obtain rfl := Option.some.inj hafter
      exact absurd hlt before.not_lt_self
  · rintro ⟨rfl, ⟨before, hbefore, hlt⟩, hgrants, hparting⟩
    refine ⟨before, stage, hbefore, ?_, hlt⟩
    have hthere : ¬((s.workflow? name).isNone = true ∨ s.isParting name = true) := by
      rintro (hnone | hpart)
      · rw [Server.stage?, Option.isNone_iff_eq_none.mp hnone] at hbefore
        cases hbefore
      · rw [hparting] at hpart
        cases hpart
    rw [Server.stage?_serve_stageRequest, if_pos ⟨rfl, hgrants⟩, if_neg hthere]

end Api

theorem Api.Server.outcome_applyPatch {s : Server} {key : Key} (h : (s.object? key).isSome = true)
    (body : Json) : ∃ object, (s.applyPatch key body).1 = .ok object := by
  obtain ⟨object, hobject⟩ := Option.isSome_iff_exists.mp h
  rw [applyPatch, hobject]
  dsimp only
  split
  · exact ⟨_, rfl⟩
  · exact ⟨_, rfl⟩

theorem Handling.outcome_run_requestStage {name : String} {s : Api.Server} (stage : Stage)
    (h : (s.workflow? name).isSome = true) :
    (∃ u, ((requestStage name stage).run s).1 = .ok u) ↔ s.grants .patch = true := by
  change (∃ u, ((discard (Api.patch .workflow Api.defaultSpace name
    (Api.stagePatch stage))).run s).1 = .ok u) ↔ _
  rw [run_discard, Api.patch]
  cases hg : s.grants .patch with
  | true =>
    have hthere : ((s.noted (Api.stageRequest name stage)).object?
        (Api.workflowKey name)).isSome = true := by
      rw [Api.Server.object?_noted]
      exact h
    obtain ⟨object, hobject⟩ := Api.Server.outcome_applyPatch hthere (Api.stagePatch stage)
    rw [Api.run_answer_of_grants hg]
    exact iff_of_true ⟨(), congrArg (Except.map fun _ => PUnit.unit) hobject⟩ rfl
  | false =>
    obtain ⟨fault, hrun⟩ := Api.run_answer_of_not_grants (q := Api.stageRequest name stage) hg
      (·.applyPatch (Api.Kind.workflow.key Api.defaultSpace name) (Api.stagePatch stage))
    rw [Api.stageRequest] at hrun
    rw [hrun]
    refine iff_of_false ?_ (by simp)
    rintro ⟨u, hu⟩
    cases hu

theorem Handling.movedBack_requestStage {name : String} {stage : Stage} {s t : Api.Server}
    (same : s.SameWorkflows t) (hlate : ∃ before, s.stage? name = some before ∧ stage < before) :
    Api.MovedBack name s (t.serve (Api.stageRequest name stage)) ↔
      (∃ u, ((requestStage name stage).run t).1 = .ok u) ∧ s.isParting name = false := by
  have hstage : t.stage? name = s.stage? name := same.stage? name
  have hparting : t.isParting name = s.isParting name := by
    rw [Api.Server.isParting, same name, ← Api.Server.isParting]
  have hthere : (t.workflow? name).isSome = true := by
    obtain ⟨before, hbefore, _⟩ := hlate
    rw [← hstage] at hbefore
    cases hw : t.workflow? name with
    | none => simp [Api.Server.stage?, hw] at hbefore
    | some object => rfl
  have hmoved : Api.MovedBack name s (t.serve (Api.stageRequest name stage)) ↔
      Api.MovedBack name t (t.serve (Api.stageRequest name stage)) := by
    rw [Api.MovedBack, Api.MovedBack, hstage]
  rw [hmoved, Api.movedBack_stageRequest, hstage, hparting, outcome_run_requestStage stage hthere]
  constructor
  · rintro ⟨_, _, hgrants, hparts⟩
    exact ⟨hgrants, hparts⟩
  · rintro ⟨hgrants, hparts⟩
    exact ⟨rfl, hlate, hgrants, hparts⟩

/-! ### Requests -/

/-- The stage of a workflow that a request asks for. -/
def Request.target? : Request → Option (JobId × Stage)
  | .setup id _ => some (id, .setup)
  | .postRun id true => some (id, .postRun)
  | _ => none

namespace Controller

variable {site : Site} {id : JobId} {c : Controller}

/-- Whether a request asks for nothing because the job is on its way out. The end of a run is only
dropped for a job that is torn down. -/
def isDropped (g : Registry) : Request → Bool
  | .setup id _ => isLeaving g id
  | .postRun id _ => (g.recordOf id).tornDown
  | _ => false

theorem run_settle (site : Site) (id : JobId) (hosts servers : List String) (c : Controller) :
    ∃ t, (settle site id hosts servers).run c = (.ok (), t) ∧ t.world.api = c.world.api := by
  let record : Record := { c.registry.recordOf id with servers := some servers, hosts }
  refine ⟨(work record (Handling.startTimer site .setup) c).2, ?_, ?_⟩
  · rw [settle, run_bind_ok (run_get_apply c), run_discard]
    rfl
  · exact Deed.api_apply_of_silent (d := .startTimer .setup) trivial ⟨record, c.world⟩

theorem movedBack_setup (site : Site) (nodelist : List String) (hc : c.Kept)
    (hlate : ∃ before, c.world.api.stage? id.workflowName = some before ∧ .setup < before) :
    Api.MovedBack id.workflowName c.world.api ((setup site id nodelist).run c).2.world.api ↔
      ((setup site id nodelist).run c).1 = .ok .done ∧ isLeaving c.registry id = false ∧
        c.world.api.isParting id.workflowName = false := by
  rw [setup, run_bind_ok (run_get_apply c)]
  cases hleaving : isLeaving c.registry id with
  | true =>
    rw [if_pos rfl]
    exact iff_of_false (Api.not_movedBack_self _ _) (by simp)
  | false =>
    rw [if_neg (by simp)]
    -- placing the storage changes no workflow, so the stored stage is late for the request as well
    have placed := leads_place site id nodelist c hc
    cases hplace : (place site id nodelist).run c with
    | mk found t =>
      have same : c.world.api.SameWorkflows t.world.api := by
        have asked := placed.asked.sameWorkflows
        rw [hplace] at asked
        exact asked
      cases found with
      | error refusal =>
        rw [run_bind_error hplace]
        exact iff_of_false (same.stagesKept.not_movedBack _) fun h => by cases h.1
      | ok found =>
        rw [run_bind_ok hplace]
        have moved := Handling.movedBack_requestStage same hlate
        rw [← Handling.state_run_requestStage] at moved
        have asked := run_ask (Handling.requestStage id.workflowName .setup) t
        generalize (Handling.requestStage id.workflowName .setup).run t.world.api = answer
          at moved asked
        obtain ⟨outcome, api⟩ := answer
        cases outcome with
        | error fault =>
          have refused : (ask (Handling.requestStage id.workflowName .setup)).run t =
              (.error (.api fault), { t with world := { t.world with api } }) := asked
          dsimp only
          rw [run_bind_error refused]
          refine iff_of_false (fun h => ?_) fun h => by cases h.1
          obtain ⟨⟨u, hu⟩, _⟩ := moved.mp h
          cases hu
        | ok u =>
          have granted : (ask (Handling.requestStage id.workflowName .setup)).run t =
              (.ok u, { t with world := { t.world with api } }) := asked
          obtain ⟨v, settled, hapi⟩ := run_settle site id found.1 found.2
            { t with world := { t.world with api } }
          dsimp only
          rw [run_bind_ok granted, run_bind_ok settled]
          change Api.MovedBack id.workflowName c.world.api v.world.api ↔ _
          rw [hapi, moved]
          constructor
          · rintro ⟨_, hparts⟩
            exact ⟨rfl, rfl, hparts⟩
          · rintro ⟨_, _, hparts⟩
            exact ⟨⟨u, rfl⟩, hparts⟩

theorem movedBack_postRun (site : Site) (hc : c.Kept)
    (hlate : ∃ before, c.world.api.stage? id.workflowName = some before ∧ .postRun < before) :
    Api.MovedBack id.workflowName c.world.api ((postRun site id true).run c).2.world.api ↔
      ((postRun site id true).run c).1 = .ok .done ∧
        (c.registry.recordOf id).tornDown = false ∧
        c.world.api.isParting id.workflowName = false := by
  cases htorn : (c.registry.recordOf id).tornDown with
  | true =>
    rw [postRun, run_bind_ok (run_get_apply c), run_unlessTornDown, if_pos htorn]
    exact iff_of_false (Api.not_movedBack_self _ _) (by simp)
  | false =>
    have same : c.world.api.SameWorkflows c.world.api := fun _ => rfl
    rw [api_run_postRun site hc htorn, Handling.movedBack_requestStage same hlate,
      run_postRun site hc htorn]
    generalize (Handling.requestStage id.workflowName .postRun).run c.world.api = answer
    obtain ⟨outcome, api⟩ := answer
    cases outcome with
    | ok u =>
      constructor
      · rintro ⟨_, hparts⟩
        exact ⟨rfl, rfl, hparts⟩
      · rintro ⟨_, _, hparts⟩
        exact ⟨⟨u, rfl⟩, hparts⟩
    | error fault =>
      refine iff_of_false ?_ fun h => by cases h.1
      rintro ⟨⟨u, hu⟩, _⟩
      cases hu

/-- A request that comes when the workflow is beyond the stage that it asks for moves the workflow
back whenever it succeeds, unless the job is on its way out or the workflow goes with the change. -/
theorem movedBack_request {asked : Request} {stage : Stage} (hreach : Reachable site c)
    (htarget : asked.target? = some (id, stage))
    (hlate : ∃ before, c.world.api.stage? id.workflowName = some before ∧ stage < before) :
    Api.MovedBack id.workflowName c.world.api (c.take site (.request asked)).world.api ↔
      ((onRequest site asked).run c).1 = .ok .done ∧ isDropped c.registry asked = false ∧
        c.world.api.isParting id.workflowName = false := by
  cases asked with
  | setup job nodelist =>
    cases htarget
    exact movedBack_setup site nodelist hreach.kept hlate
  | postRun job started =>
    cases started with
    | true =>
      cases htarget
      exact movedBack_postRun site hreach.kept hlate
    | false => cases htarget
  | _ => cases htarget

/-- A request to set a job up that was granted before comes again after its workflow has moved
on. -/
theorem setup_again :
    (Response.ofAnswer 0
      ((onRequest Sample.site Sample.setup).run (Sample.start .proposal)).1).success = true ∧
    Reachable Sample.site Sample.ready ∧
    Sample.ready.world.api.stage? Sample.job.workflowName = some .dataIn ∧
    Api.MovedBack Sample.job.workflowName Sample.ready.world.api
      (Sample.ready.take Sample.site (.request Sample.setup)).world.api := by
  have stage : Sample.ready.world.api.stage? Sample.job.workflowName = some .dataIn := by
    decide +kernel
  have again : (Sample.ready.take Sample.site
      (.request Sample.setup)).world.api.stage? Sample.job.workflowName = some .setup := by
    decide +kernel
  exact ⟨by decide +kernel, Sample.reachable_ready, stage, .dataIn, .setup, stage, again, by decide⟩

/-- The hypotheses hold for the setup of a job whose workflow has moved on. -/
theorem movedBack_request_ready :
    Reachable Sample.site Sample.ready ∧ Sample.setup.target? = some (Sample.job, .setup) ∧
    (Api.MovedBack Sample.job.workflowName Sample.ready.world.api
        (Sample.ready.take Sample.site (.request Sample.setup)).world.api ↔
      ((onRequest Sample.site Sample.setup).run Sample.ready).1 = .ok .done ∧
        isDropped Sample.ready.registry Sample.setup = false ∧
        Sample.ready.world.api.isParting Sample.job.workflowName = false) := by
  have stage : Sample.ready.world.api.stage? Sample.job.workflowName = some .dataIn := by
    decide +kernel
  exact ⟨Sample.reachable_ready, rfl,
    movedBack_request Sample.reachable_ready rfl ⟨.dataIn, stage, by decide⟩⟩

end Controller

/-! ### Reports -/

namespace Case

/-- Nothing was asked of the server. -/
def Silently (c t : Case) : Prop := t.world.api = c.world.api

/-- The server was asked for one thing. -/
def Asking (q : Api.Request) (c t : Case) : Prop := t.world.api = c.world.api.serve q

instance : Std.Refl Silently := ⟨fun _ => rfl⟩

instance : Trans Silently Silently Silently := ⟨fun h h' => Eq.trans h' h⟩

instance {q : Api.Request} : Trans (Asking q) Silently (Asking q) := ⟨fun h h' => Eq.trans h' h⟩

end Case

namespace Handling

open Case (Silently Asking)

variable {site : Site} {α : Type}

theorem leads_silently {x : Handling α} {c : Case} (h : Leads (Case.Did site Deed.Quiet) x c) :
    Leads Silently x c :=
  h.mono fun _ _ did => (did.mono fun _ => Deed.Quiet.silent).api_of_silent

theorem asking_advance (site : Site) (next : Stage) (object : Json) (c : Case) :
    Leads (Asking (Api.stageRequest c.record.name next)) (advance site next object) c := by
  have asked : Leads (Asking (Api.stageRequest c.record.name next))
      (call (requestStage c.record.name next)) c := by
    unfold Leads
    rw [run_call, state_run_requestStage]
    rfl
  refine leads_record (Leads.bind_right (S := Silently) asked fun _ t _ => ?_)
  have saved : Leads (Case.Did site Deed.Quiet) (saveTiming object) t := leads_saveTiming object t
  refine (leads_silently saved).bind fun _ u _ => ?_
  exact Deed.api_apply_of_silent (d := .startTimer next) trivial u

theorem asking_report {w : Workflow} {next : Stage} {c : Case}
    (hcomplete : w.isComplete w.desired = true) (hnext : w.desired.onComplete = .advance next)
    (hbusy : ¬Idle w c.record) (object : Json) :
    Leads (Asking (Api.stageRequest c.record.name next)) (report site w object) c := by
  have asked : Asking (Api.stageRequest c.record.name next) c
      ((act site w object w.desired.onComplete).run (freed w.desired c)).2 := by
    obtain ⟨timer, hfreed⟩ := freed_eq w.desired c
    rw [hnext, hfreed]
    exact asking_advance site next object _
  have quietly {x : Handling Unit} {t : Case}
      (ht : Asking (Api.stageRequest c.record.name next) c t)
      (hx : Leads (Case.Did site Deed.Quiet) x t) :
      Asking (Api.stageRequest c.record.name next) c (x.run t).2 :=
    Trans.trans ht (leads_silently hx : Silently t _)
  exact holds_report_of_complete hcomplete hbusy asked
    (fun t ht => quietly ht (leads_react w object t)) fun t ht => quietly ht (leads_giveUp object t)

/-- A report asks for no stage of a job that is on its way out, and none unless a stage is complete
that another one follows. -/
theorem stagesKept_report {w : Workflow} {c : Case}
    (h : c.record.tornDown = true ∨ c.record.deleted = true ∨
      ∀ next, w.isComplete w.desired = true → w.desired.onComplete ≠ .advance next)
    (object : Json) :
    c.world.api.StagesKept ((report site w object).run c).2.world.api := by
  have did : Case.Did site (Deed.Answers w) c ((report site w object).run c).2 :=
    leads_report w object c
  rcases h with htorn | hdeleted | hnone
  · have still := ((did.calm htorn).mono fun _ => Deed.Calm.still).asked_of_still
    exact still.stagesKept
  · rw [run_report_of_idle site object (Or.inr (Or.inl hdeleted))]
    exact fun _ => Or.inl rfl
  · have answers (d : Deed) (hd : d.Answers w) : d.Still := by
      cases d with
      | moveTo next => exact absurd hd.2 (hnone next hd.1)
      | _ => trivial
    exact (did.mono answers).asked_of_still.stagesKept

end Handling

namespace Controller

variable {site : Site} {c : Controller}

/-- What a report of a workflow moves back: the workflow itself, if it says that a stage is complete
while the stage after the next one is stored. -/
structure Regresses (c : Controller) (w : Workflow) (next : Stage) : Prop where
  complete : w.isComplete w.desired = true
  successor : w.desired.onComplete = .advance next
  staying : isLeaving c.registry w.jobId = false
  later : ∃ before, c.world.api.stage? w.jobId.workflowName = some before ∧ next < before
  granted : c.world.api.grants .patch = true
  remaining : c.world.api.isParting w.jobId.workflowName = false

theorem movedBack_report (hc : c.Kept) (site : Site) (w : Workflow) (object : Json)
    (name : String) :
    Api.MovedBack name c.world.api (work (c.registry.recordOf w.jobId)
        (Handling.report site w object) c).2.world.api ↔
      name = w.jobId.workflowName ∧ ∃ next, Regresses c w next := by
  let case : Case := ⟨c.registry.recordOf w.jobId, c.world⟩
  have hname : case.record.name = w.jobId.workflowName := by
    rw [Record.name, (hc.recordOf w.jobId).1]
  change Api.MovedBack name c.world.api ((Handling.report site w object).run case).2.world.api ↔ _
  -- the one case in which a stage is asked for at all
  by_cases hmoves : isLeaving c.registry w.jobId = false ∧ w.isComplete w.desired = true ∧
      ∃ next, w.desired.onComplete = .advance next
  · obtain ⟨hstaying, hcomplete, next, hnext⟩ := hmoves
    have hflags := hstaying
    rw [isLeaving_eq, Bool.or_eq_false_iff] at hflags
    have hbusy : ¬Handling.Idle w case.record :=
      Handling.not_idle_of_complete hcomplete (fun _ => hflags.1) hflags.2
    have asking : ((Handling.report site w object).run case).2.world.api =
        c.world.api.serve (Api.stageRequest case.record.name next) :=
      Handling.asking_report hcomplete hnext hbusy object
    rw [asking, hname, Api.movedBack_stageRequest]
    constructor
    · rintro ⟨hname, hlater, hgranted, hremaining⟩
      exact ⟨hname.symm, next, hcomplete, hnext, hstaying, hlater, hgranted, hremaining⟩
    · rintro ⟨hname, other, h⟩
      obtain rfl : next = other := Stage.Action.advance.inj (hnext.symm.trans h.successor)
      exact ⟨hname.symm, h.later, h.granted, h.remaining⟩
  · have kept : c.world.api.StagesKept ((Handling.report site w object).run case).2.world.api := by
      refine Handling.stagesKept_report ?_ object
      cases hstaying : isLeaving c.registry w.jobId with
      | true =>
        rw [isLeaving_eq, Bool.or_eq_true] at hstaying
        exact hstaying.imp id Or.inl
      | false =>
        exact Or.inr (Or.inr fun next hcomplete hnext =>
          hmoves ⟨hstaying, hcomplete, next, hnext⟩)
    refine iff_of_false (kept.not_movedBack name) ?_
    rintro ⟨_, next, h⟩
    exact hmoves ⟨h.staying, h.complete, next, h.successor⟩

/-- An event moves a workflow back exactly if it reports that workflow as complete in a stage whose
successor is earlier than the stored stage, the job is not on its way out, and the server grants the
change. -/
theorem movedBack_event (hreach : Reachable site c) (event : Api.Event) (name : String) :
    Api.MovedBack name c.world.api (c.take site (.event event)).world.api ↔
      ∃ object w next, (event = .added object ∨ event = .modified object) ∧
        reported? event = some w ∧ name = w.jobId.workflowName ∧ Regresses c w next := by
  have hevent := take_event site c event
  cases hw : reported? event with
  | none =>
    rw [hw] at hevent
    rw [hevent]
    refine iff_of_false (Api.not_movedBack_self _ _) ?_
    rintro ⟨_, _, _, _, h, _⟩
    cases h
  | some w =>
    rw [hw] at hevent
    rcases hevent with ⟨object, hkind, htake⟩ | ⟨⟨gone, hkind⟩, htake⟩
    · rw [htake, movedBack_report hreach.kept]
      constructor
      · rintro ⟨hname, next, h⟩
        exact ⟨object, w, next, hkind, rfl, hname, h⟩
      · rintro ⟨_, other, next, _, hother, hname, h⟩
        obtain rfl := Option.some.inj hother
        exact ⟨hname, next, h⟩
    · rw [htake]
      refine iff_of_false (Api.not_movedBack_self _ _) ?_
      rintro ⟨object, _, _, hother, _⟩
      rw [hkind] at hother
      rcases hother with hother | hother <;> cases hother

/-- The event of a workflow that completed its setup comes again after the workflow has completed
the next stage as well. -/
theorem setup_event_again :
    let event := Api.Event.modified (Sample.stored (Sample.start .setup))
    let c := Sample.complete .dataIn (Sample.report (Sample.start .setup))
    Reachable Sample.site c ∧
    (Sample.start .setup).world.api.workflow? Sample.job.workflowName =
      some (Sample.stored (Sample.start .setup)) ∧
    c.world.api.stage? Sample.job.workflowName = some .preRun ∧
    Api.MovedBack Sample.job.workflowName c.world.api
      (c.take Sample.site (.event event)).world.api := by
  intro event c
  have reached : Reachable Sample.site c :=
    Sample.reachable_complete (Sample.reachable_report (Sample.reachable_start .setup)) .dataIn
  have stage : c.world.api.stage? Sample.job.workflowName = some .preRun := by decide +kernel
  have again : (c.take Sample.site (.event event)).world.api.stage? Sample.job.workflowName =
      some .dataIn := by decide +kernel
  exact ⟨reached, by decide +kernel, stage, .preRun, .dataIn, stage, again, by decide⟩

theorem movedBack_event_setup :
    let event := Api.Event.modified (Sample.stored (Sample.start .setup))
    let c := Sample.complete .dataIn (Sample.report (Sample.start .setup))
    Reachable Sample.site c ∧
    (Api.MovedBack Sample.job.workflowName c.world.api
        (c.take Sample.site (.event event)).world.api ↔
      ∃ object w next, (event = .added object ∨ event = .modified object) ∧
        reported? event = some w ∧ Sample.job.workflowName = w.jobId.workflowName ∧
        Regresses c w next) := by
  intro event c
  have reached : Reachable Sample.site c :=
    Sample.reachable_complete (Sample.reachable_report (Sample.reachable_start .setup)) .dataIn
  exact ⟨reached, movedBack_event reached event Sample.job.workflowName⟩

end Controller

end Warren
