import Warren.Proofs.Controller.Look
import Warren.Proofs.Controller.Resting

/-!
# Jobs whose workflow is found absent

While a message is handled the server may answer that the workflow of a job does not exist: to a
look at the workflow, or to a request for a stage of it. `has_take_of_foundAbsent` says for which
messages the job has no record then: requests forget the job, while time limits and sweeps keep its
record.
-/

namespace Warren

open Api (lookRequest stageRequest)
open Api.Server (Asked Served Faced Missed faced_iff_or faced_serve)

namespace Api

instance (name : String) : DecidablePred (Request.SetsStage name)
  | .patch kind space n body => inferInstanceAs (Decidable (kind.key space n = workflowKey name ∧
      (body.path? ["spec", "desiredState"]).isSome))
  | .get .. | .list .. | .create .. | .delete .. | .watch .. => inferInstanceAs (Decidable False)

/-- A request that is in vain without the workflow of a job: a look at it, or one for a stage. -/
def Request.Seeks (name : String) (q : Request) : Prop := q = lookRequest name ∨ q.SetsStage name

instance (name : String) : DecidablePred (Request.Seeks name) :=
  fun q => inferInstanceAs (Decidable (q = lookRequest name ∨ q.SetsStage name))

theorem Request.seeks_lookRequest (name : String) : Request.Seeks name (lookRequest name) :=
  Or.inl rfl

theorem Request.seeks_stageRequest (name : String) (stage : Stage) :
    Request.Seeks name (stageRequest name stage) := Or.inr (setsStage_stageRequest.mpr rfl)

theorem Server.run_requestStage_cases (name : String) (stage : Stage) (s : Server) :
    ((Handling.requestStage name stage).run s = (.ok (), s.serve (stageRequest name stage)) ∧
      s.fault? (stageRequest name stage) = none) ∨
    ∃ fault,
      (Handling.requestStage name stage).run s = (.error fault, s.serve (stageRequest name stage)) ∧
      s.fault? (stageRequest name stage) = some fault := by
  have hrun : (Handling.requestStage name stage).run s =
      (((patch .workflow defaultSpace name (stagePatch stage)).run s).1.map fun _ => (),
        s.serve (stageRequest name stage)) := run_discard ..
  have hfault : s.fault? (stageRequest name stage) =
    faultOf ((patch .workflow defaultSpace name (stagePatch stage)).run s).1 := rfl
  rw [hrun, hfault]
  cases ((patch .workflow defaultSpace name (stagePatch stage)).run s).1 with
  | ok object => exact Or.inl ⟨rfl, rfl⟩
  | error fault => exact Or.inr ⟨fault, rfl, rfl⟩

end Api

namespace Controller

variable {site : Site} {id : JobId} {c t u : Controller} {α : Type}

/-- Between two states the server answered that the workflow of a job does not exist. -/
def FoundAbsent (id : JobId) (c t : Controller) : Prop :=
  Faced (Api.Request.Seeks id.workflowName) Api.Fault.isNotFound c.world.api t.world.api

instance : Decidable (FoundAbsent id c t) := inferInstanceAs (Decidable (Faced _ _ _ _))

/-- A turn that forgets a job whose workflow is found absent. -/
def Forgets (site : Site) (id : JobId) (c : Controller) : Turn → Prop
  | .request (.postRun job _) | .request (.teardown job) | .request (.abort job) => job = id
  | .request (.setup job nodelist) => job = id ∧ Missed id.workflowName c.world.api
      (c.take site (.request (.setup job nodelist))).world.api
  | _ => False

theorem foundAbsent_serve {q : Api.Request} (hq : q.Seeks id.workflowName)
    (h : t.world.api = c.world.api.serve q) :
    FoundAbsent id c t ↔ (c.world.api.fault? q).any Api.Fault.isNotFound = true := by
  rw [FoundAbsent, h, faced_serve]
  exact and_iff_right hq

/-! ### Time limits and sweeps -/

theorem has_revisit {handling : Handling Unit} {P : Deed → Prop} (hc : c.Kept)
    (h : ∀ case, Leads (Case.Did site P) handling case) (other : JobId) :
    (revisit other handling c).2.registry.has id = c.registry.has id := by
  rw [state_revisit]
  cases hf : c.registry.find? other with
  | none => rfl
  | some r =>
    have did : Case.Did site P ⟨r, c.world⟩ (handling.run ⟨r, c.world⟩).2 := h ⟨r, c.world⟩
    have hid : (handling.run ⟨r, c.world⟩).2.record.id = other := did.id.trans (hc.own other r hf)
    dsimp only
    rw [state_work, has_put, hid]
    by_cases ho : other = id
    · rw [← ho, Registry.has_of_find? hf]
      simp
    · simp [ho]

theorem has_sweep (site : Site) (hc : c.Kept) :
    (c.take site .sweep).registry.has id = c.registry.has id := by
  rw [take_sweep]
  generalize c.overdue site = ids
  induction ids generalizing c with
  | nil => rfl
  | cons other rest ih =>
    have kept : (revisit other (Handling.condemn site) c).2.Kept :=
      (moves_revisit Handling.leads_condemn hc).kept
    exact (ih kept).trans (has_revisit hc Handling.leads_condemn other)

/-! ### Requests -/

def Inquires (P : Api.Request → Prop) (c t : Controller) : Prop := Asked P c.world.api t.world.api

instance {P : Api.Request → Prop} : Std.Refl (Inquires P) := ⟨fun c => Std.Refl.refl c.world.api⟩

instance {P : Api.Request → Prop} : Trans (Inquires P) (Inquires P) (Inquires P) :=
  ⟨fun h h' => Trans.trans (r := Asked P) h h'⟩

theorem inquires_of_api_eq {P : Api.Request → Prop} (h : t.world.api = c.world.api) :
    Inquires P c t := by
  rw [Inquires, h]
  exact Std.Refl.refl c.world.api

theorem Inquires.not_foundAbsent {P : Api.Request → Prop} (h : Inquires P c t)
    (hP : ∀ q, P q → ¬q.Seeks id.workflowName) : ¬FoundAbsent id c t :=
  Asked.not_faced h hP

theorem asks_createObject_of {P : Api.Request → Prop} {body : Json}
    (hP : P (.create .workflow Api.defaultSpace body)) : Api.Asks P (createObject body) := by
  refine .bind (.observe (.create hP)) fun created => ?_
  cases created with
  | ok _ => exact .pure _
  | error fault =>
    change Api.Asks _ (if fault.isConflict = true then _ else _)
    split
    · exact .pure _
    · exact .throw _

theorem inquires_create {P : Api.Request → Prop} {site : Site} {details : CreateRequest}
    (hP : ∀ directives, Directive.read? site.config.presets details.directives = some directives →
      ¬(site.config.restrictsPersistent &&
        !Directive.allowed directives details.user site.config.owner) = true →
      P (.create .workflow Api.defaultSpace
        (newWorkflow site details.id details.user directives)))
    (c : Controller) : Leads (Inquires P) (create site details) c := by
  cases hread : Directive.read? site.config.presets details.directives with
  | none =>
    refine .bind (inquires_of_api_eq (by rw [hread, state_demand])) fun directives t h => ?_
    rw [hread] at h
    cases h
  | some found =>
    refine .bind (inquires_of_api_eq (by rw [state_demand])) fun directives t h => ?_
    rw [hread] at h
    obtain ⟨hfound, rfl⟩ := Prod.mk.inj h
    obtain rfl := Except.ok.inj hfound
    split
    · exact .bind (.throw _ _) fun _ u h => by cases h
    · rename_i hallowed
      refine leads_get ?_
      cases c.registry.find? details.id with
      | some record => exact .bind (inquires_of_api_eq rfl) fun _ u _ => .pure _ u
      | none =>
        have asked : Api.Asks P
            (createObject (newWorkflow site details.id details.user found)) :=
          asks_createObject_of (hP found hread hallowed)
        refine .bind (asked c.world.api) fun _ u _ => ?_
        refine .bind (inquires_of_api_eq rfl) fun _ v _ => ?_
        exact .bind (inquires_of_api_eq rfl) fun _ w _ => .pure _ w

theorem leads_create_only (site : Site) (details : CreateRequest) (c : Controller) :
    Leads (Inquires (fun q => q.verb = .create)) (create site details) c :=
  inquires_create (fun _ _ _ => rfl) c

theorem not_foundAbsent_create (site : Site) (details : CreateRequest) (c : Controller) :
    ¬FoundAbsent id c (c.take site (.request (.create details))) := by
  have created : Inquires (fun q => q.verb = .create) c
      (c.take site (.request (.create details))) := leads_create_only site details c
  refine created.not_foundAbsent fun q hq => ?_
  cases q with
  | create =>
    rintro (h | h)
    · cases h
    · exact h
  | _ => cases hq

theorem api_run_unlessTornDown {handle : Record → Answering Unit}
    (htorn : (c.registry.recordOf id).tornDown = true) :
    ((unlessTornDown id handle).run c).2.world.api = c.world.api := by
  rw [run_unlessTornDown, if_pos htorn]

theorem has_postRun_started_of_foundAbsent (hc : c.Kept)
    (habsent : FoundAbsent id c ((postRun site id true).run c).2) :
    ((postRun site id true).run c).2.registry.has id = false := by
  cases htorn : (c.registry.recordOf id).tornDown with
  | true =>
    have silent : Inquires (fun _ => False) c ((postRun site id true).run c).2 := by
      rw [postRun, run_bind_ok (run_get_apply c)]
      exact inquires_of_api_eq (api_run_unlessTornDown htorn)
    exact absurd habsent (silent.not_foundAbsent fun _ h => h.elim)
  | false =>
    have hanswer := (foundAbsent_serve (Api.Request.seeks_stageRequest _ .postRun)
      (api_run_postRun site hc htorn)).mp habsent
    rw [run_postRun site hc htorn]
    rcases Api.Server.run_requestStage_cases id.workflowName .postRun c.world.api with
      ⟨_, hfault⟩ | ⟨fault, hrun, hfault⟩
    · rw [hfault] at hanswer
      cases hanswer
    · rw [hfault] at hanswer
      have hgone : fault.isNotFound = true := hanswer
      rw [hrun]
      simp [hgone, has_erase]

/-- Work that looks at a workflow, may find none and then succeeds without a record. -/
theorem has_of_moveToTeardown {r : Record} {u : Controller} {out : Except Refusal Unit}
    (hid : r.id = id) (hrun : (moveToTeardown site r).run c = (out, u))
    (habsent : FoundAbsent id c u) : out = .ok () ∧ u.registry.has id = false := by
  obtain ⟨out', u', hrun', hapi, hlook⟩ := run_moveToTeardown_look hid site c
  obtain ⟨rfl, rfl⟩ := Prod.mk.inj (hrun.symm.trans hrun')
  have hanswer := (foundAbsent_serve (Api.Request.seeks_lookRequest _) hapi).mp habsent
  cases hfault : c.world.api.fault? (lookRequest id.workflowName) with
  | none =>
    rw [hfault] at hanswer
    cases hanswer
  | some fault =>
    rw [hfault] at hanswer hlook
    have hgone : fault.isNotFound = true := hanswer
    simpa [hgone] using hlook

theorem has_unlessTornDown_of_foundAbsent (site : Site) {handle : Record → Answering Unit}
    (hc : c.Kept) (hhandle : ∀ t, (handle (c.registry.recordOf id)).run t =
        (moveToTeardown site (c.registry.recordOf id)).run t ∨
      ∃ refusal u, (moveToTeardown site (c.registry.recordOf id)).run t = (.error refusal, u) ∧
        ((handle (c.registry.recordOf id)).run t).2.world = u.world)
    (habsent : FoundAbsent id c ((unlessTornDown id handle).run c).2) :
    ((unlessTornDown id handle).run c).2.registry.has id = false := by
  cases htorn : (c.registry.recordOf id).tornDown with
  | true =>
    have silent : Inquires (fun _ => False) c ((unlessTornDown id handle).run c).2 :=
      inquires_of_api_eq (api_run_unlessTornDown htorn)
    exact absurd habsent (silent.not_foundAbsent fun _ h => h.elim)
  | false =>
    rw [run_unlessTornDown, if_neg (by simp [htorn]), run_bind_pure] at habsent ⊢
    let ensured : Controller := { c with registry := c.registry.ensure id }
    have hid : (c.registry.recordOf id).id = id := (hc.recordOf id).1
    rcases hhandle ensured with hsame | ⟨refusal, u, hfail, hworld⟩
    · rw [hsame] at habsent ⊢
      exact (has_of_moveToTeardown (c := ensured) hid rfl habsent).2
    · -- a refusal comes from a fault that is not about a missing workflow
      have hfound : FoundAbsent id ensured u := by
        rw [FoundAbsent] at habsent ⊢
        rw [← hworld]
        exact habsent
      exact absurd (has_of_moveToTeardown hid hfail hfound).1 nofun

theorem has_teardown_of_foundAbsent (hc : c.Kept)
    (habsent : FoundAbsent id c ((teardown site id).run c).2) :
    ((teardown site id).run c).2.registry.has id = false := by
  rw [teardown, run_bind_ok (run_get_apply c)] at habsent ⊢
  refine has_unlessTornDown_of_foundAbsent site hc (fun t => ?_) habsent
  rw [run_tryCatch_apply]
  cases hrun : (moveToTeardown site (c.registry.recordOf id)).run t with
  | mk out u =>
    cases out with
    | ok _ => exact Or.inl rfl
    | error refusal =>
      refine Or.inr ⟨refusal, u, rfl, ?_⟩
      dsimp only
      cases c.registry.has id <;> rfl

theorem has_postRun_of_foundAbsent (hc : c.Kept) (started : Bool)
    (habsent : FoundAbsent id c ((postRun site id started).run c).2) :
    ((postRun site id started).run c).2.registry.has id = false := by
  cases started with
  | true => exact has_postRun_started_of_foundAbsent hc habsent
  | false =>
    rw [postRun, run_bind_ok (run_get_apply c)] at habsent ⊢
    exact has_unlessTornDown_of_foundAbsent site hc (fun t => Or.inl rfl) habsent

theorem has_abort_of_foundAbsent (hc : c.Kept)
    (habsent : FoundAbsent id c ((abort site id).run c).2) :
    ((abort site id).run c).2.registry.has id = false := by
  cases hknown : c.registry.has id with
  | true =>
    rw [abort, run_bind_ok (run_get_apply c), if_pos hknown] at habsent ⊢
    exact has_teardown_of_foundAbsent hc habsent
  | false =>
    rw [abort, run_bind_ok (run_get_apply c), hknown, if_neg Bool.false_ne_true, abortUnknown,
      run_bind_apply, run_look] at habsent ⊢
    rcases Api.Server.run_getWorkflow_cases id.workflowName c.world.api with
      ⟨object, hget, hfault⟩ | ⟨fault, hget, hfault⟩
    · rw [hget] at habsent
      have hanswer := (foundAbsent_serve (Api.Request.seeks_lookRequest _) rfl).mp habsent
      rw [hfault] at hanswer
      cases hanswer
    · rw [hget]
      dsimp only
      cases fault.isNotFound <;> exact hknown

theorem api_run_settle (site : Site) (hosts servers : List String) (c : Controller) :
    ((settle site id hosts servers).run c).2.world.api = c.world.api :=
  Deed.api_apply_of_silent (d := .startTimer .setup) trivial
    ⟨{ c.registry.recordOf id with servers := some servers, hosts }, c.world⟩

theorem not_foundAbsent_place {nodelist : List String} {found : List String × List String}
    (hc : c.Kept) (h : (place site id nodelist).run c = (.ok found, t)) : ¬FoundAbsent id c t := by
  have glides := (scouts_place site id nodelist c).glides found t h
  have moved : Moved Api.Request.SparesWorkflows id c t := by
    have placed := leads_place site id nodelist c
    unfold Leads at placed
    rw [h] at placed
    exact placed hc
  have still : ¬Faced (Api.Request.SetsStage id.workflowName) Api.Fault.isNotFound
      c.world.api t.world.api :=
    moved.asked.not_faced fun q hq => hq.keepsStages.not_setsStage _
  intro habsent
  exact (Api.Server.faced_or.mp habsent).elim glides.found still

theorem run_requestSetup (site : Site) (id : JobId) (hosts servers : List String) (t : Controller) :
    let q := stageRequest id.workflowName .setup
    let after := ((do
      ask (Handling.requestStage id.workflowName .setup)
      settle site id hosts servers
      return Reply.done : Answering Reply).run t).2
    after.world.api = t.world.api.serve q ∧
      ((t.world.api.fault? q).isSome = true → after.registry = t.registry) := by
  intro q after
  let requested : Controller := { t with world := { t.world with api := t.world.api.serve q } }
  have hask := run_ask (Handling.requestStage id.workflowName .setup) t
  rcases Api.Server.run_requestStage_cases id.workflowName .setup t.world.api with
    ⟨hrun, hfault⟩ | ⟨fault, hrun, hfault⟩
  · rw [hrun] at hask
    have hafter : after = ((settle site id hosts servers).run requested).2 := by
      simp only [after]
      rw [run_bind_ok hask, run_bind_pure]
    rw [hafter, hfault]
    exact ⟨api_run_settle site hosts servers requested, nofun⟩
  · rw [hrun] at hask
    have hafter : after = requested := by
      simp only [after]
      rw [run_bind_error hask]
    rw [hafter]
    exact ⟨rfl, fun _ => rfl⟩

/-- The storage of a job is placed and its setup asked for: only the first of these forgets the job
if its workflow is gone. -/
theorem has_setup_of_foundAbsent (hc : c.Kept) (nodelist : List String)
    (habsent : FoundAbsent id c ((setup site id nodelist).run c).2) :
    ((setup site id nodelist).run c).2.registry.has id = false ↔
      c.registry.has id = false ∨
        Missed id.workflowName c.world.api ((setup site id nodelist).run c).2.world.api := by
  have scouts := scouts_place site id nodelist c
  by_cases hleaving : isLeaving c.registry id = true
  · rw [setup, run_bind_ok (run_get_apply c), if_pos hleaving] at habsent
    exact absurd habsent (Api.Server.not_faced_refl _)
  · rw [setup, run_bind_ok (run_get_apply c), if_neg hleaving, run_bind_apply] at habsent ⊢
    cases hplace : (place site id nodelist).run c with
    | mk out t =>
      rw [hplace] at habsent
      cases out with
      | error refusal =>
        have surveys : Surveys id c t := by
          have h := scouts.surveys
          unfold Leads at h
          rw [hplace] at h
          exact h
        have hhas := surveys.has
        dsimp only
        grind
      | ok found =>
        have glides := scouts.glides found t hplace
        obtain ⟨hapi, hregistry⟩ := run_requestSetup site id found.1 found.2 t
        dsimp only at habsent ⊢
        generalize ExceptT.run (do
          ask (Handling.requestStage id.workflowName .setup)
          settle site id found.1 found.2
          return Reply.done : Answering Reply) t = after at hapi hregistry habsent ⊢
        have served : Served t.world.api after.2.world.api := hapi ▸ .one trivial _
        -- the workflow was found so far, so the request for the stage was answered with the fault
        have late : FoundAbsent id t after.2 :=
          ((faced_iff_or glides.served served).mp habsent).resolve_left
            (not_foundAbsent_place hc hplace)
        have hanswer :=
          (foundAbsent_serve (Api.Request.seeks_stageRequest _ .setup) hapi).mp late
        have hfault : (t.world.api.fault? (stageRequest id.workflowName .setup)).isSome = true := by
          obtain ⟨fault, hfault, _⟩ := (Option.any_eq_true _ _).mp hanswer
          rw [hfault]
          rfl
        have found' : ¬Missed id.workflowName c.world.api after.2.world.api := by
          rw [Missed, faced_iff_or glides.served served, hapi, faced_serve]
          exact not_or.mpr ⟨glides.found, fun h => by cases h.1⟩
        rw [hregistry hfault, glides.registry]
        exact ⟨Or.inl, fun h => h.resolve_right found'⟩

/-! ### Turns -/

theorem has_take_of_ne {turn : Turn} (hc : c.Kept) (hjob : turn.job? ≠ some id)
    (hsweep : turn ≠ .sweep) : (c.take site turn).registry.has id = c.registry.has id := by
  cases hother : turn.job? with
  | none => rw [take_of_job?_eq_none hother hsweep]
  | some other =>
    have hne : id ≠ other := fun h => hjob (by rw [hother, h])
    rw [Dict.has, (moves_take hother site c hc).others id hne, Dict.has]

theorem job?_of_forgets {turn : Turn} (h : Forgets site id c turn) : turn.job? = some id := by
  cases turn with
  | request asked =>
    cases asked with
    | setup job nodelist => exact congrArg some h.1
    | postRun job started => exact congrArg some h
    | teardown job => exact congrArg some h
    | abort job => exact congrArg some h
    | _ => exact h.elim
  | _ => exact h.elim

/-- If the server answers, while a message other than an event is handled, that the workflow of a
job does not exist, the job has no record afterwards exactly if it had none or the message is a
request that ends the job, or its setup whose look at the workflow was answered so. -/
theorem has_take_of_foundAbsent {turn : Turn} (hc : c.Kept) (hturn : ∀ event, turn ≠ .event event)
    (habsent : FoundAbsent id c (c.take site turn)) :
    (c.take site turn).registry.has id = false ↔
      c.registry.has id = false ∨ Forgets site id c turn := by
  by_cases hsweep : turn = .sweep
  · rw [hsweep, has_sweep site hc]
    exact ⟨Or.inl, fun h => h.resolve_right fun hnever => hnever⟩
  by_cases hjob : turn.job? = some id
  · cases turn with
    | request asked =>
      cases asked with
      | create details => exact absurd habsent (not_foundAbsent_create site details c)
      | setup job nodelist =>
        obtain rfl : job = id := Option.some.inj hjob
        refine (has_setup_of_foundAbsent hc nodelist habsent).trans (or_congr_right ?_)
        exact (and_iff_right rfl).symm
      | postRun job started =>
        obtain rfl : job = id := Option.some.inj hjob
        exact iff_of_true (has_postRun_of_foundAbsent hc started habsent) (Or.inr rfl)
      | teardown job =>
        obtain rfl : job = id := Option.some.inj hjob
        exact iff_of_true (has_teardown_of_foundAbsent hc habsent) (Or.inr rfl)
      | abort job =>
        obtain rfl : job = id := Option.some.inj hjob
        exact iff_of_true (has_abort_of_foundAbsent hc habsent) (Or.inr rfl)
      | status => cases hjob
    | event event => exact absurd rfl (hturn event)
    | timeout job stage =>
      obtain rfl : job = id := Option.some.inj hjob
      rw [show (c.take site (.timeout job stage)).registry.has job = c.registry.has job from
        has_revisit hc (Handling.leads_expire stage) job]
      exact ⟨Or.inl, fun h => h.resolve_right nofun⟩
    | sweep => exact absurd rfl hsweep
  · rw [has_take_of_ne hc hjob hsweep]
    exact ⟨Or.inl, fun h => h.resolve_right fun hforgets => hjob (job?_of_forgets hforgets)⟩

/-- A job whose workflow goes while the end of its run is limited. -/
def orphaned : Controller :=
  let running := (Sample.start .preRun).take Sample.site (.request (.postRun Sample.job true))
  running.step Sample.site (.outside { running.world with
    api := running.world.api.remove Sample.key } 0)

theorem reachable_orphaned : Reachable Sample.site orphaned :=
  ((Sample.reachable_start .preRun).take (.request (.postRun Sample.job true))).step (.outside _ 0)

/-- The limit is reached, the workflow is found absent, and the record stays. -/
theorem timeout_keeps_orphaned :
    let t := orphaned.take Sample.site (.timeout Sample.job .postRun)
    Reachable Sample.site orphaned ∧ FoundAbsent Sample.job orphaned t ∧
      t.registry.has Sample.job = true :=
  ⟨reachable_orphaned, by decide +kernel, by decide +kernel⟩

theorem has_take_of_foundAbsent_orphaned :
    let turn : Turn := .timeout Sample.job .postRun
    let t := orphaned.take Sample.site turn
    orphaned.Kept ∧ (∀ event, turn ≠ .event event) ∧
      FoundAbsent Sample.job orphaned t ∧
      (t.registry.has Sample.job = false ↔ orphaned.registry.has Sample.job = false ∨
        Forgets Sample.site Sample.job orphaned turn) := by
  intro turn t
  have kept : orphaned.Kept := reachable_orphaned.kept
  have absent : FoundAbsent Sample.job orphaned t := by decide +kernel
  have other : ∀ event, turn ≠ .event event := nofun
  exact ⟨kept, other, absent, has_take_of_foundAbsent kept other absent⟩

end Controller

end Warren
