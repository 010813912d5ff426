import Warren.Proofs.Controller.Pace
import Warren.Proofs.Controller.Provision

/-!
# Turns that keep pace

Every turn of the controller keeps the time limit of a job in pace with its workflow (`paced_take`),
and gives none of its compute nodes up unless it is the end of a time limit or creates the workflow
again (`steady_take`). What is said of the record of a job holds as far as the job still has one.
-/

namespace Warren

namespace Controller

open Case (Did Paced Steady Entered)

variable {site : Site} {id : JobId} {r : Record} {c t : Controller} {R : Case → Case → Prop}

/-- What holds of the case of a job, if the job has a record in the end. -/
def Carries (R : Case → Case → Prop) (id : JobId) (c t : Controller) : Prop :=
  ∀ s, t.registry.find? id = some s → R (caseOf id c) ⟨s, t.world⟩

theorem carries_erase (g : Registry) (w : World) : Carries R id c ⟨g.erase id, w⟩ := by
  intro s hs
  rw [Dict.find?_erase, if_pos rfl] at hs
  cases hs

theorem carries_put {g : Registry} {w : World} (hid : r.id = id) (h : R (caseOf id c) ⟨r, w⟩) :
    Carries R id c ⟨g.put r, w⟩ := by
  intro s hs
  rw [Registry.find?_put, if_pos hid] at hs
  obtain rfl := Option.some.inj hs
  exact h

theorem carries_world {w : World} (h : R (caseOf id c) ⟨c.registry.recordOf id, w⟩) :
    Carries R id c { c with world := w } := by
  intro s hs
  rw [Registry.recordOf_of_find? hs] at h
  exact h

theorem carries_work {α : Type} {handling : Handling α}
    (hR : ∀ case, R (caseOf id c) case → case.record.id = id)
    (h : Leads R handling (caseOf id c)) :
    Carries R id c (work (c.registry.recordOf id) handling c).2 := by
  rw [state_work]
  exact carries_put (hR _ h) h

theorem Carries.mono {S : Case → Case → Prop} (h : Carries R id c t)
    (hRS : ∀ case case', R case case' → S case case') : Carries S id c t :=
  fun s hs => hRS _ _ (h s hs)

/-! ### Turns of other jobs -/

theorem carries_of_moved {other : JobId} (hne : other ≠ id) (hc : c.Kept)
    (h : Moved (Api.Request.SetsOnly other.workflowName) other c t) :
    Carries (Steady site) id c t := by
  intro s hs
  rw [h.others id hne.symm] at hs
  have hrecord : c.registry.recordOf id = s := Registry.recordOf_of_find? hs
  have framed : Steady site (caseOf id c) { caseOf id c with world := t.world } := by
    refine Case.steady_of_asked h.now h.ticket_le h.asked fun q hq hset => hne ?_
    have hname : (caseOf id c).record.name = id.workflowName :=
      congrArg JobId.workflowName (hc.recordOf id).1
    rw [hname] at hset
    exact (JobId.workflowName_inj (hq _ hset)).symm
  rw [← hrecord]
  exact framed

theorem steady_revisit {handling : Handling Unit} {s : Record} (hc : c.Kept)
    (h : ∀ case, Leads (Did site Deed.Calm) handling case) (other : JobId)
    (hs : (revisit other handling c).2.registry.find? id = some s) :
    ∃ r, c.registry.find? id = some r ∧
      Steady site ⟨r, c.world⟩ ⟨s, (revisit other handling c).2.world⟩ := by
  by_cases ho : other = id
  · subst ho
    rw [state_revisit] at hs ⊢
    cases hf : c.registry.find? other with
    | none =>
      rw [hf] at hs
      dsimp only at hs
      rw [hf] at hs
      cases hs
    | some r =>
      rw [hf] at hs
      have did : Did site Deed.Calm ⟨r, c.world⟩ (handling.run ⟨r, c.world⟩).2 := h ⟨r, c.world⟩
      rw [find?_work (did.id.trans (hc.own other r hf))] at hs
      obtain rfl := Option.some.inj hs
      exact ⟨r, rfl, Case.steady_of_calm did⟩
  · have moved : Moved (Api.Request.SetsOnly other.workflowName) other c
        (revisit other handling c).2 := moves_revisit h hc
    have hr := hs
    rw [moved.others id fun h => ho h.symm] at hr
    refine ⟨s, hr, ?_⟩
    have carried : Steady site (caseOf id c) ⟨s, (revisit other handling c).2.world⟩ :=
      carries_of_moved ho hc moved s hs
    rw [caseOf, Registry.recordOf_of_find? hr] at carried
    exact carried

theorem steady_sweep {s : Record} (hc : c.Kept)
    (hs : (c.take site .sweep).registry.find? id = some s) :
    ∃ r, c.registry.find? id = some r ∧
      Steady site ⟨r, c.world⟩ ⟨s, (c.take site .sweep).world⟩ := by
  rw [take_sweep] at hs ⊢
  generalize c.overdue site = ids at hs ⊢
  -- over the jobs that are revisited: the record that one of them leaves is the next one's
  induction ids generalizing c with
  | nil => exact ⟨s, hs, Std.Refl.refl _⟩
  | cons other rest ih =>
    obtain ⟨m, hm, later⟩ := ih (moves_revisit Handling.leads_condemn hc).kept hs
    obtain ⟨r, hr, first⟩ := steady_revisit hc Handling.leads_condemn other hm
    exact ⟨r, hr, Trans.trans first later⟩

/-! ### Requests -/

theorem carries_unlessTornDown {handle : Record → Answering Unit}
    (hid : (caseOf id c).record.id = id) (hR : R (caseOf id c) (caseOf id c))
    (h : (c.registry.recordOf id).tornDown = false → ∀ t : Controller, caseOf id t = caseOf id c →
      Carries R id t ((handle (c.registry.recordOf id)).run t).2) :
    Carries R id c ((unlessTornDown id handle).run c).2 := by
  have same : caseOf id { c with registry := c.registry.ensure id } = caseOf id c := by
    rw [caseOf, Registry.recordOf_ensure, caseOf]
  rw [run_unlessTornDown]
  split
  · exact carries_put hid hR
  · rename_i htorn
    rw [run_bind_pure]
    have handled := h (by simpa using htorn) _ same
    unfold Carries at handled ⊢
    rw [same] at handled
    exact handled

section

variable (own : ∀ case case', R case case' → case'.record.id = case.record.id)
variable (stored : ∀ case : Case, case.record.tornDown = false →
  Leads R (Handling.tearDownStored site) case)

include own stored

theorem carries_moveToTeardown {r : Record} (hr : r = c.registry.recordOf id) (hid : r.id = id)
    (htorn : r.tornDown = false) : Carries R id c ((moveToTeardown site r).run c).2 := by
  subst hr
  have worked : Carries R id c
      (work (c.registry.recordOf id) (Handling.tearDownStored site) c).2 :=
    carries_work (fun case h => (own _ case h).trans hid) (stored (caseOf id c) htorn)
  rw [run_moveToTeardown, hid]
  generalize work (c.registry.recordOf id) (Handling.tearDownStored site) c = answer at worked
  obtain ⟨found, t⟩ := answer
  match found with
  | .ok true => exact worked
  | .ok false => exact carries_erase t.registry t.world
  | .error fault => exact worked

variable [Std.Refl R]

theorem carries_teardown (hc : c.Kept) : Carries R id c ((teardown site id).run c).2 := by
  have hid : (caseOf id c).record.id = id := (hc.recordOf id).1
  rw [teardown, run_bind_ok (run_get_apply c)]
  refine carries_unlessTornDown hid (Std.Refl.refl _) fun htorn t ht => ?_
  have hrecord : c.registry.recordOf id = t.registry.recordOf id :=
    (congrArg Case.record ht).symm
  have moved : Carries R id t ((moveToTeardown site (c.registry.recordOf id)).run t).2 :=
    carries_moveToTeardown own stored hrecord hid htorn
  rw [run_tryCatch_apply]
  generalize (moveToTeardown site (c.registry.recordOf id)).run t = answer at moved
  obtain ⟨out, u⟩ := answer
  cases out with
  | ok _ => exact moved
  | error refusal =>
    dsimp only
    cases c.registry.has id with
    | true => exact moved
    | false => exact carries_erase u.registry u.world

theorem carries_abort [Trans R R R]
    (looked : ∀ case : Case, R case (case.serve (Api.lookRequest case.record.name)))
    (torn : ∀ (case : Case) (object : Json), case.record.tornDown = false →
      Leads R (Handling.tearDown site object) case)
    (hc : c.Kept) : Carries R id c ((abort site id).run c).2 := by
  rw [abort, run_bind_ok (run_get_apply c)]
  cases hknown : c.registry.has id with
  | true =>
    rw [if_pos rfl]
    exact carries_teardown own stored hc
  | false =>
    have hfresh : c.registry.recordOf id = .fresh id .unknown :=
      Registry.recordOf_of_find?_none (by simpa [Dict.has] using hknown)
    rw [if_neg Bool.false_ne_true, abortUnknown, run_bind_apply, run_look]
    have looked : R (caseOf id c) { caseOf id c with world := { c.world with
        api := ((Api.getWorkflow id.workflowName).run c.world.api).2 } } := by
      have hname : (caseOf id c).record.name = id.workflowName :=
        congrArg JobId.workflowName (hc.recordOf id).1
      exact hname ▸ looked (caseOf id c)
    generalize (Api.getWorkflow id.workflowName).run c.world.api = answer at looked
    obtain ⟨found, api⟩ := answer
    cases found with
    | ok object =>
      dsimp only
      rw [run_bind_pure, run_discard]
      let read : Case := ⟨.fresh id .unknown, { c.world with api }⟩
      have gone : R (caseOf id c) ((Handling.tearDown site object).run read).2 := by
        rw [caseOf, hfresh] at looked ⊢
        exact Trans.trans looked (torn read object rfl)
      exact carries_put ((own _ _ gone).trans (hc.recordOf id).1) gone
    | error fault =>
      dsimp only
      cases fault.isNotFound <;> exact carries_world looked

theorem carries_postRun (granted : ∀ case : Case,
      let q := Api.stageRequest case.record.name .postRun
      case.world.api.fault? q = none →
        R case ((Handling.startTimer site .postRun).run (case.serve q)).2)
    (refused : ∀ case : Case,
      let q := Api.stageRequest case.record.name .postRun
      (case.world.api.fault? q).isSome = true → R case (case.serve q))
    (started : Bool) (hc : c.Kept) : Carries R id c ((postRun site id started).run c).2 := by
  have hid : (caseOf id c).record.id = id := (hc.recordOf id).1
  have hname : (caseOf id c).record.name = id.workflowName := congrArg JobId.workflowName hid
  cases started with
  | false =>
    rw [postRun, run_bind_ok (run_get_apply c)]
    refine carries_unlessTornDown hid (Std.Refl.refl _) fun htorn t ht => ?_
    exact carries_moveToTeardown own stored (congrArg Case.record ht).symm hid htorn
  | true =>
    cases htorn : (c.registry.recordOf id).tornDown with
    | true =>
      rw [postRun, run_bind_ok (run_get_apply c), run_unlessTornDown, if_pos htorn]
      exact carries_put hid (Std.Refl.refl _)
    | false =>
      rw [run_postRun site hc htorn, ← hname]
      rcases Api.Server.run_requestStage_cases (caseOf id c).record.name .postRun c.world.api with
        ⟨hrun, hfault⟩ | ⟨fault, hrun, hfault⟩
      · rw [hrun]
        have limited := granted (caseOf id c) hfault
        exact carries_put ((own _ _ limited).trans hid) limited
      · have same := refused (caseOf id c) (Option.isSome_iff_exists.mpr ⟨fault, hfault⟩)
        rw [hrun]
        dsimp only
        split
        · exact carries_erase _ _
        · exact carries_put hid same

end

theorem steady_tearDownStored (case : Case) (htorn : case.record.tornDown = false) :
    Leads (Steady site) (Handling.tearDownStored site) case :=
  Case.steady_of_calm (Handling.leads_tearDownStored htorn)

theorem steady_teardown (site : Site) (hc : c.Kept) :
    Carries (Steady site) id c ((teardown site id).run c).2 :=
  carries_teardown (fun _ _ h => h.id) steady_tearDownStored hc

theorem steady_abort (site : Site) (hc : c.Kept) :
    Carries (Steady site) id c ((abort site id).run c).2 := by
  have looked (case : Case) :
      Steady site case (case.serve (Api.lookRequest case.record.name)) := by
    have asked : Api.Server.Asked (fun q => ¬q.SetsStage case.record.name) case.world.api
        (case.world.api.serve (Api.lookRequest case.record.name)) :=
      .one (fun h => h) case.world.api
    exact Case.steady_of_asked rfl (Nat.le_refl _) asked fun _ h => h
  have torn (case : Case) (object : Json) (htorn : case.record.tornDown = false) :
      Leads (Steady site) (Handling.tearDown site object) case :=
    Case.steady_of_calm ((Handling.leads_tearDown htorn object).mono
      fun _ _ h => h.mono fun _ => Deed.Quiet.calm)
  exact carries_abort (fun _ _ h => h.id) steady_tearDownStored looked torn hc

theorem steady_postRun (site : Site) (hc : c.Kept) (started : Bool) :
    Carries (Steady site) id c ((postRun site id started).run c).2 :=
  carries_postRun (fun _ _ h => h.id) steady_tearDownStored
    (fun case hfault => Case.steady_startTimer (Case.entered_serve case hfault))
    (fun _ hfault => Case.steady_refused rfl hfault) started hc

/-- The storage of a job is placed without a request for a stage, and the limit of the setup is
started once the setup was asked for. -/
theorem steady_setup (site : Site) (nodelist : List String) (hc : c.Kept) :
    Carries (Steady site) id c ((setup site id nodelist).run c).2 := by
  have same : Carries (Steady site) id c c := carries_world (Std.Refl.refl (caseOf id c))
  have hid : (caseOf id c).record.id = id := (hc.recordOf id).1
  have hname : (caseOf id c).record.name = id.workflowName := congrArg JobId.workflowName hid
  have placing : Leads (Moves Api.Request.SparesWorkflows id) (place site id nodelist) c :=
    leads_place site id nodelist c
  have framed {u : Controller} (h : Moved Api.Request.SparesWorkflows id c u) :
      Steady site (caseOf id c) { caseOf id c with world := u.world } :=
    Case.steady_of_asked h.now h.ticket_le h.asked fun q hq => hq.keepsStages.not_setsStage _
  unfold Leads at placing
  rw [setup, run_bind_ok (run_get_apply c)]
  split
  · exact same
  · obtain ⟨⟨hosts, servers⟩, t, hplace, along, _⟩ | ⟨refusal, t, hplace, spared⟩ :=
      (yields_place site id nodelist c).cases
    · rw [hplace] at placing
      have placed := framed (placing hc)
      let q := Api.stageRequest id.workflowName .setup
      let requested : Controller := { t with world := { t.world with api := t.world.api.serve q } }
      let before : Case := { caseOf id c with world := t.world }
      have hbefore : before.record.name = id.workflowName := hname
      have hask := run_ask (Handling.requestStage id.workflowName .setup) t
      rw [run_bind_ok hplace]
      rcases Api.Server.run_requestStage_cases id.workflowName .setup t.world.api with
        ⟨hrun, hfault⟩ | ⟨fault, hrun, hfault⟩
      · rw [hrun] at hask
        rw [run_bind_ok hask, run_bind_pure]
        have hrecord : requested.registry.recordOf id = c.registry.recordOf id := by
          rw [along.registry]
        let filled : Record := { c.registry.recordOf id with servers := some servers, hosts }
        have hsettle : ((settle site id hosts servers).run requested).2 =
            (work filled (Handling.startTimer site .setup) requested).2 := by
          rw [settle, run_bind_ok (run_get_apply requested), run_discard, hrecord]
          rfl
        rw [← hbefore] at hfault
        have entered : Entered .setup before ⟨filled, requested.world⟩ := by
          have h := Case.entered_serve before hfault
          rw [hbefore] at h
          exact ⟨h.id, h.now, h.ticket_le, h.served, h.timer, h.tolerance, h.granted⟩
        have settled : Steady site (caseOf id c)
            ((Handling.startTimer site .setup).run ⟨filled, requested.world⟩).2 :=
          Trans.trans placed (Case.steady_startTimer entered)
        rw [hsettle]
        exact carries_put (settled.id.trans hid) settled
      · rw [hrun] at hask
        rw [run_bind_error hask]
        have refused : Steady site before (before.serve q) :=
          Case.steady_refused (by rw [hbefore]) (Option.isSome_iff_exists.mpr ⟨fault, hfault⟩)
        intro s hs
        rw [along.registry] at hs
        exact carries_world (Trans.trans placed refused) s hs
    · rw [hplace] at placing
      rw [run_bind_error hplace]
      exact fun s hs => carries_world (framed (placing hc)) s (spared id s hs)

/-- A workflow that is created leaves the records as they are, or its job has a record that says
what the request says. -/
theorem registry_create (site : Site) (details : CreateRequest) (c : Controller) :
    let t := ((create site details).run c).2
    t.registry = c.registry ∨
      t.registry = c.registry.put (refill details (c.registry.recordOf details.id)) := by
  dsimp only
  rw [create, run_bind_apply]
  have hdemand := state_demand (.malformedDirectives details.directives)
    (Directive.read? site.config.presets details.directives) c
  generalize (demand _ _ : Answering (List String)).run c = answer at hdemand
  obtain ⟨out, t⟩ := answer
  obtain rfl : t = c := hdemand
  cases out with
  | error refusal => exact Or.inl rfl
  | ok directives =>
    dsimp only
    split
    · exact Or.inl rfl
    · rw [run_bind_ok (run_get_apply t)]
      cases hf : t.registry.find? details.id with
      | some record =>
        rw [Registry.recordOf_of_find? hf]
        exact Or.inr rfl
      | none =>
        have hask := run_ask (createObject (newWorkflow site details.id details.user directives)) t
        rw [Registry.recordOf_of_find?_none hf]
        generalize (createObject _).run t.world.api = answer at hask
        obtain ⟨outcome, api⟩ := answer
        cases outcome with
        | error fault =>
          dsimp only
          rw [run_bind_error hask]
          exact Or.inl rfl
        | ok _ =>
          dsimp only
          rw [run_bind_ok hask]
          exact Or.inr rfl

theorem paced_create (site : Site) (details : CreateRequest) (hc : c.Kept) :
    Carries (Paced site) details.id c ((create site details).run c).2 := by
  have moved := leads_create site details c hc
  have created : Inquires (fun q => q.verb = .create) c ((create site details).run c).2 :=
    leads_create_only site details c
  have framed : Steady site (caseOf details.id c)
      { caseOf details.id c with world := ((create site details).run c).2.world } := by
    refine Case.steady_of_asked moved.now moved.ticket_le created fun q hq hset => ?_
    cases q with
    | patch => cases hq
    | _ => exact hset
  intro s hs
  rcases registry_create site details c with hregistry | hregistry
  · rw [hregistry] at hs
    exact carries_world framed.toPaced s hs
  · have h := framed.toPaced
    rw [hregistry] at hs
    refine carries_put (r := refill details (c.registry.recordOf details.id)) ?_ ?_ s hs
    · exact (hc.recordOf details.id).1
    · exact ⟨h.id, h.now, h.ticket_le, h.served, h.timer⟩

/-! ### All turns -/

/-- A turn that changes how many compute nodes a job can do without. -/
def Charges (id : JobId) : Turn → Prop
  | .request (.create details) => details.id = id
  | .timeout job _ => job = id
  | _ => False

/-- Every other turn keeps pace with the workflow of a job and gives none of its compute nodes
up. -/
theorem steady_take {turn : Turn} (hc : c.Kept) (hturn : ¬Charges id turn) :
    Carries (Steady site) id c (c.take site turn) := by
  by_cases hsweep : turn = .sweep
  · subst hsweep
    intro s hs
    obtain ⟨r, hr, steady⟩ := steady_sweep hc hs
    rw [caseOf, Registry.recordOf_of_find? hr]
    exact steady
  cases hj : turn.job? with
  | none =>
    rw [take_of_job?_eq_none hj hsweep]
    exact carries_world (Std.Refl.refl (caseOf id c))
  | some other =>
    by_cases ho : other = id
    · subst ho
      cases turn with
      | request asked =>
        cases asked with
        | create details => exact absurd (Option.some.inj hj) hturn
        | setup job nodelist =>
          obtain rfl : job = other := Option.some.inj hj
          exact steady_setup site nodelist hc
        | postRun job started =>
          obtain rfl : job = other := Option.some.inj hj
          exact steady_postRun site hc started
        | teardown job =>
          obtain rfl : job = other := Option.some.inj hj
          exact steady_teardown site hc
        | abort job =>
          obtain rfl : job = other := Option.some.inj hj
          exact steady_abort site hc
        | status => cases hj
      | event change =>
        obtain ⟨w, hw, rfl⟩ := Option.map_eq_some_iff.mp hj
        have hid : (caseOf w.jobId c).record.id = w.jobId := (hc.recordOf w.jobId).1
        have hevent := take_event site c change
        rw [hw] at hevent
        rcases hevent with ⟨object, _, htake⟩ | ⟨_, htake⟩
        · rw [htake]
          exact carries_work (fun case h => h.id.trans hid) (Handling.steady_report w object _)
        · rw [htake]
          exact carries_erase _ _
      | timeout job stage => exact absurd (Option.some.inj hj) hturn
      | sweep => cases hj
    · exact carries_of_moved ho hc (moves_take hj site c hc)

theorem paced_take (site : Site) (id : JobId) (hc : c.Kept) (turn : Turn) :
    Carries (Paced site) id c (c.take site turn) := by
  by_cases hturn : Charges id turn
  · cases turn with
    | request asked =>
      cases asked with
      | create details =>
        obtain rfl : details.id = id := hturn
        exact paced_create site details hc
      | _ => exact hturn.elim
    | timeout job stage =>
      obtain rfl : job = id := hturn
      have hid : (caseOf job c).record.id = job := (hc.recordOf job).1
      cases hf : c.registry.find? job with
      | none =>
        rw [take_timeout_of_none hf]
        exact carries_world (Paced.refl (caseOf job c))
      | some r =>
        rw [take_timeout hf, ← Registry.recordOf_of_find? hf]
        exact carries_work (fun case h => h.id.trans hid) (Handling.paced_expire stage _)
    | _ => exact hturn.elim
  · exact (steady_take hc hturn).mono fun _ _ h => h.toPaced

end Controller

end Warren
