import Warren.Proofs.Controller.Cadence
import Warren.Proofs.Controller.Lifespan
import Warren.Proofs.Controller.Sparing

/-!
# What keeps the condition of a job

Only a report that is followed to its end and a sweep look at the transient condition of a job.
Whatever else is done for the job keeps it, unless the workflow is handed to the cleanup to be torn
down: `Retains`. `condition_report` says what becomes of it in a report, and `retains_take` that
requests and time limits keep it.
-/

namespace Warren

/-- Whether the workflow of a job is handed to the cleanup, to be moved to its last stage. -/
def Dispatch.tearsDown (id : JobId) (x : Dispatch) : Bool :=
  x.cleanups.any (Errand.teardown.isRequest id)

/-- Two records say the same of whether the job is torn down, and of its condition. -/
structure Record.Agrees (r s : Record) : Prop where
  tornDown : s.tornDown = r.tornDown
  condition : s.condition = r.condition

theorem Record.Agrees.refl (r : Record) : r.Agrees r := ⟨rfl, rfl⟩

namespace Case

/-- The condition of the job is kept, unless its workflow is handed to the cleanup. -/
structure Retains (c t : Case) : Prop where
  id : t.record.id = c.record.id
  now : t.world.now = c.world.now
  condition : ∃ requests, t.world.cleanups = c.world.cleanups ++ requests ∧
    t.record.condition = if requests.any (Errand.teardown.isRequest c.record.id) then none
      else c.record.condition

variable {c t : Case}

theorem retains_of_same (hid : t.record.id = c.record.id) (hnow : t.world.now = c.world.now)
    (hcleanups : t.world.cleanups = c.world.cleanups)
    (hcondition : t.record.condition = c.record.condition) : Retains c t :=
  ⟨hid, hnow, [], by rw [hcleanups, List.append_nil], hcondition⟩

instance : Std.Refl Retains := ⟨fun _ => retains_of_same rfl rfl rfl rfl⟩

instance : Trans Retains Retains Retains where
  trans := by
    rintro c t u ⟨hid, hnow, requests, hsent, hcondition⟩ ⟨hid', hnow', more, hsent', hcondition'⟩
    refine ⟨hid'.trans hid, hnow'.trans hnow, requests ++ more, ?_, ?_⟩
    · rw [hsent', hsent, List.append_assoc]
    · rw [hcondition', hcondition, hid, List.any_append]
      cases requests.any (Errand.teardown.isRequest c.record.id) <;>
        cases more.any (Errand.teardown.isRequest c.record.id) <;> rfl

end Case

namespace Handling

open Case (Retains retains_of_same)

variable {site : Site} {w : Workflow} {c t : Case} {α : Type}

/-! ### Single steps -/

theorem retains_call (conversation : Api.Call α) (c : Case) :
    Leads Retains (call conversation) c := retains_of_same rfl rfl rfl rfl

theorem retains_tell (notice : JobId → Notice) (c : Case) : Leads Retains (tell notice) c :=
  retains_of_same rfl rfl rfl rfl

theorem retains_saveTiming (object : Json) (c : Case) : Leads Retains (saveTiming object) c := by
  unfold saveTiming
  cases timing? object with
  | none => exact .pure _ c
  | some entry => exact retains_tell _ c

theorem retains_startTimer (stage : Stage) (c : Case) :
    Leads Retains (startTimer site stage) c := by
  change Retains c ((Deed.startTimer stage).apply site c)
  rcases Deed.apply_startTimer_cases site stage c with h | ⟨timer, _, h⟩ <;> rw [h]
  · exact Std.Refl.refl c
  · exact retains_of_same rfl rfl rfl rfl

theorem agrees_startTimer (site : Site) (stage : Stage) (c : Case) :
    c.record.Agrees ((startTimer site stage).run c).2.record := by
  change c.record.Agrees ((Deed.startTimer stage).apply site c).record
  rcases Deed.apply_startTimer_cases site stage c with h | ⟨timer, _, h⟩ <;> rw [h]
  · exact .refl c.record
  · exact ⟨rfl, rfl⟩

theorem retains_tearDown (object : Json) (c : Case) : Leads Retains (tearDown site object) c := by
  refine ⟨rfl, rfl, [.teardown c.record.id c.record.name (finalizersIn object)
    site.config.savedMovements], rfl, ?_⟩
  have torn : ((tearDown site object).run c).2.record.condition = none := rfl
  rw [torn]
  simp [Errand.isRequest]

theorem retains_tearDownStored (c : Case) : Leads Retains (tearDownStored site) c := by
  refine leads_record (.bind (retains_call _ c) fun found t _ => ?_)
  cases found with
  | ok object => exact (retains_tearDown object t).bind fun _ u _ => .pure _ u
  | error fault =>
    change Leads _ (if fault.isNotFound = true then _ else _) t
    split
    · have lost : Leads Retains
          (update fun r => { r.cancelTimer with tornDown := true, deleted := true }) t :=
        retains_of_same rfl rfl rfl rfl
      exact lost.bind fun _ u _ => .pure _ u
    · exact .throw _ t

/-! ### Reports -/

theorem retains_applyBreakdowns (object : Json) (c : Case) :
    Leads Retains (applyBreakdowns site w object) c := by
  have consumed : Leads Retains (update fun r => { r with resources := .consumed }) c :=
    retains_of_same rfl rfl rfl rfl
  refine leads_record (consumed.bind fun _ t _ => ?_)
  cases c.record.resources with
  | consumed => exact .pure _ t
  | unknown => exact retains_tell _ t
  | pending resources =>
    refine .bind (retains_call _ t) fun found u _ => ?_
    split
    · exact retains_of_same rfl rfl rfl rfl
    · exact (retains_tell _ u).bind fun _ v _ => retains_tell _ v

theorem retains_advance (next : Stage) (object : Json) (c : Case) :
    Leads Retains (advance site next object) c := by
  refine leads_record (.bind (retains_call _ c) fun _ t _ => ?_)
  exact (retains_saveTiming object t).bind fun _ u _ => retains_startTimer next u

theorem retains_finish (object : Json) (c : Case) : Leads Retains (finish object) c := by
  have released : Leads Retains releaseEpilog c := by
    refine leads_record ?_
    split
    · exact .pure _ c
    · exact retains_of_same rfl rfl rfl rfl
  refine released.bind fun _ t _ => (retains_saveTiming object t).bind fun _ u _ => ?_
  exact ⟨rfl, rfl, [.delete u.record.name (finalizersIn object)], rfl, rfl⟩

theorem retains_act (object : Json) (action : Stage.Action) (c : Case) :
    Leads Retains (act site w object action) c := by
  cases action with
  | applyBreakdowns => exact retains_applyBreakdowns object c
  | advance next => exact retains_advance next object c
  | releaseProlog =>
    refine (retains_call _ c).bind fun found t _ => ?_
    exact (retains_tell _ t).bind fun _ u _ => retains_saveTiming object u
  | moveToTeardown => exact retains_tearDown object c
  | finish => exact retains_finish object c

theorem retains_complete (object : Json) (stage : Stage) (c : Case) :
    Leads Retains (complete site w object stage) c := by
  have cancelled : Leads Retains cancelTimer c := retains_of_same rfl rfl rfl rfl
  exact leads_complete cancelled fun timer => retains_act object _ _

theorem retains_giveUp (object : Json) (c : Case) : Leads Retains (giveUp site object) c := by
  refine leads_record ?_
  split
  · exact (retains_tearDown object c).bind fun _ t _ => retains_tell _ t
  · exact retains_tell _ c

theorem exists_follow_eq (site : Site) (object : Json) (hbusy : ¬Idle w c.record) :
    ∃ x : Handling Unit, Leads Retains x c ∧
      (follow site w object).run c = (do x; react site w object : Handling Unit).run c := by
  cases followed site w object c with
  | idle past _ => exact absurd past hbusy
  | parting _ _ _ hrun => exact ⟨_, retains_call _ c, hrun⟩
  | complete _ _ hrun => exact ⟨_, retains_complete object w.desired c, hrun⟩
  | working _ _ _ hrun => exact ⟨pure (), .pure _ c, hrun⟩

/-- What a report that is followed to its end makes of a condition. -/
def noted (now : Span) (w : Workflow) (before : Option Transient) : Option Transient :=
  match w.condition with
  | .error => before
  | .transient => some (observed now w before)
  | .normal => none

theorem condition_react (site : Site) (w : Workflow) (object : Json) (c : Case) :
    let t := ((react site w object).run c).2
    t.record.id = c.record.id ∧ ∃ requests, t.world.cleanups = c.world.cleanups ++ requests ∧
      t.record.condition = noted c.world.now w
        (if requests.any (Errand.teardown.isRequest c.record.id) then none
          else c.record.condition) := by
  dsimp only
  unfold noted
  cases hcondition : w.condition with
  | error =>
    have retains : Leads Retains (react site w object) c := by
      rw [react, hcondition]
      refine (retains_tell _ c).bind fun _ t _ => leads_record ?_
      split
      · exact retains_tearDown object t
      · exact .pure _ t
    exact ⟨retains.id, retains.condition⟩
  | transient =>
    rw [react, hcondition]
    exact ⟨rfl, [], (List.append_nil _).symm, rfl⟩
  | normal =>
    rw [react, hcondition]
    exact ⟨rfl, [], (List.append_nil _).symm, rfl⟩

/-- Whether a report is followed to its end: the job is not past it, and nothing fails on the
way. -/
def Effective (site : Site) (w : Workflow) (object : Json) (c : Case) : Prop :=
  ¬Idle w c.record ∧ ((follow site w object).run c).1.isOk = true

instance (r : Record) : Decidable (Idle w r) :=
  inferInstanceAs (Decidable (_ ∨ _ ∨ _))

instance (object : Json) : Decidable (Effective site w object c) :=
  inferInstanceAs (Decidable (_ ∧ _))

/-- The condition of a job after a report: what an effective one makes of it, once what was done
for the stage of the workflow took it away or not. -/
theorem condition_report (site : Site) (w : Workflow) (object : Json) (c : Case) :
    let t := ((report site w object).run c).2
    ∃ requests, t.world.cleanups = c.world.cleanups ++ requests ∧
      let kept := if requests.any (Errand.teardown.isRequest c.record.id) then none
        else c.record.condition
      t.record.condition =
        if Effective site w object c then noted c.world.now w kept else kept := by
  dsimp only
  by_cases hidle : Idle w c.record
  · have past : ¬Effective site w object c := fun h => h.1 hidle
    rw [run_report_of_idle site object hidle]
    exact ⟨[], (List.append_nil _).symm, by rw [if_neg past]; rfl⟩
  obtain ⟨x, retains, hfollow⟩ := exists_follow_eq site object hidle
  unfold Leads at retains
  rw [run_report]
  cases hx : x.run c with
  | mk out u =>
    rw [hx] at retains
    cases out with
    | ok _ =>
      obtain ⟨t, hreact⟩ := exists_run_react site w object u
      have hrun : (follow site w object).run c = (.ok (), t) := by
        rw [hfollow, run_bind_ok hx, hreact]
      have effective : Effective site w object c := ⟨hidle, by rw [hrun]; rfl⟩
      obtain ⟨hid, hnow, requests, hsent, hcondition⟩ := retains
      obtain ⟨-, more, hsent', hcondition'⟩ := condition_react site w object u
      rw [hreact] at hsent' hcondition'
      dsimp only at hid hnow hsent hcondition hsent' hcondition'
      rw [hrun]
      refine ⟨requests ++ more, by rw [hsent', hsent, List.append_assoc], ?_⟩
      rw [if_pos effective, hcondition', hcondition, hid, hnow, List.any_append]
      cases requests.any (Errand.teardown.isRequest c.record.id) <;>
        cases more.any (Errand.teardown.isRequest c.record.id) <;> rfl
    | error fault =>
      have hrun : (follow site w object).run c = (.error fault, u) := by
        rw [hfollow, run_bind_error hx]
      have failed : ¬Effective site w object c := fun h => by
        have hok := h.2
        rw [hrun] at hok
        cases hok
      have given : Retains c ((giveUp site object).run u).2 :=
        Trans.trans retains (retains_giveUp object u : Retains u _)
      obtain ⟨requests, hsent, hcondition⟩ := given.condition
      rw [hrun]
      exact ⟨requests, hsent, by rw [if_neg failed]; exact hcondition⟩

/-! ### Time limits -/

theorem retains_tearDownStuck (stage : Stage) (c : Case) :
    Leads Retains (tearDownStuck site stage) c := by
  refine leads_record ?_
  split
  · have torn : Leads Retains (ExceptT.lift (tearDownStored site).run : Handling _) c :=
      retains_tearDownStored c
    exact torn.discard
  · exact .pure _ c

theorem retains_dispense (stage : Stage) (nodes : List String) (c : Case) :
    Leads Retains (dispense site stage nodes) c := by
  have spent : Leads Retains
      (update fun r => { r with tolerance := r.tolerance - UInt32.ofNat nodes.length }) c :=
    retains_of_same rfl rfl rfl rfl
  exact spent.bind fun _ t _ => (retains_tell _ t).bind fun _ u _ => retains_startTimer stage u

theorem retains_expire (stage : Stage) (c : Case) : Leads Retains (expire site stage) c := by
  refine leads_record ?_
  split
  · have cancelled : Leads Retains cancelTimer c := retains_of_same rfl rfl rfl rfl
    refine cancelled.bind fun _ t _ => leads_record ?_
    split
    · exact .pure _ t
    · have looked : Leads Retains (dispensable stage) t := by
        refine leads_record ?_
        split
        · exact .pure _ t
        · refine .bind (retains_call _ t) fun found u _ => ?_
          cases found <;> exact .pure _ u
      refine looked.bind fun found u _ => ?_
      cases found with
      | some nodes => exact retains_dispense stage nodes u
      | none => exact (retains_tell _ u).bind fun _ v _ => retains_tearDownStuck stage v
  · exact .pure _ c

end Handling

namespace Controller

open Case (Retains)

variable {site : Site} {id : JobId} {c t : Controller} {r : Record}

/-! ### Turns -/

theorem retains_of_agrees {turn : Turn} (hc : c.Kept)
    (hr : (c.take site turn).registry.find? id = some r)
    (agrees : (c.registry.recordOf id).Agrees r) :
    Retains (caseOf id c) ⟨r, (c.take site turn).world⟩ := by
  obtain ⟨x, s, tallied, hlast⟩ := tallied_take site id hc turn
  obtain rfl := hlast r hr
  have hown : (caseOf id c).record.id = id := (hc.recordOf id).1
  -- an errand that was run would have left its mark
  have hmarked : Errand.teardown.count id x + (c.registry.recordOf id).tornDown.toNat ≤
      r.tornDown.toNat := tallied.account.marked .teardown
  have hcount : Errand.teardown.count id x = 0 := by
    rw [agrees.tornDown] at hmarked
    omega
  have hrequests : x.cleanups.any (Errand.teardown.isRequest id) = false := by
    rw [List.any_eq_false]
    exact List.countP_eq_zero.mp (Nat.eq_zero_of_add_eq_zero_left hcount)
  refine ⟨((kept_take hc site turn).own id r hr).trans hown.symm, (passed_take hc site turn).now,
    x.cleanups, tallied.sends.cleanups, ?_⟩
  rw [hown, hrequests]
  exact agrees.condition

theorem agrees_of_find? (h : c.registry.find? id = some r) :
    (c.registry.recordOf id).Agrees r := by
  rw [Registry.recordOf_of_find? h]
  exact .refl r

theorem retains_of_others {turn : Turn} (hc : c.Kept) (hjob : turn.job? ≠ some id)
    (hsweep : turn ≠ .sweep) (hr : (c.take site turn).registry.find? id = some r) :
    Retains (caseOf id c) ⟨r, (c.take site turn).world⟩ := by
  have hsame : (c.take site turn).registry.find? id = c.registry.find? id := by
    cases hother : turn.job? with
    | none => rw [take_of_job?_eq_none hother hsweep]
    | some other =>
      have hne : id ≠ other := fun h => hjob (h ▸ hother)
      exact (moves_take hother site c hc).others id hne
  exact retains_of_agrees hc hr (agrees_of_find? (hsame ▸ hr))

theorem agrees_create (site : Site) (details : CreateRequest) (hc : c.Kept)
    (hr : ((create site details).run c).2.registry.find? details.id = some r) :
    (c.registry.recordOf details.id).Agrees r := by
  rcases registry_create site details c with hregistry | hregistry
  · exact agrees_of_find? (hregistry ▸ hr)
  · have hid : (refill details (c.registry.recordOf details.id)).id = details.id :=
      (hc.recordOf details.id).1
    rw [hregistry, Registry.find?_put, if_pos hid] at hr
    obtain rfl := Option.some.inj hr
    exact ⟨rfl, rfl⟩

theorem agrees_setup (site : Site) (nodelist : List String)
    (hr : ((setup site id nodelist).run c).2.registry.find? id = some r) :
    (c.registry.recordOf id).Agrees r := by
  rw [setup, run_bind_ok (run_get_apply c)] at hr
  split at hr
  · exact agrees_of_find? hr
  obtain ⟨⟨hosts, servers⟩, t, hplace, along, _⟩ | ⟨refusal, t, hplace, spared⟩ :=
    (yields_place site id nodelist c).cases
  · let requested : Controller := { t with world := { t.world with
      api := ((Handling.requestStage id.workflowName .setup).run t.world.api).2 } }
    have hask := run_ask (Handling.requestStage id.workflowName .setup) t
    rw [run_bind_ok hplace] at hr
    cases hgranted : ((Handling.requestStage id.workflowName .setup).run t.world.api).1 with
    | error fault =>
      rw [hgranted] at hask
      rw [run_bind_error hask] at hr
      exact agrees_of_find? (along.registry ▸ hr)
    | ok _ =>
      rw [hgranted] at hask
      rw [run_bind_ok hask, run_bind_pure] at hr
      have hrecord : requested.registry.recordOf id = c.registry.recordOf id := by
        rw [along.registry]
      let filled : Record := { c.registry.recordOf id with servers := some servers, hosts }
      have hsettle : ((settle site id hosts servers).run requested).2 =
          (work filled (Handling.startTimer site .setup) requested).2 := by
        rw [settle, run_bind_ok (run_get_apply requested), run_discard, hrecord]
        rfl
      have limited := Handling.agrees_startTimer site .setup ⟨filled, requested.world⟩
      change ((settle site id hosts servers).run requested).2.registry.find? id = some r at hr
      rw [hsettle, state_work, Registry.find?_put] at hr
      split at hr
      · obtain rfl := Option.some.inj hr
        exact ⟨limited.tornDown, limited.condition⟩
      · exact agrees_of_find? (along.registry ▸ hr)
  · rw [run_bind_error hplace] at hr
    exact agrees_of_find? (spared id r hr)

theorem retains_take {turn : Turn} (hc : c.Kept) (hevent : ∀ event, turn ≠ .event event)
    (hsweep : turn ≠ .sweep) (hr : (c.take site turn).registry.find? id = some r) :
    Retains (caseOf id c) ⟨r, (c.take site turn).world⟩ := by
  by_cases hother : turn.job? ≠ some id
  · exact retains_of_others hc hother hsweep hr
  have hjob : turn.job? = some id := Classical.not_not.mp hother
  have hid : (caseOf id c).record.id = id := (hc.recordOf id).1
  have own (case case' : Case) (h : Retains case case') : case'.record.id = case.record.id := h.id
  have stored (case : Case) (_ : case.record.tornDown = false) :
      Leads Retains (Handling.tearDownStored site) case := Handling.retains_tearDownStored case
  have served (case : Case) (q : Api.Request) : Retains case (case.serve q) :=
    Case.retains_of_same rfl rfl rfl rfl
  cases turn with
  | event event => exact absurd rfl (hevent event)
  | sweep => exact absurd rfl hsweep
  | timeout job stage =>
    obtain rfl : job = id := Option.some.inj hjob
    cases hf : c.registry.find? job with
    | none =>
      rw [take_timeout_of_none hf, hf] at hr
      cases hr
    | some old =>
      have worked : Carries Retains job c (c.take site (.timeout job stage)) := by
        rw [take_timeout hf, ← Registry.recordOf_of_find? hf]
        exact carries_work (fun case h => (own _ case h).trans hid)
          (Handling.retains_expire stage _)
      exact worked r hr
  | request asked =>
    cases asked with
    | create details =>
      obtain rfl : details.id = id := Option.some.inj hjob
      exact retains_of_agrees hc hr (agrees_create site details hc hr)
    | setup job nodelist =>
      obtain rfl : job = id := Option.some.inj hjob
      exact retains_of_agrees hc hr (agrees_setup site nodelist hr)
    | postRun job started =>
      obtain rfl : job = id := Option.some.inj hjob
      have carried : Carries Retains job c ((postRun site job started).run c).2 :=
        carries_postRun own stored (fun case _ => Trans.trans (served case _)
          (Handling.retains_startTimer .postRun (case.serve _) : Retains _ _))
          (fun case _ => served case _) started hc
      exact carried r hr
    | teardown job =>
      obtain rfl : job = id := Option.some.inj hjob
      exact carries_teardown own stored hc r hr
    | abort job =>
      obtain rfl : job = id := Option.some.inj hjob
      exact carries_abort own stored (fun case => served case _)
        (fun case object _ => Handling.retains_tearDown object case) hc r hr
    | status => cases hjob

end Controller

end Warren
