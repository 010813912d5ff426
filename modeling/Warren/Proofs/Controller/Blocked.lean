import Warren.Proofs.Controller.Lifespan
import Warren.Proofs.Controller.Look
import Warren.Proofs.Controller.Retirement

/-!
# Jobs that are given up in a stage that keeps them from ending

A job whose workflow is at work after its run waits for the workflow in its epilog, so an exception
alone does not end it: its workflow has to be torn down too. A report of an error does so at once.
The end of a time limit and of a transient condition look at the workflow first, and
`tornDown_of_raised` says what comes of that.
-/

namespace Warren

open Api (lookRequest)
open Api.Server (Asked Served Denied Faced Missed Unread faced_iff_or)

/-- A fatal exception for a job. -/
def Notice.isFatal (id : JobId) : Notice → Bool
  | .jobRaise job severity _ _ => job = id && severity = 0
  | _ => false

namespace Case

variable {c t u : Case}

/-- No exception is raised. -/
def Hushed (c t : Case) : Prop :=
  ∃ notices, t.world.notices = c.world.notices ++ notices ∧
    ∀ id, notices.any (Notice.isFatal id) = false

instance : Std.Refl Hushed := ⟨fun _ => ⟨[], (List.append_nil _).symm, fun _ => rfl⟩⟩

instance : Trans Hushed Hushed Hushed where
  trans := by
    rintro c t u ⟨notices, ht, hnotices⟩ ⟨more, hu, hmore⟩
    refine ⟨notices ++ more, by rw [hu, ht, List.append_assoc], fun id => ?_⟩
    rw [List.any_append, hnotices, hmore]
    rfl

theorem hushed_of_notices_eq (h : t.world.notices = c.world.notices) : Hushed c t :=
  ⟨[], by rw [h, List.append_nil], fun _ => rfl⟩

/-- Objects were listed, nothing more. -/
structure Lists (c t : Case) : Prop where
  record : t.record = c.record
  asked : Asked (fun q => q.verb = .list) c.world.api t.world.api
  hushed : Hushed c t

instance : Std.Refl Lists := ⟨fun c => ⟨rfl, Std.Refl.refl c.world.api, Std.Refl.refl c⟩⟩

instance : Trans Lists Lists Lists :=
  ⟨fun h h' => ⟨h'.record.trans h.record, Trans.trans h.asked h'.asked,
    Trans.trans h.hushed h'.hushed⟩⟩

/-- A job is torn down unless a look at its workflow failed. -/
structure Resolved (c t : Case) : Prop where
  id : t.record.id = c.record.id
  served : Served c.world.api t.world.api
  torn : t.record.tornDown = true ↔ ¬Unread c.record.name c.world.api t.world.api
  settled : c.record.condition = none → t.record.condition = none

theorem Resolved.after {P : Api.Request → Prop} (h : Resolved u t)
    (hid : u.record.id = c.record.id) (hcondition : u.record.condition = c.record.condition)
    (hasked : Asked P c.world.api u.world.api) (hP : ∀ q, P q → q ≠ lookRequest c.record.name) :
    Resolved c t := by
  have hname : u.record.name = c.record.name := by rw [Record.name, hid, Record.name]
  have served : Served c.world.api u.world.api := hasked.mono fun _ _ => trivial
  refine ⟨h.id.trans hid, Trans.trans served h.served, ?_, fun hc => h.settled (hcondition ▸ hc)⟩
  rw [h.torn, hname, Unread, Unread, faced_iff_or served h.served]
  exact not_congr (or_iff_right (hasked.not_faced hP)).symm

end Case

namespace Handling

open Case (Hushed Resolved)

variable {site : Site} {stage : Stage}

theorem run_tell (notice : JobId → Notice) (c : Case) : (tell notice).run c =
    (.ok (), { c with world := c.world.tell (notice c.record.id) }) := rfl

/-! ### A workflow that keeps its job from ending -/

theorem state_run_tearDownStuck (hblocks : stage.blocksOnEpilog = true) (c : Case) :
    ((tearDownStuck site stage).run c).2 =
      if c.record.tornDown then c else ((tearDownStored site).run c).2 := by
  rw [tearDownStuck, run_bind_ok (run_record c), hblocks]
  cases c.record.tornDown with
  | true => rfl
  | false =>
    have hboth : (true && !false) = true := rfl
    rw [if_pos hboth, if_neg Bool.false_ne_true, run_discard]
    rfl

theorem resolved_tearDownStuck (site : Site) (hblocks : stage.blocksOnEpilog = true) (c : Case) :
    Leads Resolved (tearDownStuck site stage) c := by
  unfold Leads
  rw [state_run_tearDownStuck hblocks]
  cases htorn : c.record.tornDown with
  | true =>
    rw [if_pos rfl]
    exact ⟨rfl, Std.Refl.refl _, iff_of_true htorn (Api.Server.not_faced_refl _), fun h => h⟩
  | false =>
    rw [if_neg Bool.false_ne_true]
    have hapi := api_run_tearDownStored site c
    have hrecord := record_run_tearDownStored site c
    have served : Served c.world.api (c.world.api.serve (lookRequest c.record.name)) :=
      .one trivial _
    refine ⟨?_, hapi ▸ served, ?_, fun h => ?_⟩
    · rw [hrecord, Record.id_heed]
    · rw [hrecord, Record.tornDown_heed, htorn, hapi, Api.Server.unread_look]
      simp
    · rw [hrecord, Record.condition_heed _ _ h]

/-! ### Reports of errors -/

theorem tornDown_tearDownBlocked (hblocks : stage.blocksOnEpilog = true) (object : Json)
    (c : Case) : ((tearDownBlocked site stage object).run c).2.record.tornDown = true := by
  rw [tearDownBlocked, run_bind_ok (run_record c), hblocks]
  cases htorn : c.record.tornDown with
  | true => exact htorn
  | false => rfl

theorem tornDown_giveUp (object : Json) (c : Case) :
    ((giveUp site object).run c).2.record.tornDown = true := by
  rw [giveUp, run_bind_ok (run_record c)]
  cases htorn : c.record.tornDown with
  | true => exact htorn
  | false => rfl

theorem tornDown_react {w : Workflow} (herror : w.condition = .error)
    (hblocks : w.desired.blocksOnEpilog = true) (object : Json) (c : Case) :
    ((react site w object).run c).2.record.tornDown = true := by
  rw [react, herror]
  dsimp only
  rw [run_bind_ok (run_tell _ c)]
  exact tornDown_tearDownBlocked hblocks object _

/-- Following a report of an error in such a stage does nothing, or fails, or tears the workflow
down. -/
theorem run_follow_of_blocked (site : Site) {w : Workflow} (herror : w.condition = .error)
    (hblocks : w.desired.blocksOnEpilog = true) (object : Json) (c : Case) :
    (follow site w object).run c = (.ok (), c) ∨
      (∃ fault, ((follow site w object).run c).1 = .error fault) ∨
      ((follow site w object).run c).2.record.tornDown = true := by
  have reacted (t : Case) : ((react site w object).run t).2.record.tornDown = true :=
    tornDown_react herror hblocks object t
  cases followed site w object c with
  | idle _ hrun => exact Or.inl hrun
  | parting _ hactive _ _ =>
    rw [Workflow.desired_of_isActive hactive] at hblocks
    cases hblocks
  | complete _ _ hrun =>
    refine Or.inr ?_
    rw [hrun, run_bind_apply]
    cases (complete site w object w.desired).run c with
    | mk out t =>
      cases out with
      | ok _ => exact Or.inr (reacted t)
      | error fault => exact Or.inl ⟨fault, rfl⟩
  | working _ _ _ hrun =>
    rw [hrun]
    exact Or.inr (Or.inr (reacted c))

theorem run_report_of_blocked (site : Site) {w : Workflow} (herror : w.condition = .error)
    (hblocks : w.desired.blocksOnEpilog = true) (object : Json) (c : Case) :
    ((report site w object).run c).2 = c ∨
      ((report site w object).run c).2.record.tornDown = true := by
  have hfollow := run_follow_of_blocked site herror hblocks object c
  cases hrun : (follow site w object).run c with
  | mk out t =>
    rw [hrun] at hfollow
    rw [run_report, hrun]
    cases out with
    | error fault =>
      -- a fault on the way is a reason to give the job up as well
      exact Or.inr (tornDown_giveUp object t)
    | ok _ =>
      rcases hfollow with hsame | ⟨fault, hfault⟩ | htorn
      · exact Or.inl (congrArg Prod.snd hsame)
      · cases hfault
      · exact Or.inr htorn

/-! ### Limits that are reached -/

theorem lists_call {conversation : Api.Call α} (h : Api.Asks (fun q => q.verb = .list) conversation)
    (c : Case) : Leads Case.Lists (call conversation) c :=
  ⟨rfl, h c.world.api, Case.hushed_of_notices_eq rfl⟩

theorem asks_lagging_only (name : String) (stage : Stage) :
    Api.Asks (fun q => q.verb = .list) (lagging name stage) :=
  .bind (.list rfl) fun _ => .bind (.mapM fun _ _ => .decoded _ _) fun _ => .pure _

theorem lists_dispensable (stage : Stage) (c : Case) : Leads Case.Lists (dispensable stage) c := by
  refine leads_record ?_
  split
  · exact .pure _ c
  · refine .bind (lists_call (asks_lagging_only _ _).observe c) fun found t _ => ?_
    cases found <;> exact .pure _ t

theorem hushed_startTimer (site : Site) (stage : Stage) (c : Case) :
    Leads Hushed (startTimer site stage) c := by
  refine Case.hushed_of_notices_eq ?_
  rw [state_run_startTimer]
  cases site.config.timeouts.of stage with
  | none => rfl
  | some limit =>
    dsimp only
    split <;> rfl

theorem hushed_dispense (site : Site) (stage : Stage) (nodes : List String) (c : Case) :
    Leads Hushed (dispense site stage nodes) c := by
  have spent : Leads Hushed
      (update fun r => { r with tolerance := r.tolerance - UInt32.ofNat nodes.length }) c :=
    Case.hushed_of_notices_eq rfl
  refine spent.bind fun _ t _ => ?_
  have told : Leads Hushed (tell (.nodeFailure · nodes)) t :=
    ⟨[.nodeFailure t.record.id nodes], rfl, fun _ => rfl⟩
  exact told.bind fun _ u _ => hushed_startTimer site stage u

theorem resolved_raise (site : Site) (hblocks : stage.blocksOnEpilog = true) (text : String)
    (c : Case) : Leads Resolved (do
      tell (.raise · text)
      tearDownStuck site stage) c := by
  unfold Leads
  -- the exception is out before the workflow is looked at
  rw [run_bind_ok (run_tell _ c)]
  have resolved := resolved_tearDownStuck site hblocks
    { c with world := c.world.tell (.raise c.record.id text) }
  exact ⟨resolved.id, resolved.served, resolved.torn, resolved.settled⟩

theorem expire_cases (site : Site) (hblocks : stage.blocksOnEpilog = true) (c : Case) :
    Hushed c ((expire site stage).run c).2 ∨ Resolved c ((expire site stage).run c).2 := by
  by_cases hstage : c.record.timerStage = some stage
  · cases htorn : c.record.tornDown with
    | true =>
      refine Or.inl (Case.hushed_of_notices_eq ?_)
      have cancelled :
        cancelTimer.run c = (.ok (), { c with record := c.record.cancelTimer }) := rfl
      have htorn' : c.record.cancelTimer.tornDown = true := htorn
      rw [expire, run_bind_ok (run_record c), if_pos hstage, run_bind_ok cancelled,
        run_bind_ok (run_record _)]
      dsimp only
      rw [if_pos htorn']
      rfl
    | false =>
      rw [Controller.run_expire hstage htorn]
      have listed := lists_dispensable stage ⟨c.record.cancelTimer, c.world⟩
      unfold Leads at listed
      cases hfound : (dispensable stage).run ⟨c.record.cancelTimer, c.world⟩ with
      | mk found u =>
        rw [hfound] at listed
        have hushed : Hushed c u := listed.hushed
        cases found with
        | error fault =>
          rw [run_bind_error hfound]
          exact Or.inl hushed
        | ok nodes? =>
          rw [run_bind_ok hfound]
          cases nodes? with
          | some nodes => exact Or.inl (Trans.trans hushed (hushed_dispense site stage nodes u))
          | none =>
            have resolved : Resolved u ((overrun site stage).run u).2 :=
              resolved_raise site hblocks _ u
            have hrecord : u.record = c.record.cancelTimer := listed.record
            have hid : u.record.id = c.record.id := by rw [hrecord]; rfl
            have hcondition : u.record.condition = c.record.condition := by rw [hrecord]; rfl
            refine Or.inr (resolved.after hid hcondition listed.asked ?_)
            rintro q hq rfl
            cases hq
  · refine Or.inl (Case.hushed_of_notices_eq ?_)
    rw [expire, run_bind_ok (run_record c), if_neg hstage]
    rfl

/-! ### Conditions that lasted too long -/

theorem resolved_condemn (site : Site) {c : Case} {condition : Transient}
    (hcondition : c.record.condition = some condition)
    (hblocks : condition.stage.blocksOnEpilog = true) :
    Resolved c ((condemn site).run c).2 ∧ ((condemn site).run c).2.record.condition = none := by
  let cleared : Case := { c with record := { c.record with condition := none } }
  have hstage : ¬condition.stage = .preRun := fun h => by simp [h, Stage.blocksOnEpilog] at hblocks
  have hclear : (update fun r => { r with condition := none }).run c = (.ok (), cleared) := rfl
  have resolved := resolved_raise site hblocks (failureText
    ("workflow in 'TransientCondition' state too long: " ++ condition.message)) cleared
  unfold Leads at resolved
  rw [condemn, run_bind_ok (run_record c), hcondition]
  dsimp only
  rw [run_bind_ok hclear, if_neg hstage]
  have none := resolved.settled rfl
  exact ⟨⟨resolved.id, resolved.served, resolved.torn, fun _ => none⟩, none⟩

theorem run_condemn_of_none {c : Case} (h : c.record.condition = none) :
    (condemn site).run c = (.ok (), c) := by
  rw [condemn, run_bind_ok (run_record c), h]
  rfl

/-- The requests at the end of a condition list objects, or look at the workflow of the job. -/
structure Looks (c t : Case) : Prop where
  id : t.record.id = c.record.id
  asked : Asked (fun q => q.verb = .list ∨ q = lookRequest c.record.name)
    c.world.api t.world.api

instance : Std.Refl Looks := ⟨fun c => ⟨rfl, Std.Refl.refl c.world.api⟩⟩

instance : Trans Looks Looks Looks where
  trans h h' := by
    have hname : _ = Record.name _ := congrArg JobId.workflowName h.id
    have hasked := h'.asked
    rw [Record.name, hname] at hasked
    exact ⟨h'.id.trans h.id, Trans.trans h.asked hasked⟩

theorem looks_tearDownStored (site : Site) (c : Case) : Leads Looks (tearDownStored site) c := by
  have looked : Asked (fun q => q.verb = .list ∨ q = lookRequest c.record.name) c.world.api
      (c.world.api.serve (lookRequest c.record.name)) := .one (Or.inr rfl) _
  refine ⟨?_, api_run_tearDownStored site c ▸ looked⟩
  rw [record_run_tearDownStored, Record.id_heed]

theorem looks_condemn (c : Case) : Leads Looks (condemn site) c := by
  have told (text : String) (t : Case) : Leads Looks (tell (.raise · text)) t :=
    ⟨rfl, Std.Refl.refl t.world.api⟩
  have stuck (stage : Stage) (t : Case) : Leads Looks (tearDownStuck site stage) t := by
    refine leads_record ?_
    split
    · have stored : Leads Looks (ExceptT.lift (tearDownStored site).run : Handling _) t :=
        looks_tearDownStored site t
      exact stored.discard
    · exact .pure _ t
  have marked (t : Case) : Leads Looks (markLagging site) t := by
    refine leads_record ?_
    have listed : Leads Looks (call (Api.observe (lagging t.record.name .preRun))) t :=
      ⟨rfl, (asks_lagging_only _ _).mono (fun _ => Or.inl) t.world.api⟩
    refine listed.bind fun found u _ => ?_
    cases found with
    | ok nodes =>
      refine ⟨rfl, ?_⟩
      change Asked _ u.world.api (u.world.announce (Health.mark site nodes mountReason)).api
      rw [World.api_announce]
      exact Std.Refl.refl u.world.api
    | error _ => exact .pure _ u
  refine leads_record ?_
  cases c.record.condition with
  | none => exact .pure _ c
  | some condition =>
    have cleared : Leads Looks (update fun r => { r with condition := none }) c :=
      ⟨rfl, Std.Refl.refl c.world.api⟩
    refine cleared.bind fun _ t _ => ?_
    change Leads _ (if condition.stage = .preRun then _ else _) t
    split
    · exact (marked t).bind fun _ u _ => (told _ u).bind fun _ v _ => stuck _ v
    · exact (told _ t).bind fun _ u _ => stuck _ u

end Handling

namespace Controller

variable {site : Site} {id : JobId} {c t u : Controller}

/-- A fatal exception was raised for a job. -/
def Raised (id : JobId) (c t : Controller) : Prop :=
  (c.world.since t.world).notices.any (Notice.isFatal id) = true

instance : Decidable (Raised id c t) := inferInstanceAs (Decidable (_ = true))

/-- A turn that may give a job up while its workflow keeps it from ending: a report of an error, the
end of a time limit, or the end of a transient condition. -/
def Blocks (site : Site) (id : JobId) (c : Controller) : Turn → Prop
  | .event event => ∃ w, reported? event = some w ∧ w.jobId = id ∧ w.condition = .error ∧
      w.desired.blocksOnEpilog = true
  | .timeout job stage => job = id ∧ stage.blocksOnEpilog = true
  | .sweep => id ∈ c.overdue site ∧ ∃ r condition, c.registry.find? id = some r ∧
      r.condition = some condition ∧ condition.stage.blocksOnEpilog = true
  | .request _ => False

theorem not_raised_of_hushed {r s : Record}
    (h : Case.Hushed ⟨r, c.world⟩ ⟨s, t.world⟩) : ¬Raised id c t := by
  obtain ⟨notices, hnotices, hquiet⟩ := h
  have hnotices : t.world.notices = c.world.notices ++ notices := hnotices
  rw [Raised, World.since, hnotices, List.drop_left, hquiet]
  exact Bool.false_ne_true

theorem not_raised_refl (id : JobId) (c : Controller) : ¬Raised id c c :=
  not_raised_of_hushed (r := c.registry.recordOf id) (Std.Refl.refl (⟨_, c.world⟩ : Case))

/-! ### Sweeps -/

/-- A job has a record, and is torn down unless a look at its workflow failed. -/
structure Settles (id : JobId) (c t : Controller) : Prop where
  served : Served c.world.api t.world.api
  torn : ∃ r, t.registry.find? id = some r ∧
    (r.tornDown = true ↔ ¬Unread id.workflowName c.world.api t.world.api)

/-- Nothing is done about a job. -/
structure Passes (id : JobId) (c t : Controller) : Prop where
  record : t.registry.find? id = c.registry.find? id
  asked : Asked (· ≠ lookRequest id.workflowName) c.world.api t.world.api

theorem Passes.served (h : Passes id c t) : Served c.world.api t.world.api :=
  h.asked.mono fun _ _ => trivial

theorem Passes.not_unread (h : Passes id c t) :
    ¬Unread id.workflowName c.world.api t.world.api := h.asked.not_faced fun _ hq => hq

instance : Std.Refl (Passes id) := ⟨fun c => ⟨rfl, Std.Refl.refl c.world.api⟩⟩

instance : Trans (Passes id) (Passes id) (Passes id) :=
  ⟨fun h h' => ⟨h'.record.trans h.record, Trans.trans h.asked h'.asked⟩⟩

instance : Trans (Passes id) (Settles id) (Settles id) where
  trans h h' := by
    obtain ⟨r, hr, htorn⟩ := h'.torn
    refine ⟨Trans.trans h.served h'.served, r, hr, htorn.trans (not_congr ?_)⟩
    exact ((faced_iff_or h.served h'.served).trans (or_iff_right h.not_unread)).symm

instance : Trans (Settles id) (Passes id) (Settles id) where
  trans h h' := by
    obtain ⟨r, hr, htorn⟩ := h.torn
    refine ⟨Trans.trans h.served h'.served, r, h'.record.trans hr, htorn.trans (not_congr ?_)⟩
    exact ((faced_iff_or h.served h'.served).trans (or_iff_left h'.not_unread)).symm

theorem settles_work {r : Record} {handling : Handling Unit} (hid : r.id = id)
    (h : Leads Case.Resolved handling ⟨r, c.world⟩) : Settles id c (work r handling c).2 := by
  have torn : (_ : Record).tornDown = true ↔ ¬Unread r.name c.world.api _ := h.torn
  have hname : r.name = id.workflowName := congrArg JobId.workflowName hid
  rw [state_work]
  refine ⟨h.served, _, ?_, hname ▸ torn⟩
  rw [Registry.find?_put, if_pos (h.id.trans hid)]

theorem passes_revisit_of_ne {other : JobId} (hc : c.Kept) (hne : other ≠ id) :
    Passes id c (revisit other (Handling.condemn site) c).2 := by
  refine ⟨(moves_revisit Handling.leads_condemn hc).others id hne.symm, ?_⟩
  rw [state_revisit]
  cases hf : c.registry.find? other with
  | none => exact Std.Refl.refl c.world.api
  | some r =>
    have looks : Handling.Looks ⟨r, c.world⟩ ((Handling.condemn site).run ⟨r, c.world⟩).2 :=
      Handling.looks_condemn ⟨r, c.world⟩
    have hname : r.name = other.workflowName := congrArg JobId.workflowName (hc.own other r hf)
    refine looks.asked.mono fun q hq hlook => ?_
    obtain rfl := hlook
    rcases hq with hlist | hsame
    · cases hlist
    · have hspaces := (Api.Request.get.inj hsame).2.2
      exact hne (JobId.workflowName_inj (hname.symm.trans hspaces.symm))

theorem passes_revisit_of_none {r : Record} (hc : c.Kept) (hf : c.registry.find? id = some r)
    (hnone : r.condition = none) : Passes id c (revisit id (Handling.condemn site) c).2 := by
  rw [state_revisit, hf]
  dsimp only
  rw [state_work, Handling.run_condemn_of_none (c := ⟨r, c.world⟩) hnone]
  refine ⟨?_, Std.Refl.refl c.world.api⟩
  rw [Registry.find?_put, if_pos (hc.own id r hf), hf]

theorem passes_foldl {r : Record} {ids : List JobId} (hc : c.Kept)
    (hf : c.registry.find? id = some r) (hnone : r.condition = none) :
    Passes id c
      (ids.foldl (fun c id => (revisit id (Handling.condemn site) c).2) c) := by
  -- along the jobs: another visit of this one finds no condition any more
  induction ids generalizing c with
  | nil => exact Std.Refl.refl c
  | cons other rest ih =>
    have first : Passes id c (revisit other (Handling.condemn site) c).2 := by
      by_cases ho : other = id
      · rw [ho]
        exact passes_revisit_of_none hc hf hnone
      · exact passes_revisit_of_ne hc ho
    have kept : (revisit other (Handling.condemn site) c).2.Kept :=
      (moves_revisit Handling.leads_condemn hc).kept
    exact Trans.trans first (ih kept (first.record.trans hf))

theorem settles_foldl {r : Record} {condition : Transient} {ids : List JobId} (hc : c.Kept)
    (hf : c.registry.find? id = some r) (hcondition : r.condition = some condition)
    (hblocks : condition.stage.blocksOnEpilog = true) (hid : id ∈ ids) :
    Settles id c (ids.foldl (fun c id => (revisit id (Handling.condemn site) c).2) c) := by
  -- along the jobs up to the first visit of this one, which takes the condition from the record
  induction ids generalizing c with
  | nil => cases hid
  | cons other rest ih =>
    have kept : (revisit other (Handling.condemn site) c).2.Kept :=
      (moves_revisit Handling.leads_condemn hc).kept
    by_cases ho : other = id
    · subst ho
      have hrevisit : (revisit other (Handling.condemn site) c).2 =
          (work r (Handling.condemn site) c).2 := by rw [state_revisit, hf]
      obtain ⟨resolved, hnone⟩ :=
        Handling.resolved_condemn site (c := ⟨r, c.world⟩) hcondition hblocks
      have settled : Settles other c (work r (Handling.condemn site) c).2 :=
        settles_work (hc.own other r hf) resolved
      have found : (work r (Handling.condemn site) c).2.registry.find? other =
          some ((Handling.condemn site).run ⟨r, c.world⟩).2.record := by
        rw [state_work, Registry.find?_put, if_pos (resolved.id.trans (hc.own other r hf))]
      rw [List.foldl_cons, hrevisit]
      rw [hrevisit] at kept
      exact Trans.trans settled (passes_foldl kept found hnone)
    · have passed : Passes id c (revisit other (Handling.condemn site) c).2 :=
        passes_revisit_of_ne hc ho
      have hrest : id ∈ rest := (List.mem_cons.mp hid).resolve_left fun h => ho h.symm
      exact Trans.trans passed (ih kept (passed.record.trans hf) hrest)

/-! ### Turns -/

theorem settles_timeout {stage : Stage} (hc : c.Kept) (hblocks : stage.blocksOnEpilog = true)
    (hraised : Raised id c (c.take site (.timeout id stage))) :
    Settles id c (c.take site (.timeout id stage)) := by
  have htake : c.take site (.timeout id stage) =
      (revisit id (Handling.expire site stage) c).2 := rfl
  rw [htake, state_revisit] at hraised ⊢
  cases hf : c.registry.find? id with
  | none =>
    rw [hf] at hraised
    exact absurd hraised (not_raised_refl id c)
  | some r =>
    rw [hf] at hraised
    dsimp only at hraised ⊢
    rcases Handling.expire_cases site hblocks ⟨r, c.world⟩ with hushed | resolved
    · exact absurd hraised (by rw [state_work]; exact not_raised_of_hushed hushed)
    · exact settles_work (hc.own id r hf) resolved

theorem tornDown_event {event : Api.Event} (hc : c.Kept) (hblocks : Blocks site id c (.event event))
    (hraised : Raised id c (c.take site (.event event))) :
    ∃ r, (c.take site (.event event)).registry.find? id = some r ∧ r.tornDown = true := by
  obtain ⟨w, hw, rfl, herror, hstage⟩ := hblocks
  have hevent := take_event site c event
  rw [hw] at hevent
  rcases hevent with ⟨object, _, htake⟩ | ⟨_, htake⟩
  · let reported := (Handling.report site w object).run (caseOf w.jobId c)
    have hstate : c.take site (.event event) =
        ⟨c.registry.put reported.2.record, reported.2.world⟩ := by
      rw [htake, state_work]
      rfl
    have did : Case.Did site _ (caseOf w.jobId c) reported.2 :=
      Handling.leads_report w object (caseOf w.jobId c)
    have hid : reported.2.record.id = w.jobId := did.id.trans (hc.recordOf w.jobId).1
    rw [hstate] at hraised ⊢
    rcases Handling.run_report_of_blocked site herror hstage object
      (caseOf w.jobId c) with hsame | htorn
    · have hsame : reported.2 = caseOf w.jobId c := hsame
      rw [hsame] at hraised
      exact absurd hraised (not_raised_refl w.jobId c)
    · exact ⟨reported.2.record, by rw [Registry.find?_put, if_pos hid], htorn⟩
  · rw [htake] at hraised
    exact absurd hraised (not_raised_refl w.jobId c)

theorem settles_take {turn : Turn} (hc : c.Kept) (hblocks : Blocks site id c turn)
    (hturn : ∀ event, turn ≠ .event event) (hraised : Raised id c (c.take site turn)) :
    Settles id c (c.take site turn) := by
  cases turn with
  | request asked => exact hblocks.elim
  | event event => exact absurd rfl (hturn event)
  | timeout job stage =>
    obtain ⟨rfl, hstage⟩ := hblocks
    exact settles_timeout hc hstage hraised
  | sweep =>
    obtain ⟨hover, r, condition, hf, hcondition, hstage⟩ := hblocks
    rw [take_sweep]
    exact settles_foldl hc hf hcondition hstage hover

theorem missed_of_denied {s t : Api.Server} (h : Denied id s t) : Missed id.workflowName s t := by
  obtain ⟨v, before, ⟨fault, hanswer, hgone⟩, after⟩ := h
  have hfault : v.fault? (lookRequest id.workflowName) = some fault := by
    change Api.faultOf ((Api.getWorkflow id.workflowName).run v).1 = _
    rw [hanswer]
    rfl
  have looked : Served v (v.serve (lookRequest id.workflowName)) := .one trivial v
  have missed : Missed id.workflowName v (v.serve (lookRequest id.workflowName)) :=
    Api.Server.missed_look.mpr (by rw [hfault]; exact hgone)
  have rest : Missed id.workflowName v t := (faced_iff_or looked after).mpr (Or.inl missed)
  exact (faced_iff_or before (Trans.trans looked after)).mpr (Or.inr rest)

/-- A job that is torn down was so before, or is handed to the cleanup now, or has no workflow. -/
theorem torn_down_since {turn : Turn} {r : Record} (hc : c.Kept)
    (hf : (c.take site turn).registry.find? id = some r) (htorn : r.tornDown = true) :
    (c.registry.recordOf id).tornDown = true ∨
      Errand.teardown.count id (c.world.since (c.take site turn).world) = 1 ∨
      Missed id.workflowName c.world.api (c.take site turn).world.api := by
  obtain ⟨x, s, tallied, hlast⟩ := tallied_take site id hc turn
  obtain rfl := hlast r hf
  rw [tallied.sends.since]
  rcases tallied.account.teardown with hcount | denied
  · rw [htorn] at hcount
    cases hbefore : (c.registry.recordOf id).tornDown with
    | true => exact Or.inl rfl
    | false =>
      rw [hbefore] at hcount
      exact Or.inr (Or.inl hcount)
  · exact Or.inr (Or.inr (missed_of_denied denied))

/-- If a job is given up while its workflow keeps it from ending, it keeps its record, and it is
torn down exactly if a report of an error is the reason or no look at the workflow failed. A job
that is torn down was handed to the cleanup, now or earlier, or has no workflow. -/
theorem tornDown_of_raised {turn : Turn} (hc : c.Kept) (hblocks : Blocks site id c turn)
    (hraised : Raised id c (c.take site turn)) :
    ∃ r, (c.take site turn).registry.find? id = some r ∧
      (r.tornDown = true ↔ (∃ event, turn = .event event) ∨
        ¬Unread id.workflowName c.world.api (c.take site turn).world.api) ∧
      (r.tornDown = true → (c.registry.recordOf id).tornDown = true ∨
        Errand.teardown.count id (c.world.since (c.take site turn).world) = 1 ∨
        Missed id.workflowName c.world.api (c.take site turn).world.api) := by
  by_cases hevent : ∃ event, turn = .event event
  · obtain ⟨event, rfl⟩ := hevent
    obtain ⟨r, hf, htorn⟩ := tornDown_event hc hblocks hraised
    exact ⟨r, hf, iff_of_true htorn (Or.inl ⟨event, rfl⟩), torn_down_since hc hf⟩
  · obtain ⟨r, hf, htorn⟩ := (settles_take hc hblocks (not_exists.mp hevent) hraised).torn
    exact ⟨r, hf, htorn.trans (or_iff_right hevent).symm, torn_down_since hc hf⟩

/-- A job in the stage after its run, whose time limit runs and whose workflow cannot be read for
the moment. -/
def stuck : Controller :=
  let running := (Sample.start .preRun).take Sample.site (.request (.postRun Sample.job true))
  Sample.failing .get Sample.unavailable running

theorem reachable_stuck : Reachable Sample.site stuck :=
  Sample.reachable_failing
    ((Sample.reachable_start .preRun).take (.request (.postRun Sample.job true))) _ _

/-- The limit is reached, an exception is raised, and the job is not torn down. -/
theorem timeout_leaves_stuck :
    let turn : Turn := .timeout Sample.job .postRun
    let t := stuck.take Sample.site turn
    Reachable Sample.site stuck ∧ Blocks Sample.site Sample.job stuck turn ∧
      Raised Sample.job stuck t ∧
      (t.registry.find? Sample.job).any (fun r => !r.tornDown) = true :=
  ⟨reachable_stuck, ⟨rfl, rfl⟩, by decide +kernel, by decide +kernel⟩

theorem tornDown_of_raised_stuck :
    let turn : Turn := .timeout Sample.job .postRun
    let t := stuck.take Sample.site turn
    stuck.Kept ∧ Blocks Sample.site Sample.job stuck turn ∧ Raised Sample.job stuck t ∧
      ∃ r, t.registry.find? Sample.job = some r ∧
        (r.tornDown = true ↔ (∃ event, turn = .event event) ∨
          ¬Unread Sample.job.workflowName stuck.world.api t.world.api) ∧
        (r.tornDown = true → (stuck.registry.recordOf Sample.job).tornDown = true ∨
          Errand.teardown.count Sample.job (stuck.world.since t.world) = 1 ∨
          Missed Sample.job.workflowName stuck.world.api t.world.api) := by
  intro turn t
  have kept : stuck.Kept := reachable_stuck.kept
  have blocks : Blocks Sample.site Sample.job stuck turn := ⟨rfl, rfl⟩
  have raised : Raised Sample.job stuck t := by decide +kernel
  exact ⟨kept, blocks, raised, tornDown_of_raised kept blocks raised⟩

end Controller

end Warren
