import Warren.Proofs.Controller.Errand

/-!
# The work on a job keeps the account

Every report of a workflow and every expired limit keeps the account of what is sent for the job.
The ways that tear a workflow down may follow each other within one report; each of them looks at
the record before it does so.
-/

namespace Warren.Handling

open Case (Deals)

variable {site : Site}

/-! ### Steps between the errands -/

theorem deals_raise (message : String) (c : Case) : Leads Deals (tell (.raise · message)) c :=
  deals_tell c fun e job => by cases e <;> rfl

theorem deals_observe (condition : Option Transient) (c : Case) :
    Deals c { c with record := { c.record with condition } } :=
  Case.deals_record rfl (fun e => by cases e <;> rfl) (Nat.le_refl _) fun hc =>
    ⟨hc.untimed, hc.released⟩

theorem deals_spend (tolerance : UInt32) (c : Case) :
    Deals c { c with record := { c.record with tolerance } } :=
  Case.deals_record rfl (fun e => by cases e <;> rfl) (Nat.le_refl _) fun hc =>
    ⟨hc.untimed, hc.released⟩

theorem isNotice_mark (site : Site) (hosts : List String) (reason : String) (e : Errand)
    (job : JobId) :
    ∀ n ∈ Notice.upToCrash (Health.mark site hosts reason), Errand.isNotice job e n = false := by
  intro n hn
  obtain ⟨targets, rfl | rfl⟩ := mem_mark hn <;> cases e <;> rfl

/-! ### Reports -/

theorem run_applyBreakdowns_of_pending {resources : List JobResource} (w : Workflow) (object : Json)
    {c : Case} (h : c.record.resources = .pending resources) :
    (applyBreakdowns site w object).run c =
      let consumed : Record := { c.record with resources := .consumed }
      match (breakdowns w).run c.world.api with
      | (.ok found, api) =>
        match assign site.config resources found with
        | .error _ => (.ok (), ⟨consumed, World.crash { c.world with api }⟩)
        | .ok (resources, failure) =>
          let content : ResourceUpdate := ⟨c.record.id, resources, Allocation.copyOffload found,
            failure, exclusionFor site.config⟩
          (saveWorkflow object).run
            ⟨consumed, World.tell { c.world with api } (.resourceUpdate content)⟩
      | (.error fault, api) => (.error fault, ⟨consumed, { c.world with api }⟩) := by
  have marked : (update fun r => { r with resources := .consumed }).run c =
      (.ok (), { c with record := { c.record with resources := .consumed } }) := rfl
  have read : (call (breakdowns w)).run { c with
        record := { c.record with resources := .consumed } } =
      (((breakdowns w).run c.world.api).1, {
        record := { c.record with resources := .consumed }
        world := { c.world with api := ((breakdowns w).run c.world.api).2 } }) := rfl
  rw [applyBreakdowns, run_bind_ok (run_record c), run_bind_ok marked]
  dsimp only
  rw [h]
  dsimp only
  rw [run_bind_apply, read]
  obtain ⟨found, api⟩ := (breakdowns w).run c.world.api
  cases found with
  | error fault => rfl
  | ok found =>
    dsimp only
    cases assign site.config resources found <;> rfl

/-- The mark is set before the breakdowns are read, so a fault on the way leaves no second
attempt. -/
theorem deals_applyBreakdowns (w : Workflow) (object : Json) (c : Case) :
    Leads Deals (applyBreakdowns site w object) c := by
  cases h : c.record.resources with
  | consumed =>
    refine leads_record (Leads.bind (deals_consume c) fun _ t _ => ?_)
    rw [h]
    exact .pure _ t
  | unknown =>
    have hnot : Errand.done c.record .update = false := by rw [Errand.done, h]
    have told : Deals c _ := deals_update hnot (Std.Refl.refl c.world.api)
      ⟨c.record.id, [], false, some unknownResources, none⟩ rfl
    unfold Leads
    rw [applyBreakdowns, run_bind_ok (run_record c), h]
    exact told
  | pending resources =>
    have hnot : Errand.done c.record .update = false := by rw [Errand.done, h]
    have read : Api.Server.Served c.world.api ((breakdowns w).run c.world.api).2 :=
      asks_breakdowns (fun _ _ => trivial) w c.world.api
    -- the mark is there already, so nothing is handed back later
    have marked {api : Api.Server} (served : Api.Server.Served c.world.api api) :
        Deals c ⟨{ c.record with resources := .consumed }, { c.world with api }⟩ := by
      have consumed := deals_consume c
      have asked := Case.deals_served
        (c := { c with record := { c.record with resources := .consumed } }) served
      exact Trans.trans consumed asked
    unfold Leads
    rw [run_applyBreakdowns_of_pending w object h]
    generalize (breakdowns w).run c.world.api = answer at read
    obtain ⟨found, api⟩ := answer
    cases found with
    | ok found =>
      dsimp only
      cases assign site.config resources found with
      | error crash =>
        have crashed := Case.deals_crash
          ⟨{ c.record with resources := .consumed }, { c.world with api }⟩
        exact Trans.trans (marked read) crashed
      | ok assigned =>
        have told : Deals c _ := deals_update hnot read
          ⟨c.record.id, assigned.1, Allocation.copyOffload found, assigned.2,
            exclusionFor site.config⟩ rfl
        exact Trans.trans told (deals_saveWorkflow object _)
    | error fault => exact marked read

theorem deals_releaseProlog (w : Workflow) (object : Json) (c : Case) :
    Leads Deals (releaseProlog w object) c := by
  refine .bind (deals_call (asks_token c.record.name w) c) fun token t _ => ?_
  refine .bind (deals_tell t fun e job => ?_) fun _ u _ => deals_saveTiming object u
  cases e <;> rfl

theorem deals_advance {c : Case} (htorn : c.record.tornDown = false) (next : Stage)
    (object : Json) : Leads Deals (advance site next object) c := by
  have moved : Leads Deals (call (requestStage c.record.name next)) c :=
    deals_call (P := fun _ => True) (.discard (.patch trivial)) c
  refine leads_record (moved.bind fun _ t ht => ?_)
  have hrecord : t.record = c.record := congrArg (fun x => x.2.record) ht.symm
  refine .bind (deals_saveTiming object t) fun _ u hu => ?_
  have hsaved : u.record = t.record := by
    rw [← record_run_saveTiming object t, hu]
  exact deals_startTimer (by rw [hsaved, hrecord, htorn]) next

theorem deals_releaseEpilog (c : Case) : Leads Deals releaseEpilog c := by
  refine leads_record ?_
  cases h : c.record.epilogRemoved with
  | true => exact .pure _ c
  | false => exact deals_release h

theorem epilogRemoved_run_releaseEpilog (c : Case) :
    (releaseEpilog.run c).2.record.epilogRemoved = true := by
  rw [releaseEpilog, run_bind_ok (run_record c)]
  cases h : c.record.epilogRemoved with
  | true => exact h
  | false => rfl

theorem deals_finish {c : Case} (h : c.record.deleted = false) (object : Json) :
    Leads Deals (finish object) c := by
  refine .bind (deals_releaseEpilog c) fun _ t ht => ?_
  refine .bind (deals_saveTiming object t) fun _ u hu => ?_
  -- what `Sane` asks for: the job was told that it may end before its workflow is handed over
  have hsaved : u.record = t.record := by
    rw [← record_run_saveTiming object t, hu]
  have hdeleted : u.record.deleted = false := by
    rw [hsaved, ← h, ← deleted_run_releaseEpilog c, ht]
  have hreleased : u.record.epilogRemoved = true := by
    rw [hsaved, ← epilogRemoved_run_releaseEpilog c, ht]
  exact deals_dispose hdeleted hreleased (finalizersIn object)

theorem deals_act {w : Workflow} {c : Case} (htorn : w.desired ≠ .teardown →
      c.record.tornDown = false) (hdeleted : c.record.deleted = false) (object : Json) :
    Leads Deals (act site w object w.desired.onComplete) c := by
  have onward (h : w.desired ≠ .teardown) (next : Stage) :
      Leads Deals (advance site next object) c := deals_advance (htorn h) next object
  cases hd : w.desired with
  | proposal => exact deals_applyBreakdowns w object c
  | setup => exact onward (by simp [hd]) .dataIn
  | dataIn => exact onward (by simp [hd]) .preRun
  | preRun => exact deals_releaseProlog w object c
  | postRun => exact onward (by simp [hd]) .dataOut
  | dataOut => exact deals_tearDown (htorn (by simp [hd])) object
  | teardown => exact deals_finish hdeleted object

theorem deals_complete {w : Workflow} {c : Case} (htorn : w.desired ≠ .teardown →
      c.record.tornDown = false) (hdeleted : c.record.deleted = false) (object : Json) :
    Leads Deals (complete site w object w.desired) c :=
  leads_complete (deals_cancelTimer c) fun timer =>
    deals_act (c := { c with record := { c.record with timer } }) htorn hdeleted object

theorem deals_tearDownBlocked (stage : Stage) (object : Json) (c : Case) :
    Leads Deals (tearDownBlocked site stage object) c := by
  refine leads_record ?_
  split
  · rename_i h
    have htorn : c.record.tornDown = false := by
      simp only [Bool.and_eq_true, Bool.not_eq_true'] at h
      exact h.2
    exact deals_tearDown htorn object
  · exact .pure _ c

theorem deals_react (w : Workflow) (object : Json) (c : Case) :
    Leads Deals (react site w object) c := by
  unfold react
  cases w.condition with
  | error => exact (deals_raise _ c).bind fun _ t _ => deals_tearDownBlocked _ object t
  | transient => exact deals_observe _ c
  | normal => exact deals_observe none c

theorem deals_follow (w : Workflow) (object : Json) (c : Case) :
    Leads Deals (follow site w object) c := by
  cases followed site w object c with
  | idle _ hrun => exact .congr hrun (.pure _ c)
  | parting _ _ _ hrun =>
    have released := deals_call (asks_releaseFinalizer c.record.name w.finalizers) c
    exact .congr hrun (released.bind fun _ t _ => deals_react w object t)
  | complete hbusy _ hrun =>
    have completed : Leads Deals (complete site w object w.desired) c :=
      deals_complete (tornDown_of_not_idle hbusy) (deleted_of_not_idle hbusy) object
    exact .congr hrun (completed.bind fun _ t _ => deals_react w object t)
  | working _ _ _ hrun => exact .congr hrun (deals_react w object c)

theorem deals_giveUp (object : Json) (c : Case) : Leads Deals (giveUp site object) c := by
  refine leads_record ?_
  split
  · rename_i h
    have htorn : c.record.tornDown = false := by
      simpa only [Bool.not_eq_true'] using h
    exact (deals_tearDown htorn object).bind fun _ t _ => deals_raise _ t
  · exact deals_raise _ c

theorem deals_report (w : Workflow) (object : Json) (c : Case) :
    Leads Deals (report site w object) c :=
  holds_report (deals_follow w object c) fun t ht =>
    Trans.trans ht (deals_giveUp object t : Deals t _)

/-! ### Expired limits -/

theorem deals_dispensable (stage : Stage) (c : Case) : Leads Deals (dispensable stage) c := by
  refine leads_record ?_
  split
  · exact .pure _ c
  · refine .bind (deals_call (.observe (asks_lagging c.record.name _ _)) c) fun found t _ => ?_
    cases found <;> exact .pure _ t

theorem deals_dispense {c : Case} (htorn : c.record.tornDown = false) (stage : Stage)
    (nodes : List String) : Leads Deals (dispense site stage nodes) c := by
  let spent : Case := { c with
    record := { c.record with tolerance := c.record.tolerance - UInt32.ofNat nodes.length } }
  have first : Leads Deals
      (update fun r => { r with tolerance := r.tolerance - UInt32.ofNat nodes.length }) c :=
    deals_spend _ c
  refine first.bind fun _ t ht => ?_
  obtain rfl : t = spent := (congrArg Prod.snd ht).symm
  refine .bind (deals_tell spent fun e job => by cases e <;> rfl) fun _ u hu => ?_
  have hrecord : u.record = spent.record := congrArg (fun x => x.2.record) hu.symm
  exact deals_startTimer (by rw [hrecord]; exact htorn) stage

theorem deals_tearDownStuck (stage : Stage) (c : Case) :
    Leads Deals (tearDownStuck site stage) c := by
  refine leads_record ?_
  split
  · rename_i h
    have htorn : c.record.tornDown = false := by
      simp only [Bool.and_eq_true, Bool.not_eq_true'] at h
      exact h.2
    have torn : Leads Deals (ExceptT.lift (tearDownStored site).run : Handling _) c :=
      deals_tearDownStored htorn
    exact torn.discard
  · exact .pure _ c

theorem deals_overrun (stage : Stage) (c : Case) : Leads Deals (overrun site stage) c :=
  .bind (deals_raise _ c) fun _ t _ => deals_tearDownStuck stage t

theorem deals_expire (stage : Stage) (c : Case) : Leads Deals (expire site stage) c := by
  refine leads_record ?_
  split
  · refine .bind (deals_cancelTimer c) fun _ t _ => leads_record ?_
    split
    · exact .pure _ t
    · rename_i h
      have htorn : t.record.tornDown = false := by simpa using h
      refine .bind (deals_dispensable stage t) fun found u hu => ?_
      have hrecord : u.record = t.record := by
        rw [← record_run_dispensable stage t, hu]
      cases found with
      | some nodes => exact deals_dispense (by rw [hrecord, htorn]) stage nodes
      | none => exact deals_overrun stage u
  · exact .pure _ c

theorem deals_markLagging (c : Case) : Leads Deals (markLagging site) c := by
  refine leads_record ?_
  refine .bind (deals_call (.observe (asks_lagging c.record.name _ _)) c) fun found t _ => ?_
  cases found with
  | ok nodes => exact Case.deals_announce (isNotice_mark site nodes mountReason)
  | error _ => exact .pure _ t

theorem deals_condemn (c : Case) : Leads Deals (condemn site) c := by
  have ending (condition : Transient) (t : Case) : Leads Deals (do
      tell (.raise · (failureText
        ("workflow in 'TransientCondition' state too long: " ++ condition.message)))
      tearDownStuck site condition.stage) t :=
    .bind (deals_raise _ t) fun _ u _ => deals_tearDownStuck _ u
  refine leads_record ?_
  cases c.record.condition with
  | none => exact .pure _ c
  | some condition =>
    have cleared : Leads Deals (update fun r => { r with condition := none }) c :=
      deals_observe none c
    refine cleared.bind fun _ t _ => ?_
    change Leads _ (if condition.stage = .preRun then _ else _) t
    split
    · exact (deals_markLagging t).bind fun _ u _ => ending condition u
    · exact ending condition t

end Warren.Handling
