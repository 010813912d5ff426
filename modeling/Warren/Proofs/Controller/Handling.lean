import Warren.Proofs.Controller.Deed

/-!
# The work on a job consists of deeds

Every piece of work on a job is a number of deeds that fit. The statements say of each piece which
kinds of deeds occur in it. `leads_report` says that a report of a workflow leads to another stage
only where the workflow completed the stage before, `leads_expire` and `leads_condemn` that an
expired limit never does.
-/

namespace Warren.Handling

open Case (Did)

variable {site : Site} {P : Deed → Prop} {R : Case → Case → Prop} {α β : Type}

/-! ### Single deeds -/

theorem leads_record {f : Record → Handling β} {c : Case} (h : Leads R (f c.record) c) :
    Leads R (record >>= f) c := h

theorem run_record (c : Case) : record.run c = (.ok c.record, c) := rfl

theorem run_call (conversation : Api.Call α) (c : Case) : (call conversation).run c =
    ((conversation.run c.world.api).1,
      { c with world := { c.world with api := (conversation.run c.world.api).2 } }) := rfl

theorem state_run_requestStage (name : String) (stage : Stage) (s : Api.Server) :
    ((requestStage name stage).run s).2 = s.serve (Api.stageRequest name stage) := by
  change ((discard (Api.patch .workflow Api.defaultSpace name (Api.stagePatch stage))).run s).2 = _
  rw [run_discard]
  rfl

theorem leads_cancelTimer (c : Case) : Leads (Did site Deed.Quiet) cancelTimer c :=
  Did.one (d := .cancelTimer) trivial trivial

theorem leads_tell (notice : JobId → Notice) (c : Case) :
    Leads (Did site Deed.Quiet) (tell notice) c :=
  Did.one (d := .tell [notice c.record.id]) trivial trivial

theorem leads_crash (c : Case) : Leads (Did site Deed.Quiet) crash c :=
  Did.one (d := .crash) trivial trivial

theorem leads_announce (notices : List (Except Crash Notice)) (c : Case) :
    Leads (Did site Deed.Quiet) (announce notices) c := by
  have told : Did site Deed.Quiet c
      { c with world := c.world.tellAll (Notice.upToCrash notices) } :=
    Did.one (d := .tell _) trivial trivial
  change Did site Deed.Quiet c { c with world := c.world.announce notices }
  unfold World.announce
  dsimp only
  split
  · exact told
  · exact told.trans (leads_crash _)

theorem leads_startTimer {stage : Stage} {c : Case} (h : c.record.tornDown = false)
    (hP : P (.startTimer stage)) : Leads (Did site P) (startTimer site stage) c :=
  Did.one hP h

theorem serve_asks {c : Case} {qs : List Api.Request} (hP : ∀ q, P (.ask q))
    (h : ∀ q ∈ qs, q.Tends c.record.name) :
    Did site P c { c with world := { c.world with api := c.world.api.serveAll qs } } := by
  induction qs generalizing c with
  | nil => exact Std.Refl.refl c
  | cons q qs ih =>
    have first : Did site P c (c.serve q) := Did.one (hP q) (h q (List.mem_cons_self ..))
    have rest := ih (c := c.serve q) fun r hr => h r (List.mem_cons_of_mem _ hr)
    exact first.trans rest

theorem leads_call {conversation : Api.Call α} {c : Case} (hP : ∀ q, P (.ask q))
    (h : Api.Asks (Api.Request.Tends c.record.name) conversation) :
    Leads (Did site P) (call conversation) c := by
  obtain ⟨qs, hqs, hapi⟩ := h c.world.api
  unfold Leads
  rw [run_call, hapi]
  exact serve_asks hP hqs

theorem leads_saveTiming (object : Json) (c : Case) :
    Leads (Did site Deed.Quiet) (saveTiming object) c := by
  unfold saveTiming
  cases timing? object with
  | none => exact .pure _ c
  | some entry => exact leads_tell _ c

theorem leads_tearDown {c : Case} (h : c.record.tornDown = false) (object : Json) :
    Leads (Did site Deed.Quiet) (tearDown site object) c := by
  have saved : Did site Deed.Quiet c ((saveWorkflow object).run c).2 := leads_tell _ c
  have handed : Did site Deed.Quiet ((saveWorkflow object).run c).2
      (Deed.apply site (.tearDown (finalizersIn object)) ((saveWorkflow object).run c).2) :=
    Did.one trivial h
  exact saved.trans handed

theorem leads_tearDownStored {c : Case} (h : c.record.tornDown = false) :
    Leads (Did site Deed.Calm) (tearDownStored site) c := by
  refine leads_record (.bind (leads_call (fun _ => trivial) (.observe (.get trivial))) ?_)
  intro found t hcall
  have htorn : t.record.tornDown = false := by
    have ht : t.record = c.record := congrArg (fun x => x.2.record) hcall.symm
    rw [ht]
    exact h
  cases found with
  | ok object =>
    refine ((leads_tearDown htorn object).mono fun _ _ => Did.mono fun _ => Deed.Quiet.calm).bind ?_
    exact fun _ u _ => .pure _ u
  | error fault =>
    change Leads _ (if fault.isNotFound = true then _ else _) t
    split
    · exact Did.one (d := .lose) trivial htorn
    · exact .throw _ t

/-! ### Reports -/

theorem asks_breakdowns {P : Api.Request → Prop}
    (hget : ∀ space name, P (.get .breakdown space name))
    (w : Workflow) : Api.Asks P (breakdowns w) :=
  .mapM fun _ _ => .bind (.get (hget _ _)) fun _ => .decoded _ _

theorem asks_token (name : String) (w : Workflow) :
    Api.Asks (Api.Request.Tends name) (token w) := by
  unfold token
  cases w.status.bind Workflow.Status.token with
  | none => exact .pure _
  | some reference => exact .bind (.get trivial) fun _ => .pure _

theorem asks_lagging (name workflow : String) (stage : Stage) :
    Api.Asks (Api.Request.Tends name) (lagging workflow stage) :=
  .bind (.list trivial) fun _ => .bind (.mapM fun _ _ => .decoded _ _) fun _ => .pure _

theorem asks_releaseFinalizer (name : String) (finalizers : List String) :
    Api.Asks (Api.Request.Tends name) (Cleanup.releaseFinalizer name finalizers) :=
  Cleanup.asks_releaseFinalizer trivial (fun taken => ⟨rfl, rfl, rfl, taken, rfl⟩) finalizers

theorem leads_applyBreakdowns (w : Workflow) (object : Json) (c : Case) :
    Leads (Did site Deed.Calm) (applyBreakdowns site w object) c := by
  have quiet {t u : Case} (h : Did site Deed.Quiet t u) : Did site Deed.Calm t u :=
    h.mono fun _ => Deed.Quiet.calm
  have consumed : Did site Deed.Calm c (Deed.apply site .consume c) := Did.one trivial trivial
  refine leads_record (.bind consumed fun _ t _ => ?_)
  cases c.record.resources with
  | consumed => exact .pure _ t
  | unknown => exact quiet (leads_tell _ t)
  | pending resources =>
    have read : Api.Asks (Api.Request.Tends t.record.name) (breakdowns w) :=
      asks_breakdowns (fun _ _ => trivial) w
    refine .bind (leads_call (fun _ => trivial) read) fun found u _ => ?_
    split
    · exact quiet (leads_crash u)
    · refine .bind (quiet (leads_tell _ u)) fun _ v _ => ?_
      exact quiet (leads_tell _ v)

theorem leads_releaseProlog (w : Workflow) (object : Json) (c : Case) :
    Leads (Did site Deed.Calm) (releaseProlog w object) c := by
  have quiet {t u : Case} (h : Did site Deed.Quiet t u) : Did site Deed.Calm t u :=
    h.mono fun _ => Deed.Quiet.calm
  refine .bind (leads_call (fun _ => trivial) (asks_token _ w)) fun token t _ => ?_
  refine .bind (quiet (leads_tell _ t)) fun _ u _ => ?_
  exact quiet (leads_saveTiming object u)

theorem leads_releaseEpilog (c : Case) : Leads (Did site Deed.Quiet) releaseEpilog c := by
  refine leads_record ?_
  cases h : c.record.epilogRemoved with
  | true => exact .pure _ c
  | false => exact Did.one (d := .releaseEpilog) trivial h

theorem deleted_run_releaseEpilog (c : Case) :
    (releaseEpilog.run c).2.record.deleted = c.record.deleted := by
  change ((if c.record.epilogRemoved = true then pure () else _ : Handling Unit).run c
    ).2.record.deleted = _
  split <;> rfl

theorem record_run_saveTiming (object : Json) (c : Case) :
    ((saveTiming object).run c).2.record = c.record := by
  unfold saveTiming
  cases timing? object <;> rfl

theorem leads_finish {c : Case} (h : c.record.deleted = false) (object : Json) :
    Leads (Did site Deed.Quiet) (finish object) c := by
  refine .bind (leads_releaseEpilog c) fun _ t ht => ?_
  refine .bind (leads_saveTiming object t) fun _ u hu => ?_
  -- `Fits` asks for a workflow that is not handed over yet; neither step before has done so
  have hdeleted : u.record.deleted = false := by
    have hu' : u.record = t.record := by
      rw [← record_run_saveTiming object t, hu]
    have ht' : t.record.deleted = c.record.deleted := by
      rw [← deleted_run_releaseEpilog c, ht]
    rw [hu', ht', h]
  exact Did.one (d := .dispose (finalizersIn object)) trivial hdeleted

/-! ### What a report leads to -/

theorem leads_advance {c : Case} {next : Stage} (htorn : c.record.tornDown = false)
    (hdeleted : c.record.deleted = false) (hmove : P (.moveTo next)) (hstart : P (.startTimer next))
    (hquiet : ∀ d : Deed, d.Quiet → P d) (object : Json) :
    Leads (Did site P) (advance site next object) c := by
  have moved : Leads (Did site P) (call (requestStage c.record.name next)) c := by
    unfold Leads
    rw [run_call, state_run_requestStage]
    exact Did.one (d := .moveTo next) hmove ⟨htorn, hdeleted⟩
  refine leads_record (moved.bind fun _ t ht => ?_)
  have hrecord : t.record = c.record := congrArg (fun x => x.2.record) ht.symm
  refine .bind ((leads_saveTiming object t).mono fun _ _ => Did.mono hquiet) fun _ u hu => ?_
  have htorn' : u.record.tornDown = false := by
    have hu' : u.record = t.record := by
      rw [← record_run_saveTiming object t, hu]
    rw [hu', hrecord, htorn]
  exact leads_startTimer htorn' hstart

theorem leads_tearDownBlocked (stage : Stage) (object : Json) (c : Case) :
    Leads (Did site Deed.Quiet) (tearDownBlocked site stage object) c := by
  refine leads_record ?_
  split
  · rename_i h
    have htorn : c.record.tornDown = false := by
      simp only [Bool.and_eq_true, Bool.not_eq_true'] at h
      exact h.2
    exact leads_tearDown htorn object
  · exact .pure _ c

theorem leads_react (w : Workflow) (object : Json) (c : Case) :
    Leads (Did site Deed.Quiet) (react site w object) c := by
  unfold react
  cases w.condition with
  | error => exact (leads_tell _ c).bind fun _ t _ => leads_tearDownBlocked _ object t
  | transient => exact Did.one (d := .observe _) trivial trivial
  | normal => exact Did.one (d := .observe none) trivial trivial

theorem leads_giveUp (object : Json) (c : Case) :
    Leads (Did site Deed.Quiet) (giveUp site object) c := by
  refine leads_record ?_
  split
  · rename_i h
    have htorn : c.record.tornDown = false := by
      simpa only [Bool.not_eq_true'] using h
    exact (leads_tearDown htorn object).bind fun _ t _ => leads_tell _ t
  · exact leads_tell _ c

/-- The job without the limit of a stage. -/
def freed (stage : Stage) (c : Case) : Case :=
  if c.record.timerStage = some stage then { c with record := c.record.cancelTimer } else c

theorem freed_of_ne {stage : Stage} {c : Case} (h : c.record.timerStage ≠ some stage) :
    freed stage c = c := if_neg h

theorem freed_eq (stage : Stage) (c : Case) :
    ∃ timer, freed stage c = { c with record := { c.record with timer } } := by
  unfold freed
  split
  · exact ⟨none, rfl⟩
  · exact ⟨c.record.timer, rfl⟩

theorem timerStage_freed (stage : Stage) (c : Case) :
    (freed stage c).record.timerStage ≠ some stage := by
  unfold freed
  split
  · simp
  · assumption

theorem run_complete (site : Site) (w : Workflow) (object : Json) (stage : Stage) (c : Case) :
    (complete site w object stage).run c =
      (act site w object stage.onComplete).run (freed stage c) := by
  rw [complete, run_bind_ok (run_record c)]
  unfold freed
  split <;> rfl

theorem leads_complete [Std.Refl R] [Trans R R R] {w : Workflow} {object : Json} {stage : Stage}
    {c : Case} (cancelled : Leads R cancelTimer c)
    (hact : ∀ timer, Leads R (act site w object stage.onComplete)
      { c with record := { c.record with timer } }) :
    Leads R (complete site w object stage) c := by
  have rid : R c (freed stage c) := by
    unfold freed
    split
    · exact cancelled
    · exact Std.Refl.refl c
  obtain ⟨timer, hfreed⟩ := freed_eq stage c
  rw [hfreed] at rid
  unfold Leads
  rw [run_complete, hfreed]
  exact Trans.trans rid (hact timer)

theorem run_report (w : Workflow) (object : Json) (c : Case) : (report site w object).run c =
    match (follow site w object).run c with
    | (.ok _, t) => (.ok (), t)
    | (.error _, t) => (giveUp site object).run t := by
  rw [report, run_bind_apply, run_lift_apply]
  cases (follow site w object).run c with
  | mk outcome t => cases outcome <;> rfl

/-- A job that is past the reports of a workflow. -/
def Idle (w : Workflow) (r : Record) : Prop :=
  w.reported = none ∨ r.deleted = true ∨ (r.tornDown = true ∧ w.isActive .teardown = false)

theorem deleted_of_not_idle {w : Workflow} {r : Record} (h : ¬Idle w r) : r.deleted = false :=
  Bool.eq_false_iff.mpr fun hdeleted => h (Or.inr (Or.inl hdeleted))

/-- A workflow that is torn down is followed in its last stage only. -/
theorem tornDown_of_not_idle {w : Workflow} {r : Record} (h : ¬Idle w r)
    (hd : w.desired ≠ .teardown) : r.tornDown = false :=
  Bool.eq_false_iff.mpr fun htorn =>
    h (Or.inr (Or.inr ⟨htorn, Workflow.isActive_of_ne hd⟩))

/-- How a report is followed. -/
inductive Followed (site : Site) (w : Workflow) (object : Json) (c : Case) : Prop
  | idle (past : Idle w c.record)
    (run : (follow site w object).run c = (pure () : Handling Unit).run c)
  /-- A workflow that works on its last stage is released. -/
  | parting (busy : ¬Idle w c.record) (active : w.isActive .teardown = true)
    (unfinished : w.isComplete .teardown = false)
    (run : (follow site w object).run c = (do
      call (Cleanup.releaseFinalizer c.record.name w.finalizers)
      react site w object : Handling Unit).run c)
  | complete (busy : ¬Idle w c.record) (completed : w.isComplete w.desired = true)
    (run : (follow site w object).run c = (do
      complete site w object w.desired
      react site w object : Handling Unit).run c)
  | working (busy : ¬Idle w c.record) (incomplete : w.isComplete w.desired = false)
    (early : w.isActive .teardown = false)
    (run : (follow site w object).run c = (react site w object).run c)

theorem run_follow_of_idle {w : Workflow} {c : Case} (site : Site) (object : Json)
    (h : Idle w c.record) : (follow site w object).run c = (.ok (), c) := by
  rw [follow, run_bind_ok (run_record c)]
  dsimp only
  split
  · rfl
  · rename_i hfirst
    simp only [Bool.or_eq_true, not_or, Option.isNone_iff_eq_none] at hfirst
    obtain ⟨htorn, hactive⟩ := (h.resolve_left hfirst.1).resolve_left hfirst.2
    rw [if_neg (by simp [hactive]), if_pos (by simp [htorn, hactive, Workflow.isComplete])]
    rfl

theorem followed (site : Site) (w : Workflow) (object : Json) (c : Case) :
    Followed site w object c := by
  by_cases hidle : Idle w c.record
  · exact .idle hidle (run_follow_of_idle site object hidle)
  have hfirst : ¬(w.reported.isNone || c.record.deleted) = true := by
    rw [deleted_of_not_idle hidle, Bool.or_false, Option.isNone_iff_eq_none]
    exact fun hreported => hidle (Or.inl hreported)
  have hrun : (follow site w object).run c =
      (if (w.isActive .teardown && !w.isComplete .teardown) = true then do
          call (Cleanup.releaseFinalizer c.record.name w.finalizers)
          react site w object
        else if (c.record.tornDown && !w.isComplete .teardown) = true then pure ()
        else do
          if w.isComplete w.desired then complete site w object w.desired
          react site w object : Handling Unit).run c := by
    rw [follow, run_bind_ok (run_record c)]
    dsimp only
    rw [if_neg hfirst]
  cases hlast : w.isComplete .teardown with
  | true =>
    have hcomplete : w.isComplete w.desired = true := by
      rw [Workflow.desired_of_isComplete hlast, hlast]
    rw [hlast, hcomplete] at hrun
    exact .complete hidle hcomplete (by simpa using hrun)
  | false =>
    rw [hlast] at hrun
    cases hactive : w.isActive .teardown with
    | true =>
      rw [hactive] at hrun
      exact .parting hidle hactive hlast hrun
    | false =>
      have htorn : c.record.tornDown = false :=
        Bool.eq_false_iff.mpr fun htorn => hidle (Or.inr (Or.inr ⟨htorn, hactive⟩))
      rw [hactive, htorn] at hrun
      cases hcomplete : w.isComplete w.desired with
      | true =>
        rw [hcomplete] at hrun
        exact .complete hidle hcomplete hrun
      | false =>
        rw [hcomplete] at hrun
        exact .working hidle hcomplete hactive hrun

theorem run_report_of_idle {w : Workflow} {c : Case} (site : Site) (object : Json)
    (h : Idle w c.record) : (report site w object).run c = (.ok (), c) := by
  rw [run_report, run_follow_of_idle site object h]

theorem not_idle_of_complete {w : Workflow} {r : Record} (hcomplete : w.isComplete w.desired = true)
    (htorn : w.desired ≠ .teardown → r.tornDown = false) (hdeleted : r.deleted = false) :
    ¬Idle w r := by
  have hactive : w.isActive w.desired = true := Workflow.isActive_of_isComplete hcomplete
  rintro (hreported | hgone | ⟨hlost, hearly⟩)
  · simp [Workflow.isActive, hreported] at hactive
  · rw [hdeleted] at hgone
    cases hgone
  · by_cases hd : w.desired = .teardown
    · rw [hd, hearly] at hactive
      cases hactive
    · rw [htorn hd] at hlost
      cases hlost

theorem run_follow_of_complete {w : Workflow} {c : Case} (site : Site)
    (hcomplete : w.isComplete w.desired = true) (hbusy : ¬Idle w c.record) (object : Json) :
    (follow site w object).run c =
      (do complete site w object w.desired; react site w object : Handling Unit).run c := by
  cases followed site w object c with
  | idle hidle _ => exact absurd hidle hbusy
  | parting _ hactive hnot _ =>
    rw [← Workflow.desired_of_isActive hactive, hcomplete] at hnot
    cases hnot
  | complete _ _ hrun => exact hrun
  | working _ hincomplete _ _ =>
    rw [hcomplete] at hincomplete
    cases hincomplete

/-- What holds once a report was followed, and still when the job is given up, holds in the end. -/
theorem holds_report {Q : Case → Prop} {w : Workflow} {object : Json} {c : Case}
    (hfollow : Q ((follow site w object).run c).2)
    (hgive : ∀ t, Q t → Q ((giveUp site object).run t).2) :
    Q ((report site w object).run c).2 := by
  rw [run_report]
  cases hrun : (follow site w object).run c with
  | mk outcome t =>
    rw [hrun] at hfollow
    cases outcome with
    | ok _ => exact hfollow
    | error _ => exact hgive t hfollow

/-- What holds once a completed stage was answered, whatever the condition of the workflow and a
fault lead to, holds in the end. -/
theorem holds_report_of_complete {Q : Case → Prop} {w : Workflow} {object : Json} {c : Case}
    (hcomplete : w.isComplete w.desired = true) (hbusy : ¬Idle w c.record)
    (h : Q ((act site w object w.desired.onComplete).run (freed w.desired c)).2)
    (hreact : ∀ t, Q t → Q ((react site w object).run t).2)
    (hgive : ∀ t, Q t → Q ((giveUp site object).run t).2) :
    Q ((report site w object).run c).2 := by
  refine holds_report ?_ hgive
  rw [run_follow_of_complete site hcomplete hbusy, run_bind_apply, run_complete]
  cases hrun : (act site w object w.desired.onComplete).run (freed w.desired c) with
  | mk outcome t =>
    rw [hrun] at h
    cases outcome with
    | ok _ => exact hreact t h
    | error _ => exact h

/-- A completed stage that is answered with another one: the job is neither torn down nor to be
deleted then. -/
def Advances (site : Site) (w : Workflow) (object : Json) (R : Case → Case → Prop) : Prop :=
  ∀ {next : Stage} {c : Case}, w.isComplete w.desired = true →
    w.desired.onComplete = .advance next → c.record.tornDown = false → c.record.deleted = false →
      Leads R (advance site next object) c

section

variable {w : Workflow} {object : Json} {c : Case}
variable (calm : ∀ {c t : Case}, Did site Deed.Calm c t → R c t) (step : Advances site w object R)

include calm step

theorem leads_act_of (hcomplete : w.isComplete w.desired = true)
    (htorn : w.desired ≠ .teardown → c.record.tornDown = false)
    (hdeleted : c.record.deleted = false) :
    Leads R (act site w object w.desired.onComplete) c := by
  have quiet {t u : Case} (h : Did site Deed.Quiet t u) : R t u :=
    calm (h.mono fun _ => Deed.Quiet.calm)
  have next (next : Stage) (hd : w.desired ≠ .teardown) (h : w.desired.onComplete = .advance next) :
      Leads R (advance site next object) c := step hcomplete h (htorn hd) hdeleted
  cases hd : w.desired with
  | proposal => exact calm (leads_applyBreakdowns w object c)
  | setup => exact next .dataIn (by simp [hd]) (by simp [hd, Stage.onComplete])
  | dataIn => exact next .preRun (by simp [hd]) (by simp [hd, Stage.onComplete])
  | preRun => exact calm (leads_releaseProlog w object c)
  | postRun => exact next .dataOut (by simp [hd]) (by simp [hd, Stage.onComplete])
  | dataOut => exact quiet (leads_tearDown (htorn (by simp [hd])) object)
  | teardown => exact quiet (leads_finish hdeleted object)

variable [Trans R R R]

theorem leads_complete_of (hcomplete : w.isComplete w.desired = true)
    (htorn : w.desired ≠ .teardown → c.record.tornDown = false)
    (hdeleted : c.record.deleted = false) :
    Leads R (complete site w object w.desired) c := by
  have : Std.Refl R := ⟨fun t => calm (Std.Refl.refl t)⟩
  have cancelled : Leads R cancelTimer c :=
    (leads_cancelTimer c).mono fun _ _ h => calm (h.mono fun _ => Deed.Quiet.calm)
  exact leads_complete cancelled fun _ => leads_act_of calm step hcomplete htorn hdeleted

theorem leads_follow_of (c : Case) : Leads R (follow site w object) c := by
  have quiet {t u : Case} (h : Did site Deed.Quiet t u) : R t u :=
    calm (h.mono fun _ => Deed.Quiet.calm)
  cases followed site w object c with
  | idle _ hrun => exact .congr hrun (calm (Std.Refl.refl c))
  | parting _ _ _ hrun =>
    have released : Leads (Did site Deed.Calm)
        (call (Cleanup.releaseFinalizer c.record.name w.finalizers)) c :=
      leads_call (fun _ => trivial) (asks_releaseFinalizer _ _)
    refine .congr hrun ?_
    exact (released.mono fun _ _ => calm).bind fun _ t _ => quiet (leads_react w object t)
  | complete hbusy hcomplete hrun =>
    have completed : Leads R (complete site w object w.desired) c :=
      leads_complete_of calm step hcomplete (tornDown_of_not_idle hbusy)
        (deleted_of_not_idle hbusy)
    exact .congr hrun (completed.bind fun _ t _ => quiet (leads_react w object t))
  | working _ _ _ hrun => exact .congr hrun (quiet (leads_react w object c))

/-- A report keeps whatever calm deeds keep, and the step to the next stage. -/
theorem leads_report_of (c : Case) : Leads R (report site w object) c :=
  holds_report (leads_follow_of calm step c) fun t ht =>
    Trans.trans ht
      (calm ((leads_giveUp object t).mono fun _ _ => Did.mono fun _ => Deed.Quiet.calm))

end

theorem leads_report (w : Workflow) (object : Json) (c : Case) :
    Leads (Did site (Deed.Answers w)) (report site w object) c := by
  refine leads_report_of (fun h => h.mono fun _ h => h.answers w) ?_ c
  intro next t hcomplete hnext htorn hdeleted
  exact leads_advance htorn hdeleted ⟨hcomplete, hnext⟩ ⟨hcomplete, hnext⟩
    (fun _ h => h.calm.answers w) object

/-! ### What an expired limit leads to -/

theorem exists_run_dispensable (stage : Stage) (c : Case) :
    ∃ found world, (dispensable stage).run c = (.ok found, ⟨c.record, world⟩) ∧
      ∀ nodes, found = some nodes → isTolerable c.record.tolerance nodes = true := by
  rw [dispensable, run_bind_ok (run_record c)]
  split
  · exact ⟨none, c.world, rfl, by simp⟩
  · have hlook : (call (Api.observe (lagging c.record.name stage))).run c =
        (.ok ((lagging c.record.name stage).run c.world.api).1,
          ⟨c.record, { c.world with
            api := ((lagging c.record.name stage).run c.world.api).2 }⟩) := rfl
    rw [run_bind_ok hlook]
    cases ((lagging c.record.name stage).run c.world.api).1 with
    | error fault => exact ⟨none, _, rfl, by simp⟩
    | ok nodes =>
      refine ⟨if isTolerable c.record.tolerance nodes then some nodes else none, _, rfl, ?_⟩
      intro found hfound
      split at hfound
      · rename_i htolerable
        obtain rfl := Option.some.inj hfound
        exact htolerable
      · cases hfound

theorem record_run_dispensable (stage : Stage) (c : Case) :
    ((dispensable stage).run c).2.record = c.record := by
  obtain ⟨found, world, hrun, _⟩ := exists_run_dispensable stage c
  rw [hrun]

theorem leads_dispensable (stage : Stage) (c : Case) :
    Leads (Did site Deed.Calm) (dispensable stage) c := by
  refine leads_record ?_
  split
  · exact .pure _ c
  · refine .bind (leads_call (fun _ => trivial) (.observe (asks_lagging _ _ _))) fun found t _ => ?_
    cases found <;> exact .pure _ t

theorem leads_dispense {c : Case} (h : c.record.tornDown = false) (stage : Stage)
    (nodes : List String) :
    Leads (Did site (Deed.Extends stage)) (dispense site stage nodes) c := by
  have spent : Leads (Did site (Deed.Extends stage))
      (update fun r => { r with tolerance := r.tolerance - UInt32.ofNat nodes.length }) c :=
    Did.one (d := .spend _) trivial h
  refine spent.bind fun _ t ht => ?_
  obtain rfl := (congrArg Prod.snd ht).symm
  refine .bind ((leads_tell _ _).mono fun _ _ => Did.mono fun _ h => h.calm.extends stage)
    fun _ u hu => ?_
  obtain rfl := (congrArg Prod.snd hu).symm
  have again : Deed.Extends stage (.startTimer stage) := rfl
  exact leads_startTimer h again

theorem leads_tearDownStuck (stage : Stage) (c : Case) :
    Leads (Did site Deed.Calm) (tearDownStuck site stage) c := by
  refine leads_record ?_
  split
  · rename_i h
    have htorn : c.record.tornDown = false := by
      simp only [Bool.and_eq_true, Bool.not_eq_true'] at h
      exact h.2
    have torn : Leads (Did site Deed.Calm)
        (ExceptT.lift (tearDownStored site).run : Handling _) c := leads_tearDownStored htorn
    exact torn.discard
  · exact .pure _ c

theorem leads_overrun (stage : Stage) (c : Case) :
    Leads (Did site Deed.Calm) (overrun site stage) c := by
  refine .bind ((leads_tell _ c).mono fun _ _ => Did.mono fun _ => Deed.Quiet.calm) fun _ t _ => ?_
  exact leads_tearDownStuck stage t

/-- The end of a time limit may start that limit again, and no other. -/
theorem leads_expire (stage : Stage) (c : Case) :
    Leads (Did site (Deed.Extends stage)) (expire site stage) c := by
  have calm {t u : Case} (h : Did site Deed.Calm t u) : Did site (Deed.Extends stage) t u :=
    h.mono fun _ h => h.extends stage
  refine leads_record ?_
  split
  · have cancelled : Leads (Did site (Deed.Extends stage)) cancelTimer c :=
      (leads_cancelTimer c).mono fun _ _ => Did.mono fun _ h => h.calm.extends stage
    refine cancelled.bind fun _ t _ => leads_record ?_
    split
    · exact .pure _ t
    · rename_i h
      have htorn : t.record.tornDown = false := by simpa using h
      refine .bind (calm (leads_dispensable stage t)) fun found u hu => ?_
      have hrecord : u.record = t.record := by
        rw [← record_run_dispensable stage t, hu]
      cases found with
      | some nodes => exact leads_dispense (by rw [hrecord, htorn]) stage nodes
      | none => exact calm (leads_overrun stage u)
  · exact .pure _ c

theorem mem_of_mem_upToCrash {outcomes : List (Except Crash Notice)} {notice : Notice}
    (h : notice ∈ Notice.upToCrash outcomes) : .ok notice ∈ outcomes := by
  induction outcomes with
  | nil => cases h
  | cons outcome outcomes ih =>
    cases outcome with
    | error crash => cases h
    | ok first =>
      obtain rfl | h := List.mem_cons.mp h
      · exact List.mem_cons_self
      · exact List.mem_cons_of_mem _ (ih h)

theorem mem_mark {hosts : List String} {reason : String} {notice : Notice}
    (h : notice ∈ Notice.upToCrash (Health.mark site hosts reason)) :
    ∃ targets, notice = .setProperty targets Notice.exclusionValue ∨
      notice = .drain targets "update" reason := by
  have about {make : List String → Except Crash Notice} {n : Notice} {targets : List String}
      (hn : .ok n ∈ Health.about make targets) : make targets = .ok n := by
    unfold Health.about at hn
    split at hn
    · cases hn
    · exact (List.mem_singleton.mp hn).symm
  obtain h | h := List.mem_append.mp (mem_of_mem_upToCrash h)
  · obtain ⟨text, -, h⟩ := ok_of_bind (about h)
    exact ⟨text, .inl (Except.ok.inj h).symm⟩
  · split at h
    · obtain ⟨text, -, h⟩ := ok_of_bind (about h)
      exact ⟨text, .inr (Except.ok.inj h).symm⟩
    · cases h

theorem leads_markLagging (c : Case) : Leads (Did site Deed.Calm) (markLagging site) c := by
  refine leads_record ?_
  refine .bind (leads_call (fun _ => trivial) (.observe (asks_lagging _ _ _))) fun found t _ => ?_
  cases found with
  | ok nodes => exact (leads_announce _ t).mono fun _ _ => Did.mono fun _ => Deed.Quiet.calm
  | error _ => exact .pure _ t

theorem leads_condemn (c : Case) : Leads (Did site Deed.Calm) (condemn site) c := by
  have quiet {t u : Case} (h : Did site Deed.Quiet t u) : Did site Deed.Calm t u :=
    h.mono fun _ => Deed.Quiet.calm
  have ending (condition : Transient) (t : Case) : Leads (Did site Deed.Calm) (do
      tell (.raise · (failureText
        ("workflow in 'TransientCondition' state too long: " ++ condition.message)))
      tearDownStuck site condition.stage) t :=
    .bind (quiet (leads_tell _ t)) fun _ u _ => leads_tearDownStuck _ u
  refine leads_record ?_
  cases c.record.condition with
  | none => exact .pure _ c
  | some condition =>
    have cleared : Leads (Did site Deed.Calm) (update fun r => { r with condition := none }) c :=
      Did.one (d := .observe none) trivial trivial
    refine cleared.bind fun _ t _ => ?_
    change Leads _ (if condition.stage = .preRun then _ else _) t
    split
    · exact (leads_markLagging t).bind fun _ u _ => ending condition u
    · exact ending condition t

end Warren.Handling
