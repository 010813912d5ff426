import Warren.Proofs.Controller.Sparing

/-!
# Jobs that are given up because a report cannot be worked off

Whatever fails while a report is followed, it fails before anything is told to the job manager,
handed to the cleanup or limited in time: `halts_follow`. So what comes after it finds the job as
the report found it, and gives the job up once. `surrendered_take` says what that amounts to.
-/

namespace Warren

/-- A notice that raises an exception for some job. -/
def Notice.isException : Notice → Bool
  | .jobRaise .. => true
  | _ => false

namespace Case

/-- Nothing was told or handed over, and the job is as far as it was: it is torn down if it was
before, and no time limit was started. -/
structure Withheld (c t : Case) : Prop where
  id : t.record.id = c.record.id
  tornDown : t.record.tornDown = c.record.tornDown
  untimed : c.record.timer = none → t.record.timer = none
  notices : t.world.notices = c.world.notices
  cleanups : t.world.cleanups = c.world.cleanups

instance : Std.Refl Withheld := ⟨fun _ => ⟨rfl, rfl, id, rfl, rfl⟩⟩

instance : Trans Withheld Withheld Withheld where
  trans h h' := ⟨h'.id.trans h.id, h'.tornDown.trans h.tornDown, h'.untimed ∘ h.untimed,
    h'.notices.trans h.notices, h'.cleanups.trans h.cleanups⟩

end Case

namespace Handling

open Case (Withheld)

variable {site : Site} {w : Workflow} {object : Json} {c t : Case} {α β : Type}

/-! ### Faults come first -/

/-- Work that cannot fail. -/
def Sure (work : Handling α) (c : Case) : Prop := Yields (fun _ _ => True) (fun _ _ => False) work c

/-- Work that fails, if it does, before anything was told or handed over. -/
def Halts (work : Handling α) (c : Case) : Prop :=
  Yields (fun _ _ => True) (fun _ t => Withheld c t) work c

theorem sure_of_run {x : Handling α} {a : α} (h : x.run c = (.ok a, t)) : Sure x c :=
  .of_ok h trivial

theorem sure_of_yields {P : α → Case → Prop} {x : Handling α}
    (h : Yields P (fun _ _ => False) x c) : Sure x c :=
  h.mono (fun _ _ _ => trivial) fun _ _ => id

theorem Sure.bind {x : Handling α} {f : α → Handling β} (hx : Sure x c)
    (hf : ∀ a t, Sure (f a) t) : Sure (x >>= f) c := Yields.bind hx fun a t _ => hf a t

theorem Sure.halts {x : Handling α} (h : Sure x c) : Halts x c :=
  h.mono (fun _ _ => id) fun _ _ => False.elim

theorem Halts.bind {x : Handling α} {f : α → Handling β} (hx : Halts x c)
    (hf : ∀ a t, Sure (f a) t) : Halts (x >>= f) c :=
  Yields.bind hx fun a t _ => (hf a t).mono (fun _ _ => id) fun _ _ => False.elim

theorem halts_after {x : Handling α} (hct : Withheld c t) (h : Halts x t) :
    Yields (fun _ _ => True) (fun _ u => Withheld c u) x t :=
  h.mono (fun _ _ => id) fun _ _ htu => Trans.trans hct htu

theorem halts_call (conversation : Api.Call α) (c : Case) : Halts (call conversation) c := by
  unfold Halts Yields
  rw [run_call]
  cases (conversation.run c.world.api).1 with
  | ok a => trivial
  | error fault => exact ⟨rfl, rfl, id, rfl, rfl⟩

theorem sure_tell (notice : JobId → Notice) (c : Case) : Sure (tell notice) c :=
  sure_of_run (run_tell notice c)

theorem sure_saveTiming (object : Json) (c : Case) : Sure (saveTiming object) c :=
  sure_of_yields (yields_saveTiming object c)

theorem sure_startTimer (site : Site) (stage : Stage) (c : Case) :
    Sure (startTimer site stage) c := sure_of_yields (yields_startTimer site stage c)

theorem sure_react (site : Site) (w : Workflow) (object : Json) (c : Case) :
    Sure (react site w object) c := by
  obtain ⟨t, hrun⟩ := exists_run_react site w object c
  exact sure_of_run hrun

theorem halts_applyBreakdowns (c : Case) : Halts (applyBreakdowns site w object) c := by
  have consumed : Yields (fun _ t => Withheld c t) (fun _ t => Withheld c t)
      (update fun r => { r with resources := .consumed }) c :=
    .of_ok (t := { c with record := { c.record with resources := .consumed } }) rfl
      ⟨rfl, rfl, id, rfl, rfl⟩
  -- the resources are given away whether or not the breakdowns can be read then
  refine yields_record (.bind consumed fun _ t ht => halts_after ht ?_)
  cases c.record.resources with
  | consumed => exact (sure_of_run (t := t) rfl).halts
  | unknown => exact (sure_tell _ t).halts
  | pending resources =>
    refine (halts_call (breakdowns w) t).bind fun found u => ?_
    split
    · exact sure_of_run (t := { u with world := u.world.crash }) rfl
    · exact (sure_tell _ u).bind fun _ v => sure_tell _ v

theorem halts_act (action : Stage.Action) (c : Case) : Halts (act site w object action) c := by
  cases action with
  | applyBreakdowns => exact halts_applyBreakdowns c
  | advance next =>
    refine yields_record (Halts.bind (halts_call _ c) fun _ t => ?_)
    exact (sure_saveTiming object t).bind fun _ u => sure_startTimer site next u
  | releaseProlog =>
    refine (halts_call (token w) c).bind fun found t => ?_
    exact (sure_tell _ t).bind fun _ u => sure_saveTiming object u
  | moveToTeardown =>
    have torn : Sure (tearDown site object) c := sure_of_run rfl
    exact torn.halts
  | finish => exact (sure_of_yields (yields_finish object c)).halts

theorem withheld_freed (stage : Stage) (c : Case) : Withheld c (freed stage c) := by
  unfold freed
  split
  · exact ⟨rfl, rfl, fun _ => rfl, rfl, rfl⟩
  · exact Std.Refl.refl c

theorem halts_complete (stage : Stage) (c : Case) : Halts (complete site w object stage) c := by
  have acting : Halts (act site w object stage.onComplete) (freed stage c) :=
    halts_act stage.onComplete (freed stage c)
  have acted := halts_after (withheld_freed stage c) acting
  unfold Halts Yields at acted ⊢
  rw [run_complete]
  exact acted

/-- A report that cannot be followed is dropped before anything came of it. -/
theorem halts_follow (c : Case) : Halts (follow site w object) c := by
  have reacting (_ : Unit) (t : Case) : Sure (react site w object) t := sure_react site w object t
  cases followed site w object c with
  | idle _ hrun => exact Yields.congr hrun (sure_of_run (t := c) rfl).halts
  | parting _ _ _ hrun => exact Yields.congr hrun ((halts_call _ c).bind reacting)
  | complete _ _ hrun => exact Yields.congr hrun ((halts_complete _ c).bind reacting)
  | working _ _ _ hrun => exact Yields.congr hrun (reacting () c).halts

/-! ### Jobs that are given up -/

/-- A job that is given up is torn down, once, and one exception is raised for it. -/
structure Surrendered (site : Site) (object : Json) (x : Dispatch) (c t : Case) : Prop where
  id : t.record.id = c.record.id
  tornDown : t.record.tornDown = true
  timer : t.record.timer = none
  sends : World.Sends x c.world t.world
  raised : x.notices.filter Notice.isException =
    [.raise c.record.id "DWS/Rabbit interactions failed"]
  handed : x.cleanups = if c.record.tornDown then [] else
    [.teardown c.record.id c.record.name (finalizersIn object) site.config.savedMovements]

theorem surrendered_giveUp (site : Site) (object : Json)
    (hrest : c.record.tornDown = true → c.record.timer = none) :
    ∃ x, Surrendered site object x c ((giveUp site object).run c).2 := by
  let failed : Notice := .raise c.record.id "DWS/Rabbit interactions failed"
  cases htorn : c.record.tornDown with
  | true =>
    have hrun : ((giveUp site object).run c).2 = { c with world := c.world.tell failed } := by
      rw [giveUp, run_bind_ok (run_record c), htorn]
      rfl
    rw [hrun]
    refine ⟨⟨[failed], []⟩, rfl, htorn, hrest htorn, ⟨rfl, (List.append_nil _).symm⟩, rfl, ?_⟩
    rw [htorn]
    rfl
  | false =>
    let saved : Notice := .kvsPut c.record.id
      (Dict.ofEntries (("rabbit_workflow", object) :: (timing? object).toList))
    let handed : Cleanup.Request :=
      .teardown c.record.id c.record.name (finalizersIn object) site.config.savedMovements
    have hrun : ((giveUp site object).run c).2 =
        ⟨{ c.record.cancelTimer with tornDown := true, condition := none },
          ((c.world.tell saved).handOver handed).tell failed⟩ := by
      rw [giveUp, run_bind_ok (run_record c), htorn]
      rfl
    rw [hrun]
    refine ⟨⟨[saved, failed], [handed]⟩, rfl, rfl, rfl, ⟨?_, rfl⟩, rfl, ?_⟩
    · exact List.append_assoc c.world.notices [saved] [failed]
    · rw [htorn]
      rfl

/-- A fault in a report leaves the job as the report found it, to be given up. -/
theorem surrendered_report {fault : Api.Fault}
    (hrest : c.record.tornDown = true → c.record.timer = none)
    (h : ((follow site w object).run c).1 = .error fault) :
    ∃ x, Surrendered site object x c ((report site w object).run c).2 := by
  have halts : Halts (follow site w object) c := halts_follow c
  obtain ⟨_, t, hrun, _⟩ | ⟨_, t, hrun, withheld⟩ := halts.cases
  · rw [hrun] at h
    cases h
  · rw [run_report, hrun]
    obtain ⟨x, given⟩ := surrendered_giveUp site object (c := t) fun htorn =>
      withheld.untimed (hrest (withheld.tornDown ▸ htorn))
    have hname : t.record.name = c.record.name := by rw [Record.name, withheld.id, Record.name]
    have hsends : World.Sends x c.world ((giveUp site object).run t).2.world :=
      ⟨withheld.notices ▸ given.sends.notices, withheld.cleanups ▸ given.sends.cleanups⟩
    refine ⟨x, given.id.trans withheld.id, given.tornDown, given.timer, hsends, ?_, ?_⟩
    · rw [given.raised, withheld.id]
    · rw [given.handed, withheld.tornDown, withheld.id, hname]

end Handling

namespace Controller

variable {site : Site} {c : Controller}

theorem sane_run {id : JobId} (hc : c.Kept) (hsane : (c.registry.recordOf id).Sane)
    (course : List Happening) : ((c.run site course).registry.recordOf id).Sane := by
  induction course generalizing c with
  | nil => exact hsane
  | cons h rest ih => exact ih (kept_step hc site h) (sane_step site hc hsane h)

theorem Reachable.sane (h : Reachable site c) (id : JobId) : (c.registry.recordOf id).Sane := by
  obtain ⟨world, course, rfl⟩ := h
  exact sane_run (kept_start world) (sane_fresh id .unknown) course

theorem take_report {event : Api.Event} {object : Json} {w : Workflow} (site : Site)
    (c : Controller) (hevent : event = .added object ∨ event = .modified object)
    (hreported : (Workflow.decode? object).filter isOurs = some w) :
    c.take site (.event event) =
      (work (c.registry.recordOf w.jobId) (Handling.report site w object) c).2 := by
  have hw : reported? event = some w := by
    rcases hevent with rfl | rfl <;> exact hreported
  have htake := take_event site c event
  rw [hw] at htake
  rcases htake with ⟨found, hfound, htake⟩ | ⟨⟨found, rfl⟩, _⟩
  · obtain rfl : found = object := by
      rcases hevent with rfl | rfl <;> simpa [eq_comm] using hfound
    exact htake
  · rcases hevent with h | h <;> cases h

/-- A report of a workflow that cannot be worked off: the job is torn down afterwards and no time
limit runs for it, exactly one exception was raised, its workflow was handed to the cleanup unless
that had been done before, and the other jobs are left alone. -/
theorem surrendered_take {event : Api.Event} {object : Json} {w : Workflow} {fault : Api.Fault}
    (hreach : Reachable site c) (hevent : event = .added object ∨ event = .modified object)
    (hreported : (Workflow.decode? object).filter isOurs = some w)
    (hfault : ((Handling.follow site w object).run (caseOf w.jobId c)).1 = .error fault) :
    let t := c.take site (.event event)
    ∃ r x, t.registry.find? w.jobId = some r ∧ r.tornDown = true ∧ r.timer = none ∧
      World.Sends x c.world t.world ∧
      x.notices.filter Notice.isException =
        [.raise w.jobId "DWS/Rabbit interactions failed"] ∧
      x.cleanups = (if (c.registry.recordOf w.jobId).tornDown then [] else
        [.teardown w.jobId w.jobId.workflowName (Handling.finalizersIn object)
          site.config.savedMovements]) ∧
      ∀ other, other ≠ w.jobId → t.registry.find? other = c.registry.find? other := by
  intro t
  have hid : (caseOf w.jobId c).record.id = w.jobId := (hreach.kept.recordOf w.jobId).1
  have hname : (caseOf w.jobId c).record.name = w.jobId.workflowName := by rw [Record.name, hid]
  obtain ⟨x, given⟩ := Handling.surrendered_report (hreach.sane w.jobId).untimed hfault
  let case : Case := ((Handling.report site w object).run (caseOf w.jobId c)).2
  have htake : t = ⟨c.registry.put case.record, case.world⟩ := take_report site c hevent hreported
  have hown : case.record.id = w.jobId := given.id.trans hid
  rw [htake]
  refine ⟨case.record, x, ?_, given.tornDown, given.timer, given.sends, ?_, ?_, ?_⟩
  · rw [Registry.find?_put, if_pos hown]
  · rw [given.raised, hid]
  · rw [given.handed, hid, hname]
    rfl
  · intro other hother
    rw [Registry.find?_put, if_neg (by rw [hown]; exact hother.symm)]

/-- A job that is past its run, whose time limit runs and whose workflow cannot be patched for the
moment. -/
def refusing : Controller :=
  let running := (Sample.start .postRun).take Sample.site (.request (.postRun Sample.job true))
  Sample.failing .patch Sample.unavailable running

/-- The theorem applies to the report that the stage is complete: the next stage cannot be asked
for. -/
theorem surrendered_take_refusing : ∃ w fault,
    let object := Sample.stored refusing
    let t := refusing.take Sample.site (.event (.modified object))
    Reachable Sample.site refusing ∧ (Workflow.decode? object).filter isOurs = some w ∧
      ((Handling.follow Sample.site w object).run (caseOf w.jobId refusing)).1 = .error fault ∧
      ∃ r x, t.registry.find? w.jobId = some r ∧ r.tornDown = true ∧ r.timer = none ∧
        World.Sends x refusing.world t.world ∧
        x.notices.filter Notice.isException =
          [.raise w.jobId "DWS/Rabbit interactions failed"] ∧
        x.cleanups = (if (refusing.registry.recordOf w.jobId).tornDown then [] else
          [.teardown w.jobId w.jobId.workflowName (Handling.finalizersIn object)
            Sample.site.config.savedMovements]) ∧
        ∀ other, other ≠ w.jobId → t.registry.find? other = refusing.registry.find? other := by
  have reachable : Reachable Sample.site refusing :=
    Sample.reachable_failing
      ((Sample.reachable_start .postRun).take (.request (.postRun Sample.job true))) _ _
  have hsome : ((Workflow.decode? (Sample.stored refusing)).filter isOurs).any (fun w =>
      match ((Handling.follow Sample.site w (Sample.stored refusing)).run
        (caseOf w.jobId refusing)).1 with
      | .ok _ => false
      | .error _ => true) = true := by decide +kernel
  obtain ⟨w, hreported, hfails⟩ := (Option.any_eq_true _ _).mp hsome
  cases hfault : ((Handling.follow Sample.site w (Sample.stored refusing)).run
      (caseOf w.jobId refusing)).1 with
  | ok _ => simp [hfault] at hfails
  | error fault =>
    exact ⟨w, fault, reachable, hreported, hfault,
      surrendered_take reachable (Or.inr rfl) hreported hfault⟩

end Controller

end Warren
