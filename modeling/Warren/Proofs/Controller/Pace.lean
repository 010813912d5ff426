import Warren.Proofs.Api.Grants
import Warren.Proofs.Controller.Absence
import Warren.Proofs.Controller.Retirement

/-!
# Time limits that keep pace with the stages

A time limit is started where a stage was asked for with success. `Paced` says what follows for the
limit of a job after some work: it ran before or was started in between, and it is the limit of the
stage that was asked for last, if that stage has one. `Steady` adds that no compute nodes were given
up. Reports of a workflow are steady, and the end of a time limit is paced.
-/

namespace Warren

open Api.Server (Asked Served granted?)

/-! ### Deeds -/

namespace Case

variable {site : Site} {P : Deed → Prop} {c t u : Case}

/-- A time limit that is started in a case ends after the time that its stage may take. -/
structure Starts (site : Site) (c : Case) (timer : Timer) : Prop where
  drawn : c.world.ticket ≤ timer.ticket
  limit : ∃ limit, site.config.timeouts.of timer.stage = some limit ∧
    timer.deadline = c.world.now + limit

/-- What deeds of a kind make of the time limit: a new one is of a stage for which one may be
started. -/
structure Limits (site : Site) (P : Deed → Prop) (c t : Case) : Prop where
  now : t.world.now = c.world.now
  ticket_le : c.world.ticket ≤ t.world.ticket
  timer : ∀ timer, t.record.timer = some timer →
    c.record.timer = some timer ∨ Starts site c timer ∧ P (.startTimer timer.stage)

theorem Starts.before {timer : Timer} (h : Starts site t timer) (hnow : t.world.now = c.world.now)
    (hle : c.world.ticket ≤ t.world.ticket) : Starts site c timer :=
  ⟨Nat.le_trans hle h.drawn, hnow ▸ h.limit⟩

theorem Limits.trans (h : Limits site P c t) (h' : Limits site P t u) : Limits site P c u := by
  refine ⟨h'.now.trans h.now, Nat.le_trans h.ticket_le h'.ticket_le, fun timer htimer => ?_⟩
  rcases h'.timer timer htimer with hold | ⟨hnew, hP⟩
  · exact h.timer timer hold
  · exact Or.inr ⟨hnew.before h.now h.ticket_le, hP⟩

theorem timer_apply_startTimer {stage : Stage} {timer : Timer}
    (h : ((Deed.startTimer stage).apply site c).record.timer = some timer) :
    c.record.timer = some timer ∨ Starts site c timer ∧ timer.stage = stage := by
  rw [Deed.apply, Handling.state_run_startTimer] at h
  cases hlimit : site.config.timeouts.of stage with
  | none =>
    rw [hlimit] at h
    exact Or.inl h
  | some limit =>
    rw [hlimit] at h
    dsimp only at h
    split at h
    · exact Or.inl h
    · obtain rfl := Option.some.inj h
      exact Or.inr ⟨⟨Nat.le_refl _, limit, hlimit, rfl⟩, rfl⟩

theorem limits_apply {d : Deed} (hP : P d) (c : Case) : Limits site P c (d.apply site c) := by
  have ticks : Ticks c (d.apply site c) := ticks_apply d c
  refine ⟨ticks.now, ticks.ticket_le, fun timer htimer => ?_⟩
  cases d with
  | startTimer stage =>
    refine (timer_apply_startTimer htimer).imp_right fun ⟨hnew, hstage⟩ => ⟨hnew, ?_⟩
    rw [hstage]
    exact hP
  | cancelTimer => cases htimer
  | tearDown => cases htimer
  | lose => cases htimer
  | _ => exact Or.inl htimer

theorem Did.limits (h : Did site P c t) : Limits site P c t :=
  h.keeps (I := Limits site P) (fun _ => ⟨rfl, Nat.le_refl _, fun _ h => Or.inl h⟩)
    (fun _ _ _ => .trans) fun c _ hP _ => limits_apply hP c

theorem Did.tolerance (h : Did site P c t) (hP : ∀ tolerance, ¬P (.spend tolerance)) :
    t.record.tolerance = c.record.tolerance := by
  refine h.keeps (I := fun c t => t.record.tolerance = c.record.tolerance) (fun _ => rfl)
    (fun _ _ _ h h' => h'.trans h) fun c d hd _ => ?_
  cases d with
  | startTimer stage =>
    rcases Deed.apply_startTimer_cases site stage c with h | ⟨timer, _, h⟩ <;> rw [h]
  | spend tolerance => exact absurd hd (hP tolerance)
  | _ => rfl

theorem Did.served (h : Did site P c t) : Served c.world.api t.world.api :=
  h.asked.mono fun _ _ => trivial

/-! ### Pace -/

/-- The stage of the workflow of a job that was asked for last, with success, between two cases. -/
def granted? (c t : Case) : Option Stage :=
  Api.Server.granted? c.record.name c.world.api t.world.api

/-- Whether the time limit of a job may be of a stage, after a stage was asked for or none: it is of
the stage that was asked for if that one has a limit, and goes on if none was. -/
def Suits (site : Site) (c : Case) (stage : Stage) : Option Stage → Prop
  | none => c.record.timerStage = some stage
  | some next => (site.config.timeouts.of next).isSome = true → stage = next

/-- From one case to another, the time limit of the job kept pace with its workflow. -/
structure Paced (site : Site) (c t : Case) : Prop where
  id : t.record.id = c.record.id
  now : t.world.now = c.world.now
  ticket_le : c.world.ticket ≤ t.world.ticket
  served : Served c.world.api t.world.api
  timer : ∀ timer, t.record.timer = some timer →
    (c.record.timer = some timer ∨ Starts site c timer) ∧
      Suits site c timer.stage (granted? c t)

/-- The time limit kept pace, and no compute nodes were given up. -/
structure Steady (site : Site) (c t : Case) : Prop extends Paced site c t where
  tolerance : t.record.tolerance = c.record.tolerance

theorem timerStage_of_timer {r : Record} {timer : Timer} (h : r.timer = some timer) :
    r.timerStage = some timer.stage := by
  rw [Record.timerStage, h, Option.map_some]

theorem Paced.refl (c : Case) : Paced site c c := by
  refine ⟨rfl, rfl, Nat.le_refl _, Std.Refl.refl c.world.api, fun timer htimer => ?_⟩
  refine ⟨Or.inl htimer, ?_⟩
  rw [granted?, Api.Server.granted?_self]
  exact timerStage_of_timer htimer

theorem granted?_trans (h : Paced site c t) (h' : Served t.world.api u.world.api) :
    granted? c u = (granted? t u).or (granted? c t) := by
  have hname : t.record.name = c.record.name := congrArg JobId.workflowName h.id
  rw [granted?, granted?, granted?, hname]
  exact Api.Server.granted?_trans h.served h'

theorem Paced.trans (h : Paced site c t) (h' : Paced site t u) : Paced site c u := by
  refine ⟨h'.id.trans h.id, h'.now.trans h.now, Nat.le_trans h.ticket_le h'.ticket_le,
    Trans.trans h.served h'.served, fun timer htimer => ?_⟩
  obtain ⟨horigin, hsuits⟩ := h'.timer timer htimer
  constructor
  · rcases horigin with hold | hnew
    · exact (h.timer timer hold).1
    · exact Or.inr (hnew.before h.now h.ticket_le)
  · rw [granted?_trans h h'.served]
    cases hgrant : granted? t u with
    | some next =>
      rw [hgrant] at hsuits
      exact hsuits
    | none =>
      -- the limit is of the stage that it was of in between
      rw [hgrant] at hsuits
      obtain ⟨before, hbefore, hstage⟩ := Option.map_eq_some_iff.mp hsuits
      rw [Option.none_or, ← hstage]
      exact (h.timer before hbefore).2

instance : Trans (Steady site) (Steady site) (Steady site) :=
  ⟨fun h h' => ⟨h.toPaced.trans h'.toPaced, h'.tolerance.trans h.tolerance⟩⟩

instance : Std.Refl (Steady site) := ⟨fun c => ⟨.refl c, rfl⟩⟩

theorem paced_of_did (h : Did site P c t) (still : ∀ d, P d → d.Still)
    (starts : ∀ stage, P (.startTimer stage) → c.record.timerStage = some stage) :
    Paced site c t := by
  have limits := h.limits
  have hgrant : granted? c t = none :=
    (h.mono still).asked_of_still.granted? fun _ hq => hq.not_setsStage _
  refine ⟨h.id, limits.now, limits.ticket_le, h.served, fun timer htimer => ?_⟩
  rw [hgrant]
  rcases limits.timer timer htimer with hold | ⟨hnew, hP⟩
  · exact ⟨Or.inl hold, timerStage_of_timer hold⟩
  · exact ⟨Or.inr hnew, starts _ hP⟩

theorem steady_of_calm (h : Did site Deed.Calm c t) : Steady site c t :=
  ⟨paced_of_did h (fun _ => Deed.Calm.still) fun _ h => h.elim, h.tolerance fun _ h => h⟩

/-- A stage of the workflow of a job was just asked for, with success, and the limit of the stage is
still to be started. -/
structure Entered (stage : Stage) (c t : Case) : Prop where
  id : t.record.id = c.record.id
  now : t.world.now = c.world.now
  ticket_le : c.world.ticket ≤ t.world.ticket
  served : Served c.world.api t.world.api
  timer : t.record.timer = c.record.timer
  tolerance : t.record.tolerance = c.record.tolerance
  granted : granted? c t = some stage

theorem steady_startTimer {stage : Stage} (h : Entered stage c t) :
    Steady site c ((Handling.startTimer site stage).run t).2 := by
  change Steady site c ((Deed.startTimer stage).apply site t)
  have hticks : Ticks t ((Deed.startTimer stage).apply site t) := ticks_apply (.startTimer stage) t
  have hapi : ((Deed.startTimer stage).apply site t).world.api = t.world.api :=
    Deed.api_apply_of_silent (d := .startTimer stage) trivial t
  have hgrant : granted? c ((Deed.startTimer stage).apply site t) = some stage := by
    rw [granted?, hapi]
    exact h.granted
  have hsame : ((Deed.startTimer stage).apply site t).record.tolerance = t.record.tolerance := by
    rcases Deed.apply_startTimer_cases site stage t with happly | ⟨timer, _, happly⟩ <;> rw [happly]
  refine ⟨⟨(Deed.id_apply _ t).trans h.id, hticks.now.trans h.now,
    Nat.le_trans h.ticket_le hticks.ticket_le, hapi ▸ h.served, fun timer htimer => ⟨?_, ?_⟩⟩,
    hsame.trans h.tolerance⟩
  · rcases timer_apply_startTimer htimer with hold | ⟨hnew, _⟩
    · exact Or.inl (h.timer ▸ hold)
    · exact Or.inr (hnew.before h.now h.ticket_le)
  · rw [hgrant]
    intro hlimited
    obtain ⟨limit, hlimit⟩ := Option.isSome_iff_exists.mp hlimited
    rw [Deed.apply, Handling.state_run_startTimer, hlimit] at htimer
    dsimp only at htimer
    split at htimer
    · rename_i hstage
      rw [timerStage_of_timer htimer] at hstage
      exact Option.some.inj hstage
    · obtain rfl := Option.some.inj htimer
      rfl

theorem steady_of_asked {w : World} {P : Api.Request → Prop} (hnow : w.now = c.world.now)
    (hticket : c.world.ticket ≤ w.ticket) (hasked : Asked P c.world.api w.api)
    (hP : ∀ q, P q → ¬q.SetsStage c.record.name) : Steady site c { c with world := w } := by
  refine ⟨⟨rfl, hnow, hticket, hasked.mono fun _ _ => trivial, fun timer htimer => ?_⟩, rfl⟩
  have hgrant : granted? c { c with world := w } = none := hasked.granted? hP
  rw [hgrant]
  exact ⟨Or.inl htimer, timerStage_of_timer htimer⟩

theorem served_serve (c : Case) (q : Api.Request) : Served c.world.api (c.serve q).world.api :=
  Asked.one (P := fun _ => True) trivial c.world.api

theorem steady_refused {stage : Stage} {q : Api.Request}
    (hq : q = Api.stageRequest c.record.name stage)
    (hfault : (c.world.api.fault? q).isSome = true) : Steady site c (c.serve q) := by
  have hgrant : granted? c (c.serve q) = none := by
    have hnone : (c.world.api.fault? q).isNone = false := by simpa using hfault
    subst hq
    rw [granted?, Case.serve, Api.Server.granted?_stageRequest, hnone]
    rfl
  refine ⟨⟨rfl, rfl, Nat.le_refl _, served_serve c q, fun timer htimer => ⟨Or.inl htimer, ?_⟩⟩, rfl⟩
  rw [hgrant]
  exact timerStage_of_timer htimer

theorem entered_serve (c : Case) {stage : Stage}
    (hfault : c.world.api.fault? (Api.stageRequest c.record.name stage) = none) :
    Entered stage c (c.serve (Api.stageRequest c.record.name stage)) := by
  refine ⟨rfl, rfl, Nat.le_refl _, served_serve c _, rfl, rfl, ?_⟩
  rw [granted?, Case.serve, Api.Server.granted?_stageRequest, hfault]
  rfl

end Case

/-! ### Work on a job -/

namespace Handling

open Case (Did Paced Steady Entered)

variable {site : Site} {c : Case}

theorem yields_requestStage (site : Site) (stage : Stage) (c : Case) :
    Yields (fun _ t => Entered stage c t) (fun _ t => Steady site c t)
      (call (requestStage c.record.name stage)) c := by
  have hcall := run_call (requestStage c.record.name stage) c
  rcases Api.Server.run_requestStage_cases c.record.name stage c.world.api with
    ⟨hrun, hfault⟩ | ⟨fault, hrun, hfault⟩
  · rw [hrun] at hcall
    exact .of_ok hcall (Case.entered_serve c hfault)
  · rw [hrun] at hcall
    exact .of_error hcall (Case.steady_refused rfl (Option.isSome_iff_exists.mpr ⟨fault, hfault⟩))

theorem steady_advance (next : Stage) (object : Json) (c : Case) :
    Leads (Steady site) (advance site next object) c := by
  refine leads_record (Yields.leads ((yields_requestStage site next c).bind fun _ t entered => ?_))
  have saved : Yields (fun _ u => Entered next c u) (fun _ u => Steady site c u)
      (saveTiming object) t := by
    unfold saveTiming
    cases timing? object with
    | none => exact .of_ok rfl entered
    | some entry => exact .of_ok rfl ⟨entered.1, entered.2, entered.3, entered.4, entered.5,
        entered.6, entered.7⟩
  refine saved.bind fun _ u entered => ?_
  have started : Steady site c ((startTimer site next).run u).2 := Case.steady_startTimer entered
  unfold Yields
  split <;> rename_i hrun <;> rw [hrun] at started <;> exact started

/-- A report of a workflow keeps pace with it. -/
theorem steady_report (w : Workflow) (object : Json) (c : Case) :
    Leads (Steady site) (report site w object) c :=
  leads_report_of Case.steady_of_calm (fun _ _ _ _ => steady_advance _ object _) c

/-- The limit of a stage that is reported complete is cancelled before anything else is done. -/
theorem run_report_of_timer {w : Workflow} (hcomplete : w.isComplete w.desired = true)
    (hstage : c.record.timerStage = some w.desired) (hbusy : ¬Idle w c.record) (object : Json) :
    (report site w object).run c = (report site w object).run ⟨c.record.cancelTimer, c.world⟩ := by
  have hcompleted : (complete site w object w.desired).run c =
      (complete site w object w.desired).run ⟨c.record.cancelTimer, c.world⟩ := by
    have hfreed : freed w.desired c = ⟨c.record.cancelTimer, c.world⟩ := if_pos hstage
    rw [run_complete, run_complete, hfreed, freed_of_ne (by simp)]
  have hfollow : (follow site w object).run c =
      (follow site w object).run ⟨c.record.cancelTimer, c.world⟩ := by
    rw [run_follow_of_complete site hcomplete hbusy,
      run_follow_of_complete (c := ⟨c.record.cancelTimer, c.world⟩) site hcomplete hbusy,
      run_bind_apply, hcompleted, ← run_bind_apply]
  rw [run_report, hfollow, ← run_report]

theorem stage_ne_of_report {w : Workflow} {timer : Timer} (object : Json)
    (hcomplete : w.isComplete w.desired = true)
    (huntimed : c.record.tornDown = true → c.record.timer = none)
    (hdeleted : c.record.deleted = false)
    (hgrant : Case.granted? c ((report site w object).run c).2 = none)
    (htimer : ((report site w object).run c).2.record.timer = some timer) :
    timer.stage ≠ w.desired := by
  intro hstage
  have steady (from' : Case) : Steady site from' ((report site w object).run from').2 :=
    steady_report w object from'
  have hran : Case.Suits site c timer.stage none := by
    rw [← hgrant]
    exact ((steady c).timer timer htimer).2
  rw [hstage] at hran
  have hlive : c.record.tornDown = false := by
    cases htorn : c.record.tornDown with
    | false => rfl
    | true =>
      rw [Case.Suits, Record.timerStage, huntimed htorn] at hran
      cases hran
  -- the limit ran before, so it is cancelled first, and nothing starts it again
  let idle : Case := ⟨c.record.cancelTimer, c.world⟩
  have hbusy : ¬Idle w c.record := not_idle_of_complete hcomplete (fun _ => hlive) hdeleted
  have hrun : (report site w object).run c = (report site w object).run idle :=
    run_report_of_timer hcomplete hran hbusy object
  rw [hrun] at hgrant htimer
  have hstill : Case.Suits site idle timer.stage none := by
    rw [← (hgrant : Case.granted? idle _ = none)]
    exact ((steady idle).timer timer htimer).2
  cases hstill

theorem paced_expire (stage : Stage) (c : Case) : Leads (Paced site) (expire site stage) c := by
  by_cases hstage : c.record.timerStage = some stage
  · have expired : Did site (Deed.Extends stage) c ((expire site stage).run c).2 :=
      leads_expire stage c
    refine Case.paced_of_did expired (fun _ => Deed.Extends.still) fun next hnext => ?_
    rw [hstage]
    exact congrArg some (Eq.symm hnext)
  · unfold Leads
    rw [Controller.run_expire_of_ne hstage]
    exact Case.Paced.refl c

end Handling

end Warren
