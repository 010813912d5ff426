import Warren.Proofs.Controller.Blocked
import Warren.Proofs.Controller.Cadence
import Warren.Proofs.Controller.Lifespan
import Warren.Service.Run

/-!
# Alarms

When the time limit of a stage is reached, an alarm is queued, which the controller heeds at any
later time. It compares no more than the stage of the alarm with the stage of the limit that runs by
then: an alarm has an effect exactly if they are the same (`Sound.heeds_iff`). `timely_iff` says
when such an alarm comes in time: the stage was the last one that was asked for, it was not reported
complete since then, and its limit is over.

A desk is a controller with its queue of alarms, and a note of one job that says what the controller
does not keep. `Sound` is the invariant of its runs.
-/

namespace Warren

/-- The message that the time limit of a job was reached. The controller does not get to see the
ticket of the limit. -/
structure Alarm where
  id : JobId
  stage : Stage
  ticket : Nat
deriving DecidableEq

/-- What there is to know of the stages of a job. -/
structure Note where
  /-- The stage that was asked for last. -/
  stage : Option Stage
  /-- The stages that were reported complete since then. -/
  completed : List Stage
  /-- Those that were reported when the deletion of the workflow had been asked for. -/
  overlooked : List Stage
  /-- When the time limit was started that runs. -/
  started : Span

/-- A controller with the alarms that wait for it, and the note of a job. -/
structure Desk where
  controller : Controller
  /-- The alarms that are not heeded yet, the oldest first. -/
  alarms : List Alarm
  note : Note

/-- Something that happens to a desk. -/
inductive Beat where
  | request (asked : Request)
  | event (change : Api.Event)
  | sweep
  /-- The time limit of a job is reached, if it is over by now. -/
  | ring (id : JobId)
  /-- One of the alarms is heeded. -/
  | heed (n : Nat)
  /-- The surroundings change, the clock goes on, tickets are drawn, and the cleanup asks for the
  last stage of some workflows. -/
  | outside (world : World) (drawn : Nat) (cleaned : List JobId)

/-- The stage of a job that a turn reports complete. -/
def Turn.completed? (id : JobId) : Turn → Option Stage
  | .event change =>
    match Controller.reported? change with
    | some w => if w.jobId = id ∧ w.isComplete w.desired = true then some w.desired else none
    | none => none
  | _ => none

/-- The time limit that runs for a job. -/
def Controller.timer? (id : JobId) (c : Controller) : Option Timer := (c.registry.recordOf id).timer

namespace Note

def blank : Note := ⟨none, [], [], .zero⟩

/-- The note after a turn that led from one controller to another. -/
def after (note : Note) (id : JobId) (turn : Turn) (c t : Controller) : Note :=
  let granted := Api.Server.granted? id.workflowName c.world.api t.world.api
  let reports := (turn.completed? id).toList
  { stage := granted.or note.stage
    completed := if granted.isSome then [] else note.completed ++ reports
    overlooked := if granted.isSome then [] else
      note.overlooked ++ if (c.registry.recordOf id).deleted then reports else []
    started := if t.timer? id = c.timer? id then note.started else t.world.now }

/-- The note after the cleanup asked for the last stage. -/
def cleaned (note : Note) : Note :=
  { note with stage := some .teardown, completed := [], overlooked := [] }

end Note

namespace Desk

variable {site : Site} {id : JobId} {d : Desk}

def start (world : World) : Desk := ⟨.start world, [], .blank⟩

def take (site : Site) (id : JobId) (turn : Turn) (d : Desk) : Desk :=
  let t := d.controller.take site turn
  { d with controller := t, note := d.note.after id turn d.controller t }

/-- The alarm of a time limit is given once, and not before the limit is over. -/
def ring (job : JobId) (d : Desk) : Desk :=
  match d.controller.timer? job with
  | some timer =>
    if timer.fired = false ∧ timer.deadline ≤ d.controller.world.now then
      { d with
        controller := d.controller.ring job
        alarms := d.alarms ++ [⟨job, timer.stage, timer.ticket⟩] }
    else d
  | none => d

def heed (site : Site) (id : JobId) (n : Nat) (d : Desk) : Desk :=
  match d.alarms[n]? with
  | some alarm =>
    { d.take site id (.timeout alarm.id alarm.stage) with alarms := d.alarms.eraseIdx n }
  | none => d

def outside (site : Site) (id : JobId) (world : World) (drawn : Nat) (cleaned : List JobId)
    (d : Desk) : Desk :=
  let world := { world with now := d.controller.world.now.longer world.now }
  { d with
    controller := d.controller.step site (.outside world drawn)
    note := if id ∈ cleaned then d.note.cleaned else d.note }

/-- The desk after something happened, with the note of a job. -/
def step (site : Site) (id : JobId) (d : Desk) : Beat → Desk
  | .request asked => d.take site id (.request asked)
  | .event change => d.take site id (.event change)
  | .sweep => d.take site id .sweep
  | .ring job => d.ring job
  | .heed n => d.heed site id n
  | .outside world drawn cleaned => d.outside site id world drawn cleaned

def run (site : Site) (id : JobId) (d : Desk) (beats : List Beat) : Desk :=
  beats.foldl (step site id) d

/-- A desk that some course of beats leads to, with the note of a job. -/
def Reachable (site : Site) (id : JobId) (d : Desk) : Prop :=
  ∃ world beats, d = (start world).run site id beats

/-- The controller does something about an alarm: it gives compute nodes up, ends the job or tears
its workflow down. -/
def Heeds (site : Site) (d : Desk) (alarm : Alarm) : Prop :=
  Controller.dispatched site d.controller (.turn (.timeout alarm.id alarm.stage)) ≠ .empty

/-- It is time to heed an alarm of a stage: it was the last one that was asked for, it was not
reported complete since then, and as much time went by since the limit that runs was started as the
stage may take. -/
structure Timely (site : Site) (d : Desk) (stage : Stage) : Prop where
  asked : d.note.stage = some stage
  incomplete : stage ∉ d.note.completed
  elapsed : ∃ limit, site.config.timeouts.of stage = some limit ∧
    d.note.started + limit ≤ d.controller.world.now

/-! ### The invariant -/

/-- What is known of the time limit that runs for a job. -/
structure Runs (site : Site) (id : JobId) (d : Desk) (timer : Timer) : Prop where
  limit : ∃ limit, site.config.timeouts.of timer.stage = some limit ∧
    timer.deadline = d.note.started + limit
  asked : ∃ next, d.note.stage = some next ∧
    ((site.config.timeouts.of next).isSome = true → timer.stage = next)
  completed : timer.stage ∈ d.note.completed → timer.stage ∈ d.note.overlooked
  rung : ∀ alarm ∈ d.alarms, alarm.id = id → alarm.ticket = timer.ticket →
    timer.deadline ≤ d.controller.world.now

/-- The invariant of a desk: its alarms were given by limits that were drawn already, and what is
noted fits the limit that runs. -/
structure Sound (site : Site) (id : JobId) (d : Desk) : Prop where
  kept : d.controller.Kept
  sane : (d.controller.registry.recordOf id).Sane
  overlooked : ∀ stage ∈ d.note.overlooked, stage ∈ d.note.completed
  issued : ∀ alarm ∈ d.alarms, alarm.ticket < d.controller.world.ticket
  runs : ∀ timer, d.controller.timer? id = some timer → Runs site id d timer

end Desk

/-! ### What an alarm leads to -/

namespace Case

variable {c t u : Case}

/-- Something is told on the way. -/
def Speaks (c t : Case) : Prop := ∃ x, World.Sends x c.world t.world ∧ x.notices ≠ []

theorem Speaks.after (h : Speaks t u) (before : Deals c t) : Speaks c u := by
  obtain ⟨y, hy, htold⟩ := h
  obtain ⟨x, dealt⟩ := before
  exact ⟨x.append y, dealt.sends.trans hy, fun h => htold (List.append_eq_nil_iff.mp h).2⟩

theorem Speaks.before (h : Speaks c t) (after : Deals t u) : Speaks c u := by
  obtain ⟨x, hx, htold⟩ := h
  obtain ⟨y, dealt⟩ := after
  exact ⟨x.append y, hx.trans dealt.sends, fun h => htold (List.append_eq_nil_iff.mp h).1⟩

theorem speaks_tell (notice : Notice) (record : Record) (c : Case) :
    Speaks c ⟨record, c.world.tell notice⟩ :=
  ⟨⟨[notice], []⟩, ⟨rfl, (List.append_nil _).symm⟩, List.cons_ne_nil _ _⟩

end Case

namespace Handling

open Case (Deals Speaks speaks_tell)

variable {site : Site} {c : Case}

theorem speaks_overrun (stage : Stage) (c : Case) : Leads Speaks (overrun site stage) c := by
  change Speaks c
    ((tearDownStuck site stage).run ⟨c.record, c.world.tell (.raise c.record.id _)⟩).2
  exact (speaks_tell _ _ c).before (deals_tearDownStuck stage _)

theorem speaks_dispense (htorn : c.record.tornDown = false) (stage : Stage)
    (nodes : List String) : Leads Speaks (dispense site stage nodes) c := by
  let left : Case := {
    record := { c.record with tolerance := c.record.tolerance - UInt32.ofNat nodes.length }
    world := c.world.tell (.nodeFailure c.record.id nodes) }
  have told : Speaks c left := speaks_tell _ _ c
  have hlive : left.record.tornDown = false := htorn
  have started : Deals left ((startTimer site stage).run left).2 := deals_startTimer hlive stage
  exact told.before started

theorem speaks_expire {stage : Stage} (hstage : c.record.timerStage = some stage)
    (htorn : c.record.tornDown = false) : Leads Speaks (expire site stage) c := by
  let idle : Case := ⟨c.record.cancelTimer, c.world⟩
  have looked : Deals idle ((dispensable stage).run idle).2 := deals_dispensable stage idle
  obtain ⟨found, world, hrun, _⟩ := exists_run_dispensable stage idle
  rw [hrun] at looked
  have spoken : Speaks idle ((expire site stage).run c).2 := by
    rw [Controller.run_expire hstage htorn, run_bind_ok hrun]
    cases found with
    | none => exact Speaks.after (speaks_overrun stage _) looked
    | some nodes =>
      let t : Case := ⟨idle.record, world⟩
      have hlive : t.record.tornDown = false := htorn
      exact Speaks.after (speaks_dispense hlive stage nodes) looked
  exact spoken

end Handling

namespace Controller

variable {site : Site} {id : JobId} {c t : Controller}

theorem find?_of_timer? {timer : Timer} (h : c.timer? id = some timer) :
    ∃ r, c.registry.find? id = some r ∧ r.timer = some timer := by
  cases hf : c.registry.find? id with
  | none =>
    rw [timer?, Registry.recordOf_of_find?_none hf] at h
    cases h
  | some r =>
    rw [timer?, Registry.recordOf_of_find? hf] at h
    exact ⟨r, rfl, h⟩

/-- The end of the limit of a stage has an effect exactly if a limit of that stage runs. -/
theorem dispatched_timeout_iff (stage : Stage) (hsane : (c.registry.recordOf id).Sane) :
    dispatched site c (.turn (.timeout id stage)) ≠ .empty ↔
      ∃ timer, c.timer? id = some timer ∧ timer.stage = stage := by
  constructor
  · intro h
    cases hf : c.registry.find? id with
    | none =>
      exact absurd (by rw [dispatched, take_timeout_of_none hf, World.since_self]) h
    | some r =>
      by_cases hstage : r.timerStage = some stage
      · obtain ⟨timer, htimer, hsame⟩ := Option.map_eq_some_iff.mp hstage
        exact ⟨timer, by rw [timer?, Registry.recordOf_of_find? hf, htimer], hsame⟩
      · have idle : (c.take site (.timeout id stage)).world = c.world := by
          have hrun : (Handling.expire site stage).run ⟨r, c.world⟩ = (.ok (), ⟨r, c.world⟩) :=
            run_expire_of_ne hstage
          rw [take_timeout hf, state_work, hrun]
        exact absurd (by rw [dispatched, idle, World.since_self]) h
  · rintro ⟨timer, htimer, rfl⟩ hempty
    obtain ⟨r, hf, hr⟩ := find?_of_timer? htimer
    rw [Registry.recordOf_of_find? hf] at hsane
    have hlive : r.tornDown = false := by
      cases htorn : r.tornDown with
      | false => rfl
      | true =>
        rw [hsane.untimed htorn] at hr
        cases hr
    have spoken : Leads Case.Speaks (Handling.expire site timer.stage) ⟨r, c.world⟩ :=
      Handling.speaks_expire (Case.timerStage_of_timer hr) hlive
    obtain ⟨x, hx, htold⟩ := spoken
    rw [dispatched, take_timeout hf, state_work, hx.since] at hempty
    exact htold (congrArg Dispatch.notices hempty)

theorem event_of_completed? {turn : Turn} {stage : Stage} (h : turn.completed? id = some stage) :
    ∃ change w, turn = .event change ∧ reported? change = some w ∧ w.jobId = id ∧
      w.isComplete w.desired = true ∧ w.desired = stage := by
  cases turn with
  | event change =>
    rw [Turn.completed?] at h
    cases hw : reported? change with
    | none =>
      rw [hw] at h
      cases h
    | some w =>
      rw [hw] at h
      dsimp only at h
      split at h
      · rename_i hboth
        exact ⟨change, w, rfl, hw, hboth.1, hboth.2, Option.some.inj h⟩
      · cases h
  | _ => cases h

theorem stage_ne_of_completed {turn : Turn} {stage : Stage} {timer : Timer} (hc : c.Kept)
    (hsane : (c.registry.recordOf id).Sane) (hturn : turn.completed? id = some stage)
    (hgrant : Api.Server.granted? id.workflowName c.world.api (c.take site turn).world.api = none)
    (hdeleted : (c.registry.recordOf id).deleted = false)
    (htimer : (c.take site turn).timer? id = some timer) : timer.stage ≠ stage := by
  obtain ⟨change, w, rfl, hw, rfl, hcomplete, rfl⟩ := event_of_completed? hturn
  have hevent := take_event site c change
  rw [hw] at hevent
  rcases hevent with ⟨object, _, htake⟩ | ⟨_, htake⟩
  · let reported : Case := ((Handling.report site w object).run (caseOf w.jobId c)).2
    have steady : Case.Steady site (caseOf w.jobId c) reported := Handling.steady_report w object _
    have hid : (caseOf w.jobId c).record.id = w.jobId := (hc.recordOf w.jobId).1
    have hname : (caseOf w.jobId c).record.name = w.jobId.workflowName :=
      congrArg JobId.workflowName hid
    have hfind : (work (c.registry.recordOf w.jobId)
        (Handling.report site w object) c).2.registry.find? w.jobId = some reported.record :=
      find?_work (steady.id.trans hid)
    rw [htake] at htimer hgrant
    rw [timer?, Registry.recordOf_of_find? hfind] at htimer
    have hnone : Case.granted? (caseOf w.jobId c) reported = none := by
      rw [Case.granted?, hname]
      exact hgrant
    exact Handling.stage_ne_of_report object hcomplete hsane.untimed hdeleted hnone htimer
  · rw [htake, timer?, Registry.recordOf, Dict.find?_erase, if_pos rfl] at htimer
    cases htimer

end Controller

namespace Desk

open Controller (Passed passed_take kept_take)

variable {site : Site} {id : JobId} {d : Desk} {timer : Timer}

theorem sound_start (site : Site) (id : JobId) (world : World) : Sound site id (start world) where
  kept := Controller.kept_start world
  sane := Controller.sane_fresh id .unknown
  overlooked _ h := h
  issued _ h := nomatch h
  runs _ h := nomatch h

/-! ### Turns -/

/-- The limit that runs after a turn ran before or was started in it, and suits the stage that was
asked for in it, if one was. -/
theorem paced_of_timer? (h : Sound site id d) {turn : Turn}
    (htimer : (d.controller.take site turn).timer? id = some timer) :
    (d.controller.timer? id = some timer ∨
        Case.Starts site (Controller.caseOf id d.controller) timer) ∧
      Case.Suits site (Controller.caseOf id d.controller) timer.stage
        (Api.Server.granted? id.workflowName d.controller.world.api
          (d.controller.take site turn).world.api) := by
  obtain ⟨s, hs, hstimer⟩ := Controller.find?_of_timer? htimer
  have paced := Controller.paced_take site id h.kept turn s hs
  have hname : (Controller.caseOf id d.controller).record.name = id.workflowName :=
    congrArg JobId.workflowName (h.kept.recordOf id).1
  have both := paced.timer timer hstimer
  rw [Case.granted?, hname] at both
  exact both

/-- The limit that runs after a turn is over when the time of its stage went by since it was
started, and no alarm was given for it too early. -/
theorem timed_take (h : Sound site id d) {turn : Turn}
    (htimer : (d.controller.take site turn).timer? id = some timer) :
    (∃ limit, site.config.timeouts.of timer.stage = some limit ∧
        timer.deadline = (d.take site id turn).note.started + limit) ∧
      ∀ alarm ∈ d.alarms, alarm.id = id → alarm.ticket = timer.ticket →
        timer.deadline ≤ (d.controller.take site turn).world.now := by
  have passed : Passed d.controller (d.controller.take site turn) := passed_take h.kept site turn
  have hstarted : (d.take site id turn).note.started =
      if (d.controller.take site turn).timer? id = d.controller.timer? id then d.note.started
      else (d.controller.take site turn).world.now := rfl
  rw [hstarted, passed.now]
  by_cases hsame : (d.controller.take site turn).timer? id = d.controller.timer? id
  · rw [if_pos hsame]
    have runs := h.runs timer (hsame.symm.trans htimer)
    exact ⟨runs.limit, runs.rung⟩
  · rw [if_neg hsame]
    have hnew : Case.Starts site (Controller.caseOf id d.controller) timer :=
      (paced_of_timer? h htimer).1.resolve_left fun hold => hsame (htimer.trans hold.symm)
    refine ⟨hnew.limit, fun alarm hmem _ hticket => ?_⟩
    have hold : alarm.ticket < d.controller.world.ticket := h.issued alarm hmem
    exact absurd (Nat.lt_of_lt_of_le hold hnew.drawn) (by rw [hticket]; exact Nat.lt_irrefl _)

/-- The limit that runs after a turn is of the stage that was asked for last, if that one has a
limit, and not of one that was reported complete since then. -/
theorem noted_take (h : Sound site id d) {turn : Turn}
    (htimer : (d.controller.take site turn).timer? id = some timer) :
    let note := (d.take site id turn).note
    (∃ next, note.stage = some next ∧
        ((site.config.timeouts.of next).isSome = true → timer.stage = next)) ∧
      (timer.stage ∈ note.completed → timer.stage ∈ note.overlooked) := by
  intro note
  have hnote : note = d.note.after id turn d.controller (d.controller.take site turn) := rfl
  have hsuits := (paced_of_timer? h htimer).2
  rw [hnote, Note.after]
  cases hgrant : Api.Server.granted? id.workflowName d.controller.world.api
      (d.controller.take site turn).world.api with
  | some next =>
    rw [hgrant] at hsuits
    exact ⟨⟨next, rfl, hsuits⟩, fun h => nomatch h⟩
  | none =>
    rw [hgrant] at hsuits
    obtain ⟨old, hold, hstage⟩ := Option.map_eq_some_iff.mp hsuits
    have runs : Runs site id d old := h.runs old hold
    refine ⟨hstage ▸ runs.asked, fun hcompleted => ?_⟩
    rcases List.mem_append.mp hcompleted with hmem | hmem
    · exact List.mem_append_left _ (hstage ▸ runs.completed (hstage ▸ hmem))
    · cases hdeleted : (d.controller.registry.recordOf id).deleted with
      | true => exact List.mem_append_right _ hmem
      | false =>
        have hreport : turn.completed? id = some timer.stage := Option.mem_toList.mp hmem
        exact absurd rfl
          (Controller.stage_ne_of_completed h.kept h.sane hreport hgrant hdeleted htimer)

theorem sound_take (h : Sound site id d) (turn : Turn) : Sound site id (d.take site id turn) where
  kept := kept_take h.kept site turn
  sane := Controller.sane_step site h.kept h.sane (.turn turn)
  overlooked := by
    intro stage hmem
    change stage ∈ (d.note.after id turn d.controller (d.controller.take site turn)).completed
    change stage ∈ (d.note.after id turn d.controller (d.controller.take site turn)).overlooked
      at hmem
    rw [Note.after] at hmem ⊢
    dsimp only at hmem ⊢
    split at hmem
    · cases hmem
    · rename_i hgrant
      rw [if_neg hgrant]
      rcases List.mem_append.mp hmem with hold | hnew
      · exact List.mem_append_left _ (h.overlooked stage hold)
      · split at hnew
        · exact List.mem_append_right _ hnew
        · cases hnew
  issued alarm hmem :=
    Nat.lt_of_lt_of_le (h.issued alarm hmem) (passed_take h.kept site turn).ticket_le
  runs timer htimer := by
    obtain ⟨hlimit, hrung⟩ := timed_take h htimer
    obtain ⟨hasked, hcompleted⟩ := noted_take h htimer
    exact ⟨hlimit, hasked, hcompleted, hrung⟩

/-! ### The clock and the surroundings -/

theorem Sound.fewer (h : Sound site id d) {alarms : List Alarm}
    (hsub : ∀ alarm ∈ alarms, alarm ∈ d.alarms) : Sound site id { d with alarms } where
  kept := h.kept
  sane := h.sane
  overlooked := h.overlooked
  issued alarm hmem := h.issued alarm (hsub alarm hmem)
  runs timer htimer :=
    have runs := h.runs timer htimer
    ⟨runs.limit, runs.asked, runs.completed, fun alarm hmem => runs.rung alarm (hsub alarm hmem)⟩

theorem sound_heed (h : Sound site id d) (n : Nat) : Sound site id (d.heed site id n) := by
  unfold heed
  split
  · exact (sound_take h _).fewer fun alarm hmem => List.mem_of_mem_eraseIdx hmem
  · exact h

theorem state_expire (s : Service) {job : JobId} (h : s.controller.timer? job = some timer) :
    (Service.expire job timer.ticket s).2 =
      if timer.fired = false then { s with
        controller := s.controller.ring job
        inbox := s.inbox ++ [.timeout job timer.stage] }
      else s := by
  obtain ⟨r, hf, htimer⟩ := Controller.find?_of_timer? h
  unfold Service.expire
  dsimp only [modify, modifyGet, MonadStateOf.modifyGet, StateT.modifyGet]
  rw [hf]
  dsimp only
  rw [htimer]
  dsimp only
  cases timer.fired with
  | true =>
    rw [if_neg (by simp), if_neg (by simp)]
    rfl
  | false =>
    rw [if_pos ⟨rfl, rfl⟩, if_pos rfl, Controller.ring, hf]
    dsimp only
    rw [htimer]
    rfl

/-- The service gives the alarm of a limit that is over as a desk does, whatever waits there. -/
theorem expire_of_due (s : Service) {job : JobId} (hdue : s.controller.timer? job = some timer)
    (hover : timer.deadline ≤ s.now) (alarms : List Alarm) (note : Note) :
    let d : Desk := ⟨s.controller, alarms, note⟩
    (Service.expire job timer.ticket s).2 = { s with
      controller := (d.ring job).controller
      inbox := s.inbox ++ ((d.ring job).alarms.drop alarms.length).map fun alarm =>
        .timeout alarm.id alarm.stage } := by
  intro d
  have hring : d.ring job = if timer.fired = false ∧ timer.deadline ≤ s.now then
      { d with
        controller := s.controller.ring job
        alarms := alarms ++ [⟨job, timer.stage, timer.ticket⟩] }
      else d := by
    rw [ring, hdue]
    rfl
  rw [state_expire s hdue, hring]
  cases timer.fired with
  | true => simp [d]
  | false => simp [hover]

theorem timer?_ring (hc : d.controller.Kept) (job : JobId) :
    (d.controller.ring job).timer? id =
      if job = id then (d.controller.timer? id).map fun timer => { timer with fired := true }
      else d.controller.timer? id := by
  rw [Controller.timer?, Controller.recordOf_ring hc, Controller.timer?]
  split <;> rfl

theorem runs_ring (h : Sound site id d) {job : JobId} {due : Timer}
    (hdue : d.controller.timer? job = some due)
    (hover : due.deadline ≤ d.controller.world.now)
    (htimer : (d.controller.ring job).timer? id = some timer) :
    Runs site id
      ⟨d.controller.ring job, d.alarms ++ [⟨job, due.stage, due.ticket⟩], d.note⟩ timer := by
  have hworld : (d.controller.ring job).world = d.controller.world := Controller.world_ring _ _
  rw [timer?_ring h.kept] at htimer
  by_cases hjob : job = id
  · subst hjob
    rw [if_pos rfl] at htimer
    obtain ⟨old, hold, rfl⟩ := Option.map_eq_some_iff.mp htimer
    have runs : Runs site job d old := h.runs old hold
    refine ⟨runs.limit, runs.asked, runs.completed, fun alarm hmem hid hticket => ?_⟩
    rw [hworld]
    rcases List.mem_append.mp hmem with hwaiting | hnew
    · exact runs.rung alarm hwaiting hid hticket
    · obtain rfl : old = due := Option.some.inj (hold.symm.trans hdue)
      exact hover
  · rw [if_neg hjob] at htimer
    have runs : Runs site id d timer := h.runs timer htimer
    refine ⟨runs.limit, runs.asked, runs.completed, fun alarm hmem hid hticket => ?_⟩
    rw [hworld]
    rcases List.mem_append.mp hmem with hwaiting | hnew
    · exact runs.rung alarm hwaiting hid hticket
    · obtain rfl := List.mem_singleton.mp hnew
      exact absurd hid hjob

theorem sound_ring (h : Sound site id d) (job : JobId) : Sound site id (d.ring job) := by
  unfold ring
  split
  · rename_i due hdue
    split
    · rename_i hover
      have sane : ((d.controller.step site (.ring job)).registry.recordOf id).Sane :=
        Controller.sane_step site h.kept h.sane (.ring job)
      refine ⟨h.kept.ring job, sane, h.overlooked, fun alarm hmem => ?_,
        fun timer htimer => runs_ring h hdue hover.2 htimer⟩
      rw [Controller.world_ring]
      rcases List.mem_append.mp hmem with hwaiting | hnew
      · exact h.issued alarm hwaiting
      · obtain rfl := List.mem_singleton.mp hnew
        exact (h.kept.recordOf job).2 due hdue
    · exact h
  · exact h

theorem sound_outside (h : Sound site id d) (world : World) (drawn : Nat) (cleaned : List JobId) :
    Sound site id (d.outside site id world drawn cleaned) := by
  have hnow : d.controller.world.now ≤ d.controller.world.now.longer world.now := by
    rw [Span.le_def, Span.nanos_longer]
    exact Nat.le_max_left _ _
  have kept : (d.outside site id world drawn cleaned).controller.Kept :=
    h.kept.world (Nat.le_add_right _ _)
  have sane : ((d.outside site id world drawn cleaned).controller.registry.recordOf id).Sane :=
    h.sane
  have issued (alarm : Alarm) (hmem : alarm ∈ d.alarms) :
      alarm.ticket < (d.outside site id world drawn cleaned).controller.world.ticket :=
    Nat.lt_of_lt_of_le (h.issued alarm hmem) (Nat.le_add_right _ _)
  have rung {timer : Timer} (runs : Runs site id d timer) (alarm : Alarm) (hmem : alarm ∈ d.alarms)
      (hid : alarm.id = id) (hticket : alarm.ticket = timer.ticket) :
      timer.deadline ≤ d.controller.world.now.longer world.now :=
    Nat.le_trans (runs.rung alarm hmem hid hticket) hnow
  by_cases hcleaned : id ∈ cleaned
  · have hnote : (d.outside site id world drawn cleaned).note = d.note.cleaned := if_pos hcleaned
    refine ⟨kept, sane, ?_, issued, fun timer htimer => ?_⟩
    · rw [hnote]
      exact fun _ h => h
    · have runs : Runs site id d timer := h.runs timer htimer
      -- the last stage has no limit
      refine ⟨?_, ?_, ?_, rung runs⟩ <;> rw [hnote]
      · exact runs.limit
      · exact ⟨.teardown, rfl, fun h => nomatch h⟩
      · exact fun h => h
  · have hnote : (d.outside site id world drawn cleaned).note = d.note := if_neg hcleaned
    refine ⟨kept, sane, ?_, issued, fun timer htimer => ?_⟩
    · rw [hnote]
      exact h.overlooked
    · have runs : Runs site id d timer := h.runs timer htimer
      refine ⟨?_, ?_, ?_, rung runs⟩ <;> rw [hnote]
      · exact runs.limit
      · exact runs.asked
      · exact runs.completed

theorem sound_step (h : Sound site id d) (beat : Beat) : Sound site id (d.step site id beat) := by
  cases beat with
  | request asked => exact sound_take h (.request asked)
  | event change => exact sound_take h (.event change)
  | sweep => exact sound_take h .sweep
  | ring job => exact sound_ring h job
  | heed n => exact sound_heed h n
  | outside world drawn cleaned => exact sound_outside h world drawn cleaned

theorem sound_run (h : Sound site id d) (beats : List Beat) :
    Sound site id (d.run site id beats) := by
  induction beats generalizing d with
  | nil => exact h
  | cons beat rest ih => exact ih (sound_step h beat)

theorem Reachable.sound (h : Reachable site id d) : Sound site id d := by
  obtain ⟨world, beats, rfl⟩ := h
  exact sound_run (sound_start site id world) beats

/-! ### Alarms in time -/

variable {alarm : Alarm}

theorem Sound.heeds_iff (h : Sound site alarm.id d) :
    Heeds site d alarm ↔
      ∃ timer, d.controller.timer? alarm.id = some timer ∧ timer.stage = alarm.stage :=
  Controller.dispatched_timeout_iff alarm.stage h.sane

/-- An alarm that has an effect is of the stage that was asked for last just if that one has a
limit: else the limit of a stage before it runs on. -/
theorem Runs.asked_iff (runs : Runs site id d timer) : d.note.stage = some timer.stage ↔
    ∃ next, d.note.stage = some next ∧ (site.config.timeouts.of next).isSome = true := by
  constructor
  · intro hasked
    obtain ⟨limit, hlimit, _⟩ := runs.limit
    exact ⟨timer.stage, hasked, Option.isSome_iff_exists.mpr ⟨limit, hlimit⟩⟩
  · rintro ⟨next, hnext, hlimited⟩
    obtain ⟨last, hlast, hsame⟩ := runs.asked
    obtain rfl : next = last := Option.some.inj (hnext.symm.trans hlast)
    rw [hsame hlimited]
    exact hnext

theorem Sound.incomplete_iff (h : Sound site id d) (runs : Runs site id d timer) :
    timer.stage ∉ d.note.completed ↔ timer.stage ∉ d.note.overlooked :=
  not_congr ⟨runs.completed, h.overlooked timer.stage⟩

theorem Runs.elapsed_iff (runs : Runs site id d timer) (hmem : alarm ∈ d.alarms)
    (hid : alarm.id = id) :
    (∃ limit, site.config.timeouts.of timer.stage = some limit ∧
        d.note.started + limit ≤ d.controller.world.now) ↔
      alarm.ticket = timer.ticket ∨ timer.deadline ≤ d.controller.world.now := by
  obtain ⟨limit, hlimit, hdeadline⟩ := runs.limit
  rw [hdeadline]
  constructor
  · rintro ⟨same, hsame, hover⟩
    obtain rfl : limit = same := Option.some.inj (hlimit.symm.trans hsame)
    exact Or.inr hover
  · rintro (hticket | hover)
    · refine ⟨limit, hlimit, ?_⟩
      rw [← hdeadline]
      exact runs.rung alarm hmem hid hticket
    · exact ⟨limit, hlimit, hover⟩

/-- An alarm that has an effect comes in time exactly if the stage that was asked for last has a
limit, no report that the stage of the alarm is complete was overlooked since then, and the alarm is
that of the limit that runs, or that limit is over as well. -/
theorem timely_iff (hreach : Reachable site alarm.id d) (hmem : alarm ∈ d.alarms)
    (heeds : Heeds site d alarm) :
    Timely site d alarm.stage ↔
      (∃ next, d.note.stage = some next ∧ (site.config.timeouts.of next).isSome = true) ∧
        alarm.stage ∉ d.note.overlooked ∧
        ∃ timer, d.controller.timer? alarm.id = some timer ∧
          (alarm.ticket = timer.ticket ∨ timer.deadline ≤ d.controller.world.now) := by
  have sound : Sound site alarm.id d := hreach.sound
  obtain ⟨timer, htimer, hstage⟩ := sound.heeds_iff.mp heeds
  have runs : Runs site alarm.id d timer := sound.runs timer htimer
  rw [← hstage]
  constructor
  · intro timely
    exact ⟨runs.asked_iff.mp timely.asked, (sound.incomplete_iff runs).mp timely.incomplete, timer,
      htimer, (runs.elapsed_iff hmem rfl).mp timely.elapsed⟩
  · rintro ⟨hasked, hincomplete, same, hsame, hover⟩
    obtain rfl : timer = same := Option.some.inj (htimer.symm.trans hsame)
    exact ⟨runs.asked_iff.mpr hasked, (sound.incomplete_iff runs).mpr hincomplete,
      (runs.elapsed_iff hmem rfl).mpr hover⟩

end Desk

namespace Sample

/-- A site where the setup is limited to a minute, and nothing else is limited. -/
def hasty : Site :=
  { site with
    config := { Configuration.standard 0 with timeouts := ⟨some (.seconds 60), none, none⟩ } }

/-- Requests for the job, a minute without reports of its workflow, and the end of its limit. -/
def minute (requests : List Request) : List Beat :=
  let beats := requests.map Beat.request
  let d := (Desk.start (start .proposal).world).run hasty job beats
  beats ++ [.outside { d.controller.world with now := .seconds 60 } 0 [], .ring job]

/-- The desk after that. -/
def due (requests : List Request) : Desk :=
  (Desk.start (start .proposal).world).run hasty job (minute requests)

theorem reachable_due (requests : List Request) : Desk.Reachable hasty job (due requests) :=
  ⟨_, _, rfl⟩

end Sample

namespace Desk

theorem heeds_of_raised {site : Site} {d : Desk} {alarm : Alarm}
    (h : Controller.Raised alarm.id d.controller
      (d.controller.take site (.timeout alarm.id alarm.stage))) : Heeds site d alarm := by
  intro hempty
  rw [Controller.Raised, ← Controller.dispatched.eq_1, hempty] at h
  cases h

/-- The end of a run was asked for before the setup was complete. The limit of the setup runs on and
costs the job its life. -/
theorem raised_overtaken :
    let d := Sample.due [Sample.setup, .postRun Sample.job true]
    let alarm : Alarm := ⟨Sample.job, .setup, 0⟩
    alarm ∈ d.alarms ∧ Heeds Sample.hasty d alarm ∧
      Controller.Raised Sample.job d.controller (d.heed Sample.hasty Sample.job 0).controller ∧
      d.note.stage = some .postRun ∧ ¬Timely Sample.hasty d alarm.stage := by
  intro d alarm
  have raised : Controller.Raised Sample.job d.controller
      (d.controller.take Sample.hasty (.timeout Sample.job .setup)) := by decide +kernel
  have asked : d.note.stage = some .postRun := by decide +kernel
  refine ⟨by decide +kernel, heeds_of_raised raised, by decide +kernel, asked, fun timely => ?_⟩
  have setup : d.note.stage = some .setup := timely.asked
  rw [asked] at setup
  cases setup

/-- The theorem applies to the same alarm with and without that request. -/
theorem timely_iff_setup :
    let alarm : Alarm := ⟨Sample.job, .setup, 0⟩
    let d := Sample.due [Sample.setup]
    let overtaken := Sample.due [Sample.setup, .postRun Sample.job true]
    (alarm ∈ d.alarms ∧ Heeds Sample.hasty d alarm ∧ Timely Sample.hasty d alarm.stage) ∧
      alarm ∈ overtaken.alarms ∧ Heeds Sample.hasty overtaken alarm ∧
        ¬Timely Sample.hasty overtaken alarm.stage := by
  intro alarm d overtaken
  have hmem : alarm ∈ d.alarms := by decide +kernel
  have hmem' : alarm ∈ overtaken.alarms := by decide +kernel
  have heeds : Heeds Sample.hasty d alarm := heeds_of_raised (by decide +kernel)
  have heeds' : Heeds Sample.hasty overtaken alarm := heeds_of_raised (by decide +kernel)
  have running : (d.controller.timer? Sample.job).map Timer.ticket = some 0 := by decide +kernel
  have asked : d.note.stage = some .setup := by decide +kernel
  have watched : alarm.stage ∉ d.note.overlooked := by decide +kernel
  have unlimited : overtaken.note.stage = some .postRun := by decide +kernel
  have reached : Reachable Sample.hasty alarm.id d := Sample.reachable_due _
  have reached' : Reachable Sample.hasty alarm.id overtaken := Sample.reachable_due _
  refine ⟨⟨hmem, heeds, ?_⟩, hmem', heeds', fun timely => ?_⟩
  · obtain ⟨timer, htimer, hticket⟩ := Option.map_eq_some_iff.mp running
    have current : alarm.ticket = timer.ticket := hticket.symm
    exact (timely_iff reached hmem heeds).mpr
      ⟨⟨.setup, asked, rfl⟩, watched, timer, htimer, Or.inl current⟩
  · obtain ⟨⟨next, hnext, hlimited⟩, _⟩ := (timely_iff reached' hmem' heeds').mp timely
    obtain rfl : next = .postRun := Option.some.inj (hnext.symm.trans unlimited)
    cases hlimited

end Desk

end Warren
