import Mathlib.Data.List.ReduceOption
import Warren.Proofs.Controller.Causality

/-!
# The start of a job

A job may start once its workflow completed the stage before the run. Unlike the errands of a job
this leaves no mark in its record, so nothing keeps the job manager from being told twice.
`started_run` says what it is told in a course of happenings: one notice for every report of that
stage, as long as the job is not on its way out and the token of the workflow can be read. So it is
told at most once exactly if no two such reports come.
-/

namespace Warren

/-- A notice that a job may start. -/
def Notice.isStart (id : JobId) : Notice → Bool
  | .prologRemove job _ _ => job = id
  | _ => false

namespace Dispatch

/-- The notices that a job may start, of those that are sent. -/
def starts (id : JobId) (x : Dispatch) : List Notice := x.notices.filter (Notice.isStart id)

theorem starts_append (id : JobId) (x y : Dispatch) :
    (x.append y).starts id = x.starts id ++ y.starts id := List.filter_append ..

theorem starts_eq_nil {id : JobId} {x : Dispatch}
    (h : ∀ notice ∈ x.notices, notice.isStart id = false) : x.starts id = [] :=
  List.filter_eq_nil_iff.mpr fun notice hn => by rw [h notice hn]; exact Bool.false_ne_true

end Dispatch

namespace License

variable {site : Site} {id : JobId}

/-- The license to do anything but let a job start. -/
def holdsBack (id : JobId) : License :=
  ⟨fun _ => True, fun notice => notice.isStart id = false, fun _ => True⟩

theorem isStart_of_isPlain {notice : Notice} (h : notice.IsPlain) (id : JobId) :
    notice.isStart id = false := by
  cases notice with
  | prologRemove => exact h.elim
  | _ => rfl

theorem allows_holdsBack (site : Site) (id job : JobId) : (holdsBack id).Allows site job where
  asks _ _ := trivial
  tells _ hn _ := isStart_of_isPlain hn id
  hands _ := trivial

theorem serves_holdsBack {turn : Turn}
    (h : ∀ w, turn.Reports w → w.isComplete .preRun = true → w.jobId ≠ id) (site : Site)
    (c : Controller) : (holdsBack id).Serves site c turn where
  allows job _ := allows_holdsBack site id job
  setup _ _ _ _ := trivial
  postRun _ _ _ := trivial
  follows w hw := ⟨fun _ _ => trivial, fun _ _ _ _ _ => trivial, fun _ _ _ => rfl,
    fun hcomplete _ _ => decide_eq_false (h w hw hcomplete), fun _ => rfl, fun _ _ => trivial⟩
  spares _ _ _ _ := rfl
  sweeps _ := ⟨allows_holdsBack site id, fun _ hn _ => isStart_of_isPlain hn id⟩

end License

/-! ### Reports of the stage before the run -/

/-- During some work on a job, just these notices were sent that it may start. -/
structure Case.Launches (notices : List Notice) (c t : Case) : Prop where
  id : t.record.id = c.record.id
  sent : ∃ x, World.Sends x c.world t.world ∧ x.starts c.record.id = notices

namespace Case

variable {notices : List Notice} {c t : Case}

theorem launches_of_within (h : Within (License.holdsBack c.record.id) c.record.id c t) :
    Launches [] c t := by
  obtain ⟨hid, _, x, hx, htells, _⟩ := h rfl
  exact ⟨hid, x, hx, Dispatch.starts_eq_nil htells⟩

instance : Trans (Launches notices) (Launches []) (Launches notices) where
  trans := by
    rintro c t u ⟨hid, x, hx, hnotices⟩ ⟨hid', y, hy, hnone⟩
    rw [hid] at hnone
    refine ⟨hid'.trans hid, x.append y, hx.trans hy, ?_⟩
    rw [Dispatch.starts_append, hnotices, hnone, List.append_nil]

end Case

namespace Handling

open Case (Launches)

variable {site : Site} {w : Workflow} {c : Case}

/-- The notice that a job may start, if the token of its workflow can be read. -/
def start? (id : JobId) (w : Workflow) (api : Api.Server) : Option Notice :=
  match ((token w).run api).1 with
  | .ok token =>
    some (.prologRemove id ((w.status.map Workflow.Status.environment).getD []) token)
  | .error _ => none

theorem launches_releaseProlog (site : Site) (w : Workflow) (object : Json) (c : Case) :
    Leads (Launches (start? c.record.id w c.world.api).toList) (releaseProlog w object) c := by
  let read : Case := { c with world := { c.world with api := ((token w).run c.world.api).2 } }
  have hcall : (call (token w)).run c = (((token w).run c.world.api).1, read) := run_call _ c
  unfold Leads
  rw [start?, releaseProlog]
  cases htoken : ((token w).run c.world.api).1 with
  | error fault =>
    rw [htoken] at hcall
    rw [run_bind_error hcall]
    exact ⟨rfl, .empty, ⟨(List.append_nil _).symm, (List.append_nil _).symm⟩, rfl⟩
  | ok token =>
    rw [htoken] at hcall
    rw [run_bind_ok hcall]
    let notice : Notice :=
      .prologRemove c.record.id ((w.status.map Workflow.Status.environment).getD []) token
    let told : Case := { read with world := read.world.tell notice }
    have launched : Launches [notice] c told := by
      refine ⟨rfl, ⟨[notice], []⟩, ⟨rfl, (List.append_nil _).symm⟩, ?_⟩
      exact List.filter_cons_of_pos (decide_eq_true rfl)
    have saved : Launches [] told ((saveTiming object).run told).2 :=
      Case.launches_of_within (within_saveTiming (License.allows_holdsBack site _ _) object told)
    exact Trans.trans launched saved

/-- A report that the stage before the run is complete, of a job that is not on its way out, lets
the job start if the token can be read. -/
theorem launches_report (site : Site) (hcomplete : w.isComplete .preRun = true)
    (htorn : c.record.tornDown = false) (hdeleted : c.record.deleted = false) (object : Json) :
    Leads (Launches (start? c.record.id w c.world.api).toList) (report site w object) c := by
  have hdesired : w.desired = .preRun := Workflow.desired_of_isComplete hcomplete
  have allows (t : Case) := License.allows_holdsBack site t.record.id t.record.id
  have launched : Launches (start? c.record.id w c.world.api).toList c
      ((act site w object w.desired.onComplete).run (freed w.desired c)).2 := by
    obtain ⟨timer, hfreed⟩ := freed_eq w.desired c
    obtain ⟨hid, hsent⟩ := launches_releaseProlog site w object
      { c with record := { c.record with timer } }
    rw [hfreed, hdesired]
    exact ⟨hid, hsent⟩
  have quietly {x : Handling Unit} {t : Case}
      (ht : Launches (start? c.record.id w c.world.api).toList c t)
      (hx : Leads (Case.Within (License.holdsBack t.record.id) t.record.id) x t) :
      Launches (start? c.record.id w c.world.api).toList c (x.run t).2 :=
    Trans.trans ht (Case.launches_of_within hx)
  have hbusy : ¬Idle w c.record :=
    not_idle_of_complete (hdesired ▸ hcomplete) (fun _ => htorn) hdeleted
  exact holds_report_of_complete (hdesired ▸ hcomplete) hbusy launched
    (fun t ht => quietly ht (within_react (allows t) w object t))
    fun t ht => quietly ht (within_giveUp (allows t) object t)

/-- A job that is on its way out is past a report of the stage before the run. -/
theorem idle_of_leaving (hcomplete : w.isComplete .preRun = true)
    (hleaving : (c.record.tornDown || c.record.deleted) = true) : Idle w c.record := by
  rw [Bool.or_eq_true] at hleaving
  rcases hleaving with htorn | hdeleted
  · refine Or.inr (Or.inr ⟨htorn, Workflow.isActive_of_ne ?_⟩)
    simp [Workflow.desired_of_isComplete hcomplete]
  · exact Or.inr (Or.inl hdeleted)

end Handling

namespace Controller

variable {site : Site} {id : JobId} {c : Controller}

/-! ### Happenings -/

/-- The workflow of the service that something reports. The end of a workflow is no report. -/
def reportedBy? : Happening → Option Workflow
  | .turn (.event (.added object)) => reported? (.added object)
  | .turn (.event (.modified object)) => reported? (.modified object)
  | _ => none

theorem reports_of_reportedBy? {turn : Turn} {w : Workflow}
    (h : reportedBy? (.turn turn) = some w) : turn.Reports w := by
  cases turn with
  | event event =>
    cases event with
    | added object => exact ⟨_, rfl, h⟩
    | modified object => exact ⟨_, rfl, h⟩
    | _ => cases h
  | _ => cases h

/-- The notice that a job may start to which something leads: to none, unless it reports that the
stage before the run is complete, and the job is not on its way out. -/
def launch? (id : JobId) (c : Controller) (h : Happening) : Option Notice :=
  match reportedBy? h with
  | some w =>
    if w.jobId = id ∧ w.isComplete .preRun = true ∧ isLeaving c.registry id = false then
      Handling.start? id w c.world.api
    else none
  | none => none

theorem launch?_eq_none {h : Happening}
    (hnot : ∀ w, reportedBy? h = some w → w.isComplete .preRun = true → w.jobId ≠ id) :
    launch? id c h = none := by
  unfold launch?
  cases hw : reportedBy? h with
  | none => rfl
  | some w => exact if_neg fun hall => hnot w hw hall.2.1 hall.1

theorem starts_of_serves {turn : Turn} (hc : c.Kept)
    (h : ∀ w, turn.Reports w → w.isComplete .preRun = true → w.jobId ≠ id) :
    (c.world.since (c.take site turn).world).starts id = [] := by
  obtain ⟨_, x, hx, htells, _⟩ := acts_of_serves hc (License.serves_holdsBack h site c)
  rw [hx.since]
  exact Dispatch.starts_eq_nil htells

theorem starts_report (hc : c.Kept) (site : Site) {w : Workflow}
    (hcomplete : w.isComplete .preRun = true) (object : Json) :
    let t := (work (c.registry.recordOf w.jobId) (Handling.report site w object) c).2
    (c.world.since t.world).starts w.jobId = (if isLeaving c.registry w.jobId = false then
      Handling.start? w.jobId w c.world.api else none).toList := by
  intro t
  let case : Case := ⟨c.registry.recordOf w.jobId, c.world⟩
  have hid : case.record.id = w.jobId := (hc.recordOf w.jobId).1
  have ht : t.world = ((Handling.report site w object).run case).2.world := rfl
  cases hleaving : isLeaving c.registry w.jobId with
  | true =>
    rw [isLeaving_eq] at hleaving
    have hidle : Handling.Idle w case.record := Handling.idle_of_leaving hcomplete hleaving
    rw [ht, Handling.run_report_of_idle site object hidle, World.since_self]
    rfl
  | false =>
    rw [isLeaving_eq, Bool.or_eq_false_iff] at hleaving
    obtain ⟨_, x, hx, hstarts⟩ := Handling.launches_report (c := case) site hcomplete
      hleaving.1 hleaving.2 object
    rw [hid] at hstarts
    rw [ht, hx.since, hstarts]
    rfl

/-- A turn sends just the notice that a job may start to which it leads. -/
theorem starts_take (hc : c.Kept) (site : Site) (id : JobId) (turn : Turn) :
    (c.world.since (c.take site turn).world).starts id = (launch? id c (.turn turn)).toList := by
  -- all other turns work under a license that holds the notice back
  by_cases h : ∃ w, turn.Reports w ∧ w.isComplete .preRun = true ∧ w.jobId = id
  · obtain ⟨w, ⟨event, rfl, hw⟩, hcomplete, rfl⟩ := h
    have hevent := take_event site c event
    rw [hw] at hevent
    rcases hevent with ⟨object, hkind, htake⟩ | ⟨⟨object, hkind⟩, htake⟩
    · have hreported : reportedBy? (.turn (.event event)) = some w := by
        rcases hkind with rfl | rfl <;> exact hw
      rw [htake, starts_report hc site hcomplete, launch?, hreported]
      simp only [hcomplete, true_and]
    · rw [htake, hkind]
      exact congrArg (Dispatch.starts w.jobId) (World.since_self c.world)
  · have hnone (w : Workflow) (hw : turn.Reports w) (hcomplete : w.isComplete .preRun = true) :
        w.jobId ≠ id := fun hid => h ⟨w, hw, hcomplete, hid⟩
    rw [starts_of_serves hc hnone, launch?_eq_none fun w hw => hnone w (reports_of_reportedBy? hw)]
    rfl

/-! ### Courses -/

/-- The notices that a job may start, of those that are sent in a course of happenings. -/
def started (site : Site) (id : JobId) : Controller → List Happening → List Notice
  | _, [] => []
  | c, h :: rest => (dispatched site c h).starts id ++ started site id (c.step site h) rest

/-- For each happening of a course, the notice that a job may start to which it leads. -/
def launches (site : Site) (id : JobId) : Controller → List Happening → List (Option Notice)
  | _, [] => []
  | c, h :: rest => launch? id c h :: launches site id (c.step site h) rest

theorem starts_dispatched (hc : c.Kept) (site : Site) (id : JobId) (h : Happening) :
    (dispatched site c h).starts id = (launch? id c h).toList := by
  cases h with
  | turn turn => exact starts_take hc site id turn
  | ring other => rfl
  | outside world drawn => rfl

theorem started_eq (hc : c.Kept) (site : Site) (id : JobId) (course : List Happening) :
    started site id c course = (launches site id c course).reduceOption := by
  induction course generalizing c with
  | nil => rfl
  | cons h rest ih =>
    rw [started, launches, starts_dispatched hc, ih (kept_step hc site h)]
    cases launch? id c h <;> rfl

theorem length_reduceOption_le_one {α : Type} (options : List (Option α)) :
    options.reduceOption.length ≤ 1 ↔ options.Pairwise fun a b => a = none ∨ b = none := by
  induction options with
  | nil => simp
  | cons first rest ih =>
    rw [List.pairwise_cons]
    cases first with
    | none => simpa using ih
    | some a =>
      have hnil : rest.reduceOption.length = 0 ↔ ∀ b ∈ rest, b = none := by
        rw [List.length_eq_zero_iff, List.reduceOption_eq_nil_iff]
        constructor
        · rintro ⟨n, rfl⟩ b hb
          exact List.eq_of_mem_replicate hb
        · exact fun h => ⟨_, List.eq_replicate_of_mem h⟩
      rw [List.reduceOption_cons_of_some, List.length_cons, Nat.succ_le_succ_iff, Nat.le_zero]
      constructor
      · intro hzero
        exact ⟨fun b hb => Or.inr (hnil.mp hzero b hb), ih.mp (by omega)⟩
      · rintro ⟨hfirst, -⟩
        exact hnil.mpr fun b hb => (hfirst b hb).resolve_left (Option.some_ne_none a)

/-- In a course of happenings the job manager is told that a job may start once for every report
that the stage before the run is complete, as long as the job is not on its way out and the token
can be read. So it is told at most once exactly if there are no two of these reports in the course,
be it one in which the record of the job lasts or any other. -/
theorem started_run (hreach : Reachable site c) (id : JobId) (course : List Happening) :
    started site id c course = (launches site id c course).reduceOption ∧
      ((started site id c course).length ≤ 1 ↔
        (launches site id c course).Pairwise fun a b => a = none ∨ b = none) := by
  have heq : started site id c course = (launches site id c course).reduceOption :=
    started_eq hreach.kept site id course
  refine ⟨heq, ?_⟩
  rw [heq]
  exact length_reduceOption_le_one _

/-- The stage before the run is reported complete twice in a row. -/
def doubled : List Happening := [completed .preRun, completed .preRun]

/-- The job manager is told twice that the job may start, while the record of the job lasts. -/
theorem started_doubled :
    let c := Sample.start .preRun
    Reachable Sample.site c ∧ c.registry.has Sample.job = false ∧
      Lasts Sample.site Sample.job c doubled ∧
      (started Sample.site Sample.job c doubled).map Notice.topic =
        ["prolog-remove", "prolog-remove"] :=
  ⟨Sample.reachable_start _, rfl, by decide +kernel, by decide +kernel⟩

/-- The theorem applies to that course: both reports let the job start. -/
theorem started_run_doubled :
    let c := Sample.start .preRun
    let notices := launches Sample.site Sample.job c doubled
    Reachable Sample.site c ∧ started Sample.site Sample.job c doubled = notices.reduceOption ∧
      ¬notices.Pairwise fun a b => a = none ∨ b = none := by
  intro c notices
  have whole := started_run (Sample.reachable_start .preRun) Sample.job doubled
  have twice : (started Sample.site Sample.job c doubled).length = 2 := by decide +kernel
  refine ⟨Sample.reachable_start _, whole.1, fun h => ?_⟩
  have hone := whole.2.mpr h
  rw [twice] at hone
  exact absurd hone (by decide)

end Controller

end Warren
