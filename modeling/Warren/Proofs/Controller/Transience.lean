import Mathlib.Data.List.DropRight
import Warren.Proofs.Controller.Retention

/-!
# Transient conditions over time

A transient condition lasts from the first report of it on, until a report says that all is well, a
sweep finds that it lasted too long, the workflow is handed to the cleanup, or the job gets a new
record. The records of the controller do not keep that history; `condition_run` says that the
condition in a record is what the history amounts to, and `transience` what a sweep makes of it.
-/

namespace Warren

open Handling (Effective noted)

/-! ### Histories -/

/-- Something that bears on the transient condition of a job. -/
inductive Bearing where
  /-- The job got a record. -/
  | created
  /-- A sweep ended the condition. -/
  | expired
  /-- The workflow was handed to the cleanup, to be moved to its last stage. -/
  | handedOver
  /-- A report of the workflow was followed to its end. -/
  | reported (w : Workflow)

/-- A bearing at an instant. -/
structure Mark where
  time : Span
  bearing : Bearing

namespace Mark

/-- Whether a condition that was there before is over. A report of an error does not tell. -/
def ends (m : Mark) : Bool :=
  match m.bearing with
  | .reported w => w.condition = .normal
  | _ => true

def transient? (m : Mark) : Option Transient :=
  match m.bearing with
  | .reported w => if w.condition = .transient then some ⟨m.time, w.message, w.desired⟩ else none
  | _ => none

/-- The condition after a history of a job. It lasts since the earliest report of a transient
condition after the last mark that ended one, and says what the latest report says. -/
def condition? (marks : List Mark) : Option Transient := do
  let reports := (marks.rtakeWhile fun m => !m.ends).filterMap transient?
  let first ← reports.head?
  let last ← reports.getLast?
  return { last with since := first.since }

/-- What a mark makes of a condition. -/
def note (before : Option Transient) (m : Mark) : Option Transient :=
  match m.bearing with
  | .reported w => noted m.time w before
  | _ => none

theorem condition?_concat (marks : List Mark) (m : Mark) :
    condition? (marks ++ [m]) = note (condition? marks) m := by
  obtain ⟨time, bearing⟩ := m
  cases bearing with
  | reported w =>
    cases hcondition : w.condition with
    | normal =>
      rw [condition?, List.rtakeWhile_concat_neg _ _ _ (by simp [ends, hcondition])]
      simp [note, noted, hcondition]
    | error =>
      rw [condition?, List.rtakeWhile_concat_pos _ _ _ (by simp [ends, hcondition])]
      simp [condition?, note, noted, hcondition, transient?]
    | transient =>
      rw [condition?, List.rtakeWhile_concat_pos _ _ _ (by simp [ends, hcondition])]
      simp only [note, noted, hcondition, condition?, List.filterMap_append]
      generalize (marks.rtakeWhile fun m => !m.ends).filterMap transient? = reports
      cases reports with
      | nil => simp [transient?, hcondition, Handling.observed]
      | cons first rest => simp [transient?, hcondition, Handling.observed, List.getLast?_cons]
  | _ =>
    rw [condition?, List.rtakeWhile_concat_neg _ _ _ (by simp [ends])]
    rfl

theorem condition?_eq_foldl (marks : List Mark) : condition? marks = marks.foldl note none := by
  induction marks using List.reverseRecOn with
  | nil => rfl
  | append_singleton marks m ih => rw [condition?_concat, List.foldl_concat, ih]

theorem since_of_transient? {m : Mark} {condition : Transient}
    (h : m.transient? = some condition) : condition.since = m.time := by
  obtain ⟨time, bearing⟩ := m
  cases bearing with
  | reported w =>
    simp only [transient?, Option.ite_none_right_eq_some] at h
    rw [← Option.some.inj h.2]
  | _ => cases h

theorem exists_since {marks : List Mark} {condition : Transient}
    (h : condition? marks = some condition) :
    ∃ m ∈ marks.rtakeWhile fun m => !m.ends, m.time = condition.since := by
  obtain ⟨first, hhead, hlast⟩ := Option.bind_eq_some_iff.mp h
  obtain ⟨last, -, hlast⟩ := Option.bind_eq_some_iff.mp hlast
  obtain ⟨m, hm, hfirst⟩ := List.mem_filterMap.mp (List.mem_of_mem_head? hhead)
  have hcondition : condition.since = first.since := by rw [← Option.some.inj hlast]
  exact ⟨m, hm, (since_of_transient? hfirst).symm.trans hcondition.symm⟩

theorem le_since {marks : List Mark} {condition : Transient} {m : Mark}
    (hsorted : marks.Pairwise fun a b => a.time ≤ b.time)
    (h : condition? marks = some condition) (hm : m ∈ marks) (hends : m.ends = true) :
    m.time ≤ condition.since := by
  obtain ⟨first, hfirst, hsince⟩ := exists_since h
  rw [← List.rdropWhile_append_rtakeWhile (p := fun m : Mark => !m.ends) (l := marks)]
    at hm hsorted
  have hold : m ∈ marks.rdropWhile fun m => !m.ends := by
    refine (List.mem_append.mp hm).resolve_right fun hrecent => ?_
    have hnot := List.mem_rtakeWhile_imp hrecent
    simp [hends] at hnot
  exact hsince ▸ (List.pairwise_append.mp hsorted).2.2 m hold first hfirst

end Mark

/-! ### Exceptions -/

/-- The exceptions for a job that are raised from one world to another. -/
def World.Raises (id : JobId) (raised : List Notice) (w v : World) : Prop :=
  ∃ notices, v.notices = w.notices ++ notices ∧ notices.filter (Notice.isFatal id) = raised

namespace World

variable {id : JobId} {raised more : List Notice} {u v w : World}

theorem Raises.refl (id : JobId) (w : World) : Raises id [] w w :=
  ⟨[], (List.append_nil _).symm, rfl⟩

theorem Raises.trans (h : Raises id raised u v) (h' : Raises id more v w) :
    Raises id (raised ++ more) u w := by
  obtain ⟨notices, hv, rfl⟩ := h
  obtain ⟨others, hw, rfl⟩ := h'
  exact ⟨notices ++ others, by rw [hw, hv, List.append_assoc], List.filter_append ..⟩

theorem Raises.exceptions (h : Raises id raised w v) :
    (w.since v).notices.filter (Notice.isFatal id) = raised := by
  obtain ⟨notices, hv, rfl⟩ := h
  rw [since, hv, List.drop_left]

end World

/-- The exception for a condition that lasted too long. -/
def Transient.overlong (condition : Transient) (id : JobId) : Notice :=
  .raise id (Handling.failureText
    ("workflow in 'TransientCondition' state too long: " ++ condition.message))

theorem raises_overlong (condition : Transient) (job id : JobId) (w : World) :
    World.Raises id (if job = id then [condition.overlong id] else []) w
      (w.tell (condition.overlong job)) := by
  refine ⟨[condition.overlong job], rfl, ?_⟩
  by_cases h : job = id
  · subst h
    simp [Transient.overlong, Notice.raise, Notice.isFatal]
  · simp [Transient.overlong, Notice.raise, Notice.isFatal, h]

namespace Handling

open Case (Hushed Retains)

variable {site : Site} {c : Case} {id : JobId}

theorem raises_of_hushed {t : Case} (h : Hushed c t) (id : JobId) :
    World.Raises id [] c.world t.world := by
  obtain ⟨notices, hnotices, hnone⟩ := h
  exact ⟨notices, hnotices, List.filter_eq_nil_iff.mpr (List.any_eq_false.mp (hnone id))⟩

theorem hushed_tearDown (object : Json) (c : Case) : Leads Hushed (tearDown site object) c :=
  ⟨[.kvsPut c.record.id
    (Dict.ofEntries (("rabbit_workflow", object) :: (timing? object).toList))], rfl, fun _ => rfl⟩

theorem hushed_tearDownStuck (stage : Stage) (c : Case) :
    Leads Hushed (tearDownStuck site stage) c := by
  have called (conversation : Api.Call (Except Api.Fault Json)) (t : Case) :
      Leads Hushed (call conversation) t := Case.hushed_of_notices_eq rfl
  have stored (t : Case) : Leads Hushed (tearDownStored site) t := by
    refine leads_record (.bind (called _ t) fun found u _ => ?_)
    cases found with
    | ok object => exact (hushed_tearDown object u).bind fun _ v _ => .pure _ v
    | error fault =>
      change Leads _ (if fault.isNotFound = true then _ else _) u
      split
      · have lost : Leads Hushed
            (update fun r => { r.cancelTimer with tornDown := true, deleted := true }) u :=
          Case.hushed_of_notices_eq rfl
        exact lost.bind fun _ v _ => .pure _ v
      · exact .throw _ u
  refine leads_record ?_
  split
  · have torn : Leads Hushed (ExceptT.lift (tearDownStored site).run : Handling _) c := stored c
    exact torn.discard
  · exact .pure _ c

theorem exists_run_markLagging (site : Site) (c : Case) :
    ∃ world, (markLagging site).run c = (.ok (), ⟨c.record, world⟩) ∧
      Hushed c ⟨c.record, world⟩ := by
  let world : World :=
    { c.world with api := ((lagging c.record.name .preRun).run c.world.api).2 }
  have hlook : (call (Api.observe (lagging c.record.name .preRun))).run c =
      (.ok ((lagging c.record.name .preRun).run c.world.api).1, ⟨c.record, world⟩) := rfl
  rw [markLagging, run_bind_ok (run_record c), run_bind_ok hlook]
  cases ((lagging c.record.name .preRun).run c.world.api).1 with
  | error fault => exact ⟨world, rfl, Case.hushed_of_notices_eq rfl⟩
  | ok nodes =>
    let marks := Health.mark site nodes mountReason
    refine ⟨world.announce marks, rfl, Notice.upToCrash marks, ?_, fun id => ?_⟩
    · rw [World.announce_eq]
    · refine List.any_eq_false.mpr fun n hn => ?_
      obtain ⟨targets, rfl | rfl⟩ := mem_mark hn <;> exact Bool.false_ne_true

/-- A condition that lasted too long is ended, and one exception is raised for its job. -/
theorem condemned (site : Site) (c : Case) (id : JobId) :
    let t := ((condemn site).run c).2
    t.record.condition = none ∧ World.Raises id (if c.record.id = id then
      (c.record.condition.map (·.overlong id)).toList else []) c.world t.world := by
  dsimp only
  cases hcondition : c.record.condition with
  | none =>
    rw [run_condemn_of_none hcondition]
    refine ⟨hcondition, ?_⟩
    split <;> exact .refl id c.world
  | some condition =>
    let cleared : Case := { c with record := { c.record with condition := none } }
    -- what is left to do once the compute nodes were marked, in whatever world
    have ended (world : World) (h : World.Raises id [] c.world world) :
        let told : Case := ⟨cleared.record, world.tell (condition.overlong c.record.id)⟩
        let t := ((tearDownStuck site condition.stage).run told).2
        t.record.condition = none ∧ World.Raises id (if c.record.id = id then
          [condition.overlong id] else []) c.world t.world := by
      intro told t
      have hushed : Hushed told t := hushed_tearDownStuck condition.stage told
      have retains : Retains told t := retains_tearDownStuck condition.stage told
      obtain ⟨_, _, hnone⟩ := retains.condition
      have raised := (h.trans (raises_overlong condition c.record.id id world)).trans
        (raises_of_hushed hushed id)
      rw [List.nil_append, List.append_nil] at raised
      exact ⟨hnone.trans (ite_self none), raised⟩
    have hclear : (update fun r => { r with condition := none }).run c = (.ok (), cleared) := rfl
    rw [condemn, run_bind_ok (run_record c), hcondition]
    dsimp only
    rw [run_bind_ok hclear]
    split
    · obtain ⟨world, hmark, hushed⟩ := exists_run_markLagging site cleared
      rw [run_bind_ok hmark, run_bind_ok (run_tell _ _)]
      exact ended world (raises_of_hushed hushed id)
    · rw [run_bind_ok (run_tell _ _)]
      exact ended c.world (.refl id c.world)

end Handling

namespace Controller

open Case (Retains)

variable {site : Site} {id : JobId} {c t u : Controller} {r : Record}

/-! ### Sweeps -/

/-- The condition of a job that lasted longer than the limit by now. -/
def overlong? (site : Site) (id : JobId) (c : Controller) : Option Transient :=
  (c.registry.recordOf id).condition.filter fun condition =>
    site.config.conditionTimeout < c.world.now.since condition.since

/-- The exceptions for a job that a turn raises. -/
def exceptions (site : Site) (id : JobId) (c : Controller) (turn : Turn) : List Notice :=
  (c.world.since (c.take site turn).world).notices.filter (Notice.isFatal id)

/-- A job is left alone. -/
structure Shuns (id : JobId) (c t : Controller) : Prop where
  record : t.registry.find? id = c.registry.find? id
  raises : World.Raises id [] c.world t.world

/-- The condition of a job is ended. -/
structure Condemns (id : JobId) (condition : Transient) (c t : Controller) : Prop where
  record : ∃ r, t.registry.find? id = some r ∧ r.condition = none
  raises : World.Raises id [condition.overlong id] c.world t.world

instance : Std.Refl (Shuns id) := ⟨fun c => ⟨rfl, .refl id c.world⟩⟩

instance : Trans (Shuns id) (Shuns id) (Shuns id) :=
  ⟨fun h h' => ⟨h'.record.trans h.record, h.raises.trans h'.raises⟩⟩

instance : Trans (Shuns id) (Condemns id condition) (Condemns id condition) :=
  ⟨fun h h' => ⟨h'.record, h.raises.trans h'.raises⟩⟩

instance : Trans (Condemns id condition) (Shuns id) (Condemns id condition) :=
  ⟨fun h h' => ⟨h'.record ▸ h.record, h.raises.trans h'.raises⟩⟩

theorem shuns_revisit {other : JobId} (hc : c.Kept)
    (h : ∀ r, other = id → c.registry.find? id = some r → r.condition = none) :
    Shuns id c (revisit other (Handling.condemn site) c).2 := by
  by_cases ho : other = id
  · subst ho
    rw [state_revisit]
    cases hf : c.registry.find? other with
    | none => exact Std.Refl.refl c
    | some r =>
      have hnone : (⟨r, c.world⟩ : Case).record.condition = none := h r rfl hf
      dsimp only
      rw [state_work, Handling.run_condemn_of_none hnone]
      refine ⟨?_, .refl other c.world⟩
      rw [Registry.find?_put, if_pos (hc.own other r hf), hf]
  · refine ⟨(moves_revisit Handling.leads_condemn hc).others id fun heq => ho heq.symm, ?_⟩
    rw [state_revisit]
    cases hf : c.registry.find? other with
    | none => exact .refl id c.world
    | some r =>
      have raises := (Handling.condemned site ⟨r, c.world⟩ id).2
      rw [if_neg (by rw [hc.own other r hf]; exact ho)] at raises
      exact raises

theorem condemns_revisit {condition : Transient} (hc : c.Kept)
    (hf : c.registry.find? id = some r) (hcondition : r.condition = some condition) :
    Condemns id condition c (revisit id (Handling.condemn site) c).2 := by
  obtain ⟨hnone, raises⟩ := Handling.condemned site ⟨r, c.world⟩ id
  have hid : ((Handling.condemn site).run ⟨r, c.world⟩).2.record.id = id := by
    have did : Case.Did site _ ⟨r, c.world⟩ _ := Handling.leads_condemn ⟨r, c.world⟩
    exact did.id.trans (hc.own id r hf)
  rw [state_revisit, hf]
  dsimp only at raises ⊢
  rw [if_pos (hc.own id r hf), hcondition] at raises
  refine ⟨⟨_, ?_, hnone⟩, raises⟩
  rw [state_work, Registry.find?_put, if_pos hid]

theorem shuns_foldl (site : Site) (ids : List JobId) (hc : c.Kept)
    (h : ∀ r, id ∈ ids → c.registry.find? id = some r → r.condition = none) :
    Shuns id c (ids.foldl (fun c id => (revisit id (Handling.condemn site) c).2) c) := by
  induction ids generalizing c with
  | nil => exact Std.Refl.refl c
  | cons other rest ih =>
    have first : Shuns id c (revisit other (Handling.condemn site) c).2 :=
      shuns_revisit hc fun r ho hf => h r (ho ▸ List.mem_cons_self ..) hf
    have kept : (revisit other (Handling.condemn site) c).2.Kept :=
      (moves_revisit Handling.leads_condemn hc).kept
    refine Trans.trans first (ih kept fun r hr hf => ?_)
    exact h r (List.mem_cons_of_mem _ hr) (first.record ▸ hf)

/-- A condition is ended by the first visit of its job, and later ones find none. -/
theorem condemns_foldl {condition : Transient} {ids : List JobId} (hc : c.Kept)
    (hf : c.registry.find? id = some r) (hcondition : r.condition = some condition)
    (hid : id ∈ ids) : Condemns id condition c
      (ids.foldl (fun c id => (revisit id (Handling.condemn site) c).2) c) := by
  induction ids generalizing c with
  | nil => cases hid
  | cons other rest ih =>
    have kept : (revisit other (Handling.condemn site) c).2.Kept :=
      (moves_revisit Handling.leads_condemn hc).kept
    by_cases ho : other = id
    · subst ho
      have first : Condemns other condition c (revisit other (Handling.condemn site) c).2 :=
        condemns_revisit hc hf hcondition
      obtain ⟨s, hs, hnone⟩ := first.record
      have later := shuns_foldl site rest kept fun r _ hr => by
        rw [Option.some.inj (hr.symm.trans hs), hnone]
      exact Trans.trans first later
    · have first : Shuns id c (revisit other (Handling.condemn site) c).2 :=
        shuns_revisit hc fun _ heq => absurd heq ho
      have hrest : id ∈ rest := (List.mem_cons.mp hid).resolve_left fun h => ho h.symm
      exact Trans.trans first (ih kept (first.record.trans hf) hrest)

theorem overlong?_eq_some {condition : Transient} : overlong? site id c = some condition ↔
    ∃ r, c.registry.find? id = some r ∧ r.condition = some condition ∧
      site.config.conditionTimeout < c.world.now.since condition.since := by
  rw [overlong?, Option.filter_eq_some_iff, decide_eq_true_iff]
  cases hf : c.registry.find? id with
  | none => simp [Registry.recordOf_of_find?_none hf, Record.fresh]
  | some r => simp [Registry.recordOf_of_find? hf]

theorem mem_overdue_iff (hsorted : c.registry.Sorted) :
    id ∈ c.overdue site ↔ (overlong? site id c).isSome = true := by
  simp only [overdue, Dict.keys, List.mem_map, List.mem_filter, Prod.exists, exists_and_right,
    exists_eq_right, hsorted.mem_iff, Option.any_eq_true, Option.isSome_iff_exists,
    overlong?_eq_some, Transient.isOverdue, decide_eq_true_iff]
  rw [exists_comm]
  exact exists_congr fun r => exists_and_left.symm

theorem condemns_sweep {condition : Transient} (hc : c.Kept) (hsorted : c.registry.Sorted)
    (h : overlong? site id c = some condition) :
    Condemns id condition c (c.take site .sweep) := by
  obtain ⟨r, hf, hcondition, -⟩ := overlong?_eq_some.mp h
  rw [take_sweep]
  exact condemns_foldl hc hf hcondition ((mem_overdue_iff hsorted).mpr (by rw [h]; rfl))

theorem shuns_sweep (hc : c.Kept) (hsorted : c.registry.Sorted)
    (h : overlong? site id c = none) : Shuns id c (c.take site .sweep) := by
  rw [take_sweep]
  refine shuns_foldl site _ hc fun r hid _ => ?_
  rw [mem_overdue_iff hsorted, h] at hid
  cases hid

/-! ### What a turn does to a condition -/

/-- The workflow of a job, if a turn is an effective report of it. -/
def effective? (site : Site) (id : JobId) (c : Controller) : Turn → Option Workflow
  | .event (.added object) | .event (.modified object) =>
    ((Workflow.decode? object).filter isOurs).filter fun w =>
      w.jobId = id ∧ Effective site w object (caseOf id c)
  | _ => none

def expires (site : Site) (id : JobId) (c : Controller) : Turn → Bool
  | .sweep => !(exceptions site id c .sweep).isEmpty
  | _ => false

/-- What bears on the condition of a job in a turn. A workflow is handed over before its condition
is looked at, unless that is an error. -/
def bearings (site : Site) (id : JobId) (c : Controller) (turn : Turn) : List Bearing :=
  let t := c.take site turn
  (if !c.registry.has id && t.registry.has id then [.created] else []) ++
    (if expires site id c turn then [.expired] else []) ++
    (if (c.world.since t.world).tearsDown id then [.handedOver] else []) ++
    (effective? site id c turn).toList.map .reported

/-- Only turns of the controller bear on the condition of a job. -/
def marks (site : Site) (id : JobId) (c : Controller) : Happening → List Mark
  | .turn turn => (bearings site id c turn).map (Mark.mk c.world.now)
  | .ring _ | .outside .. => []

/-- What bears on the condition of a job in a course of happenings. -/
def history (site : Site) (id : JobId) : Controller → List Happening → List Mark
  | _, [] => []
  | c, h :: rest => marks site id c h ++ history site id (c.step site h) rest

theorem foldl_bearings (turn : Turn) (before : Option Transient) :
    let t := c.take site turn
    let kept := if (!c.registry.has id && t.registry.has id) || expires site id c turn ||
      (c.world.since t.world).tearsDown id then none else before
    ((bearings site id c turn).map (Mark.mk c.world.now)).foldl Mark.note before =
      (effective? site id c turn).elim kept (noted c.world.now · kept) := by
  dsimp only [bearings]
  cases !c.registry.has id && (c.take site turn).registry.has id <;>
    cases expires site id c turn <;>
      cases (c.world.since (c.take site turn).world).tearsDown id <;>
        cases effective? site id c turn <;> rfl

theorem tearsDown_since {v w : World} {requests : List Cleanup.Request}
    (h : v.cleanups = w.cleanups ++ requests) :
    (w.since v).tearsDown id = requests.any (Errand.teardown.isRequest id) := by
  rw [World.since, Dispatch.tearsDown, h, List.drop_left]

theorem condition_of_retains {w : World} (hc : c.Kept) (h : Retains (caseOf id c) ⟨r, w⟩) :
    r.condition = if (c.world.since w).tearsDown id then none
      else (c.registry.recordOf id).condition := by
  obtain ⟨requests, hsent, hcondition⟩ := h.condition
  have hsent : w.cleanups = c.world.cleanups ++ requests := hsent
  have hid : (caseOf id c).record.id = id := (hc.recordOf id).1
  rw [hid] at hcondition
  rw [tearsDown_since hsent]
  exact hcondition

theorem effective?_eq_none {turn : Turn} (h : turn.job? ≠ some id) :
    effective? site id c turn = none := by
  have other (object : Json)
      (hobject : (reported? (.modified object)).map Workflow.jobId ≠ some id) :
      effective? site id c (.event (.modified object)) = none := by
    refine Option.filter_eq_none_iff.mpr fun w hw => ?_
    have hne : w.jobId ≠ id := fun heq => hobject (by
      rw [show reported? (.modified object) = some w from hw, Option.map_some, heq])
    simp [hne]
  cases turn with
  | event event =>
    cases event with
    | added object => exact other object h
    | modified object => exact other object h
    | _ => rfl
  | _ => rfl

theorem effective?_of_report {event : Api.Event} {object : Json} {w : Workflow}
    (hevent : event = .added object ∨ event = .modified object)
    (hw : reported? event = some w) : effective? site w.jobId c (.event event) =
      if Effective site w object (caseOf w.jobId c) then some w else none := by
  have hsame : effective? site w.jobId c (.event event) = (reported? event).filter fun v =>
      v.jobId = w.jobId ∧ Effective site v object (caseOf w.jobId c) := by
    rcases hevent with rfl | rfl <;> rfl
  rw [hsame, hw]
  simp [Option.filter_some]

/-- The condition of a job that is left in a turn when the report is looked at, if it is one. -/
def leftover (site : Site) (id : JobId) (c : Controller) (turn : Turn) : Option Transient :=
  if expires site id c turn || (c.world.since (c.take site turn).world).tearsDown id then none
  else (c.registry.recordOf id).condition

theorem condition_sweep (hc : c.Kept) (hsorted : c.registry.Sorted)
    (hr : (c.take site .sweep).registry.find? id = some r) :
    r.condition = leftover site id c .sweep := by
  rw [leftover, expires, exceptions]
  cases hover : overlong? site id c with
  | none =>
    have shuns : Shuns id c (c.take site .sweep) := shuns_sweep hc hsorted hover
    have agrees : (c.registry.recordOf id).Agrees r := agrees_of_find? (shuns.record ▸ hr)
    rw [shuns.raises.exceptions]
    exact condition_of_retains hc (retains_of_agrees hc hr agrees)
  | some condition =>
    have condemns : Condemns id condition c (c.take site .sweep) :=
      condemns_sweep hc hsorted hover
    obtain ⟨s, hs, hnone⟩ := condemns.record
    rw [condemns.raises.exceptions, Option.some.inj (hr.symm.trans hs), hnone]
    rfl

theorem condition_event {event : Api.Event} (hc : c.Kept)
    (hjob : (Turn.event event).job? = some id)
    (hr : (c.take site (.event event)).registry.find? id = some r) :
    r.condition = (effective? site id c (.event event)).elim (leftover site id c (.event event))
      (noted c.world.now · (leftover site id c (.event event))) := by
  obtain ⟨w, hw, rfl⟩ := Option.map_eq_some_iff.mp hjob
  have hevent := take_event site c event
  rw [hw] at hevent
  rcases hevent with ⟨object, hobject, htake⟩ | ⟨-, htake⟩
  · let t : Case := ((Handling.report site w object).run (caseOf w.jobId c)).2
    have htake : c.take site (.event event) = ⟨c.registry.put t.record, t.world⟩ := htake
    have hid : (caseOf w.jobId c).record.id = w.jobId := (hc.recordOf w.jobId).1
    have did : Case.Did site _ (caseOf w.jobId c) t := Handling.leads_report w object _
    obtain ⟨requests, hsent, hcondition⟩ :=
      Handling.condition_report site w object (caseOf w.jobId c)
    have hsent : t.world.cleanups = c.world.cleanups ++ requests := hsent
    have hleft : leftover site w.jobId c (.event event) =
        if requests.any (Errand.teardown.isRequest w.jobId) then none
        else (c.registry.recordOf w.jobId).condition := by
      rw [leftover, htake, tearsDown_since hsent]
      rfl
    rw [htake, Registry.find?_put, if_pos (did.id.trans hid)] at hr
    obtain rfl := Option.some.inj hr
    rw [effective?_of_report hobject hw, hleft]
    rw [hid] at hcondition
    refine hcondition.trans ?_
    split <;> rfl
  · rw [htake, Dict.find?_erase, if_pos rfl] at hr
    cases hr

theorem condition_take {turn : Turn} (hc : c.Kept) (hsorted : c.registry.Sorted)
    (hr : (c.take site turn).registry.find? id = some r) :
    r.condition = (effective? site id c turn).elim (leftover site id c turn)
      (noted c.world.now · (leftover site id c turn)) := by
  cases turn with
  | sweep => exact condition_sweep hc hsorted hr
  | event event =>
    by_cases hjob : (Turn.event event).job? = some id
    · exact condition_event hc hjob hr
    · rw [effective?_eq_none hjob]
      exact condition_of_retains hc (retains_of_others hc hjob nofun hr)
  | request asked => exact condition_of_retains hc (retains_take hc nofun nofun hr)
  | timeout job stage => exact condition_of_retains hc (retains_take hc nofun nofun hr)

/-! ### Courses -/

theorem condition_step {before : Option Transient} (hc : c.Kept) (hsorted : c.registry.Sorted)
    (h : Happening) (hbefore : ∀ s, c.registry.find? id = some s → s.condition = before)
    (hr : (c.step site h).registry.find? id = some r) :
    r.condition = (marks site id c h).foldl Mark.note before := by
  cases h with
  | turn turn =>
    have hr : (c.take site turn).registry.find? id = some r := hr
    rw [marks, foldl_bearings, condition_take hc hsorted hr, leftover,
      Registry.has_of_find? hr]
    cases hf : c.registry.find? id with
    | none => simp [Registry.recordOf_of_find?_none hf, Dict.has, hf, Record.fresh]
    | some s => simp [Registry.recordOf_of_find? hf, Dict.has, hf, hbefore s hf]
  | ring other =>
    have hr : (c.ring other).registry.find? id = some r := hr
    rw [find?_ring hc] at hr
    split at hr
    · obtain ⟨s, hs, rfl⟩ := Option.map_eq_some_iff.mp hr
      exact hbefore s hs
    · exact hbefore r hr
  | outside world drawn => exact hbefore r hr

/-- The condition in the record of a job is what its history amounts to. -/
theorem condition_run {before : Option Transient} (hc : c.Kept) (hsorted : c.registry.Sorted)
    (course : List Happening)
    (hbefore : ∀ s, c.registry.find? id = some s → s.condition = before)
    (hr : (c.run site course).registry.find? id = some r) :
    r.condition = (history site id c course).foldl Mark.note before := by
  induction course generalizing c before with
  | nil => exact hbefore r hr
  | cons h rest ih =>
    rw [history, List.foldl_append]
    exact ih (kept_step hc site h) (sorted_step hc hsorted site h)
      (fun s hs => condition_step hc hsorted h hbefore hs) hr

/-- The clock never goes back in a course of happenings. -/
def Forward (site : Site) : Controller → List Happening → Prop
  | _, [] => True
  | c, h :: rest => c.world.now ≤ (c.step site h).world.now ∧ Forward site (c.step site h) rest

instance decidableForward (site : Site) :
    (c : Controller) → (course : List Happening) → Decidable (Forward site c course)
  | _, [] => inferInstanceAs (Decidable True)
  | c, h :: rest =>
    have := decidableForward site (c.step site h) rest
    inferInstanceAs (Decidable (c.world.now ≤ (c.step site h).world.now ∧
      Forward site (c.step site h) rest))

theorem time_of_mem_marks {h : Happening} {m : Mark} (hm : m ∈ marks site id c h) :
    m.time = c.world.now := by
  cases h with
  | turn turn =>
    obtain ⟨bearing, -, rfl⟩ := List.mem_map.mp hm
    rfl
  | _ => cases hm

theorem le_time_of_mem {course : List Happening} {m : Mark} (h : Forward site c course)
    (hm : m ∈ history site id c course) : c.world.now ≤ m.time := by
  induction course generalizing c with
  | nil => cases hm
  | cons first rest ih =>
    rcases List.mem_append.mp hm with hm | hm
    · exact Nat.le_of_eq (congrArg Span.nanos (time_of_mem_marks hm).symm)
    · exact Nat.le_trans h.1 (ih h.2 hm)

theorem sorted_history {course : List Happening} (h : Forward site c course) :
    (history site id c course).Pairwise fun a b => a.time ≤ b.time := by
  induction course generalizing c with
  | nil => exact .nil
  | cons first rest ih =>
    refine List.pairwise_append.mpr ⟨?_, ih h.2, fun a ha b hb => ?_⟩
    · refine List.pairwise_of_forall_mem_list fun a ha b hb => ?_
      rw [time_of_mem_marks ha, time_of_mem_marks hb]
      exact Nat.le_refl _
    · rw [time_of_mem_marks ha]
      exact Nat.le_trans h.1 (le_time_of_mem h.2 hb)

/-- The clock stands at a number of seconds. -/
def seconds (n : Nat) : Happening :=
  .outside { (Sample.start .preRun).world with now := .seconds n } 0

/-- The workflow of the job cannot be worked on for the moment. -/
def ailing (message : String) : Happening :=
  let api := (Sample.start .preRun).world.api.update Sample.key (.ofFields [("status", .ofFields
    [("ready", .boolean false), ("status", .string "TransientCondition"),
      ("message", .string message)])])
  .turn (.event (.modified ((api.object? Sample.key).getD .null)))

/-- The file systems of a job are mounted, and lost soon after. -/
def unmounted : List Happening :=
  [.turn (.event (.modified (Sample.stored (Sample.start .preRun)))), seconds 10,
    ailing "mount failed", seconds 20, ailing "mount failed again", seconds 3600]

end Controller

end Warren
