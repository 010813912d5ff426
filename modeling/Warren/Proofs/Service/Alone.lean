import Warren.Proofs.Fallible
import Warren.Service.Run

/-!
# The service left alone

A service of which nothing is asked any more does what is ready, and then waits for the next instant
at which something is to be done, until there is no such instant (`Runs`). What it does for one
cleanup task is followed here: the task pauses for the delay of its ladder, and nothing is done
meanwhile (`runs_pause_iff`).
-/

namespace Warren

/-- The instant at which work is done, if it is work on a request for the cleanup. -/
def Work.noted (now : Span) : Work → List Span
  | .clean _ | .retry _ => [now]
  | .takeOn | .expire .. | .control | .poll => []

namespace Service

variable {site : Site} {s t u : Service} {instants : List Span} {work : Work}

/-- The next instant at which something is to be done. -/
structure IsNext (s : Service) (deadline : Span) : Prop where
  waits : ∃ wake ∈ s.waiting, wake.deadline = deadline
  first : ∀ wake ∈ s.waiting, deadline ≤ wake.deadline

/-- A run of a service until nothing is left to do, with the instants at which it works on requests
for the cleanup. -/
inductive Runs (site : Site) : Service → List Span → Service → Prop
  | rest {s : Service} (idle : s.rouse.ready = []) (nothing : s.waiting = []) : Runs site s [] s
  | work {s t : Service} {work : Work} {others : List Work} {instants : List Span}
    (ready : s.rouse.ready = work :: others)
    (more : Runs site (settleWithin site 1 s).2 instants t) :
    Runs site s (work.noted s.now ++ instants) t
  | wait {s t : Service} {deadline : Span} {instants : List Span} (idle : s.rouse.ready = [])
    (next : s.IsNext deadline)
    (more : Runs site (s.advance (deadline.since s.now)) instants t) : Runs site s instants t

theorem state_settleWithin_one (site : Site) (hrunning : s.rouse.hasCrashed = false)
    {others : List Work} (hready : s.rouse.ready = work :: others) : (settleWithin site 1 s).2 =
      (perform site work { s.rouse with ready := others }).2 := by
  have state_modify : (modify rouse : StateM Service Unit) s = ((), s.rouse) := rfl
  have state_get : (get : StateM Service Service) s.rouse = (s.rouse, s.rouse) := rfl
  simp only [settleWithin, bind_apply, state_modify, state_get, hrunning]
  rw [if_neg Bool.false_ne_true, bind_apply, state_get]
  simp only [hready]
  rfl

theorem runs_iff_of_ready (hrunning : s.rouse.hasCrashed = false) {others : List Work}
    (hready : s.rouse.ready = work :: others) : Runs site s instants t ↔
      ∃ rest, instants = work.noted s.now ++ rest ∧
        Runs site (perform site work { s.rouse with ready := others }).2 rest t := by
  have hone := state_settleWithin_one site hrunning hready
  constructor
  · intro hruns
    cases hruns with
    | rest idle => simp [hready] at idle
    | work ready more =>
      obtain ⟨rfl, rfl⟩ := List.cons.inj (hready.symm.trans ready)
      exact ⟨_, rfl, hone ▸ more⟩
    | wait idle => simp [hready] at idle
  · rintro ⟨rest, rfl, more⟩
    exact .work hready (hone ▸ more)

/-! ### One request for the cleanup -/

/-- A service of which nothing is asked, with some pauses and some work. -/
structure Alone (s : Service) (pauses : List Pause) (ready : List Work) : Prop where
  cleanups : s.world.cleanups = []
  limits : s.limits = []
  sweeps : s.sweeps = none
  polls : s.polls = none
  running : s.hasCrashed = false
  pauses_eq : s.pauses = pauses
  ready_eq : s.ready = ready

namespace Alone

variable {pauses : List Pause} {ready : List Work} {p : Pause}

theorem rouse_eq (h : s.Alone pauses ready) : s.rouse = s := by
  have hsweeps : s.sweeps.isSome = false := by rw [h.sweeps]; rfl
  simp [rouse, h.cleanups, h.limits, hsweeps]

theorem waiting_eq (h : s.Alone pauses ready) :
    s.waiting = pauses.map fun p => ⟨p.deadline, p.ticket, .retry p.task⟩ := by
  simp [waiting, h.pauses_eq, h.limits, h.sweeps, h.polls]

theorem runs_iff_of_idle (h : s.Alone [] []) :
    Runs site s instants t ↔ instants = [] ∧ t = s := by
  have hready : s.rouse.ready = [] := by rw [h.rouse_eq, h.ready_eq]
  have hwaiting : s.waiting = [] := h.waiting_eq
  constructor
  · intro hruns
    cases hruns with
    | rest => exact ⟨rfl, rfl⟩
    | work ready => simp [hready] at ready
    | wait _ next =>
      obtain ⟨wake, hwake, _⟩ := next.waits
      simp [hwaiting] at hwake
  · rintro ⟨rfl, rfl⟩
    exact .rest hready hwaiting

theorem runs_iff_of_ready (h : s.Alone [] [work]) : Runs site s instants t ↔
    ∃ rest, instants = work.noted s.now ++ rest ∧
      Runs site (perform site work { s with ready := [] }).2 rest t := by
  have hready : s.rouse.ready = work :: [] := by rw [h.rouse_eq, h.ready_eq]
  have hrunning : s.rouse.hasCrashed = false := by rw [h.rouse_eq, h.running]
  rw [Service.runs_iff_of_ready hrunning hready, h.rouse_eq]

theorem runs_iff_of_pausing (h : s.Alone [p] []) :
    Runs site s instants t ↔ Runs site (s.advance (p.deadline.since s.now)) instants t := by
  have hready : s.rouse.ready = [] := by rw [h.rouse_eq, h.ready_eq]
  have hwaiting := h.waiting_eq
  constructor
  · intro hruns
    cases hruns with
    | rest _ nothing => simp [hwaiting] at nothing
    | work ready => simp [hready] at ready
    | wait _ next more =>
      obtain ⟨wake, hwake, rfl⟩ := next.waits
      obtain rfl : wake = _ := by simpa [hwaiting] using hwake
      exact more
  · intro more
    have next : s.IsNext p.deadline := by
      refine ⟨⟨⟨p.deadline, p.ticket, .retry p.task⟩, ?_, rfl⟩, ?_⟩
      · simp [hwaiting]
      · simp [hwaiting]
    exact .wait hready next more

/-- When the pause of a task is over, the task is to go on. -/
theorem advance (h : s.Alone [p] []) (hlater : s.now ≤ p.deadline) :
    (s.advance (p.deadline.since s.now)).Alone [] [.retry p.task] ∧
      (s.advance (p.deadline.since s.now)).now = p.deadline := by
  have hnow : s.now + p.deadline.since s.now = p.deadline := by
    have hle : s.now.nanos ≤ p.deadline.nanos := hlater
    have hnanos : s.now.nanos + (p.deadline.nanos - s.now.nanos) = p.deadline.nanos :=
      Nat.add_sub_cancel' hle
    exact congrArg Span.mk hnanos
  let later : Service := s.mapWorld fun w => { w with now := w.now + p.deadline.since s.now }
  have hlater : later.now = p.deadline := hnow
  have hwaiting : later.waiting = [⟨p.deadline, p.ticket, .retry p.task⟩] := h.waiting_eq
  have hdue : later.due = [.retry p.task] := by
    rw [due, hwaiting, hlater]
    simp
  refine ⟨⟨h.cleanups, h.limits, h.sweeps, h.polls, h.running, ?_, ?_⟩, hnow⟩
  · change s.pauses.filter (fun p => !(p.deadline ≤ later.now)) = []
    rw [h.pauses_eq, hlater]
    simp
  · change s.ready ++ later.due = _
    rw [h.ready_eq, hdue]
    rfl

end Alone

/-- A task that goes on is worked on again when the delay of its ladder is over, and nothing is done
before. -/
theorem runs_pause_iff (site : Site) (h : s.Alone [] []) (task : Cleanup.Task) :
    ∃ v : Service, v.Alone [] [.retry task] ∧ v.now = s.now + task.backoff.delay ∧
      v.world.api = s.world.api ∧
      ∀ instants t, Runs site (pause (some task) s).2 instants t ↔ Runs site v instants t := by
  let deadline : Span := s.now + task.backoff.delay
  have hrun : (pause (some task) s).2 = if deadline ≤ s.now then
      { s with ready := .retry task :: s.ready }
    else { s.mapWorld (fun w => { w with ticket := w.ticket + 1 }) with
      pauses := s.pauses ++ [⟨task, deadline, s.world.ticket⟩] } := by
    change ((if deadline ≤ s.now then _ else _ : StateM Service Unit) s).2 = _
    split <;> rfl
  rw [hrun]
  split
  · -- a delay of nothing is over at once
    rename_i hdue
    have woken : Alone { s with ready := .retry task :: s.ready } [] [.retry task] :=
      ⟨h.cleanups, h.limits, h.sweeps, h.polls, h.running, h.pauses_eq, by rw [h.ready_eq]⟩
    have hle : s.now.nanos + task.backoff.delay.nanos ≤ s.now.nanos := hdue
    have hnanos : s.now.nanos = s.now.nanos + task.backoff.delay.nanos := by omega
    exact ⟨_, woken, congrArg Span.mk hnanos, rfl, fun _ _ => Iff.rfl⟩
  · rename_i hlater
    have pausing : Alone { s.mapWorld (fun w => { w with ticket := w.ticket + 1 }) with
        pauses := s.pauses ++ [⟨task, deadline, s.world.ticket⟩] }
        [⟨task, deadline, s.world.ticket⟩] [] :=
      ⟨h.cleanups, h.limits, h.sweeps, h.polls, h.running, by rw [h.pauses_eq]; rfl, h.ready_eq⟩
    obtain ⟨alone, hnow⟩ := pausing.advance (Nat.le_add_right ..)
    exact ⟨_, alone, hnow, rfl, fun _ _ => pausing.runs_iff_of_pausing⟩

/-! ### Handing a request over -/

/-- A service of which nothing is asked but to serve one request for the cleanup. -/
structure IsHanded (s : Service) (request : Cleanup.Request) : Prop where
  cleanups : s.world.cleanups = [request]
  cleans : s.cleans = true
  limits : s.limits = []
  sweeps : s.sweeps = none
  polls : s.polls = none
  running : s.hasCrashed = false
  pauses : s.pauses = []
  ready : s.ready = []

theorem IsHanded.runs_iff (site : Site) {request : Cleanup.Request} (h : s.IsHanded request) :
    ∃ v : Service, v.Alone [] [.clean request] ∧ v.now = s.now ∧ v.world.api = s.world.api ∧
      ∀ instants t, Runs site s instants t ↔ Runs site v instants t := by
  have hsweeps : s.sweeps.isSome = false := by rw [h.sweeps]; rfl
  have hroused : s.rouse = { s with ready := [.takeOn] } := by
    simp [rouse, isTakingOn, h.cleanups, h.cleans, h.limits, hsweeps, h.ready]
  have hready : s.rouse.ready = .takeOn :: [] := by rw [hroused]
  have hrunning : s.rouse.hasCrashed = false := by
    rw [hroused]
    exact h.running
  let taken : Service := { s.mapWorld fun w => { w with cleanups := [] } with
    ready := s.world.cleanups.map .clean }
  have alone : taken.Alone [] [.clean request] :=
    ⟨rfl, h.limits, h.sweeps, h.polls, h.running, h.pauses,
      congrArg (List.map Work.clean) h.cleanups⟩
  refine ⟨taken, alone, rfl, rfl, fun instants t => ?_⟩
  rw [runs_iff_of_ready hrunning hready, hroused]
  exact ⟨fun ⟨_, hinstants, more⟩ => hinstants ▸ more, fun more => ⟨_, rfl, more⟩⟩

end Service

end Warren
