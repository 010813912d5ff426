import Warren.Controller.Answer
import Warren.Proofs.Controller.Handling
import Warren.Proofs.Dict
import Warren.Proofs.JobId

/-!
# Runs of the controller

The controller takes its turns in any order, and between two of them its surroundings may change in
any way. `run` is what comes out of such a course of happenings. Each turn moves one job: `Moves`
says what that leaves alone, and `Kept` is the invariant of the records that every turn preserves.
-/

namespace Warren

/-- A turn of the controller. -/
inductive Turn where
  | request (asked : Request)
  | event (event : Api.Event)
  /-- The time limit of a stage was reached. -/
  | timeout (id : JobId) (stage : Stage)
  /-- The conditions that lasted too long are ended. -/
  | sweep

/-- The workflow of the service that an event reports. -/
def Controller.reported? (event : Api.Event) : Option Workflow :=
  event.object?.bind fun object => (Workflow.decode? object).filter isOurs

/-- The job that a turn is about. -/
def Turn.job? : Turn → Option JobId
  | .request asked => asked.job?
  | .event change => (Controller.reported? change).map Workflow.jobId
  | .timeout id _ => some id
  | .sweep => none

/-- Something that happens to the controller. -/
inductive Happening where
  | turn (turn : Turn)
  /-- The time limit of a job is reached; the controller is not told yet. -/
  | ring (id : JobId)
  /-- The surroundings change, and tickets are drawn. -/
  | outside (world : World) (drawn : Nat)

namespace Registry

theorem find?_put (g : Registry) (r : Record) (id : JobId) :
    (g.put r).find? id = if r.id = id then some r else g.find? id := Dict.find?_insert g r.id id r

theorem recordOf_of_find? {g : Registry} {id : JobId} {r : Record} (h : g.find? id = some r) :
    g.recordOf id = r := by
  rw [recordOf, h, Option.getD_some]

theorem recordOf_of_find?_none {g : Registry} {id : JobId} (h : g.find? id = none) :
    g.recordOf id = .fresh id .unknown := by
  rw [recordOf, h, Option.getD_none]

theorem recordOf_put (g : Registry) (r : Record) (id : JobId) :
    (g.put r).recordOf id = if r.id = id then r else g.recordOf id := by
  rw [recordOf, find?_put]
  split <;> rfl

theorem recordOf_ensure (g : Registry) (id : JobId) :
    (g.ensure id).recordOf id = g.recordOf id := by
  rw [ensure, recordOf_put, ite_self]

theorem has_of_find? {g : Registry} {id : JobId} {r : Record} (h : g.find? id = some r) :
    g.has id = true := by
  rw [Dict.has, h, Option.isSome_some]

end Registry

/-- The record of a job whose time limit was reached. -/
def Record.ring (r : Record) : Record :=
  { r with timer := r.timer.map ({ · with fired := true }) }

namespace Controller

variable {site : Site} {id : JobId} {c t u : Controller}

/-- A controller without records. -/
def start (world : World) : Controller := ⟨[], world⟩

/-- The controller after a turn. -/
def take (site : Site) : Turn → Controller → Controller
  | .request asked, c => ((onRequest site asked).run c).2
  | .event event, c => (onEvent site event c).2
  | .timeout id stage, c => (onTimeout site id stage c).2
  | .sweep, c => (sweep site c).2

/-- The controller after the time limit of a job was reached. -/
def ring (id : JobId) (c : Controller) : Controller :=
  match c.registry.find? id with
  | some r => { c with
      registry := c.registry.put { r with timer := r.timer.map ({ · with fired := true }) } }
  | none => c

/-- The controller after something happened. -/
def step (site : Site) (c : Controller) : Happening → Controller
  | .turn turn => c.take site turn
  | .ring id => c.ring id
  | .outside world drawn => { c with world := { world with ticket := c.world.ticket + drawn } }

/-- The controller after a course of happenings, the first one first. -/
def run (site : Site) (c : Controller) (course : List Happening) : Controller :=
  course.foldl (step site) c

@[simp] theorem run_nil (site : Site) (c : Controller) : c.run site [] = c := rfl

@[simp] theorem run_cons (site : Site) (c : Controller) (h : Happening) (rest : List Happening) :
    c.run site (h :: rest) = (c.step site h).run site rest := rfl

theorem run_append (site : Site) (c : Controller) (course rest : List Happening) :
    c.run site (course ++ rest) = (c.run site course).run site rest := List.foldl_append

/-! ### The invariant of the records -/

/-- A record whose time limit has a ticket that was drawn already. -/
def Drawn (w : World) (r : Record) : Prop := ∀ timer, r.timer = some timer → timer.ticket < w.ticket

/-- Every record is kept under its own job, and the tickets of all time limits are drawn. -/
structure Kept (c : Controller) : Prop where
  own : ∀ id r, c.registry.find? id = some r → r.id = id
  drawn : ∀ id r, c.registry.find? id = some r → Drawn c.world r

theorem kept_start (world : World) : (start world).Kept := by
  constructor
  · intro id r h
    cases h
  · intro id r h
    cases h

theorem drawn_of_untimed {w : World} {r : Record} (h : r.timer = none) : Drawn w r := by
  intro timer htimer
  rw [h] at htimer
  cases htimer

theorem drawn_fresh (w : World) (id : JobId) (resources : Resources) :
    Drawn w (.fresh id resources) := drawn_of_untimed rfl

theorem Drawn.mono {w v : World} {r : Record} (h : Drawn w r) (hle : w.ticket ≤ v.ticket) :
    Drawn v r := fun timer htimer => Nat.lt_of_lt_of_le (h timer htimer) hle

theorem Kept.recordOf (h : c.Kept) (id : JobId) :
    (c.registry.recordOf id).id = id ∧ Drawn c.world (c.registry.recordOf id) := by
  cases hf : c.registry.find? id with
  | some r =>
    rw [Registry.recordOf_of_find? hf]
    exact ⟨h.own id r hf, h.drawn id r hf⟩
  | none =>
    rw [Registry.recordOf_of_find?_none hf]
    exact ⟨rfl, drawn_fresh _ _ _⟩

theorem Kept.put (h : c.Kept) {r : Record} {w : World} (hr : Drawn w r)
    (hle : c.world.ticket ≤ w.ticket) : Kept ⟨c.registry.put r, w⟩ := by
  constructor
  · intro id s hs
    rw [Registry.find?_put] at hs
    split at hs
    · rename_i hid
      obtain rfl := Option.some.inj hs
      exact hid
    · exact h.own id s hs
  · intro id s hs
    rw [Registry.find?_put] at hs
    split at hs
    · obtain rfl := Option.some.inj hs
      exact hr
    · exact (h.drawn id s hs).mono hle

theorem Kept.erase (h : c.Kept) (id : JobId) : Kept { c with registry := c.registry.erase id } := by
  have kept {other : JobId} {r : Record} (hr : (c.registry.erase id).find? other = some r) :
      c.registry.find? other = some r := by
    rw [Dict.find?_erase] at hr
    split at hr
    · cases hr
    · exact hr
  exact ⟨fun other r hr => h.own other r (kept hr), fun other r hr => h.drawn other r (kept hr)⟩

theorem Kept.world (h : c.Kept) {w : World} (hle : c.world.ticket ≤ w.ticket) :
    Kept { c with world := w } :=
  ⟨h.own, fun id r hr => (h.drawn id r hr).mono hle⟩

theorem Kept.ring (h : c.Kept) (id : JobId) : (c.ring id).Kept := by
  unfold Controller.ring
  cases hf : c.registry.find? id with
  | none => exact h
  | some r =>
    refine h.put (fun timer htimer => ?_) (Nat.le_refl _)
    obtain ⟨old, hold, rfl⟩ := Option.map_eq_some_iff.mp htimer
    exact h.drawn id r hf old hold

/-- A time limit that is reached is noted in the record of its job, and nowhere else. -/
theorem find?_ring (h : c.Kept) (other id : JobId) : (c.ring other).registry.find? id =
    if other = id then (c.registry.find? id).map Record.ring else c.registry.find? id := by
  rw [Controller.ring]
  by_cases ho : other = id
  · subst ho
    rw [if_pos rfl]
    cases hf : c.registry.find? other with
    | none => exact hf
    | some r =>
      have hid : r.ring.id = other := h.own other r hf
      exact (Registry.find?_put c.registry r.ring other).trans (if_pos hid)
  · rw [if_neg ho]
    cases hf : c.registry.find? other with
    | none => rfl
    | some r =>
      have hid : r.ring.id = other := h.own other r hf
      exact (Registry.find?_put c.registry r.ring id).trans (if_neg (by rw [hid]; exact ho))

theorem recordOf_ring (h : c.Kept) (other id : JobId) : (c.ring other).registry.recordOf id =
    if other = id then (c.registry.recordOf id).ring else c.registry.recordOf id := by
  rw [Registry.recordOf, find?_ring h, Registry.recordOf]
  split
  · cases c.registry.find? id <;> rfl
  · rfl

theorem world_ring (id : JobId) (c : Controller) : (c.ring id).world = c.world := by
  rw [Controller.ring]
  split <;> rfl

/-! ### What a turn for a job leaves alone -/

/-- Requests of a kind were made at one instant, the records of other jobs are as they were, and the
records stayed in order. -/
structure Moved (P : Api.Request → Prop) (id : JobId) (c t : Controller) : Prop where
  kept : t.Kept
  others : ∀ other, other ≠ id → t.registry.find? other = c.registry.find? other
  sorted : c.registry.Sorted → t.registry.Sorted
  now : t.world.now = c.world.now
  ticket_le : c.world.ticket ≤ t.world.ticket
  asked : Api.Server.Asked P c.world.api t.world.api

/-- What is moved if the records were kept so far. -/
def Moves (P : Api.Request → Prop) (id : JobId) (c t : Controller) : Prop := c.Kept → Moved P id c t

section

variable {P Q : Api.Request → Prop}

instance : Std.Refl (Moves P id) :=
  ⟨fun c h => ⟨h, fun _ _ => rfl, fun h => h, rfl, Nat.le_refl _, Std.Refl.refl c.world.api⟩⟩

instance : Trans (Moves P id) (Moves P id) (Moves P id) where
  trans := by
    intro c t u ht hu hc
    have first := ht hc
    have second := hu first.kept
    exact ⟨second.kept, fun other ho => (second.others other ho).trans (first.others other ho),
      second.sorted ∘ first.sorted, second.now.trans first.now,
      Nat.le_trans first.ticket_le second.ticket_le, Trans.trans first.asked second.asked⟩

theorem Moves.mono (h : ∀ q, P q → Q q) (hm : Moves P id c t) : Moves Q id c t := by
  intro hc
  have moved := hm hc
  exact ⟨moved.kept, moved.others, moved.sorted, moved.now, moved.ticket_le, moved.asked.mono h⟩

theorem moves_put {r : Record} (hid : r.id = id) (hr : c.Kept → Drawn c.world r) :
    Moves P id c { c with registry := c.registry.put r } := by
  intro hc
  refine ⟨hc.put (hr hc) (Nat.le_refl _), fun other ho => ?_, fun h => h.insert _ _, rfl,
    Nat.le_refl _, Std.Refl.refl c.world.api⟩
  rw [Registry.find?_put, if_neg (by rw [hid]; exact ho.symm)]

theorem moves_erase (id : JobId) (c : Controller) :
    Moves P id c { c with registry := c.registry.erase id } := by
  intro hc
  refine ⟨hc.erase id, fun other ho => ?_, fun h => h.erase id, rfl, Nat.le_refl _,
    Std.Refl.refl c.world.api⟩
  rw [Dict.find?_erase, if_neg ho.symm]

theorem moves_world {w : World} (hnow : w.now = c.world.now) (hle : c.world.ticket ≤ w.ticket)
    (hasked : Api.Server.Asked P c.world.api w.api) : Moves P id c { c with world := w } :=
  fun hc => ⟨hc.world hle, fun _ _ => rfl, fun h => h, hnow, hle, hasked⟩

end

theorem state_work (record : Record) (handling : Handling α) (c : Controller) :
    (work record handling c).2 =
      ⟨c.registry.put (handling.run ⟨record, c.world⟩).2.record,
        (handling.run ⟨record, c.world⟩).2.world⟩ := rfl

theorem moves_work {record : Record} {handling : Handling α} {case : Case}
    (hrun : (handling.run ⟨record, c.world⟩).2 = case) (hid : c.Kept → record.id = id)
    (hdrawn : c.Kept → Drawn c.world record) (hsame : case.record.id = record.id)
    (hticks : Case.Ticks ⟨record, c.world⟩ case)
    (hasked : Api.Server.Asked (Api.Request.SetsOnly record.name) c.world.api case.world.api) :
    Moves (Api.Request.SetsOnly id.workflowName) id c (work record handling c).2 := by
  intro hc
  rw [state_work, hrun]
  have hle : c.world.ticket ≤ case.world.ticket := hticks.ticket_le
  have hdrawn' : Drawn case.world case.record := by
    intro timer htimer
    -- a limit that was there has an old ticket, a new one has a ticket that was drawn since
    rcases hticks.timer timer htimer with hold | hnew
    · exact Nat.lt_of_lt_of_le (hdrawn hc timer hold) hle
    · exact hnew.2
  refine ⟨hc.put hdrawn' hle, fun other ho => ?_, fun h => h.insert _ _, hticks.now, hle, ?_⟩
  · rw [Registry.find?_put, if_neg (by rw [hsame, hid hc]; exact ho.symm)]
  · rw [← hid hc]
    exact hasked

theorem moves_work_of_leads {record : Record} {handling : Handling α} {P : Deed → Prop}
    (hid : c.Kept → record.id = id) (hdrawn : c.Kept → Drawn c.world record)
    (h : Leads (Case.Did site P) handling ⟨record, c.world⟩) :
    Moves (Api.Request.SetsOnly id.workflowName) id c (work record handling c).2 := by
  have did : Case.Did site P ⟨record, c.world⟩ (handling.run ⟨record, c.world⟩).2 := h
  exact moves_work rfl hid hdrawn did.id did.ticks did.asked

theorem moves_work_startTimer {record : Record} (site : Site) (stage : Stage)
    (hid : c.Kept → record.id = id) (hdrawn : c.Kept → Drawn c.world record) :
    Moves (Api.Request.SetsOnly id.workflowName) id c
      (work record (Handling.startTimer site stage) c).2 := by
  have hrun : ((Handling.startTimer site stage).run ⟨record, c.world⟩).2 =
      (Deed.startTimer stage).apply site ⟨record, c.world⟩ := rfl
  have silent : ((Deed.startTimer stage).apply site ⟨record, c.world⟩).world.api = c.world.api :=
    Deed.api_apply_of_silent (d := .startTimer stage) trivial ⟨record, c.world⟩
  refine moves_work hrun hid hdrawn (Deed.id_apply _ _) (Case.ticks_apply _ _) ?_
  rw [silent]
  exact Std.Refl.refl c.world.api

end Controller

end Warren
