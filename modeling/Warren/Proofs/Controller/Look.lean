import Warren.Proofs.Api.Faults
import Warren.Proofs.Controller.Ledger

/-!
# What a look at the stored workflow of a job decides

Before a workflow is torn down or its storage is placed it is read. If the server says that there is
none, the job loses its record, or its record is marked; if the request fails for another reason,
everything stays as it was. `run_tearDownStored` and `scouts_place` say so for the two pieces of
work that look.
-/

namespace Warren

open Api (lookRequest)
open Api.Server (Asked Faced faced_iff_or)

variable {site : Site} {id : JobId}

namespace Api.Server

variable {s t u : Server} {name : String}

/-- A look at a workflow was answered that there is none. -/
def Missed (name : String) (s t : Server) : Prop :=
  Faced (· = lookRequest name) Fault.isNotFound s t

/-- A look at a workflow failed, and not because there is none. -/
def Unread (name : String) (s t : Server) : Prop :=
  Faced (· = lookRequest name) (fun fault => !fault.isNotFound) s t

instance : Decidable (Missed name s t) := inferInstanceAs (Decidable (Faced _ _ s t))

instance : Decidable (Unread name s t) := inferInstanceAs (Decidable (Faced _ _ s t))

theorem missed_look :
    Missed name s (s.serve (lookRequest name)) ↔
      (s.fault? (lookRequest name)).any Fault.isNotFound = true := by
  rw [Missed, faced_serve]
  exact and_iff_right rfl

theorem unread_look :
    Unread name s (s.serve (lookRequest name)) ↔
      (s.fault? (lookRequest name)).any (fun fault => !fault.isNotFound) = true := by
  rw [Unread, faced_serve]
  exact and_iff_right rfl

theorem run_getWorkflow_cases (name : String) (s : Server) :
    (∃ object, (getWorkflow name).run s = (.ok object, s.serve (lookRequest name)) ∧
      s.fault? (lookRequest name) = none) ∨
    ∃ fault, (getWorkflow name).run s = (.error fault, s.serve (lookRequest name)) ∧
      s.fault? (lookRequest name) = some fault := by
  have hserve : s.serve (lookRequest name) = ((getWorkflow name).run s).2 := rfl
  have hfault : s.fault? (lookRequest name) = faultOf ((getWorkflow name).run s).1 := rfl
  rw [hserve, hfault]
  obtain ⟨out, t⟩ := (getWorkflow name).run s
  cases out with
  | ok object => exact Or.inl ⟨object, rfl, rfl⟩
  | error fault => exact Or.inr ⟨fault, rfl, rfl⟩

end Api.Server

/-! ### A workflow that is read to be torn down -/

/-- A record of a job that is torn down. -/
def Record.tearDown (r : Record) : Record :=
  { r.cancelTimer with tornDown := true, condition := none }

/-- A record of a job whose workflow turned out to be gone. -/
def Record.lose (r : Record) : Record := { r.cancelTimer with tornDown := true, deleted := true }

/-- What a look at the workflow, with a fault or without, makes of the record of a job that is to be
torn down. -/
def Record.heed (r : Record) : Option Api.Fault → Record
  | none => r.tearDown
  | some fault => if fault.isNotFound then r.lose else r

namespace Record

variable (r : Record) (answer : Option Api.Fault)

theorem id_heed : (r.heed answer).id = r.id := by
  cases answer with
  | none => rfl
  | some fault => cases h : fault.isNotFound <;> simp [heed, h, lose, cancelTimer]

theorem tornDown_heed : (r.heed answer).tornDown =
    (r.tornDown || !answer.any fun fault => !fault.isNotFound) := by
  cases answer with
  | none => simp [heed, tearDown]
  | some fault => cases h : fault.isNotFound <;> simp [heed, h, lose]

theorem condition_heed (hr : r.condition = none) : (r.heed answer).condition = none := by
  cases answer with
  | none => rfl
  | some fault => cases h : fault.isNotFound <;> simp [heed, h, lose, cancelTimer, hr]

end Record

namespace Handling

theorem run_look (name : String) (c : Case) : (call (Api.observe (Api.getWorkflow name))).run c =
    match (Api.getWorkflow name).run c.world.api with
    | (found, api) => (.ok found, { c with world := { c.world with api } }) := rfl

/-- A workflow that is read is torn down, one that is gone is lost, and another fault changes
nothing. -/
theorem run_tearDownStored (site : Site) (c : Case) :
    match c.world.api.fault? (lookRequest c.record.name) with
    | none => ∃ t, (tearDownStored site).run c = (.ok true, t) ∧ t.record = c.record.tearDown ∧
        t.world.api = c.world.api.serve (lookRequest c.record.name)
    | some fault => (tearDownStored site).run c =
        if fault.isNotFound then
          (.ok false, { c.serve (lookRequest c.record.name) with record := c.record.lose })
        else (.error fault, c.serve (lookRequest c.record.name)) := by
  rw [tearDownStored, run_bind_ok (run_record c), run_bind_apply, run_look]
  rcases Api.Server.run_getWorkflow_cases c.record.name c.world.api with
    ⟨object, hget, hfault⟩ | ⟨fault, hget, hfault⟩
  · rw [hget, hfault]
    exact ⟨_, rfl, rfl, rfl⟩
  · rw [hget, hfault]
    dsimp only
    cases fault.isNotFound <;> rfl

theorem api_run_tearDownStored (site : Site) (c : Case) :
    ((tearDownStored site).run c).2.world.api =
      c.world.api.serve (lookRequest c.record.name) := by
  have hstored := run_tearDownStored site c
  cases hfault : c.world.api.fault? (lookRequest c.record.name) with
  | none =>
    rw [hfault] at hstored
    obtain ⟨t, hrun, _, hapi⟩ := hstored
    rw [hrun, hapi]
  | some fault =>
    rw [hfault] at hstored
    dsimp only at hstored
    rw [hstored]
    split <;> rfl

theorem record_run_tearDownStored (site : Site) (c : Case) :
    ((tearDownStored site).run c).2.record =
      c.record.heed (c.world.api.fault? (lookRequest c.record.name)) := by
  have hstored := run_tearDownStored site c
  cases hfault : c.world.api.fault? (lookRequest c.record.name) with
  | none =>
    rw [hfault] at hstored
    obtain ⟨t, hrun, hrecord, _⟩ := hstored
    rw [hrun, hrecord]
    rfl
  | some fault =>
    rw [hfault] at hstored
    dsimp only at hstored
    rw [hstored, Record.heed]
    split <;> rfl

end Handling

namespace Controller

variable {c t u : Controller}

theorem has_put (g : Registry) (r : Record) (id : JobId) :
    Dict.has (g.put r) id = (decide (r.id = id) || g.has id) := by
  rw [Dict.has, Registry.find?_put]
  split
  · rename_i h
    simp [h]
  · rename_i h
    simp [h, Dict.has]

theorem has_erase (g : Registry) (id other : JobId) :
    Dict.has (g.erase id) other = (decide (id ≠ other) && g.has other) := by
  rw [Dict.has, Dict.find?_erase]
  split
  · rename_i h
    simp [h]
  · rename_i h
    simp [h, Dict.has]

theorem run_moveToTeardown_look {r : Record} (hid : r.id = id) (site : Site) (c : Controller) :
    ∃ out t, (moveToTeardown site r).run c = (out, t) ∧
      t.world.api = c.world.api.serve (lookRequest id.workflowName) ∧
      match c.world.api.fault? (lookRequest id.workflowName) with
      | none => out = .ok () ∧ t.registry.has id = true
      | some fault => if fault.isNotFound then out = .ok () ∧ t.registry.has id = false
          else out = .error (.api fault) ∧ t.registry.has id = true := by
  have hname : r.name = id.workflowName := by rw [Record.name, hid]
  have hstored := Handling.run_tearDownStored site ⟨r, c.world⟩
  have hwork : work r (Handling.tearDownStored site) c =
      (((Handling.tearDownStored site).run ⟨r, c.world⟩).1,
        (work r (Handling.tearDownStored site) c).2) := rfl
  rw [run_moveToTeardown, hwork, state_work]
  dsimp only at hstored
  rw [hname] at hstored
  cases hfault : c.world.api.fault? (lookRequest id.workflowName) with
  | none =>
    rw [hfault] at hstored
    obtain ⟨t, hrun, hrecord, hapi⟩ := hstored
    refine ⟨_, _, by rw [hrun], hapi, rfl, ?_⟩
    have kept : t.record.id = id := by rw [hrecord]; exact hid
    simp [has_put, kept]
  | some fault =>
    rw [hfault] at hstored
    dsimp only at hstored
    cases hgone : fault.isNotFound with
    | true =>
      rw [hgone] at hstored
      refine ⟨_, _, by rw [hstored]; rfl, rfl, ?_⟩
      simp [hgone, has_erase, hid]
    | false =>
      rw [hgone] at hstored
      refine ⟨_, _, by rw [hstored]; rfl, rfl, ?_⟩
      simp [hgone, has_put, Case.serve, hid]

/-! ### A workflow that is read to be set up -/

/-- No record changes, and no look at the workflow of a job finds none. -/
structure Glides (id : JobId) (c t : Controller) : Prop where
  registry : t.registry = c.registry
  served : Api.Server.Served c.world.api t.world.api
  found : ¬Api.Server.Missed id.workflowName c.world.api t.world.api

/-- A job keeps its record, if it has one, unless a look at its workflow finds none. -/
structure Surveys (id : JobId) (c t : Controller) : Prop where
  served : Api.Server.Served c.world.api t.world.api
  has : t.registry.has id = true ↔
    c.registry.has id = true ∧ ¬Api.Server.Missed id.workflowName c.world.api t.world.api

instance : Std.Refl (Glides id) :=
  ⟨fun c => ⟨rfl, Std.Refl.refl c.world.api, Api.Server.not_faced_refl _⟩⟩

instance : Trans (Glides id) (Glides id) (Glides id) where
  trans h h' := ⟨h'.registry.trans h.registry, Trans.trans h.served h'.served,
    fun hmissed => ((faced_iff_or h.served h'.served).mp hmissed).elim h.found h'.found⟩

theorem Glides.surveys (h : Glides id c t) : Surveys id c t :=
  ⟨h.served, by rw [h.registry]; exact ⟨fun hc => ⟨hc, h.found⟩, fun hc => hc.1⟩⟩

instance : Trans (Glides id) (Surveys id) (Surveys id) where
  trans h h' := by
    refine ⟨Trans.trans h.served h'.served, ?_⟩
    rw [h'.has, h.registry, Api.Server.Missed, Api.Server.Missed, faced_iff_or h.served h'.served]
    exact and_congr_right fun _ => ⟨fun hrest => not_or.mpr ⟨h.found, hrest⟩,
      fun hboth => (not_or.mp hboth).2⟩

/-- Work that glides if it succeeds, and may find no workflow if it fails. -/
structure Scouts (id : JobId) (x : Answering α) (c : Controller) : Prop where
  surveys : Leads (Surveys id) x c
  glides : ∀ a t, x.run c = (.ok a, t) → Glides id c t

theorem Scouts.of_glides {x : Answering α} (h : Leads (Glides id) x c) : Scouts id x c := by
  refine ⟨h.mono fun _ _ => Glides.surveys, fun a t ht => ?_⟩
  unfold Leads at h
  rw [ht] at h
  exact h

theorem Scouts.bind {x : Answering α} {f : α → Answering β} (hx : Scouts id x c)
    (hf : ∀ a t, x.run c = (.ok a, t) → Scouts id (f a) t) : Scouts id (x >>= f) c := by
  refine ⟨hx.surveys.bind_of_ok fun a t ht => ⟨hx.glides a t ht, (hf a t ht).surveys⟩, ?_⟩
  intro b u hu
  rw [run_bind_apply] at hu
  cases hr : x.run c with
  | mk out t =>
    rw [hr] at hu
    cases out with
    | ok a => exact Trans.trans (hx.glides a t hr) ((hf a t hr).glides b u hu)
    | error e => cases hu

theorem glides_world {w : World}
    (served : Asked (· ≠ lookRequest id.workflowName) c.world.api w.api) :
    Glides id c { c with world := w } :=
  ⟨rfl, served.mono fun _ _ => trivial, served.not_faced fun _ h => h⟩

theorem glides_ask {conversation : Api.Call α}
    (h : Api.Asks (· ≠ lookRequest id.workflowName) conversation) (c : Controller) :
    Leads (Glides id) (ask conversation) c :=
  glides_world (w := { c.world with api := (conversation.run c.world.api).2 }) (h c.world.api)

theorem glides_notice (notice : Notice) (c : Controller) :
    Leads (Glides id) (inWorld (.tell notice)) c :=
  glides_world (w := c.world.tell notice) (Std.Refl.refl c.world.api)

theorem glides_demand (refusal : Refusal) (a : Option α) (c : Controller) :
    Leads (Glides id) (demand refusal a) c := by
  cases a with
  | some a => exact .pure a c
  | none => exact .throw refusal c

theorem run_look (name : String) (c : Controller) :
    (ask (Api.observe (Api.getWorkflow name))).run c =
      match (Api.getWorkflow name).run c.world.api with
      | (found, api) => (.ok found, { c with world := { c.world with api } }) := rfl

theorem run_readWorkflow (id : JobId) (c : Controller) :
    let look := lookRequest id.workflowName
    let looked : Controller := { c with world := { c.world with api := c.world.api.serve look } }
    match c.world.api.fault? look with
    | none => ∃ object, (readWorkflow id).run c =
        (ask (Api.decoded Workflow.decode? object)).run looked
    | some fault => (readWorkflow id).run c = (.error (.api fault),
        if fault.isNotFound then { looked with registry := c.registry.erase id } else looked) := by
  intro look looked
  rw [readWorkflow, run_bind_apply, run_look]
  rcases Api.Server.run_getWorkflow_cases id.workflowName c.world.api with
    ⟨object, hget, hfault⟩ | ⟨fault, hget, hfault⟩
  · rw [hget, hfault]
    exact ⟨object, rfl⟩
  · rw [hget, hfault]
    dsimp only
    cases fault.isNotFound <;> rfl

theorem scouts_readWorkflow (id : JobId) (c : Controller) : Scouts id (readWorkflow id) c := by
  have served : Api.Server.Served c.world.api
      (c.world.api.serve (lookRequest id.workflowName)) := .one trivial _
  have hmissed : Api.Server.Missed id.workflowName c.world.api _ ↔ _ :=
    Api.Server.missed_look
  have hrun := run_readWorkflow id c
  dsimp only at hrun
  cases hfault : c.world.api.fault? (lookRequest id.workflowName) with
  | none =>
    rw [hfault] at hrun hmissed
    obtain ⟨object, hrun⟩ := hrun
    let read : Controller :=
      { c with world := { c.world with api := c.world.api.serve (lookRequest id.workflowName) } }
    have looked : Glides id c read := ⟨rfl, served, fun h => by cases hmissed.mp h⟩
    have decoded : Leads (Glides id) (ask (Api.decoded Workflow.decode? object)) read :=
      glides_ask (.decoded _ _) read
    have glided : Leads (Glides id) (readWorkflow id) c := by
      unfold Leads
      rw [hrun]
      exact Trans.trans looked decoded
    exact .of_glides glided
  | some fault =>
    rw [hfault] at hrun hmissed
    dsimp only at hrun
    refine ⟨?_, fun w t ht => by rw [hrun] at ht; cases ht⟩
    unfold Leads
    rw [hrun]
    cases hgone : fault.isNotFound with
    | true =>
      have missed := hmissed.mpr hgone
      refine ⟨served, iff_of_false ?_ fun h => h.2 missed⟩
      simp [has_erase]
    | false =>
      have found : ¬Api.Server.Missed id.workflowName c.world.api _ := fun h => by
        rw [hmissed, Option.any_some, hgone] at h
        cases h
      exact ⟨served, ⟨fun h => ⟨h, found⟩, fun h => h.1⟩⟩

theorem glides_writeServers (site : Site) (counts : Allocation.ServerCounts) (b : Breakdown)
    (c : Controller) : Leads (Glides id) (writeServers site counts b) c := by
  unfold writeServers
  cases b.servers? with
  | none => exact .pure _ c
  | some reference =>
    dsimp only
    split
    · exact .throw _ c
    · exact .throw _ c
    · exact glides_ask (.discard (.patch nofun)) c

theorem scouts_place (site : Site) (id : JobId) (nodelist : List String) (c : Controller) :
    Scouts id (place site id nodelist) c := by
  refine (Scouts.of_glides (leads_survive _ c)).bind fun found s _ => ?_
  refine (Scouts.of_glides (glides_demand _ found s)).bind fun hosts t _ => ?_
  -- the workflow is read once, and a job keeps its record from there on
  refine (scouts_readWorkflow id t).bind fun w u _ => .of_glides ?_
  refine .bind (leads_countServers site hosts u) fun counts v _ => ?_
  refine .bind (leads_survive _ v) fun rabbits v' _ => ?_
  refine .bind (glides_notice _ v') fun _ x _ => ?_
  refine .bind (glides_demand _ _ x) fun computes y _ => ?_
  refine .bind (glides_ask (.discard (.patch nofun)) y) fun _ z _ => ?_
  have read : Api.Asks (· ≠ lookRequest id.workflowName) (Handling.breakdowns w) :=
    Handling.asks_breakdowns
      (fun _ _ hlook => absurd (Api.Request.get.inj hlook).1 (by decide)) w
  refine .bind (glides_ask read z) fun found s _ => ?_
  exact .bind (.forM (fun b _ => glides_writeServers site counts b) s) fun _ r _ => .pure _ r

end Controller

namespace Sample

def unavailable : Api.Fault := .status 503 "unavailable"

/-- The next request of a kind fails. -/
def failing (verb : Api.Verb) (fault : Api.Fault) (c : Controller) : Controller :=
  c.step Sample.site (.outside { c.world with api := c.world.api.script verb [some fault] } 0)

theorem reachable_failing {c : Controller} (h : Controller.Reachable Sample.site c)
    (verb : Api.Verb) (fault : Api.Fault) :
    Controller.Reachable Sample.site (failing verb fault c) :=
  h.step (.outside { c.world with api := c.world.api.script verb [some fault] } 0)

end Sample

end Warren
