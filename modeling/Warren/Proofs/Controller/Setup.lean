import Warren.Proofs.Api.Twin
import Warren.Proofs.Controller.Regress
import Warren.Proofs.Controller.Repetition

/-!
# Setting a job up once more

A job that is set up a second time right away is answered as before, and nothing is changed by it
(`repeats_setup`). The second run is followed beside the first, request by request: what the first
one wrote is not read, and the workflow that it moved on says the same of its status.
-/

namespace Warren.Controller

open Api.Server (Twin)

variable {site : Site} {id : JobId} {b c e s t : Controller} {α β : Type}

/-! ### Requests that come once more -/

/-- A request is answered alike if it comes again right away, and changes nothing then. -/
structure Repeats (handle : Answering α) (c : Controller) : Prop where
  outcome : (handle.run (handle.run c).2).1 = (handle.run c).1
  alike : (handle.run c).2.Alike (handle.run (handle.run c).2).2

theorem repeats_of_run {handle : Answering α} {c t u : Controller} {out : Except Refusal α}
    (ht : handle.run c = (out, t)) (hu : handle.run t = (out, u)) (h : t.Alike u) :
    Repeats handle c := by
  constructor
  · rw [ht, hu]
  · rw [ht, hu]
    exact h

theorem alike_refl (c : Controller) : c.Alike c := ⟨rfl, rfl, Std.Refl.refl c.world.api⟩

/-! ### A stage is asked for -/

theorem run_requestStage {api : Api.Server} (hwilling : api.IsWilling) (name : String)
    (stage : Stage) : (Handling.requestStage name stage).run api = match api.workflow? name with
      | some _ => (.ok (), api.staged name stage)
      | none => (.error (.notFound name), api.noted (Api.stageRequest name stage)) := by
  have patched := Api.yields_patchWorkflow hwilling name (Api.stagePatch stage)
  change (Api.patchWorkflow name (Api.stagePatch stage)).run api = _
  obtain ⟨_, _, hrun, hsome, rfl⟩ | ⟨_, _, hrun, hnone, rfl, rfl⟩ := patched.cases
  · obtain ⟨object, hobject⟩ := Option.isSome_iff_exists.mp hsome
    rw [hrun, hobject]
    rfl
  · rw [hrun, hnone]
    rfl

/-! ### A second run beside the first -/

/-- A run of the controller that is at `t` beside the same run at `s`. The first one began at `b`,
and the second one at `e`, where the first one is to end. -/
structure Beside (b e s t : Controller) : Prop where
  registries : s.registry = b.registry ∧ t.registry = e.registry
  cleanups : s.world.cleanups = b.world.cleanups ∧ t.world.cleanups = e.world.cleanups
  servers : Twin b.world.api e.world.api s.world.api t.world.api

/-- The controller without the record of a job. -/
def without (id : JobId) (c : Controller) : Controller :=
  { c with registry := c.registry.erase id }

/-- How two runs end that are refused: the record of the job went in both of them, or in none. -/
def Refused (id : JobId) (b e s t : Controller) : Prop :=
  Beside b e s t ∨ Beside (b.without id) (e.without id) s t

/-- The workflow of a job is readable. -/
def Readable (id : JobId) (c : Controller) : Prop :=
  ∃ object w, c.world.api.workflow? id.workflowName = some object ∧
    Workflow.decode? object = some w

theorem Beside.ask {E : Controller → Controller → Prop} (h : Beside b e s t) {Q : α → β → Prop}
    {x : Api.Call α} {y : Api.Call β}
    (hx : Lockstep (fun a a' api api' => Q a a' ∧ Twin b.world.api e.world.api api api')
      (Twin b.world.api e.world.api) x y s.world.api t.world.api)
    (hE : ∀ s' t', Beside b e s' t' → E s' t') :
    Lockstep (fun a a' s' t' => Q a a' ∧ Beside b e s' t') E (Controller.ask x)
      (Controller.ask y) s t := by
  have beside {api api' : Api.Server} (htwin : Twin b.world.api e.world.api api api') :
      Beside b e { s with world := { s.world with api } }
        { t with world := { t.world with api := api' } } := ⟨h.registries, h.cleanups, htwin⟩
  obtain ⟨a, a', api, api', hs, ht, hQ, htwin⟩ | ⟨fault, api, api', hs, ht, htwin⟩ := hx.cases
  · have hs' := run_ask x s
    have ht' := run_ask y t
    rw [hs] at hs'
    rw [ht] at ht'
    exact .of_ok hs' ht' ⟨hQ, beside htwin⟩
  · have hs' := run_ask x s
    have ht' := run_ask y t
    rw [hs] at hs'
    rw [ht] at ht'
    exact .of_error hs' ht' (hE _ _ (beside htwin))

theorem lockstep_demand {P E : Controller → Controller → Prop} (refusal : Refusal) (a : Option α)
    (h : P s t) (hE : E s t) :
    Lockstep (fun a a' s' t' => a = a' ∧ P s' t') E (demand refusal a) (demand refusal a) s t := by
  cases a with
  | some a => exact .of_ok rfl rfl ⟨rfl, h⟩
  | none => exact .of_error rfl rfl hE

theorem lockstep_survive {P E : Controller → Controller → Prop} (outcome : Except Crash α)
    (h : P s t) (hE : E s t) :
    Lockstep (fun a a' s' t' => a = a' ∧ P s' t') E (survive outcome) (survive outcome) s t := by
  cases outcome with
  | ok a => exact .of_ok rfl rfl ⟨rfl, h⟩
  | error crash => exact .of_error rfl rfl hE

theorem lockstep_countServers {P E : Controller → Controller → Prop} (site : Site)
    (hosts : List String) (h : P s t) (hE : E s t) :
    Lockstep (fun counts counts' s' t' => counts = counts' ∧ P s' t') E
      (countServers site hosts) (countServers site hosts) s t := by
  unfold countServers
  split
  · exact .of_ok rfl rfl ⟨rfl, h⟩
  · exact .of_error rfl rfl hE
  · exact .of_error rfl rfl hE

theorem lockstep_readWorkflow (h : Beside b e s t) :
    Lockstep (fun w w' s' t' => (w'.status = w.status ∧ Readable id b) ∧ Beside b e s' t')
      (Refused id b e) (readWorkflow id) (readWorkflow id) s t := by
  refine (h.ask (Api.lockstep_observe (Api.lockstep_getWorkflow h.servers id.workflowName))
    fun _ _ => Or.inl).bind fun out out' s' t' hout => ?_
  obtain ⟨⟨object, other, rfl, rfl, hobject, hglance⟩ | ⟨fault, rfl, rfl⟩, h'⟩ := hout
  · change Lockstep _ _ (ask (Api.decoded Workflow.decode? object))
      (ask (Api.decoded Workflow.decode? other)) s' t'
    refine h'.ask ?_ fun _ _ => Or.inl
    unfold Api.decoded
    unfold Api.glance at hglance
    cases hw : Workflow.decode? object with
    | none =>
      rw [hw, Option.map_none, Option.map_eq_none_iff] at hglance
      rw [hglance]
      exact .of_error rfl rfl h'.servers
    | some w =>
      rw [hw, Option.map_some] at hglance
      obtain ⟨w', hw', hstatus⟩ := Option.map_eq_some_iff.mp hglance
      rw [hw']
      exact .of_ok rfl rfl ⟨⟨hstatus, object, w, hobject, hw⟩, h'.servers⟩
  · -- a workflow that is gone costs the job its record in both runs
    change Lockstep _ _ (if fault.isNotFound = true then _ else _)
      (if fault.isNotFound = true then _ else _) s' t'
    split
    · have dropped : Beside (b.without id) (e.without id) (s'.without id) (t'.without id) :=
        ⟨⟨congrArg (·.erase id) h'.registries.1, congrArg (·.erase id) h'.registries.2⟩,
          h'.cleanups, h'.servers⟩
      exact .of_error rfl rfl (Or.inr dropped)
    · exact .of_error rfl rfl (Or.inl h')

theorem lockstep_breakdowns {origin last api api' : Api.Server} {w w' : Workflow}
    (h : Twin origin last api api') (hstatus : w'.status = w.status) :
    Lockstep (fun found found' u v => found = found' ∧ Twin origin last u v) (Twin origin last)
      (Handling.breakdowns w) (Handling.breakdowns w') api api' := by
  rw [Handling.breakdowns, Handling.breakdowns, hstatus]
  refine .mapM (fun reference u v huv => ?_) h
  refine (Api.lockstep_getBreakdown huv _ _).bind fun object other u' v' hobject => ?_
  obtain ⟨rfl, h'⟩ := hobject
  exact Api.lockstep_decoded h' _ _

theorem lockstep_writeServers (h : Beside b e s t) (site : Site)
    (counts : Allocation.ServerCounts) (breakdown : Breakdown) :
    Lockstep (fun _ _ s' t' => Beside b e s' t') (Beside b e)
      (writeServers site counts breakdown) (writeServers site counts breakdown) s t := by
  unfold writeServers
  cases breakdown.servers? with
  | none => exact .of_ok rfl rfl h
  | some reference =>
    dsimp only
    split
    · exact .of_error rfl rfl h
    · exact .of_error rfl rfl h
    · rename_i plans _
      have written := Api.lockstep_writing h.servers
        (Json.isLeaf_array (plans.map Allocation.Plan.encode)) .servers
        (Api.spaceOrDefault reference.space) reference.name (by decide) (by decide)
      exact (h.ask (Q := fun _ _ => True) (written.mono (fun _ _ _ _ htwin => ⟨trivial, htwin⟩)
        fun _ _ h => h) fun _ _ h => h).mono (fun _ _ _ _ => And.right) fun _ _ h => h

theorem lockstep_place (h : Beside b e s t) (site : Site) (id : JobId) (nodelist : List String) :
    Lockstep (fun found found' s' t' => (found = found' ∧ Readable id b) ∧ Beside b e s' t')
      (Refused id b e) (place site id nodelist) (place site id nodelist) s t := by
  refine (lockstep_survive _ h (Or.inl h)).bind fun found _ s₀ t₀ hfound => ?_
  obtain ⟨rfl, h₀⟩ := hfound
  refine (lockstep_demand _ found h₀ (Or.inl h₀)).bind fun hosts _ s₁ t₁ hhosts => ?_
  obtain ⟨rfl, h₁⟩ := hhosts
  refine (lockstep_readWorkflow h₁).bind fun w w' s₂ t₂ hread => ?_
  obtain ⟨⟨hstatus, hreadable⟩, h₂⟩ := hread
  refine (lockstep_countServers site hosts h₂ (Or.inl h₂)).bind fun counts _ u v hcounts => ?_
  obtain ⟨rfl, huv⟩ := hcounts
  refine (lockstep_survive _ huv (Or.inl huv)).bind fun rabbits _ s₃ t₃ hrabbits => ?_
  obtain ⟨rfl, h₃⟩ := hrabbits
  have told (notice : Notice) : Lockstep (fun _ _ s' t' => Beside b e s' t') (Refused id b e)
      (inWorld (.tell notice)) (inWorld (.tell notice)) s₃ t₃ :=
    .of_ok rfl rfl ⟨h₃.registries, h₃.cleanups, h₃.servers⟩
  refine (told _).bind fun _ _ s₄ t₄ h₄ => ?_
  -- all that is used of the workflow from here on is its status
  rw [hstatus]
  refine (lockstep_demand _ _ h₄ (Or.inl h₄)).bind fun computes _ s₅ t₅ hcomputes => ?_
  obtain ⟨rfl, h₅⟩ := hcomputes
  have listed := Api.lockstep_writing h₅.servers
    (Json.isLeaf_array (hosts.map fun host => .ofFields [("name", .string host)])) .computes
    (Api.spaceOrDefault computes.space) computes.name (by decide) (by decide)
  have wrote := h₅.ask (Q := fun _ _ => True) (E := Refused id b e)
    (listed.mono (fun _ _ _ _ htwin => ⟨trivial, htwin⟩) fun _ _ h => h) fun _ _ => Or.inl
  refine wrote.bind fun _ _ s₆ t₆ hwrote => ?_
  obtain ⟨_, h₆⟩ := hwrote
  refine (h₆.ask (lockstep_breakdowns h₆.servers hstatus) fun _ _ => Or.inl).bind
    fun found _ s₇ t₇ hfound => ?_
  obtain ⟨rfl, h₇⟩ := hfound
  have each : Lockstep (fun _ _ s' t' => Beside b e s' t') (Beside b e)
      (found.forM (writeServers site counts)) (found.forM (writeServers site counts)) s₇ t₇ :=
    .forM (fun breakdown s t hst => lockstep_writeServers hst site counts breakdown) h₇
  refine (each.mono (fun _ _ _ _ h => h) fun _ _ => Or.inl).bind fun _ _ s₈ t₈ h₈ => ?_
  exact .of_ok rfl rfl ⟨⟨rfl, hreadable⟩, h₈⟩

/-! ### The end of a run -/

theorem beside_self (hwilling : b.world.api.IsWilling) (hpart : b.world.api.NonePart) :
    Beside b b b b := ⟨⟨rfl, rfl⟩, ⟨rfl, rfl⟩, Api.Server.twin_self hwilling hpart⟩

theorem Beside.again (h : Beside b b t t) (hwilling : b.world.api.IsWilling)
    (hpart : b.world.api.NonePart) : Twin b.world.api t.world.api b.world.api t.world.api :=
  Api.Server.twin_of_akin h.servers.first.symm
    (fun name => congrArg _ (h.servers.workflows name).1) ⟨hwilling, h.servers.willing.1⟩ hpart

theorem Refused.again (h : Refused id b b t t) (hwilling : b.world.api.IsWilling)
    (hpart : b.world.api.NonePart) : Beside b t b t := by
  refine ⟨⟨rfl, rfl⟩, ⟨rfl, rfl⟩, ?_⟩
  rcases h with h | h
  · exact h.again hwilling hpart
  · exact h.again hwilling hpart

theorem Refused.isLeaving (h : Refused id b e s t) (hb : isLeaving b.registry id = false) :
    isLeaving s.registry id = false := by
  rcases h with h | h
  · rw [h.registries.1, hb]
  · have hs : s.registry = b.registry.erase id := h.registries.1
    rw [Controller.isLeaving, hs, Dict.find?_erase, if_pos rfl]
    rfl

theorem Refused.alike (h : Refused id b s s t) : s.Alike t := by
  rcases h with h | h
  · exact ⟨h.registries.2, h.cleanups.2, h.servers.sameContents⟩
  · refine ⟨?_, h.cleanups.2, h.servers.sameContents⟩
    have hs : s.registry = b.registry.erase id := h.registries.1
    have ht : t.registry = s.registry.erase id := h.registries.2
    rw [ht, hs]
    exact Dict.erase_erase b.registry id

/-- The record of a job whose storage was placed. -/
def placed (c : Controller) (id : JobId) (found : List String × List String) : Record :=
  { c.registry.recordOf id with servers := some found.2, hosts := found.1 }

theorem run_setup_of_error {c t : Controller} {nodelist : List String} {refusal : Refusal}
    (hstaying : isLeaving c.registry id = false)
    (hplace : (place site id nodelist).run c = (.error refusal, t)) :
    (setup site id nodelist).run c = (.error refusal, t) := by
  rw [setup, run_bind_ok (run_get_apply c), hstaying, if_neg (by simp)]
  exact run_bind_error hplace _

theorem run_setup_of_ok {c t : Controller} {nodelist : List String}
    {found : List String × List String} (hstaying : isLeaving c.registry id = false)
    (hplace : (place site id nodelist).run c = (.ok found, t))
    (hwilling : t.world.api.IsWilling)
    (hobject : (t.world.api.workflow? id.workflowName).isSome = true) :
    ∃ case : Case, (setup site id nodelist).run c =
        (.ok .done, ⟨t.registry.put case.record, case.world⟩) ∧
      Handling.Timed site .setup ⟨t.placed id found,
        { t.world with api := t.world.api.staged id.workflowName .setup }⟩ case := by
  let u : Controller :=
    { t with world := { t.world with api := t.world.api.staged id.workflowName .setup } }
  obtain ⟨object, hsome⟩ := Option.isSome_iff_exists.mp hobject
  have asked : (ask (Handling.requestStage id.workflowName .setup)).run t = (.ok (), u) := by
    rw [run_ask, run_requestStage hwilling, hsome]
    rfl
  obtain ⟨_, case, hrun, timed⟩ :=
    (Handling.yields_startTimer site .setup ⟨t.placed id found, u.world⟩).ok
  have hwork : (work (t.placed id found) (Handling.startTimer site .setup) u).2 =
      ⟨t.registry.put case.record, case.world⟩ := by
    rw [state_work, hrun]
  have settled : (settle site id found.1 found.2).run u =
      (.ok (), ⟨t.registry.put case.record, case.world⟩) := by
    rw [settle, run_bind_ok (run_get_apply u), run_discard]
    exact Prod.ext rfl hwork
  refine ⟨case, ?_, timed⟩
  rw [setup, run_bind_ok (run_get_apply c), hstaying, if_neg (by simp)]
  refine (run_bind_ok hplace _).trans ?_
  refine (run_bind_ok asked _).trans ?_
  exact run_bind_ok settled _

theorem recordOf_timed {found : List String × List String} {world : World} {case : Case}
    (hc : c.Kept) (hstaying : isLeaving c.registry id = false)
    (timed : Handling.Timed site .setup ⟨c.placed id found, world⟩ case) :
    (c.registry.put case.record).recordOf id = case.record ∧
      isLeaving (c.registry.put case.record) id = false := by
  have hid : case.record.id = id := by
    rw [timed.record]
    exact (hc.recordOf id).1
  have hrecord : (c.registry.put case.record).recordOf id = case.record := by
    rw [Registry.recordOf_put, if_pos hid]
  refine ⟨hrecord, ?_⟩
  rw [isLeaving_eq, hrecord, timed.record]
  exact (isLeaving_eq c.registry id).symm.trans hstaying

theorem Beside.staged {fields : Dict String Json} {w : Workflow} (h : Beside c c t t)
    (hwilling : c.world.api.IsWilling) (hpart : c.world.api.NonePart)
    (hobject : c.world.api.workflow? id.workflowName = some (.object fields))
    (hw : Workflow.decode? (.object fields) = some w)
    (hspec : ∀ items, fields.find? "spec" ≠ some (.array items))
    (hapi : e.world.api = t.world.api.staged id.workflowName .setup) : Beside c e c e := by
  have hstored : t.world.api.workflow? id.workflowName = some (.object fields) :=
    (h.servers.workflows _).1.trans hobject
  refine ⟨⟨rfl, rfl⟩, ⟨rfl, rfl⟩, Api.Server.twin_of_akin ?_ (fun name => ?_) ⟨hwilling, ?_⟩ hpart⟩
  · rw [hapi]
    exact Trans.trans h.servers.first.symm (Api.Server.akin_staged h.servers.nonePart _ _)
  · rw [hapi, Api.glances_staged h.servers.nonePart hstored hw hspec, (h.servers.workflows name).1]
  · rw [hapi]
    exact Api.Server.isWilling_staged h.servers.willing.1 _ _

theorem repeats_setup_of_ok {found : List String × List String} {fields : Dict String Json}
    {w : Workflow} {nodelist : List String} (hc : c.Kept) (hwilling : c.world.api.IsWilling)
    (hpart : c.world.api.NonePart) (hstaying : isLeaving c.registry id = false)
    (hplace : (place site id nodelist).run c = (.ok found, t)) (h : Beside c c t t)
    (hobject : c.world.api.workflow? id.workflowName = some (.object fields))
    (hw : Workflow.decode? (.object fields) = some w)
    (hspec : ∀ items, fields.find? "spec" ≠ some (.array items)) :
    Repeats (setup site id nodelist) c := by
  have hisSome : (t.world.api.workflow? id.workflowName).isSome = true := by
    rw [(h.servers.workflows _).1, hobject]
    rfl
  obtain ⟨case, first, timed⟩ := run_setup_of_ok hstaying hplace h.servers.willing.1 hisSome
  -- the second run begins at the end of the first one
  let e : Controller := ⟨t.registry.put case.record, case.world⟩
  have hapi : e.world.api = t.world.api.staged id.workflowName .setup := timed.api
  have hregistry : t.registry = c.registry := h.registries.1
  have hplacement : t.placed id found = c.placed id found := by rw [placed, placed, hregistry]
  have hend : e.registry = c.registry.put case.record := by
    rw [← hregistry]
  obtain ⟨hrecord, hstaying'⟩ := recordOf_timed hc hstaying (hplacement ▸ timed)
  rw [← hend] at hrecord hstaying'
  have again := lockstep_place (h.staged hwilling hpart hobject hw hspec hapi) site id nodelist
  obtain ⟨_, _, _, u, hrun, hplaced, ⟨rfl, _⟩, h'⟩ | ⟨_, _, _, hrun, _, _⟩ := again.cases
  · obtain ⟨hout, rfl⟩ := Prod.mk.inj (hplace.symm.trans hrun)
    obtain rfl := Except.ok.inj hout
    have hisSome' : (u.world.api.workflow? id.workflowName).isSome = true := by
      rw [(h'.servers.workflows _).2, hapi, Api.Server.workflow?_staged h.servers.nonePart,
        if_pos rfl, Option.isSome_map, hisSome]
    obtain ⟨case', second, timed'⟩ :=
      run_setup_of_ok hstaying' hplaced h'.servers.willing.2 hisSome'
    refine repeats_of_run first second ⟨?_, ?_, ?_⟩
    · have hplacedRecord : u.placed id found = case.record := by
        rw [placed, h'.registries.2, hrecord, timed.record]
        rfl
      have hsame : case'.record = case.record :=
        (timed'.kept (hplacedRecord ▸ timed.runs)).trans hplacedRecord
      change u.registry.put case'.record = t.registry.put case.record
      rw [h'.registries.2, hsame]
      exact Dict.insert_insert _ _ _ _
    · exact timed'.cleanups.trans h'.cleanups.2
    · have hapi' : case'.world.api = u.world.api.staged id.workflowName .setup := timed'.api
      have twins := h'.servers
      rw [hapi] at twins
      have same := twins.staged
      rw [← hapi, ← hapi'] at same
      exact same
  · rw [hplace] at hrun
    cases hrun

/-- A job that is set up once more right away is answered alike, and nothing is changed by it, if
the specification of its workflow is no array. -/
theorem repeats_setup (hc : c.Kept) (hlogged : c.world.api.Logged)
    (hwilling : c.world.api.IsWilling) (hpart : c.world.api.NonePart)
    (hspec : ∀ object, c.world.api.workflow? id.workflowName = some object →
      ∀ items, object.field? "spec" ≠ some (.array items))
    (site : Site) (nodelist : List String) : Repeats (setup site id nodelist) c := by
  cases hstaying : isLeaving c.registry id with
  | true =>
    have dropped : (setup site id nodelist).run c = (.ok .done, c) := by
      rw [setup, run_bind_ok (run_get_apply c), hstaying]
      rfl
    exact repeats_of_run dropped dropped (alike_refl c)
  | false =>
    -- the first run beside itself says what placing the storage left alone
    have self := lockstep_place (beside_self hwilling hpart) site id nodelist
    obtain ⟨found, _, t, t', hplace, hplace', ⟨_, hreadable⟩, beside⟩ |
      ⟨refusal, t, t', hplace, hplace', refused⟩ := self.cases
    · obtain ⟨_, rfl⟩ := Prod.mk.inj (hplace.symm.trans hplace')
      obtain ⟨object, w, hobject, hw⟩ := hreadable
      obtain ⟨fields, rfl⟩ := hlogged.exists_object hobject
      exact repeats_setup_of_ok hc hwilling hpart hstaying hplace beside hobject hw
        (hspec _ hobject)
    · obtain ⟨_, rfl⟩ := Prod.mk.inj (hplace.symm.trans hplace')
      have first := run_setup_of_error hstaying hplace
      have again := lockstep_place (refused.again hwilling hpart) site id nodelist
      obtain ⟨_, _, _, _, hrun, _, _⟩ | ⟨_, _, u, hrun, hplaced, refused'⟩ := again.cases
      · rw [hplace] at hrun
        cases hrun
      · rw [hplace] at hrun
        cases hrun
        have second := run_setup_of_error (refused.isLeaving hstaying) hplaced
        exact repeats_of_run first second refused'.alike

end Warren.Controller
