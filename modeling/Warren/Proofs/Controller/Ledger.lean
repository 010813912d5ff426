import Warren.Proofs.Controller.Dealing
import Warren.Proofs.Controller.Turn

/-!
# The account of a job over a turn

A turn for a job works on its record, or on a new one, and puts the record back. `Lives` says that
the account is kept on the way. A turn may also cost the job its record, but then it sends nothing
any more: that is `Ends`.
-/

namespace Warren.Controller

open Case (Deals)

variable {site : Site} {id : JobId} {c t : Controller} {α β : Type}

/-- A job as the controller has it: its record, or a new one if there is none. -/
def caseOf (id : JobId) (c : Controller) : Case := ⟨c.registry.recordOf id, c.world⟩

/-- The account of a job is kept. -/
def Lives (id : JobId) (c t : Controller) : Prop :=
  (caseOf id c).record.id = id → Deals (caseOf id c) (caseOf id t)

/-- The account of a job is kept up to some record, which the controller still has or which is
gone. -/
def Ends (id : JobId) (c t : Controller) : Prop :=
  (caseOf id c).record.id = id → ∃ r, Deals (caseOf id c) ⟨r, t.world⟩ ∧
    ∀ s, t.registry.find? id = some s → s = r

/-- The account of a job is kept, and no record changes. -/
structure Spares (id : JobId) (c t : Controller) : Prop where
  registry : t.registry = c.registry
  lives : Lives id c t

section

instance : Std.Refl (Lives id) := ⟨fun c _ => Std.Refl.refl (caseOf id c)⟩

theorem Lives.own (h : Lives id c t) (hc : (caseOf id c).record.id = id) :
    (caseOf id t).record.id = id := by
  obtain ⟨x, dealt⟩ := h hc
  exact dealt.id.trans hc

instance : Trans (Lives id) (Lives id) (Lives id) :=
  ⟨fun h h' hc => Trans.trans (h hc) (h' (h.own hc))⟩

theorem Lives.ends (h : Lives id c t) : Ends id c t := by
  intro hc
  refine ⟨t.registry.recordOf id, h hc, fun s hs => ?_⟩
  rw [Registry.recordOf_of_find? hs]

instance : Std.Refl (Ends id) := ⟨fun c => (Std.Refl.refl c : Lives id c c).ends⟩

instance : Trans (Lives id) (Ends id) (Ends id) where
  trans := by
    intro c t u h h' hc
    obtain ⟨r, hr, hlast⟩ := h' (h.own hc)
    exact ⟨r, Trans.trans (h hc) hr, hlast⟩

instance : Std.Refl (Spares id) := ⟨fun c => ⟨rfl, Std.Refl.refl c⟩⟩

instance : Trans (Spares id) (Spares id) (Spares id) :=
  ⟨fun h h' => ⟨h'.registry.trans h.registry, Trans.trans h.lives h'.lives⟩⟩

instance : Trans (Spares id) (Ends id) (Ends id) := ⟨fun h h' => Trans.trans h.lives h'⟩

end

/-! ### Single steps -/

theorem lives_put {r : Record} {w : World} (h : Deals (caseOf id c) ⟨r, w⟩) :
    Lives id c ⟨c.registry.put r, w⟩ := by
  intro hc
  obtain ⟨x, dealt⟩ := h
  have hid : r.id = id := dealt.id.trans hc
  rw [caseOf, caseOf, Registry.recordOf_put, if_pos hid]
  exact ⟨x, dealt⟩

theorem lives_work {record : Record} {handling : Handling α}
    (hrecord : Deals (caseOf id c) ⟨record, c.world⟩)
    (h : Leads Deals handling ⟨record, c.world⟩) : Lives id c (work record handling c).2 := by
  rw [state_work]
  exact lives_put (Trans.trans hrecord h)

theorem ends_erase (id : JobId) (c : Controller) :
    Ends id c { c with registry := c.registry.erase id } := by
  intro _
  refine ⟨c.registry.recordOf id, Std.Refl.refl (caseOf id c), fun s hs => ?_⟩
  rw [Dict.find?_erase, if_pos rfl] at hs
  cases hs

theorem spares_ask {conversation : Api.Call α} {P : Api.Request → Prop}
    (h : Api.Asks P conversation) (c : Controller) : Leads (Spares id) (ask conversation) c :=
  ⟨rfl, fun _ => Case.deals_served (Api.Server.Asked.mono (fun _ _ => trivial) (h c.world.api))⟩

theorem spares_notice {notice : Notice} (c : Controller)
    (h : ∀ e job, Errand.isNotice job e notice = false) :
    Leads (Spares id) (inWorld (.tell notice)) c :=
  ⟨rfl, fun _ => Case.deals_tellAll fun e job _ hn => List.mem_singleton.mp hn ▸ h e job⟩

theorem spares_demand (refusal : Refusal) (a : Option α) (c : Controller) :
    Leads (Spares id) (demand refusal a) c := by
  cases a with
  | some a => exact .pure a c
  | none => exact .throw refusal c

/-! ### A workflow is created -/

theorem deals_refill (details : CreateRequest) (c : Case) :
    Deals c { c with record := refill details c.record } := by
  refine Case.deals_record rfl (fun e => ?_) ?_ fun hc => ⟨hc.untimed, hc.released⟩
  · cases e with
    | update => cases h : c.record.resources <;> simp [Errand.done, refill, h, Resources.isUnknown]
    | _ => rfl
  · cases h : c.record.resources <;> simp [refill, h, Resources.isUnknown, Resources.rank]

theorem lives_create (site : Site) (details : CreateRequest) (c : Controller) :
    Leads (Lives details.id) (create site details) c := by
  refine .bind ((spares_demand _ _ c).mono fun _ _ h => h.lives) fun directives t _ => ?_
  split
  · refine .bind (.throw _ t) fun _ u h => ?_
    cases h
  · refine leads_get ?_
    cases hf : t.registry.find? details.id with
    | some record =>
      have hrecord : t.registry.recordOf details.id = record := Registry.recordOf_of_find? hf
      have refilled : Lives details.id t
          { t with registry := t.registry.put (refill details record) } := by
        rw [← hrecord]
        exact lives_put (deals_refill details (caseOf details.id t))
      have changed : Leads (Lives details.id)
          (modify fun c => { c with registry := c.registry.put (refill details record) } :
            Answering Unit) t := refilled
      exact changed.bind fun _ u _ => .pure _ u
    | none =>
      have asked : Leads (Spares details.id)
          (ask (createObject (newWorkflow site details.id details.user directives))) t :=
        spares_ask (asks_createObject details.id.workflowName _) t
      refine .bind (asked.mono fun _ _ h => h.lives) fun _ u hu => ?_
      have hnone : u.registry.find? details.id = none := by
        have same : u.registry = t.registry := congrArg (fun x => x.2.registry) hu.symm
        rw [same, hf]
      let record := Record.fresh details.id (.pending details.resources)
      have filled : Deals (caseOf details.id u)
          ⟨{ record with tolerance := details.tolerance }, u.world⟩ := by
        unfold caseOf
        rw [Registry.recordOf_of_find?_none hnone]
        refine Case.deals_record rfl (fun e => by cases e <;> rfl) (Nat.zero_le _) fun hc => ?_
        exact ⟨fun _ => rfl, hc.released⟩
      have inserted : Lives details.id u { u with
          registry := u.registry.put { record with tolerance := details.tolerance } } :=
        lives_put filled
      have changed : Leads (Lives details.id) (modify fun c => { c with
          registry := c.registry.put { record with tolerance := details.tolerance } } :
            Answering Unit) u := inserted
      refine changed.bind fun _ v _ => ?_
      have told : Leads (Spares details.id) (inWorld (.tell (.memo details.id
          (.ofFields [("rabbit_workflow", .string details.id.workflowName)])))) v :=
        spares_notice v fun e job => by cases e <;> rfl
      exact .bind (told.mono fun _ _ h => h.lives) fun _ w _ => .pure _ w

/-! ### A job gets its compute nodes -/

/-- Work that changes no record if it succeeds, and may cost the job its record if it fails. -/
structure Risks (id : JobId) (x : Answering α) (c : Controller) : Prop where
  ends : Leads (Ends id) x c
  spares : ∀ a t, x.run c = (.ok a, t) → Spares id c t

theorem Risks.of_spares {x : Answering α} (h : Leads (Spares id) x c) : Risks id x c := by
  refine ⟨h.mono fun _ _ h => h.lives.ends, fun a t ht => ?_⟩
  unfold Leads at h
  rw [ht] at h
  exact h

theorem Risks.bind {x : Answering α} {f : α → Answering β} (hx : Risks id x c)
    (hf : ∀ a t, x.run c = (.ok a, t) → Risks id (f a) t) : Risks id (x >>= f) c := by
  refine ⟨hx.ends.bind_of_ok fun a t ht => ⟨hx.spares a t ht, (hf a t ht).ends⟩, ?_⟩
  intro b u hu
  rw [run_bind_apply] at hu
  cases hr : x.run c with
  | mk out t =>
    rw [hr] at hu
    cases out with
    | ok a => exact Trans.trans (hx.spares a t hr) ((hf a t hr).spares b u hu)
    | error e => cases hu

theorem risks_readWorkflow (id : JobId) (c : Controller) : Risks id (readWorkflow id) c := by
  have asked : Leads (Spares id) (ask (Api.observe (Api.getWorkflow id.workflowName))) c :=
    spares_ask (P := fun _ => True) (.observe (.get trivial)) c
  refine (Risks.of_spares asked).bind fun found t _ => ?_
  cases found with
  | ok object => exact .of_spares (spares_ask (P := fun _ => True) (.decoded _ _) t)
  | error fault =>
    change Risks id (if fault.isNotFound = true then _ else _ : Answering Workflow) t
    split
    · refine ⟨ends_erase id t, fun a u hu => ?_⟩
      cases hu
    · exact .of_spares (.throw _ t)

theorem spares_writeServers (site : Site) (counts : Allocation.ServerCounts) (b : Breakdown)
    (c : Controller) : Leads (Spares id) (writeServers site counts b) c := by
  unfold writeServers
  cases b.servers? with
  | none => exact .pure _ c
  | some reference =>
    dsimp only
    split
    · exact .throw _ c
    · exact .throw _ c
    · exact spares_ask (P := fun _ => True) (.discard (.patch trivial)) c

theorem risks_place (site : Site) (id : JobId) (nodelist : List String) (c : Controller) :
    Risks id (place site id nodelist) c := by
  refine (Risks.of_spares (leads_survive _ c)).bind fun found s _ => ?_
  refine (Risks.of_spares (spares_demand _ found s)).bind fun hosts t _ => ?_
  refine (risks_readWorkflow id t).bind fun w u _ => .of_spares ?_
  refine .bind (leads_countServers site hosts u) fun counts v _ => ?_
  refine .bind (leads_survive _ v) fun rabbits v' _ => ?_
  refine .bind (spares_notice v' fun e job => by cases e <;> rfl) fun _ x _ => ?_
  refine .bind (spares_demand _ _ x) fun computes y _ => ?_
  refine .bind (spares_ask (P := fun _ => True) (.discard (.patch trivial)) y) fun _ z _ => ?_
  have read : Api.Asks (fun _ => True) (Handling.breakdowns w) :=
    Handling.asks_breakdowns (fun _ _ => trivial) w
  refine .bind (spares_ask read z) fun found s _ => ?_
  exact .bind (.forM (fun b _ => spares_writeServers site counts b) s) fun _ r _ => .pure _ r

theorem lives_settle (site : Site) (hosts servers : List String)
    (htorn : (c.registry.recordOf id).tornDown = false) :
    Leads (Lives id) (settle site id hosts servers) c := by
  refine leads_get (Leads.discard ?_)
  have noted : Deals (caseOf id c)
      ⟨{ c.registry.recordOf id with servers := some servers, hosts }, c.world⟩ :=
    Case.deals_record rfl (fun e => by cases e <;> rfl) (Nat.le_refl _) fun hc =>
      ⟨hc.untimed, hc.released⟩
  exact lives_work noted (Handling.deals_startTimer htorn .setup)

/-- The time limit of the setup starts for a job that was not torn down before the storage was
placed, and placing it tears nothing down. -/
theorem ends_setup (site : Site) (id : JobId) (nodelist : List String) (c : Controller) :
    Leads (Ends id) (setup site id nodelist) c := by
  refine leads_get ?_
  split
  · exact .pure _ c
  · rename_i hstaying
    have htorn : (c.registry.recordOf id).tornDown = false := by
      rw [Bool.not_eq_true, isLeaving_eq, Bool.or_eq_false_iff] at hstaying
      exact hstaying.1
    -- the flags were looked at before the storage was placed, which changes no record
    have placed := risks_place site id nodelist c
    refine placed.ends.bind_of_ok fun found t ht => ⟨placed.spares found t ht, ?_⟩
    have hplaced : t.registry = c.registry := (placed.spares found t ht).registry
    refine Leads.mono (R := Lives id) ?_ fun _ _ h => h.ends
    have asked : Leads (Spares id) (ask (Handling.requestStage id.workflowName .setup)) t :=
      spares_ask (asks_requestStage id.workflowName .setup) t
    refine .bind (asked.mono fun _ _ h => h.lives) fun _ u hu => ?_
    have hasked : u.registry = t.registry := congrArg (fun x => x.2.registry) hu.symm
    have settled : Leads (Lives id) (settle site id found.1 found.2) u :=
      lives_settle site found.1 found.2 (by rw [hasked, hplaced, htorn])
    exact settled.bind fun _ v _ => .pure _ v

/-! ### The end of a job -/

theorem ends_of_own {x : Answering α}
    (h : (c.registry.recordOf id).id = id → Leads (Ends id) x c) : Leads (Ends id) x c :=
  fun hc => h hc hc

theorem ends_unlessTornDown {handle : Record → Answering Unit}
    (h : ∀ t, (t.registry.recordOf id).tornDown = false →
      Leads (Ends id) (handle (t.registry.recordOf id)) t) (c : Controller) :
    Leads (Ends id) (unlessTornDown id handle) c := by
  let ensured : Controller := { c with registry := c.registry.ensure id }
  have same : ensured.registry.recordOf id = c.registry.recordOf id := Registry.recordOf_ensure ..
  have kept : Lives id c ensured := lives_put (Std.Refl.refl (caseOf id c))
  unfold Leads
  rw [run_unlessTornDown]
  split
  · exact kept.ends
  · rename_i htorn
    have handled := h ensured (by rw [same]; simpa using htorn)
    rw [same] at handled
    rw [run_bind_pure]
    exact Trans.trans kept handled

/-- A workflow that is gone costs the job its record, a fault does not. -/
theorem run_moveToTeardown (site : Site) (r : Record) (c : Controller) :
    (moveToTeardown site r).run c =
      match work r (Handling.tearDownStored site) c with
      | (.ok true, t) => (.ok (), t)
      | (.ok false, t) => (.ok (), { t with registry := t.registry.erase r.id })
      | (.error fault, t) => (.error (.api fault), t) := by
  rw [moveToTeardown, run_bind_apply, run_lift_apply]
  generalize work r (Handling.tearDownStored site) c = answer
  obtain ⟨found, t⟩ := answer
  match found with
  | .ok true => rfl
  | .ok false => rfl
  | .error fault => rfl

theorem lives_tearDownStored (site : Site) (htorn : (c.registry.recordOf id).tornDown = false) :
    Lives id c (work (c.registry.recordOf id) (Handling.tearDownStored site) c).2 :=
  lives_work (Std.Refl.refl (caseOf id c)) (Handling.deals_tearDownStored htorn)

theorem ends_moveToTeardown (site : Site) (htorn : (c.registry.recordOf id).tornDown = false) :
    Leads (Ends id) (moveToTeardown site (c.registry.recordOf id)) c := by
  refine ends_of_own fun hid => ?_
  have worked := lives_tearDownStored site htorn
  unfold Leads
  rw [run_moveToTeardown, hid]
  generalize work (c.registry.recordOf id) (Handling.tearDownStored site) c = answer at worked
  obtain ⟨found, t⟩ := answer
  match found with
  | .ok true => exact worked.ends
  | .ok false => exact Trans.trans worked (ends_erase id t)
  | .error fault => exact worked.ends

theorem lives_of_run_moveToTeardown {refusal : Refusal}
    (htorn : (c.registry.recordOf id).tornDown = false)
    (h : (moveToTeardown site (c.registry.recordOf id)).run c = (.error refusal, t)) :
    Lives id c t := by
  have worked := lives_tearDownStored site htorn
  rw [run_moveToTeardown] at h
  generalize work (c.registry.recordOf id) (Handling.tearDownStored site) c = answer at worked h
  obtain ⟨found, u⟩ := answer
  match found with
  | .ok true => cases h
  | .ok false => cases h
  | .error fault =>
    obtain rfl : u = t := congrArg Prod.snd h
    exact worked

theorem ends_moveToPostRun (site : Site) (known : Bool)
    (htorn : (c.registry.recordOf id).tornDown = false) :
    Leads (Ends id) (moveToPostRun site known (c.registry.recordOf id)) c := by
  refine ends_of_own fun hid => ?_
  have served := asks_requestStage (c.registry.recordOf id).name .postRun c.world.api
  have asked : Api.Server.Served c.world.api
      ((Handling.requestStage (c.registry.recordOf id).name .postRun).run c.world.api).2 :=
    Api.Server.Asked.mono (fun _ _ => trivial) served
  unfold Leads
  rw [run_moveToPostRun, hid]
  generalize (Handling.requestStage (c.registry.recordOf id).name .postRun).run c.world.api =
    answer at asked
  obtain ⟨outcome, api⟩ := answer
  have reached : Lives id c { c with world := { c.world with api } } :=
    fun _ => Case.deals_served asked
  cases outcome with
  | ok _ =>
    have started : Lives id { c with world := { c.world with api } }
        (work (c.registry.recordOf id) (Handling.startTimer site .postRun)
          { c with world := { c.world with api } }).2 :=
      lives_work (Std.Refl.refl (caseOf id { c with world := { c.world with api } }))
        (Handling.deals_startTimer htorn .postRun)
    have both : Lives id c _ := Trans.trans reached started
    exact both.ends
  | error fault =>
    change Ends id c ⟨if (!known || fault.isNotFound) = true then _ else _, _⟩
    split
    · exact Trans.trans reached (ends_erase id { c with world := { c.world with api } })
    · exact reached.ends

theorem ends_postRun (site : Site) (id : JobId) (started : Bool) (c : Controller) :
    Leads (Ends id) (postRun site id started) c := by
  refine leads_get (ends_unlessTornDown (fun t htorn => ?_) c)
  cases started with
  | true => exact ends_moveToPostRun site _ htorn
  | false => exact ends_moveToTeardown site htorn

theorem ends_teardown (site : Site) (id : JobId) (c : Controller) :
    Leads (Ends id) (teardown site id) c := by
  refine leads_get (ends_unlessTornDown (fun t htorn => ?_) c)
  -- a refusal leaves the record in place, so that dropping it is the last thing that happens
  refine (ends_moveToTeardown site htorn).tryCatch_of_error fun refusal u hu =>
    ⟨lives_of_run_moveToTeardown htorn hu, ?_⟩
  split
  · exact ends_erase id u
  · exact .throw _ u

theorem ends_abort (site : Site) (id : JobId) (c : Controller) :
    Leads (Ends id) (abort site id) c := by
  refine leads_get ?_
  split
  · exact ends_teardown site id c
  · rename_i hunknown
    refine Leads.mono (R := Lives id) ?_ fun _ _ h => h.ends
    have read : Leads (Spares id) (ask (Api.observe (Api.getWorkflow id.workflowName))) c :=
      spares_ask (P := fun _ => True) (.observe (.get trivial)) c
    refine .bind (read.mono fun _ _ h => h.lives) fun found t ht => ?_
    cases found with
    | ok object =>
      have hnone : t.registry.find? id = none := by
        have same : t.registry = c.registry := congrArg (fun x => x.2.registry) ht.symm
        rw [same]
        simpa [Dict.has] using hunknown
      have fresh : caseOf id t = ⟨.fresh id .unknown, t.world⟩ := by
        rw [caseOf, Registry.recordOf_of_find?_none hnone]
      have torn : Leads (Lives id)
          (ExceptT.lift (work (.fresh id .unknown) (Handling.tearDown site object)) :
            Answering _) t :=
        lives_work (fresh ▸ Std.Refl.refl (caseOf id t)) (Handling.deals_tearDown rfl object)
      exact torn.discard.bind fun _ u _ => .pure _ u
    | error fault =>
      dsimp only
      split
      · exact .pure _ t
      · exact .throw _ t

/-! ### Turns -/

theorem lives_revisit {handling : Handling Unit} (h : ∀ case, Leads Deals handling case)
    (id : JobId) (c : Controller) : Lives id c (revisit id handling c).2 := by
  rw [state_revisit]
  cases hf : c.registry.find? id with
  | none => exact Std.Refl.refl c
  | some r =>
    have found : caseOf id c = ⟨r, c.world⟩ := by
      rw [caseOf, Registry.recordOf_of_find? hf]
    exact lives_work (found ▸ Std.Refl.refl (caseOf id c)) (h ⟨r, c.world⟩)

theorem ends_take {turn : Turn} (h : turn.job? = some id) (site : Site) (c : Controller) :
    Ends id c (c.take site turn) := by
  cases turn with
  | request asked =>
    cases asked with
    | create details =>
      obtain rfl : details.id = id := Option.some.inj h
      have created : Lives details.id c ((create site details).run c).2 :=
        lives_create site details c
      exact created.ends
    | setup job nodelist =>
      obtain rfl : job = id := Option.some.inj h
      exact ends_setup site job nodelist c
    | postRun job started =>
      obtain rfl : job = id := Option.some.inj h
      exact ends_postRun site job started c
    | teardown job =>
      obtain rfl : job = id := Option.some.inj h
      exact ends_teardown site job c
    | abort job =>
      obtain rfl : job = id := Option.some.inj h
      exact ends_abort site job c
    | status => cases h
  | event change =>
    obtain ⟨w, hw, rfl⟩ := Option.map_eq_some_iff.mp h
    have hevent := take_event site c change
    rw [hw] at hevent
    rcases hevent with ⟨object, _, htake⟩ | ⟨_, htake⟩
    · have worked : Lives w.jobId c
          (work (c.registry.recordOf w.jobId) (Handling.report site w object) c).2 :=
        lives_work (Std.Refl.refl (caseOf w.jobId c)) (Handling.deals_report w object _)
      rw [htake]
      exact worked.ends
    · rw [htake]
      exact ends_erase w.jobId c
  | timeout job stage =>
    obtain rfl : job = id := Option.some.inj h
    exact (lives_revisit (Handling.deals_expire stage) job c).ends
  | sweep => cases h

end Warren.Controller
