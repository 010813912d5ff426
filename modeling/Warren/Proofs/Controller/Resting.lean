import Warren.Proofs.Controller.Turn

/-!
# Jobs that are left alone

A job whose workflow is torn down, or is to be deleted, should be left to end. `Rests` is what holds
of a turn that leaves a job alone in this way: no stage of its workflow is asked for, and no time
limit of it is started. The turns of other jobs do so, and so do most turns of the job itself.
-/

namespace Warren.Controller

variable {site : Site} {id : JobId} {r : Record} {c t : Controller}

/-! ### Resting -/

/-- The requests to the server between two states. -/
def requested (c t : Controller) : List Api.Request :=
  t.world.api.requests.drop c.world.api.requests.length

/-- Between two states, a stage of the workflow of a job was asked for. -/
def AskedStage (id : JobId) (c t : Controller) : Prop :=
  ∃ q ∈ requested c t, q.SetsStage id.workflowName

/-- Between two states, a time limit of a job was started that runs in the second one. -/
def StartedTimer (id : JobId) (c t : Controller) : Prop :=
  ∃ r timer, t.registry.find? id = some r ∧ r.timer = some timer ∧ c.world.ticket ≤ timer.ticket

/-- A record comes from another one without a new time limit, and is on its way out if that one
was. -/
structure Follows (r s : Record) : Prop where
  tornDown : r.tornDown = true → s.tornDown = true
  deleted : r.deleted = true → s.deleted = true
  timer : ∀ timer, s.timer = some timer → r.timer = some timer

theorem Follows.refl (r : Record) : Follows r r :=
  ⟨fun h => h, fun h => h, fun _ h => h⟩

theorem Follows.trans {r s u : Record} (h : Follows r s) (h' : Follows s u) :
    Follows r u :=
  ⟨fun hr => h'.tornDown (h.tornDown hr), fun hr => h'.deleted (h.deleted hr),
    fun timer ht => h.timer timer (h'.timer timer ht)⟩

/-- A job is left alone: its stages are not asked for, and its record, if there still is one,
follows from the one before. -/
structure Rests (id : JobId) (c t : Controller) : Prop where
  asked : Api.Server.Asked (fun q => ¬q.SetsStage id.workflowName) c.world.api t.world.api
  record : ∀ s, t.registry.find? id = some s →
    ∃ r, c.registry.find? id = some r ∧ Follows r s

instance : Std.Refl (Rests id) :=
  ⟨fun c => ⟨Std.Refl.refl c.world.api, fun s hs => ⟨s, hs, .refl s⟩⟩⟩

instance : Trans (Rests id) (Rests id) (Rests id) where
  trans := by
    intro c t u h h'
    refine ⟨Trans.trans h.asked h'.asked, fun s hs => ?_⟩
    obtain ⟨m, hm, hms⟩ := h'.record s hs
    obtain ⟨r, hr, hrm⟩ := h.record m hm
    exact ⟨r, hr, hrm.trans hms⟩

theorem Rests.not_askedStage (h : Rests id c t) : ¬AskedStage id c t := by
  rintro ⟨q, hq, hset⟩
  exact h.asked.drop_requests q hq hset

theorem Rests.not_startedTimer (h : Rests id c t) (hc : c.Kept) : ¬StartedTimer id c t := by
  rintro ⟨s, timer, hs, htimer, hle⟩
  obtain ⟨r, hr, hrs⟩ := h.record s hs
  have hlt : timer.ticket < c.world.ticket := hc.drawn id r hr timer (hrs.timer timer htimer)
  omega

theorem rests_of_moved {other : JobId} (hne : other ≠ id)
    (h : Moved (Api.Request.SetsOnly other.workflowName) other c t) : Rests id c t := by
  refine ⟨h.asked.mono fun q hq hset => ?_, fun s hs => ?_⟩
  · exact hne (JobId.workflowName_inj (hq _ hset)).symm
  · rw [h.others id hne.symm] at hs
    exact ⟨s, hs, .refl s⟩

theorem rests_work {handling : Handling α} (hc : c.Kept) (hf : c.registry.find? id = some r)
    (h : Leads (Case.Did site Deed.Calm) handling ⟨r, c.world⟩) :
    Rests id c (work r handling c).2 := by
  rw [state_work]
  have did : Case.Did site Deed.Calm ⟨r, c.world⟩ (handling.run ⟨r, c.world⟩).2 := h
  generalize (handling.run ⟨r, c.world⟩).2 = case at did
  have still := (did.mono fun _ => Deed.Calm.still).asked_of_still
  refine ⟨still.mono fun q hq => hq.not_setsStage _, fun s hs => ⟨r, hf, ?_⟩⟩
  have hid : case.record.id = id := did.id.trans (hc.own id r hf)
  rw [Registry.find?_put, if_pos hid] at hs
  obtain rfl := Option.some.inj hs
  refine ⟨did.tornDown, did.deleted, fun timer htimer => ?_⟩
  have hticket := did.ticket_of_calm
  rcases did.ticks.timer timer htimer with hold | hnew
  · exact hold
  · omega

theorem rests_revisit {handling : Handling Unit} (hc : c.Kept)
    (h : ∀ case, Leads (Case.Did site Deed.Calm) handling case) (other : JobId) :
    Rests id c (revisit other handling c).2 := by
  by_cases ho : other = id
  · subst ho
    rw [state_revisit]
    cases hf : c.registry.find? other with
    | none => exact Std.Refl.refl c
    | some r => exact rests_work hc hf (h ⟨r, c.world⟩)
  · exact rests_of_moved ho (moves_revisit h hc)

theorem rests_sweep (hc : c.Kept) : Rests id c (c.take site .sweep) :=
  sweep_of_visits hc fun _ ht other => rests_revisit ht Handling.leads_condemn other

theorem rests_take_of_ne {turn : Turn} (hc : c.Kept) (h : turn.job? ≠ some id) :
    Rests id c (c.take site turn) := by
  cases hj : turn.job? with
  | some other =>
    rw [hj] at h
    exact rests_of_moved (fun ho => h (congrArg some ho)) (moves_take hj site c hc)
  | none =>
    by_cases hsweep : turn = .sweep
    · rw [hsweep]
      exact rests_sweep hc
    · rw [take_of_job?_eq_none hj hsweep]
      exact Std.Refl.refl c

/-! ### Requests about a job with a record -/

theorem rests_put {s : Record} (hf : c.registry.find? id = some r) (hid : s.id = id)
    (h : Follows r s) : Rests id c { c with registry := c.registry.put s } := by
  refine ⟨Std.Refl.refl c.world.api, fun u hu => ⟨r, hf, ?_⟩⟩
  rw [Registry.find?_put, if_pos hid] at hu
  obtain rfl := Option.some.inj hu
  exact h

theorem rests_erase (id : JobId) (c : Controller) :
    Rests id c { c with registry := c.registry.erase id } := by
  refine ⟨Std.Refl.refl c.world.api, fun s hs => ?_⟩
  rw [Dict.find?_erase, if_pos rfl] at hs
  cases hs

theorem state_demand (refusal : Refusal) (a : Option α) (c : Controller) :
    ((demand refusal a).run c).2 = c := by
  cases a <;> rfl

theorem leads_create_of_find? (details : CreateRequest)
    (hf : c.registry.find? details.id = some r) (hc : c.Kept) :
    Leads (Rests details.id) (create site details) c := by
  have demanded (refusal : Refusal) (a : Option (List String)) :
      Leads (Rests details.id) (demand refusal a) c := by
    unfold Leads
    rw [state_demand]
    exact Std.Refl.refl c
  refine .bind (demanded _ _) fun directives t ht => ?_
  obtain rfl : t = c := by
    rw [← state_demand _ _ c, ht]
  split
  · refine .bind (.throw _ t) fun _ u h => ?_
    cases h
  · refine leads_get ?_
    rw [hf]
    have refilled : Leads (Rests details.id)
        (modify fun c => { c with registry := c.registry.put (refill details r) } :
          Answering Unit) t :=
      rests_put hf (hc.own details.id r hf) ⟨fun h => h, fun h => h, fun _ h => h⟩
    exact refilled.bind fun _ u _ => .pure _ u

theorem find?_ensure {g : Registry} (hf : g.find? id = some r) (hid : r.id = id) :
    (g.ensure id).find? id = some r := by
  rw [Registry.ensure, Registry.recordOf_of_find? hf, Registry.find?_put, if_pos hid]

theorem rests_unlessTornDown {handle : Record → Answering Unit}
    (hf : c.registry.find? id = some r) (hc : c.Kept)
    (h : r.tornDown = false → ∀ t, t.Kept → t.registry.find? id = some r →
      Leads (Rests id) (handle r) t) : Leads (Rests id) (unlessTornDown id handle) c := by
  have hid : r.id = id := hc.own id r hf
  have hrecord : c.registry.recordOf id = r := Registry.recordOf_of_find? hf
  have hensure : c.registry.ensure id = c.registry.put r := by rw [Registry.ensure, hrecord]
  have kept : Kept { c with registry := c.registry.ensure id } := by
    rw [hensure]
    exact hc.put (hc.drawn id r hf) (Nat.le_refl _)
  have ensured : Rests id c { c with registry := c.registry.ensure id } := by
    rw [hensure]
    exact rests_put hf hid (.refl r)
  refine leads_unlessTornDown ensured fun htorn => ?_
  rw [hrecord] at htorn ⊢
  exact h htorn _ kept (find?_ensure hf hid)

theorem leads_moveToTeardown_of_find? (hf : c.registry.find? id = some r) (hc : c.Kept)
    (htorn : r.tornDown = false) : Leads (Rests id) (moveToTeardown site r) c := by
  have torn : Leads (Rests id)
      (ExceptT.lift (work r (Handling.tearDownStored site)) : Answering _) c :=
    rests_work hc hf (Handling.leads_tearDownStored htorn)
  refine torn.bind fun found t _ => ?_
  match found with
  | .ok true => exact .pure _ t
  | .ok false =>
    change Leads _ (drop r.id) t
    rw [hc.own id r hf]
    exact rests_erase id t
  | .error fault => exact .throw _ t

theorem leads_teardown_of_find? (hf : c.registry.find? id = some r) (hc : c.Kept) :
    Leads (Rests id) (teardown site id) c := by
  refine leads_get (rests_unlessTornDown hf hc fun htorn t ht hft => ?_)
  refine .tryCatch (leads_moveToTeardown_of_find? hft ht htorn) fun refusal u _ => ?_
  have dropped : Leads (Rests id) (drop id) u := rests_erase id u
  split
  · exact dropped.bind fun _ v _ => .throw _ v
  · exact .throw _ u

/-- A request lets a job rest that is on its way out, unless it is the end of the run of a job that
is not torn down yet. -/
theorem rests_request {asked : Request} (hc : c.Kept) (hf : c.registry.find? id = some r)
    (hleaving : r.tornDown = true ∨ r.deleted = true)
    (hrun : asked = .postRun id true → r.tornDown = true) :
    Rests id c (c.take site (.request asked)) := by
  by_cases hj : (Turn.request asked).job? = some id
  · cases asked with
    | create details =>
      obtain rfl : details.id = id := Option.some.inj hj
      exact leads_create_of_find? details hf hc
    | setup job nodelist =>
      obtain rfl : job = id := Option.some.inj hj
      have hignored : isLeaving c.registry job = true := by
        simpa [isLeaving, hf] using hleaving
      have ignored : Leads (Rests job) (setup site job nodelist) c := by
        refine leads_get ?_
        rw [if_pos hignored]
        exact .pure _ c
      exact ignored
    | postRun job started =>
      obtain rfl : job = id := Option.some.inj hj
      refine leads_get (f := fun c => unlessTornDown job _)
        (rests_unlessTornDown hf hc fun htorn t ht hft => ?_)
      cases started with
      | true =>
        -- only here is a job that is to be deleted not left alone
        rw [hrun rfl] at htorn
        cases htorn
      | false => exact leads_moveToTeardown_of_find? hft ht htorn
    | teardown job =>
      obtain rfl : job = id := Option.some.inj hj
      exact leads_teardown_of_find? hf hc
    | abort job =>
      obtain rfl : job = id := Option.some.inj hj
      have known : c.registry.has job = true := Registry.has_of_find? hf
      have aborted : Leads (Rests job) (abort site job) c := by
        refine leads_get ?_
        rw [if_pos known]
        exact leads_teardown_of_find? hf hc
      exact aborted
    | status => cases hj
  · exact rests_take_of_ne hc hj

/-! ### Events and time limits -/

theorem rests_event {event : Api.Event} (hc : c.Kept) (hf : c.registry.find? id = some r)
    (hleaving : r.tornDown = true ∨ r.deleted = true) :
    Rests id c (c.take site (.event event)) := by
  by_cases hj : (Turn.event event).job? = some id
  · obtain ⟨w, hw, rfl⟩ := Option.map_eq_some_iff.mp hj
    have hevent := take_event site c event
    rw [hw] at hevent
    rcases hevent with ⟨object, _, htake⟩ | ⟨_, htake⟩
    · rw [htake, Registry.recordOf_of_find? hf]
      rcases hleaving with htorn | hdeleted
      · have reported : Case.Did site (Deed.Answers w) ⟨r, c.world⟩
            ((Handling.report site w object).run ⟨r, c.world⟩).2 := Handling.leads_report w object _
        exact rests_work hc hf (reported.calm htorn)
      · have ignored : Leads (Case.Did site Deed.Calm) (Handling.report site w object)
            ⟨r, c.world⟩ := by
          unfold Leads
          rw [Handling.run_report_of_idle site object (Or.inr (Or.inl hdeleted))]
          exact Std.Refl.refl _
        exact rests_work hc hf ignored
    · rw [htake]
      exact rests_erase _ c
  · exact rests_take_of_ne hc hj

theorem take_timeout {stage : Stage} (hf : c.registry.find? id = some r) :
    c.take site (.timeout id stage) = (work r (Handling.expire site stage) c).2 := by
  change (revisit id (Handling.expire site stage) c).2 = _
  rw [state_revisit, hf]

theorem take_timeout_of_none {stage : Stage} (hf : c.registry.find? id = none) :
    c.take site (.timeout id stage) = c := by
  change (revisit id (Handling.expire site stage) c).2 = _
  rw [state_revisit, hf]

theorem rests_timeout_of_tornDown {job : JobId} {stage : Stage} (hc : c.Kept)
    (hf : c.registry.find? id = some r) (htorn : r.tornDown = true) :
    Rests id c (c.take site (.timeout job stage)) := by
  by_cases hj : job = id
  · subst hj
    have expired : Case.Did site (Deed.Extends stage) ⟨r, c.world⟩
        ((Handling.expire site stage).run ⟨r, c.world⟩).2 := Handling.leads_expire stage _
    rw [take_timeout hf]
    exact rests_work hc hf (expired.calm htorn)
  · exact rests_take_of_ne hc fun h => hj (Option.some.inj h)

end Warren.Controller
