import Warren.Proofs.Controller.Causality

/-!
# What concerns one job stays with that job

A turn that concerns a job is a request about it, an event of its workflow or the end of one of its
time limits. Such a turn is served by a license that names no other job (`serves_confined`), so that
nothing it asks for, tells or hands over mixes two jobs up: `contained_take` adds that the records
of all other jobs stay as they are, and that every record is still kept under its own job.
-/

namespace Warren

/-- A turn that concerns a job. An object that cannot be read as a workflow concerns any job: it
leads to nothing. -/
def Turn.Concerns (id : JobId) : Turn → Prop
  | .request asked => asked.job? = some id
  | .event change => ∃ object, change.object? = some object ∧
      ∀ w, Workflow.decode? object = some w → w.jobId = id
  | .timeout job _ => job = id
  | .sweep => False

/-- A request for the cleanup of the workflow of a job. -/
def Cleanup.Request.IsFor (id : JobId) : Cleanup.Request → Prop
  | .delete name _ => name = id.workflowName
  | .teardown job name _ _ => job = id ∧ name = id.workflowName

namespace License

variable {site : Site} {id : JobId}

/-- The license to name one job, and no other. -/
def confined (id : JobId) : License :=
  ⟨Api.Request.KeepsTo id.workflowName, fun notice => notice.job? = some id,
    Cleanup.Request.IsFor id⟩

theorem allows_confined (site : Site) (id : JobId) : (confined id).Allows site id where
  asks _ hq := hq.2
  tells _ _ hjob := hjob
  hands _ := ⟨rfl, rfl⟩

theorem follows_confined (site : Site) (w : Workflow) (id : JobId) (tornDown : Bool)
    (resources : Resources) (api : Api.Server) :
    (confined id).Follows site w id tornDown resources api where
  released _ _ _ := rfl
  advanced _ _ _ _ _ _ := rfl
  offered _ _ hoffered := congrArg some hoffered.id_eq
  started _ _ _ := rfl
  ended _ := rfl
  disposed _ _ := rfl

theorem serves_confined {turn : Turn} (h : turn.job? = some id) (site : Site) (c : Controller) :
    (confined id).Serves site c turn := by
  have same (job : JobId) (hjob : turn.job? = some job) : job = id := by
    rw [h] at hjob
    exact (Option.some.inj hjob).symm
  constructor
  · intro job hjob
    rw [same job hjob]
    exact allows_confined site id
  · intro job nodelist hturn _ _
    rw [same job (by rw [hturn]; rfl)]
  · intro job hturn _ _
    rw [same job (by rw [hturn]; rfl)]
  · rintro w ⟨event, rfl, hw⟩
    rw [same w.jobId (by rw [Turn.job?, hw, Option.map_some])]
    exact follows_confined ..
  · intro job stage hturn nodes
    rw [← same job (by rw [hturn]; rfl)]
    rfl
  · intro hturn
    rw [hturn] at h
    cases h

end License

namespace Controller

variable {site : Site} {id : JobId} {c t : Controller} {turn : Turn}

/-- Between two states, one job was worked on and no other. -/
structure Contained (id : JobId) (c t : Controller) : Prop where
  others : ∀ other, other ≠ id → t.registry.find? other = c.registry.find? other
  requests : ∀ q ∈ requested c t, q.KeepsTo id.workflowName
  notices : ∀ notice ∈ (c.world.since t.world).notices, notice.job? = some id
  cleanups : ∀ request ∈ (c.world.since t.world).cleanups, request.IsFor id
  /-- A record is kept under its own job and has the name of the workflow of that job. -/
  own : ∀ other r, t.registry.find? other = some r → r.id = other ∧ r.name = other.workflowName

theorem Kept.own_name (hc : c.Kept) {other : JobId} {r : Record}
    (h : c.registry.find? other = some r) : r.id = other ∧ r.name = other.workflowName := by
  have hid : r.id = other := hc.own other r h
  exact ⟨hid, by rw [Record.name, hid]⟩

theorem contained_refl (hc : c.Kept) (id : JobId) : Contained id c c := by
  have hrequested : requested c c = [] := List.drop_length
  constructor
  · exact fun _ _ => rfl
  · simp [hrequested]
  · simp [Dispatch.empty]
  · simp [Dispatch.empty]
  · exact fun _ _ h => hc.own_name h

/-- A turn about a job works on that job alone. -/
theorem contained_of_job? (hc : c.Kept) (h : turn.job? = some id) (site : Site) :
    Contained id c (c.take site turn) := by
  have moved := moves_take h site c hc
  obtain ⟨asked, x, sends, tells, hands⟩ := acts_of_serves hc (License.serves_confined h site c)
  refine ⟨moved.others, fun q hq => asked.drop_requests q hq, fun notice hn => ?_,
    fun request hr => ?_, fun _ _ hr => moved.kept.own_name hr⟩
  · rw [sends.since] at hn
    exact tells notice hn
  · rw [sends.since] at hr
    exact hands request hr

theorem job?_of_concerns (h : turn.Concerns id) :
    turn.job? = some id ∨ turn.job? = none ∧ turn ≠ .sweep := by
  cases turn with
  | request asked => exact Or.inl h
  | timeout job stage => exact Or.inl (congrArg some h)
  | sweep => exact h.elim
  | event event =>
    obtain ⟨object, hobject, hjob⟩ := h
    cases hw : reported? event with
    | none => exact Or.inr ⟨by rw [Turn.job?, hw, Option.map_none], nofun⟩
    | some w =>
      rw [reported?, hobject, Option.bind_some] at hw
      obtain ⟨hdecode, -⟩ := Option.filter_eq_some_iff.mp hw
      refine Or.inl ?_
      rw [Turn.job?, reported?, hobject, Option.bind_some, hw, Option.map_some, hjob w hdecode]

/-- A turn that concerns a job works on that job alone, whatever the server answers. -/
theorem contained_take (hc : c.Kept) (h : turn.Concerns id) (site : Site) :
    Contained id c (c.take site turn) := by
  rcases job?_of_concerns h with hjob | ⟨hnone, hsweep⟩
  · exact contained_of_job? hc hjob site
  · rw [take_of_job?_eq_none hnone hsweep]
    exact contained_refl hc id

/-- The report of the workflow that is set up concerns its job. -/
theorem contained_take_ready : Sample.ready.Kept ∧
    (Turn.event (.modified (Sample.stored Sample.ready))).Concerns Sample.job ∧
    Contained Sample.job Sample.ready (Sample.report Sample.ready) := by
  have hkept : Sample.ready.Kept := Sample.reachable_ready.kept
  have hconcerns : (Turn.event (.modified (Sample.stored Sample.ready))).Concerns Sample.job := by
    refine ⟨Sample.stored Sample.ready, rfl, fun w hw => ?_⟩
    have hjob : (Workflow.decode? (Sample.stored Sample.ready)).map Workflow.jobId =
        some Sample.job := by decide +kernel
    rw [hw] at hjob
    exact Option.some.inj hjob
  exact ⟨hkept, hconcerns, contained_take hkept hconcerns Sample.site⟩

end Controller

end Warren
