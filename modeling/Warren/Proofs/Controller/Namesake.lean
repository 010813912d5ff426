import Warren.Proofs.Controller.Containment
import Warren.Proofs.Controller.Sparing

/-!
# Events of objects that go by another name

The workflow of a job has a name of its own, but an event is taken to be about the job that its
object belongs to, whatever that object is called. So an object that only claims the job steers the
workflow of that job, or ends its record. `named_event_iff` says when an event stays with the
workflow of the name that the object has: if that is the workflow of the job, or if the event comes
to nothing because everything that it leads to was done (`Lapses`).
-/

namespace Warren

theorem Api.Request.KeepsTo.written? {name other : String} {q : Request} (h : q.KeepsTo name)
    (hwritten : q.written? = some other) : other = name := by
  have hit {kind : Kind} {target : String} (hname : kind.plural = Kind.workflow.plural →
      target = name) (hif : (if kind.plural = Kind.workflow.plural then some target else none) =
        some other) : other = name := by
    split at hif
    · rename_i hkind
      rw [← Option.some.inj hif, hname hkind]
    · cases hif
  cases q with
  | patch kind space target body => exact hit h hwritten
  | delete kind space target => exact hit h hwritten
  | create kind space body => exact hit h hwritten
  | _ => cases hwritten

theorem Cleanup.Request.IsFor.name_eq {id : JobId} {request : Cleanup.Request}
    (h : request.IsFor id) : request.name = id.workflowName := by
  cases request with
  | delete => exact h
  | teardown => exact h.2

namespace Controller

variable {site : Site} {c t : Controller}

/-- Between two states, only records and workflows of one name were worked on. -/
structure Named (name : String) (c t : Controller) : Prop where
  records : ∀ id, t.registry.find? id ≠ c.registry.find? id →
    ∀ r, c.registry.find? id = some r ∨ t.registry.find? id = some r → r.name = name
  requests : ∀ q ∈ requested c t, ∀ other, q.written? = some other → other = name
  cleanups : ∀ request ∈ (c.world.since t.world).cleanups, request.name = name

/-- Between two states, the record of a job, the workflows and the cleanup were left alone. -/
structure Untouched (id : JobId) (c t : Controller) : Prop where
  record : t.registry.find? id = c.registry.find? id
  cleanups : (c.world.since t.world).cleanups = []
  requests : ∀ q ∈ requested c t, q.written? = none

/-- What is done for one job goes by the name of its workflow, so it goes by another name only if
nothing is done. -/
theorem Contained.named_iff {id : JobId} (h : Contained id c t) (hc : c.Kept) (name : String) :
    Named name c t ↔ id.workflowName = name ∨ Untouched id c t := by
  have named (other : JobId) (r : Record)
      (hr : c.registry.find? other = some r ∨ t.registry.find? other = some r) :
      r.name = other.workflowName := by
    rcases hr with hr | hr
    · exact (hc.own_name hr).2
    · exact (h.own other r hr).2
  constructor
  · -- whatever was worked on has the name of the workflow of the job, so it cannot have another one
    intro hnamed
    by_cases hname : id.workflowName = name
    · exact Or.inl hname
    refine Or.inr ⟨?_, List.eq_nil_iff_forall_not_mem.mpr fun request hr => ?_, fun q hq => ?_⟩
    · refine Classical.byContradiction fun hdiff => ?_
      obtain ⟨r, hr⟩ : ∃ r, c.registry.find? id = some r ∨ t.registry.find? id = some r := by
        cases hbefore : c.registry.find? id with
        | some r => exact ⟨r, Or.inl rfl⟩
        | none =>
          rw [hbefore] at hdiff
          obtain ⟨r, hr⟩ := Option.ne_none_iff_exists'.mp hdiff
          exact ⟨r, Or.inr hr⟩
      exact hname ((named id r hr).symm.trans (hnamed.records id hdiff r hr))
    · exact hname ((h.cleanups request hr).name_eq.symm.trans (hnamed.cleanups request hr))
    · cases hwritten : q.written? with
      | none => rfl
      | some other =>
        have hother : other = id.workflowName := (h.requests q hq).written? hwritten
        exact absurd (hother.symm.trans (hnamed.requests q hq other hwritten)) hname
  · rintro (rfl | untouched)
    · refine ⟨fun other hdiff r hr => ?_, fun q hq other => (h.requests q hq).written?,
        fun request hr => (h.cleanups request hr).name_eq⟩
      by_cases ho : other = id
      · rw [named other r hr, ho]
      · exact absurd (h.others other ho) hdiff
    · refine ⟨fun other hdiff => ?_, fun q hq other hwritten => ?_, fun request hr => ?_⟩
      · by_cases ho : other = id
        · exact absurd (ho ▸ untouched.record) hdiff
        · exact absurd (h.others other ho) hdiff
      · rw [untouched.requests q hq] at hwritten
        cases hwritten
      · rw [untouched.cleanups] at hr
        cases hr

/-- An event that comes to nothing: the job of a workflow that is reported has a record, and it is
past such reports or everything that they lead to was done; that of a workflow that is gone has
none. -/
def Lapses (c : Controller) (w : Workflow) : Api.Event → Prop
  | .added _ | .modified _ => c.registry.has w.jobId = true ∧
      (Handling.Idle w (caseOf w.jobId c).record ∨ Handling.Spent w (caseOf w.jobId c))
  | .deleted _ => c.registry.has w.jobId = false
  | .bookmark _ | .error _ _ => True

theorem untouched_work_iff {id : JobId} {handling : Handling Unit} {P : Deed → Prop} (hc : c.Kept)
    (did : Leads (Case.Did site P) handling (caseOf id c))
    (deals : Leads Case.Deals handling (caseOf id c)) :
    Untouched id c (work (c.registry.recordOf id) handling c).2 ↔
      c.registry.has id = true ∧ Leads Case.Spared handling (caseOf id c) := by
  let after : Case := (handling.run (caseOf id c)).2
  have hdid : Case.Did site P (caseOf id c) after := did
  have hfind : (work (c.registry.recordOf id) handling c).2.registry.find? id =
      some after.record := find?_work (hdid.id.trans (hc.recordOf id).1)
  obtain ⟨x, dealt⟩ : Case.Deals (caseOf id c) after := deals
  have hsince : (c.world.since after.world).cleanups = x.cleanups :=
    congrArg Dispatch.cleanups dealt.sends.since
  have hcleanups : after.world.cleanups = c.world.cleanups ++ x.cleanups := dealt.sends.cleanups
  constructor
  · rintro ⟨hrecord, hnone, hrequests⟩
    have hrecord : c.registry.find? id = some after.record := hrecord.symm.trans hfind
    have hnone : x.cleanups = [] := hsince.symm.trans hnone
    refine ⟨Registry.has_of_find? hrecord, ?_, ?_, dealt.served.of_requests hrequests⟩
    · exact (Registry.recordOf_of_find? hrecord).symm
    · rw [hnone, List.append_nil] at hcleanups
      exact hcleanups
  · rintro ⟨hhas, hrecord, hsame, hasked⟩
    obtain ⟨r, hr⟩ := Option.isSome_iff_exists.mp hhas
    have hnone : x.cleanups = [] := List.append_right_eq_self.mp (hcleanups.symm.trans hsame)
    refine ⟨?_, hsince.trans hnone, fun q hq => hasked.drop_requests q hq⟩
    rw [hfind, hr, ← Registry.recordOf_of_find? hr]
    exact congrArg some hrecord

theorem untouched_erase_iff (id : JobId) (c : Controller) :
    Untouched id c { c with registry := c.registry.erase id } ↔ c.registry.has id = false := by
  have hgone : (c.registry.erase id).find? id = none := by rw [Dict.find?_erase, if_pos rfl]
  rw [Dict.has]
  constructor
  · rintro ⟨hrecord, -, -⟩
    rw [← hrecord, hgone]
    rfl
  · intro hnone
    refine ⟨hgone.trans (Option.not_isSome_iff_eq_none.mp (by simp [hnone])).symm, ?_, ?_⟩
    · rw [World.since_self]
      rfl
    · simp [requested]

/-- An event of an object stays with the records and the workflow of the name that the object has,
exactly if that is the name of the workflow of the job, if the object is none of the service's
business, or if the event comes to nothing. -/
theorem named_event_iff (hc : c.Kept) (site : Site) {event : Api.Event} {object : Json}
    {w : Workflow} (hobject : event.object? = some object)
    (hdecode : Workflow.decode? object = some w) :
    Named w.name c (c.take site (.event event)) ↔
      w.jobId.workflowName = w.name ∨ isOurs w = false ∨ Lapses c w event := by
  have hevent := take_event site c event
  cases hours : isOurs w with
  | false =>
    have hnone : reported? event = none := by
      rw [reported?, hobject, Option.bind_some, hdecode, Option.filter_some, hours]
      rfl
    -- the event is ignored, so nothing was worked on
    rw [hnone] at hevent
    rw [hevent]
    refine iff_of_true ⟨fun _ h => absurd rfl h, ?_, ?_⟩ (Or.inr (Or.inl rfl))
    · simp [requested]
    · simp [World.since_self, Dispatch.empty]
  | true =>
    have hw : reported? event = some w := by
      rw [reported?, hobject, Option.bind_some, hdecode, Option.filter_some, hours]
      rfl
    have hjob : (Turn.event event).job? = some w.jobId := by rw [Turn.job?, hw, Option.map_some]
    rw [hw] at hevent
    rw [(contained_of_job? hc hjob site).named_iff hc w.name]
    refine or_congr_right (Iff.trans ?_ (or_iff_right (by simp)).symm)
    rcases hevent with ⟨object, hkind, htake⟩ | ⟨⟨gone, hkind⟩, htake⟩
    · rw [htake, untouched_work_iff hc (Handling.leads_report w object _)
        (Handling.deals_report w object _), Handling.spared_report_iff]
      rcases hkind with rfl | rfl <;> rfl
    · rw [htake, hkind]
      exact untouched_erase_iff w.jobId c

end Controller

namespace Sample

/-- An object that claims the job, but has another name than the workflow of the job. -/
def copied : Json := .ofFields [("metadata", .ofFields [("name", .string "fluxjob-1-copy")]),
  ("spec", .ofFields [("desiredState", Stage.setup.encode), ("jobID", .nat job.value)])]

/-- That object is gone. -/
def uncopied (c : Controller) : Controller := c.take site (.event (.deleted copied))

end Sample

namespace Controller

/-- The end of an object that only claims the job takes the record of the job away, though the
workflow of the job is still there. -/
theorem not_named_copied :
    Reachable Sample.site Sample.ready ∧
      (Workflow.decode? Sample.copied).map Workflow.name = some "fluxjob-1-copy" ∧
      Sample.ready.registry.has Sample.job = true ∧
      (Sample.uncopied Sample.ready).registry.has Sample.job = false ∧
      ((Sample.uncopied Sample.ready).world.api.workflow? Sample.job.workflowName).isSome = true ∧
      ¬Named "fluxjob-1-copy" Sample.ready (Sample.uncopied Sample.ready) := by
  have before : Sample.ready.registry.has Sample.job = true := by decide +kernel
  have after : (Sample.uncopied Sample.ready).registry.has Sample.job = false := by decide +kernel
  refine ⟨Sample.reachable_ready, by decide +kernel, before, after, by decide +kernel, fun h => ?_⟩
  obtain ⟨r, hr⟩ := Option.isSome_iff_exists.mp before
  have hname : r.name = "fluxjob-1-copy" := by
    refine h.records Sample.job (fun hsame => ?_) r (Or.inl hr)
    rw [Dict.has, hsame, hr] at after
    cases after
  rw [(Sample.reachable_ready.kept.own_name hr).2] at hname
  exact absurd hname (by decide)

/-- The theorem applies to that event, and once more when the record of the job is gone. -/
theorem named_event_iff_copied :
    let event := Api.Event.deleted Sample.copied
    let c := Sample.uncopied Sample.ready
    ∃ w, event.object? = some Sample.copied ∧ Workflow.decode? Sample.copied = some w ∧
      Sample.ready.Kept ∧ ¬Named w.name Sample.ready c ∧
      c.Kept ∧ Named w.name c (c.take Sample.site (.event event)) := by
  intro event c
  have kept : Sample.ready.Kept := Sample.reachable_ready.kept
  have kept' : c.Kept := kept_take kept Sample.site (.event event)
  have hread : (Workflow.decode? Sample.copied).any (fun w =>
      isOurs w && w.jobId == Sample.job && w.name == "fluxjob-1-copy") = true := by decide +kernel
  obtain ⟨w, hw, hours, hjob, hname⟩ : ∃ w, Workflow.decode? Sample.copied = some w ∧
      isOurs w = true ∧ w.jobId = Sample.job ∧ w.name = "fluxjob-1-copy" := by
    cases hw : Workflow.decode? Sample.copied with
    | none =>
      rw [hw] at hread
      cases hread
    | some w =>
      rw [hw] at hread
      simp only [Option.any_some, Bool.and_eq_true, beq_iff_eq] at hread
      exact ⟨w, rfl, hread.1.1, hread.1.2, hread.2⟩
  have before : Sample.ready.registry.has w.jobId = true := by
    rw [hjob]
    decide +kernel
  have after : c.registry.has w.jobId = false := by
    rw [hjob]
    decide +kernel
  refine ⟨w, rfl, hw, kept, fun h => ?_, kept',
    (named_event_iff kept' Sample.site rfl hw).mpr (Or.inr (Or.inr after))⟩
  rcases (named_event_iff kept Sample.site rfl hw).mp h with hsame | hforeign | hlapses
  · rw [hjob, hname] at hsame
    exact absurd hsame (by decide)
  · rw [hours] at hforeign
    cases hforeign
  · have hgone : Sample.ready.registry.has w.jobId = false := hlapses
    rw [before] at hgone
    cases hgone

end Controller

end Warren
