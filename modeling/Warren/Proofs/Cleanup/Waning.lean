import Warren.Proofs.Cleanup.Undertaking

/-!
# What the cleanup takes from a workflow

Requests of the cleanup use up the faults that are scripted. They create nothing, and they give no
workflow the finalizer of the service back (`Wanes`). `Ends` says how a conversation about a
workflow ends: a fault was scripted for one of its requests, or the workflow is missing, or the
conversation did what it is for.
-/

namespace Warren

namespace Api

variable {s t u : Server} {name : String}

/-! ### What requests of the cleanup take from a workflow -/

/-- A workflow that is stored with the finalizer of the service. -/
def Server.IsHeld (s : Server) (name : String) : Prop :=
  ∃ object, s.workflow? name = some object ∧ .string Cleanup.finalizer ∈ finalizersOf object

/-- A request that creates nothing and gives no object the finalizer of the service. -/
def Request.Releases : Request → Prop
  | .get .. | .list .. | .delete .. => True
  | .patch _ _ _ body => ∃ finalizers, Installs body (Cleanup.others finalizers)
  | .create .. | .watch .. => False

namespace Server

/-- Faults are used up, and a workflow is not created and not held again. -/
structure Wanes (name : String) (s t : Server) : Prop where
  outcomes : ∀ verb, t.outcomes verb <:+ s.outcomes verb
  absent : s.workflow? name = none → t.workflow? name = none
  held : t.IsHeld name → s.IsHeld name

theorem Wanes.refl (name : String) (s : Server) : Wanes name s s :=
  ⟨fun _ => List.suffix_refl _, id, id⟩

theorem Wanes.trans (h : Wanes name s t) (h' : Wanes name t u) : Wanes name s u :=
  ⟨fun verb => (h'.outcomes verb).trans (h.outcomes verb), h'.absent ∘ h.absent, h.held ∘ h'.held⟩

/-- A patch that releases objects leaves none of them with the finalizer of the service. -/
theorem not_mem_of_patched {body object after : Json} {finalizers : List String} {key : Key}
    (hbody : Installs body (Cleanup.others finalizers))
    (h : s.patched key body object = some after) :
    .string Cleanup.finalizer ∉ finalizersOf after := by
  unfold patched at h
  split at h
  · cases h
  · rw [← Option.some.inj h, finalizersOf_stamped, finalizersOf_of_path? (hbody object)]
    simp [Cleanup.others]

theorem finalizersOf_of_deleted {object after : Json} {key : Key}
    (h : s.deleted key object = some after) : finalizersOf after = finalizersOf object := by
  unfold deleted at h
  split at h
  · cases h
  · rw [← Option.some.inj h, finalizersOf_stamped, finalizersOf_deletionPatch]

theorem not_isHeld_of_absent (h : s.workflow? name = none) : ¬s.IsHeld name := by
  rintro ⟨object, hobject, _⟩
  rw [h] at hobject
  cases hobject

theorem wanes_of_sameObject {q : Request} (h : (s.serve q).workflow? name = s.workflow? name) :
    Wanes name s (s.serve q) := by
  refine ⟨suffix_outcomes_serve s q, fun ha => h.trans ha, ?_⟩
  rintro ⟨object, hobject, hmem⟩
  exact ⟨object, h ▸ hobject, hmem⟩

theorem wanes_serve {q : Request} (hq : q.Releases) (name : String) (s : Server) :
    Wanes name s (s.serve q) := by
  cases q with
  | get kind space n => exact wanes_of_sameObject (object?_serve_get s kind space n _)
  | list kind scope selector limit =>
    exact wanes_of_sameObject (object?_serve_list s kind scope selector limit _)
  | create => exact hq.elim
  | watch => exact hq.elim
  | patch kind space n body =>
    obtain ⟨finalizers, hbody⟩ := hq
    have hobject := object?_serve_patch s kind space n body (workflowKey name)
    split at hobject
    · rename_i hkey
      rw [hkey.1] at hobject
      refine ⟨suffix_outcomes_serve s _, fun ha => ?_, ?_⟩
      · have hnone : s.object? (workflowKey name) = none := ha
        exact hobject.trans (by rw [hnone, Option.bind_none])
      · rintro ⟨object, hstored, hmem⟩
        obtain ⟨before, _, hafter⟩ := Option.bind_eq_some_iff.mp (hobject.symm.trans hstored)
        exact absurd hmem (not_mem_of_patched hbody hafter)
    · exact wanes_of_sameObject hobject
  | delete kind space n =>
    have hobject := object?_serve_delete s kind space n (workflowKey name)
    split at hobject
    · rename_i hkey
      rw [hkey.1] at hobject
      refine ⟨suffix_outcomes_serve s _, fun ha => ?_, ?_⟩
      · have hnone : s.object? (workflowKey name) = none := ha
        exact hobject.trans (by rw [hnone, Option.bind_none])
      · rintro ⟨object, hstored, hmem⟩
        obtain ⟨before, hbefore, hafter⟩ := Option.bind_eq_some_iff.mp (hobject.symm.trans hstored)
        exact ⟨before, hbefore, finalizersOf_of_deleted hafter ▸ hmem⟩
    · exact wanes_of_sameObject hobject

theorem Asked.wanes (h : Asked Request.Releases s t) (name : String) : Wanes name s t :=
  h.keeps (I := Wanes name) (Wanes.refl name) (fun _ _ _ => Wanes.trans)
    fun s _ hq => wanes_serve hq name s

/-! ### Faults to come -/

/-- How many requests of the cleanup are still to fail. -/
def pending (s : Server) : Nat :=
  s.failures .get + s.failures .list + s.failures .patch + s.failures .delete

/-- No request about a workflow is to be told that the workflow is missing. -/
def IsHonest (s : Server) : Prop :=
  ∀ verb ∈ [Verb.get, .patch, .delete], ∀ outcome ∈ s.outcomes verb,
    outcome.any Fault.isNotFound = false

theorem Wanes.isHonest (h : Wanes name s t) (hs : s.IsHonest) : t.IsHonest :=
  fun verb hverb outcome hout => hs verb hverb outcome ((h.outcomes verb).mem hout)

theorem Wanes.failures_le (h : Wanes name s t) (verb : Verb) :
    t.failures verb ≤ s.failures verb := (h.outcomes verb).sublist.countP_le

theorem Wanes.pending_le (h : Wanes name s t) : t.pending ≤ s.pending := by
  have hget := h.failures_le .get
  have hlist := h.failures_le .list
  have hpatch := h.failures_le .patch
  have hdelete := h.failures_le .delete
  unfold pending
  omega

theorem pending_noted_lt {q : Request} {fault : Fault} (hq : q.Releases)
    (h : (s.outcome q.verb).1 = some fault) : (s.noted q).pending < s.pending := by
  have hless (verb : Verb) : (s.noted q).failures verb ≤ s.failures verb :=
    (suffix_outcomes_noted s q verb).sublist.countP_le
  have hget := hless .get
  have hlist := hless .list
  have hpatch := hless .patch
  have hdelete := hless .delete
  have hused := (failures_noted_of_outcome h).1
  unfold pending
  cases q with
  | create => exact hq.elim
  | watch => exact hq.elim
  | _ =>
    simp only [Request.verb] at hused
    omega

/-! ### Answers -/

/-- How a conversation about a workflow ends: with a fault that was scripted, because the workflow
is missing, or as it is meant to. -/
inductive Ends (name : String) (goal : Server → Prop) (s : Server) : Except Fault α × Server → Prop
  | refused {fault : Fault} {t : Server} (known : fault.isNotFound = false)
    (fewer : t.pending < s.pending) : Ends name goal s (.error fault, t)
  | missing {fault : Fault} {t : Server} (known : fault.isNotFound = true)
    (absent : t.workflow? name = none) : Ends name goal s (.error fault, t)
  | met {a : α} {t : Server} (holds : goal t) : Ends name goal s (.ok a, t)

theorem Ends.of_le {goal : Server → Prop} {r : Except Fault α × Server}
    (hle : t.pending ≤ s.pending) (h : Ends name goal t r) : Ends name goal s r := by
  cases h with
  | refused known fewer => exact .refused known (by omega)
  | missing known absent => exact .missing known absent
  | met holds => exact .met holds

theorem isNotFound_of_outcome {q : Request} {fault : Fault} (hs : s.IsHonest)
    (hq : q.verb ∈ [Verb.get, .patch, .delete]) (h : (s.outcome q.verb).1 = some fault) :
    fault.isNotFound = false := hs _ hq (some fault) (failures_noted_of_outcome h).2

theorem ends_patch {body : Json} {goal : Server → Prop} (hs : s.IsHonest)
    (hbody : (Request.patch .workflow defaultSpace name body).Releases)
    (hgoal : ∀ t object, s.workflow? name = some object →
      t.workflow? name = s.patched (workflowKey name) body object → goal t) :
    Ends name goal s ((patchWorkflow name body).run s) := by
  rw [patchWorkflow, run_discard, patch, run_answer]
  generalize hq : Request.patch .workflow defaultSpace name body = q at *
  have hverb : q.verb = .patch := by rw [← hq]; rfl
  cases hout : (s.outcome q.verb).1 with
  | some fault =>
    exact .refused (isNotFound_of_outcome hs (by simp [hverb]) hout)
      (pending_noted_lt hbody hout)
  | none =>
    have hstored : (s.noted q).object? (workflowKey name) = s.workflow? name := object?_noted s q _
    change Ends name goal s (Except.map _ ((s.noted q).applyPatch (workflowKey name) body).1,
      ((s.noted q).applyPatch (workflowKey name) body).2)
    cases ho : s.workflow? name with
    | none =>
      rw [applyPatch_of_none (hstored.trans ho)]
      exact .missing (Fault.isNotFound_notFound name) (hstored.trans ho)
    | some object =>
      obtain ⟨answer, hanswer⟩ := exists_answer_applyPatch (hstored.trans ho) body
      have hobject := object?_applyPatch (s.noted q) (workflowKey name) (workflowKey name) body
      rw [if_pos rfl, hstored, ho, Option.bind_some, patched_noted] at hobject
      rw [hanswer]
      exact .met (hgoal _ object ho hobject)

theorem ends_delete {goal : Server → Prop} (hs : s.IsHonest)
    (hgoal : ∀ t object, s.workflow? name = some object →
      t.workflow? name = s.deleted (workflowKey name) object → goal t) :
    Ends name goal s ((Api.delete .workflow defaultSpace name).run s) := by
  rw [delete, run_answer]
  generalize hq : Request.delete .workflow defaultSpace name = q at *
  have hverb : q.verb = .delete := by rw [← hq]; rfl
  have hreleases : q.Releases := by rw [← hq]; trivial
  cases hout : (s.outcome q.verb).1 with
  | some fault =>
    exact .refused (isNotFound_of_outcome hs (by simp [hverb]) hout)
      (pending_noted_lt hreleases hout)
  | none =>
    have hstored : (s.noted q).object? (workflowKey name) = s.workflow? name := object?_noted s q _
    change Ends name goal s ((s.noted q).applyDelete (workflowKey name))
    cases ho : s.workflow? name with
    | none =>
      rw [applyDelete_of_none (hstored.trans ho)]
      exact .missing (Fault.isNotFound_notFound name) (hstored.trans ho)
    | some object =>
      have hobject := object?_applyDelete (s.noted q) (workflowKey name) (workflowKey name)
      rw [if_pos rfl, hstored, ho, Option.bind_some, deleted_noted] at hobject
      rw [← Prod.eta ((s.noted q).applyDelete (workflowKey name)),
        answer_applyDelete (hstored.trans ho)]
      exact .met (hgoal _ object ho hobject)

theorem Ends.bind {x : Call α} {f : α → Call β} {goal next : Server → Prop}
    (hle : (x.run s).2.pending ≤ s.pending) (hx : Ends name goal s (x.run s))
    (hf : ∀ a t, x.run s = (.ok a, t) → goal t → Ends name next t ((f a).run t)) :
    Ends name next s ((x >>= f).run s) := by
  rw [run_bind_apply]
  cases hr : x.run s with
  | mk out t =>
    rw [hr] at hx hle
    cases hx with
    | refused known fewer => exact .refused known fewer
    | missing known absent => exact .missing known absent
    | met holds => exact (hf _ t hr holds).of_le hle

end Server

end Api

end Warren
