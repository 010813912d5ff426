import Warren.Proofs.Api.Faults
import Warren.Proofs.Cleanup.Finalizers

/-!
# Requests that respect the finalizers of others

A patch of finalizers puts the list that was seen last, without the finalizer of the service, in the
place of what is stored. `Respected` says of a way from one server to another one that no such patch
changes the finalizers of others; by `respects_patch_iff` that takes a refusal or a current list.
-/

namespace Warren

namespace Api.Server

variable {s t u : Server}

/-- If the request is a patch of finalizers and is applied, the finalizers of others stay as they
are stored. -/
def Respects (s : Server) : Request → Prop
  | .patch kind space name body =>
    (body.path? finalizersPath).isSome →
      ∀ before after, s.object? (kind.key space name) = some before →
        ((patch kind space name body).run s).1 = .ok after → foreign after = foreign before
  | _ => True

/-- Some requests, one after the other, leave the finalizers of others as they are. -/
def RespectsAll (s : Server) : List Request → Prop
  | [] => True
  | q :: qs => s.Respects q ∧ (s.serve q).RespectsAll qs

/-- A server that served requests which leave the finalizers of others as they are. -/
def Respected (s t : Server) : Prop := ∃ qs, t = s.serveAll qs ∧ s.RespectsAll qs

theorem serveAll_inj {qs rest : List Request} (h : s.serveAll qs = s.serveAll rest) :
    qs = rest := by
  have hrequests := congrArg requests h
  rw [requests_serveAll, requests_serveAll] at hrequests
  exact List.append_cancel_left hrequests

@[simp] theorem respected_serveAll (s : Server) (qs : List Request) :
    Respected s (s.serveAll qs) ↔ s.RespectsAll qs := by
  constructor
  · rintro ⟨rest, hrest, h⟩
    rw [serveAll_inj hrest]
    exact h
  · intro h
    exact ⟨qs, rfl, h⟩

@[simp] theorem respected_serve (s : Server) (q : Request) :
    Respected s (s.serve q) ↔ s.Respects q := by
  have h := respected_serveAll s [q]
  simpa [RespectsAll] using h

instance : Std.Refl Respected := ⟨fun _ => ⟨[], rfl, trivial⟩⟩

/-! ### Patches -/

/-- Some finalizers are, apart from the service's own, those that a workflow is stored with. -/
def IsCurrent (s : Server) (name : String) (finalizers : List String) : Prop :=
  ∀ object, s.workflow? name = some object →
    (Cleanup.others finalizers).map Json.string = foreign object

variable {name : String} {finalizers : List String} {body : Json}

theorem exists_answer_patch {object : Json} (hg : s.grants .patch = true)
    (ho : s.workflow? name = some object) (body : Json) :
    ∃ after, ((patch .workflow defaultSpace name body).run s).1 = .ok after ∧
      foreign after = foreign (object.merge body) := by
  rw [patch, run_answer_of_grants hg]
  have hobject : (s.noted (.patch .workflow defaultSpace name body)).object?
      (Kind.workflow.key defaultSpace name) = some object := by
    rw [object?_noted]
    exact ho
  simp only [applyPatch, hobject]
  split
  · exact ⟨_, rfl, rfl⟩
  · exact ⟨_, rfl, foreign_stamped ..⟩

/-- A patch that puts a list in place leaves the finalizers of others as they are exactly if it is
refused or the list is current. -/
theorem respects_patch_iff (hbody : Installs body (Cleanup.others finalizers))
    (hsets : (body.path? finalizersPath).isSome) :
    s.Respects (.patch .workflow defaultSpace name body) ↔
      (s.grants .patch = true → s.IsCurrent name finalizers) := by
  constructor
  · intro h hg object ho
    obtain ⟨after, hafter, hforeign⟩ := exists_answer_patch hg ho body
    rw [← h hsets object after ho hafter, hforeign, hbody.foreign]
  · intro h _ before after hbefore hafter
    cases hg : s.grants .patch with
    | true =>
      obtain ⟨answer, hanswer, hforeign⟩ := exists_answer_patch hg hbefore body
      obtain rfl : answer = after := Except.ok.inj (hanswer.symm.trans hafter)
      rw [hforeign, hbody.foreign]
      exact h hg before hbefore
    | false =>
      obtain ⟨fault, hrun⟩ := run_answer_of_not_grants
        (q := .patch .workflow defaultSpace name body) hg (·.applyPatch (workflowKey name) body)
      rw [patch, show Kind.workflow.key defaultSpace name = workflowKey name from rfl, hrun]
        at hafter
      cases hafter

end Api.Server

namespace Cleanup

open Api Api.Server

variable {s t u : Server} {α β : Type} {name : String} {finalizers : List String}

/-! ### Conversations -/

def releaseRequest (name : String) (finalizers : List String) : Api.Request :=
  .patch .workflow defaultSpace name (finalizersPatch finalizers)

theorem respects_releaseRequest_iff : s.Respects (releaseRequest name finalizers) ↔
    (s.grants .patch = true → s.IsCurrent name finalizers) :=
  respects_patch_iff (installs_finalizersPatch finalizers) rfl

theorem state_patchWorkflow (name : String) (body : Json) (s : Server) :
    ((patchWorkflow name body).run s).2 = s.serve (.patch .workflow defaultSpace name body) := by
  rw [patchWorkflow, run_discard]
  rfl

theorem respected_dropFinalizer_iff : Respected s ((dropFinalizer name finalizers).run s).2 ↔
    (finalizers.contains finalizer = true → s.grants .patch = true →
      s.IsCurrent name finalizers) := by
  unfold dropFinalizer
  cases finalizers.contains finalizer with
  | true =>
    rw [if_pos rfl, state_patchWorkflow, respected_serve]
    exact respects_releaseRequest_iff.trans ⟨fun h _ => h, fun h => h rfl⟩
  | false => exact iff_of_true (Std.Refl.refl s) nofun

theorem run_currentFinalizers (name : String) (s : Server) : (currentFinalizers name).run s =
    match (Api.get .workflow defaultSpace name).run s with
      | (.ok object, t) => match Workflow.decode? object with
        | some w => (.ok w.finalizers, t)
        | none => (.error .decode, t)
      | (.error fault, t) => (.error fault, t) := by
  unfold currentFinalizers getWorkflow
  rw [run_bind_apply]
  obtain ⟨out, t⟩ := (Api.get .workflow defaultSpace name).run s
  cases out with
  | error fault => rfl
  | ok object =>
    dsimp only
    unfold Api.decoded
    cases Workflow.decode? object <;> rfl

theorem state_currentFinalizers (name : String) (s : Server) :
    ((currentFinalizers name).run s).2 = s.noted (lookRequest name) := by
  have hlook : ((Api.get .workflow defaultSpace name).run s).2 = s.noted (lookRequest name) :=
    serve_get s .workflow defaultSpace name
  rw [run_currentFinalizers, ← hlook]
  obtain ⟨out, t⟩ := (Api.get .workflow defaultSpace name).run s
  cases out with
  | error fault => rfl
  | ok object =>
    dsimp only
    cases Workflow.decode? object <;> rfl

theorem respected_look (name : String) (s : Server) :
    Respected s (s.noted (lookRequest name)) := by
  have h : s.serve (lookRequest name) = s.noted (lookRequest name) :=
    serve_get s .workflow defaultSpace name
  rw [← h, respected_serve]
  trivial

theorem respected_teardownWorkflow_iff :
    Respected s ((teardownWorkflow name finalizers).run s).2 ↔
      (s.grants .patch = true → s.IsCurrent name finalizers) := by
  rw [teardownWorkflow, state_patchWorkflow, respected_serve]
  have hsets : ((teardownPatch finalizers).path? finalizersPath).isSome = true := by
    rw [teardownPatch_eq]
    rfl
  exact respects_patch_iff (installs_teardownPatch finalizers) hsets

end Cleanup

end Warren
