import Warren.Objects.Workflow
import Warren.Proofs.Api.Serving
import Warren.Proofs.Json.Merge

/-!
# The stored stage of a workflow

A stored workflow object says which stage is desired. Reading, patching other objects and patching
metadata keep that stage, or remove the object as a whole; a patch that asks for a stage puts it in
place. `stage?_serve_stageRequest` says exactly when.
-/

namespace Warren

theorem Stage.decode?_encode (stage : Stage) : Stage.decode? stage.encode = some stage :=
  Stage.ofName?_name stage

namespace Api

/-- The desired stage in an object. -/
def desiredStage? (object : Json) : Option Stage :=
  (object.path? ["spec", "desiredState"]).bind Stage.decode?

/-- Where a workflow is stored. -/
def workflowKey (name : String) : Key := Kind.workflow.key defaultSpace name

theorem workflowKey_inj {a b : String} : workflowKey a = workflowKey b ↔ a = b := by
  constructor
  · intro h
    exact congrArg Key.name h
  · intro h
    rw [h]

/-- An object that is being deleted and has no finalizers goes with the next change. -/
def isParting (object : Json) : Bool := isDeleting object && (finalizersOf object).isEmpty

/-- The request for a stage of a workflow. -/
def stageRequest (name : String) (stage : Stage) : Request :=
  .patch .workflow defaultSpace name (stagePatch stage)

namespace Server

/-- The stored object of a workflow. -/
def workflow? (s : Server) (name : String) : Option Json := s.object? (workflowKey name)

/-- The desired stage of a stored workflow. -/
def stage? (s : Server) (name : String) : Option Stage := (s.workflow? name).bind desiredStage?

end Server

/-! ### Patches of objects -/

theorem path?_metadataPatch_merge (object : Json) (fields : List (String × Json))
    (rest : List String) :
    (object.merge (metadataPatch fields)).path? ("spec" :: rest) = object.path? ("spec" :: rest) :=
  Json.path?_merge_of_ne (by decide) object (.ofFields fields) rest

theorem desiredStage?_metadataPatch (object : Json) (fields : List (String × Json)) :
    desiredStage? (object.merge (metadataPatch fields)) = desiredStage? object := by
  simp only [desiredStage?, path?_metadataPatch_merge]

theorem desiredStage?_stamped (s : Server) (key : Key) (object : Json) :
    desiredStage? (s.stamped key object) = desiredStage? object :=
  desiredStage?_metadataPatch object _

theorem desiredStage?_stagePatch (object : Json) (stage : Stage) :
    desiredStage? (object.merge (stagePatch stage)) = some stage := by
  have h : (object.merge (stagePatch stage)).path? ["spec", "desiredState"] = some stage.encode :=
    Json.path?_merge_nested object "spec" "desiredState" stage.name
  rw [desiredStage?, h]
  exact stage.decode?_encode

theorem isParting_stagePatch (object : Json) (stage : Stage) :
    isParting (object.merge (stagePatch stage)) = isParting object := by
  have h (rest : List String) : (object.merge (stagePatch stage)).path? ("metadata" :: rest) =
      object.path? ("metadata" :: rest) := Json.path?_merge_of_ne (by decide) object _ rest
  simp only [isParting, isDeleting, finalizersOf, h]

namespace Server

/-- What a patch leaves of an object. -/
def patched (s : Server) (key : Key) (body object : Json) : Option Json :=
  if isParting (object.merge body) then none else some (s.stamped key (object.merge body))

theorem object?_applyPatch (s : Server) (key other : Key) (body : Json) :
    (s.applyPatch key body).2.object? other =
      if key = other then (s.object? key).bind (s.patched key body) else s.object? other := by
  simp only [applyPatch]
  cases ho : s.object? key with
  | none =>
    by_cases hk : key = other
    · rw [if_pos hk, ← hk]
      exact ho
    · rw [if_neg hk]
  | some object =>
    by_cases hp : isParting (object.merge body)
    · have hcond : isDeleting (object.merge body) = true ∧
          (finalizersOf (object.merge body)).isEmpty = true := by
        simpa only [isParting, Bool.and_eq_true] using hp
      simp only [if_pos hcond, Option.bind_some, patched, if_pos hp]
      exact object?_remove s key other
    · have hcond : ¬(isDeleting (object.merge body) = true ∧
          (finalizersOf (object.merge body)).isEmpty = true) := by
        simpa only [isParting, Bool.and_eq_true] using hp
      simp only [if_neg hcond, Option.bind_some, patched, if_neg hp]
      exact object?_store s key other (object.merge body) false

theorem applyPatch_of_none {s : Server} {key : Key} (h : s.object? key = none) (body : Json) :
    s.applyPatch key body = (.error (.notFound key.name), s) := by
  simp only [applyPatch, h]

theorem exists_answer_applyPatch {s : Server} {key : Key} {object : Json}
    (h : s.object? key = some object) (body : Json) :
    ∃ answer, (s.applyPatch key body).1 = .ok answer := by
  simp only [applyPatch, h]
  split <;> exact ⟨_, rfl⟩

theorem patched_noted (s : Server) (q : Request) (key : Key) (body object : Json) :
    (s.noted q).patched key body object = s.patched key body object := by
  have hversion : (s.noted q).version = s.version := by
    simp only [noted, outcome, receive]
    split <;> rfl
  simp only [patched, stamped, hversion]

theorem object?_serve_patch (s : Server) (kind : Kind) (space name : String) (body : Json)
    (other : Key) :
    (s.serve (.patch kind space name body)).object? other =
      if kind.key space name = other ∧ s.grants .patch then
        (s.object? (kind.key space name)).bind (s.patched (kind.key space name) body)
      else s.object? other := by
  change ((patch kind space name body).run s).2.object? other = _
  cases hg : s.grants .patch with
  | true =>
    rw [patch, run_answer_of_grants hg, object?_applyPatch]
    simp only [object?_noted, and_true]
    congr 2
    funext object
    exact patched_noted s _ _ body object
  | false =>
    obtain ⟨fault, hrun⟩ := run_answer_of_not_grants
      (q := .patch kind space name body) hg (·.applyPatch (kind.key space name) body)
    rw [patch, hrun]
    simp

/-- What a deletion leaves of an object. -/
def deleted (s : Server) (key : Key) (object : Json) : Option Json :=
  if (finalizersOf object).isEmpty then none
  else some (s.stamped key
    (object.merge (metadataPatch [("deletionTimestamp", .string "2024-01-01T00:00:00Z")])))

theorem object?_applyDelete (s : Server) (key other : Key) :
    (s.applyDelete key).2.object? other =
      if key = other then (s.object? key).bind (s.deleted key) else s.object? other := by
  simp only [applyDelete]
  cases ho : s.object? key with
  | none =>
    by_cases hk : key = other
    · rw [if_pos hk, ← hk]
      exact ho
    · rw [if_neg hk]
  | some object =>
    simp only [Option.bind_some, deleted]
    split
    · exact object?_remove s key other
    · exact object?_store s key other _ false

theorem applyDelete_of_none {s : Server} {key : Key} (h : s.object? key = none) :
    s.applyDelete key = (.error (.notFound key.name), s) := by
  simp only [applyDelete, h]

theorem answer_applyDelete {s : Server} {key : Key} {object : Json}
    (h : s.object? key = some object) : (s.applyDelete key).1 = .ok () := by
  simp only [applyDelete, h]
  split <;> rfl

theorem deleted_noted (s : Server) (q : Request) (key : Key) (object : Json) :
    (s.noted q).deleted key object = s.deleted key object := by
  have hversion : (s.noted q).version = s.version := by
    simp only [noted, outcome, receive]
    split <;> rfl
  simp only [deleted, stamped, hversion]

theorem object?_serve_delete (s : Server) (kind : Kind) (space name : String) (other : Key) :
    (s.serve (.delete kind space name)).object? other =
      if kind.key space name = other ∧ s.grants .delete then
        (s.object? (kind.key space name)).bind (s.deleted (kind.key space name))
      else s.object? other := by
  change ((delete kind space name).run s).2.object? other = _
  cases hg : s.grants .delete with
  | true =>
    rw [delete, run_answer_of_grants hg, object?_applyDelete]
    simp only [object?_noted, and_true]
    congr 2
    funext object
    exact deleted_noted s _ _ object
  | false =>
    obtain ⟨fault, hrun⟩ := run_answer_of_not_grants
      (q := .delete kind space name) hg (·.applyDelete (kind.key space name))
    rw [delete, hrun]
    simp

end Server

/-! ### Requests and stages -/

namespace Request

/-- A request that asks for a stage of a workflow. -/
def SetsStage (name : String) : Request → Prop
  | .patch kind space n body => kind.key space n = workflowKey name ∧
      (body.path? ["spec", "desiredState"]).isSome
  | _ => False

/-- A request that asks for stages of one workflow at most. -/
def SetsOnly (name : String) (q : Request) : Prop := ∀ other, q.SetsStage other → other = name

/-- A request that cannot change the desired stage of an object: it reads, or it patches the
metadata or an object that is no workflow. -/
def KeepsStages : Request → Prop
  | .get .. | .list .. => True
  | .patch kind _ _ body =>
    kind.plural ≠ Kind.workflow.plural ∨ ∃ fields, body = metadataPatch fields
  | .create .. | .delete .. | .watch .. => False

/-- A request that cannot change a workflow at all. -/
def SparesWorkflows : Request → Prop
  | .get .. | .list .. => True
  | .patch kind .. => kind.plural ≠ Kind.workflow.plural
  | .create .. | .delete .. | .watch .. => False

theorem SparesWorkflows.keepsStages {q : Request} (h : q.SparesWorkflows) : q.KeepsStages := by
  cases q with
  | get => trivial
  | list => trivial
  | patch => exact Or.inl h
  | create => exact h
  | delete => exact h
  | watch => exact h

theorem KeepsStages.not_setsStage {q : Request} (h : q.KeepsStages) (name : String) :
    ¬q.SetsStage name := by
  cases q with
  | patch kind space n body =>
    rintro ⟨hkey, hpath⟩
    rcases h with hkind | ⟨fields, rfl⟩
    · exact hkind (congrArg Key.plural hkey)
    · simp [metadataPatch, Json.path?_cons, Json.field?, Dict.find?_cons] at hpath
  | _ => exact id

theorem KeepsStages.setsOnly {q : Request} (h : q.KeepsStages) (name : String) :
    q.SetsOnly name := fun other hq => absurd hq (h.not_setsStage other)

end Request

theorem setsStage_stageRequest {name other : String} {stage : Stage} :
    (stageRequest name stage).SetsStage other ↔ name = other := by
  have hpath : ((stagePatch stage).path? ["spec", "desiredState"]).isSome := rfl
  constructor
  · rintro ⟨hkey, _⟩
    exact workflowKey_inj.mp hkey
  · rintro rfl
    exact ⟨rfl, hpath⟩

theorem setsOnly_stageRequest (name : String) (stage : Stage) :
    (stageRequest name stage).SetsOnly name := fun _ h => (setsStage_stageRequest.mp h).symm

namespace Server

/-- The stored workflows are the same. -/
def SameWorkflows (s t : Server) : Prop := ∀ name, t.workflow? name = s.workflow? name

theorem SameWorkflows.stage? {s t : Server} (h : SameWorkflows s t) (name : String) :
    t.stage? name = s.stage? name := by
  simp only [Server.stage?, h name]

/-- The stored workflows desire the same stages, if they are still there. -/
def StagesKept (s t : Server) : Prop :=
  ∀ name, t.stage? name = s.stage? name ∨ t.stage? name = none

theorem StagesKept.trans {s t u : Server} (h : StagesKept s t) (h' : StagesKept t u) :
    StagesKept s u := by
  intro name
  rcases h' name with h' | h'
  · rw [h']
    exact h name
  · exact Or.inr h'

theorem object?_serve_get (s : Server) (kind : Kind) (space name : String) (key : Key) :
    (s.serve (.get kind space name)).object? key = s.object? key := by
  have h : s.serve (.get kind space name) = s.noted (.get kind space name) := by
    refine state_run_answer_of_read (fun t => ?_) _ s
    cases t.object? (kind.key space name) <;> rfl
  rw [h, object?_noted]

theorem object?_serve_list (s : Server) (kind : Kind) (scope : Scope) (selector : Option String)
    (limit : Option Nat) (key : Key) :
    (s.serve (.list kind scope selector limit)).object? key = s.object? key := by
  have h : s.serve (.list kind scope selector limit) = s.noted (.list kind scope selector limit) :=
    state_run_answer_of_read (fun _ => rfl) _ s
  rw [h, object?_noted]

theorem sameWorkflows_serve {q : Request} (h : q.SparesWorkflows) (s : Server) :
    SameWorkflows s (s.serve q) := by
  intro name
  cases q with
  | get kind space n => exact object?_serve_get s kind space n _
  | list kind scope selector limit => exact object?_serve_list s kind scope selector limit _
  | patch kind space n body =>
    have hkey : kind.key space n ≠ workflowKey name := fun hk => h (congrArg Key.plural hk)
    rw [workflow?, object?_serve_patch, if_neg (fun hc => hkey hc.1)]
    rfl
  | create => exact h.elim
  | delete => exact h.elim
  | watch => exact h.elim

theorem stagesKept_serve {q : Request} (h : q.KeepsStages) (s : Server) :
    StagesKept s (s.serve q) := by
  intro name
  cases q with
  | get kind space n =>
    exact Or.inl (SameWorkflows.stage? (sameWorkflows_serve (q := .get kind space n) h s) name)
  | list kind scope selector limit =>
    exact Or.inl
      (SameWorkflows.stage? (sameWorkflows_serve (q := .list kind scope selector limit) h s) name)
  | patch kind space n body =>
    rcases h with hkind | ⟨fields, rfl⟩
    · exact Or.inl
        (SameWorkflows.stage? (sameWorkflows_serve (q := .patch kind space n body) hkind s) name)
    · simp only [Server.stage?, workflow?, object?_serve_patch]
      split
      · rename_i hkey
        rw [hkey.1]
        cases ho : s.object? (workflowKey name) with
        | none => exact Or.inr rfl
        | some object =>
          simp only [Option.bind_some, patched]
          split
          · exact Or.inr rfl
          · left
            rw [Option.bind_some, desiredStage?_stamped, desiredStage?_metadataPatch]
      · exact Or.inl rfl
  | create => exact h.elim
  | delete => exact h.elim
  | watch => exact h.elim

theorem Asked.stagesKept {s t : Server} (h : Asked Request.KeepsStages s t) : StagesKept s t :=
  h.keeps (I := StagesKept) (fun _ _ => Or.inl rfl) (fun _ _ _ => StagesKept.trans)
    (fun s _ hq => stagesKept_serve hq s)

theorem Asked.sameWorkflows {s t : Server} (h : Asked Request.SparesWorkflows s t) :
    SameWorkflows s t :=
  h.keeps (I := SameWorkflows) (fun _ _ => rfl) (fun _ _ _ h h' name => (h' name).trans (h name))
    (fun s _ hq => sameWorkflows_serve hq s)

/-- Whether a stored workflow goes with the next change. -/
def isParting (s : Server) (name : String) : Bool := (s.workflow? name).any Api.isParting

/-- A request for a stage puts it in place, if it is let through and the workflow does not go with
the change. -/
theorem stage?_serve_stageRequest (s : Server) (name other : String) (stage : Stage) :
    (s.serve (stageRequest name stage)).stage? other =
      if name = other ∧ s.grants .patch then
        if (s.workflow? name).isNone ∨ s.isParting name then none else some stage
      else s.stage? other := by
  have hobject : (s.serve (stageRequest name stage)).workflow? other =
      if workflowKey name = workflowKey other ∧ s.grants .patch then
        (s.workflow? name).bind (s.patched (workflowKey name) (stagePatch stage))
      else s.workflow? other := object?_serve_patch s .workflow defaultSpace name _ _
  rw [Server.stage?, hobject]
  by_cases hc : name = other ∧ s.grants .patch = true
  · rw [if_pos ⟨workflowKey_inj.mpr hc.1, hc.2⟩, if_pos hc, isParting]
    cases ho : s.workflow? name with
    | none => rfl
    | some object =>
      simp only [Option.bind_some, patched, isParting_stagePatch, Option.isNone_some,
        Bool.false_eq_true, false_or, Option.any_some]
      by_cases hp : Api.isParting object
      · rw [if_pos hp, if_pos hp]
        rfl
      · rw [if_neg hp, if_neg hp, Option.bind_some, desiredStage?_stamped,
          desiredStage?_stagePatch]
  · rw [if_neg (fun h => hc ⟨workflowKey_inj.mp h.1, h.2⟩), if_neg hc]
    rfl

end Server

end Api

end Warren
