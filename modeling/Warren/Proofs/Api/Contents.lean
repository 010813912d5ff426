import Warren.Proofs.Api.Faults
import Warren.Proofs.Cleanup.Finalizers
import Warren.Proofs.Json.Overwrite

/-!
# What a server holds, whatever the versions are

Every write gives an object a new version. `SameContents` compares what two servers hold apart from
that, and `Settled` says that a patch would change nothing but the version: it does so once it was
applied.
-/

namespace Warren.Api

/-! ### Objects without their version -/

/-- An object with the version taken out. -/
def unversioned (object : Json) : Json :=
  object.merge (metadataPatch [("resourceVersion", .string "")])

/-- An object as it is stored under a key, with the version taken out. -/
def Key.bare (key : Key) (object : Json) : Json := object.merge (key.stamp "")

/-- A patch of one field of the metadata. -/
abbrev metadataField (field text : String) : Json := Json.nested ["metadata", field] (.string text)

theorem merge_stamp (key : Key) (version : String) (object : Json) :
    object.merge (key.stamp version) = ((object.merge (metadataField "name" key.name)).merge
      (metadataField "namespace" key.space)).merge (metadataField "resourceVersion" version) := by
  rw [Key.stamp, Json.merge_inner_cons, Json.merge_inner_cons]
  rfl

/-- A patch that may be exchanged with what is written into stored objects. -/
def SparesStamp (body : Json) : Prop :=
  ∀ field ∈ ["name", "namespace", "resourceVersion"], ∀ text,
    Json.Commutes body (metadataField field text)

theorem SparesStamp.merge_stamp {body : Json} (h : SparesStamp body) (key : Key) (version : String)
    (object : Json) : (object.merge body).merge (key.stamp version) =
      (object.merge (key.stamp version)).merge body := by
  simp only [Api.merge_stamp]
  rw [h "name" (by decide), h "namespace" (by decide), h "resourceVersion" (by decide)]

theorem sparesStamp_of_field {key : String} (hne : key ≠ "metadata") {value : Json}
    (h : value.isNull = false) : SparesStamp (.object [(key, value)]) :=
  fun _ _ _ => Json.commutes_of_ne hne h rfl

theorem sparesStamp_of_metadata {field : String}
    (h : field ∉ ["name", "namespace", "resourceVersion"]) {value : Json}
    (hvalue : value.isNull = false) : SparesStamp (metadataPatch [(field, value)]) := by
  intro other hother text
  have hne : field ≠ other := fun he => h (he ▸ hother)
  exact (Json.commutes_of_ne hne hvalue rfl).inner rfl rfl "metadata"

theorem commutes_metadataField {field other : String} (hne : field ≠ other) (text text' : String) :
    Json.Commutes (metadataField field text) (metadataField other text') :=
  (Json.commutes_of_ne hne rfl rfl).inner rfl rfl "metadata"

theorem overrides_metadataField (field text text' : String) :
    Json.Overrides (metadataField field text) (metadataField field text') :=
  Json.overrides_nested (Json.isLeaf_string _) (Json.isLeaf_string _) _

theorem unversioned_stamp (key : Key) (version : String) (object : Json) :
    unversioned (object.merge (key.stamp version)) = key.bare object := by
  rw [Key.bare, merge_stamp, merge_stamp]
  exact overrides_metadataField "resourceVersion" "" version _

theorem unversioned_stamped (s : Server) (key : Key) (object : Json) :
    unversioned (s.stamped key object) = key.bare object := by
  rw [stamped_eq, unversioned_stamp]

theorem bare_unversioned (key : Key) (object : Json) :
    key.bare (unversioned object) = key.bare object := by
  have hunversioned : unversioned object = object.merge (metadataField "resourceVersion" "") := rfl
  rw [hunversioned, Key.bare, Key.bare, merge_stamp, merge_stamp,
    commutes_metadataField (by decide : "resourceVersion" ≠ "name"),
    commutes_metadataField (by decide : "resourceVersion" ≠ "namespace"), overrides_metadataField]

/-- Storing an object once more changes its version only. -/
theorem bare_stamp (key : Key) (version : String) (object : Json) :
    key.bare (object.merge (key.stamp version)) = key.bare object := by
  rw [Key.bare, Key.bare, merge_stamp, merge_stamp, merge_stamp,
    commutes_metadataField (by decide : "resourceVersion" ≠ "name"),
    commutes_metadataField (by decide : "namespace" ≠ "name"), overrides_metadataField,
    commutes_metadataField (by decide : "resourceVersion" ≠ "namespace"), overrides_metadataField,
    overrides_metadataField]

theorem bare_stamped (s : Server) (key : Key) (object : Json) :
    key.bare (s.stamped key object) = key.bare object := by
  rw [stamped_eq, bare_stamp]

theorem SparesStamp.bare_merge {body : Json} (h : SparesStamp body) (key : Key) (object : Json) :
    key.bare (object.merge body) = (key.bare object).merge body := h.merge_stamp key "" object

/-! ### Objects on their way out -/

theorem isParting_of_metadata {object other : Json}
    (h : ∀ field ∈ ["deletionTimestamp", "finalizers"],
      object.path? ["metadata", field] = other.path? ["metadata", field]) :
    isParting object = isParting other := by
  simp only [isParting, isDeleting, finalizersOf, h "deletionTimestamp" (by decide),
    h "finalizers" (by decide)]

theorem isParting_bare (key : Key) (object : Json) :
    isParting (key.bare object) = isParting object := by
  have apart : ∀ field ∈ ["deletionTimestamp", "finalizers"],
      field ∉ ["name", "namespace", "resourceVersion"] := by decide
  exact isParting_of_metadata fun field hfield =>
    path?_stamp field (apart field hfield) key "" object

theorem isParting_merge_of_field {key : String} (hne : key ≠ "metadata") (object value : Json) :
    isParting (object.merge (.object [(key, value)])) = isParting object :=
  isParting_of_metadata fun field _ => Json.path?_merge_of_ne hne object value [field]

/-! ### Servers -/

namespace Server

variable {s t u : Server} {key : Key} {body : Json}

/-- No request is to fail. -/
def IsWilling (s : Server) : Prop := ∀ verb, ∀ outcome ∈ s.outcomes verb, outcome = none

theorem IsWilling.grants (h : s.IsWilling) (verb : Verb) : s.grants verb = true := by
  unfold Server.grants outcome
  cases hout : s.outcomes verb with
  | nil => rfl
  | cons next rest =>
    have hnext : next = none := h verb next (hout ▸ List.mem_cons_self ..)
    rw [hnext]
    rfl

theorem IsWilling.serve (h : s.IsWilling) (q : Request) : (s.serve q).IsWilling :=
  fun verb outcome hout => h verb outcome ((suffix_outcomes_serve s q verb).mem hout)

theorem Asked.isWilling {P : Request → Prop} (h : Asked P s t) (hs : s.IsWilling) : t.IsWilling :=
  h.keeps (I := fun s t => s.IsWilling → t.IsWilling) (fun _ => id) (fun _ _ _ h h' => h' ∘ h)
    (fun _ q _ hs => hs.serve q) hs

/-- Two servers hold the same objects, apart from their versions. -/
def SameContents (s t : Server) : Prop :=
  ∀ key, (t.object? key).map unversioned = (s.object? key).map unversioned

instance : Std.Refl SameContents := ⟨fun _ _ => rfl⟩

instance : Trans SameContents SameContents SameContents where
  trans h h' := fun key => (h' key).trans (h key)

theorem sameContents_of_objects (h : ∀ key, t.object? key = s.object? key) : SameContents s t :=
  fun key => congrArg _ (h key)

theorem SameContents.exists_object (h : SameContents s t) {object : Json}
    (hobject : t.object? key = some object) :
    ∃ before, s.object? key = some before ∧ unversioned before = unversioned object := by
  have hmap := h key
  rw [hobject, Option.map_some] at hmap
  exact Option.map_eq_some_iff.mp hmap.symm

/-- No object goes with the next change. -/
def NonePart (s : Server) : Prop := ∀ key object, s.object? key = some object →
  Api.isParting object = false

/-! ### Patches that are in place -/

/-- A patch that would change no more than the version of an object. -/
def Settled (s : Server) (key : Key) (body : Json) : Prop :=
  ∀ object, s.object? key = some object → Api.isParting (object.merge body) = false ∧
    key.bare (object.merge body) = unversioned object

theorem SameContents.settled (h : SameContents s t) (hbody : SparesStamp body)
    (hs : s.Settled key body) : t.Settled key body := by
  intro object hobject
  obtain ⟨before, hbefore, hsame⟩ := h.exists_object hobject
  obtain ⟨hparting, hbare⟩ := hs before hbefore
  have heq : key.bare (object.merge body) = key.bare (before.merge body) := by
    rw [hbody.bare_merge, hbody.bare_merge, ← bare_unversioned key object, ← hsame,
      bare_unversioned]
  refine ⟨?_, by rw [heq, hbare, hsame]⟩
  rw [← isParting_bare key, heq, isParting_bare, hparting]

theorem Settled.sameContents (h : s.Settled key body) :
    SameContents s (s.applyPatch key body).2 := by
  intro other
  rw [object?_applyPatch]
  split
  · rename_i hkey
    subst hkey
    cases hobject : s.object? key with
    | none => rfl
    | some object =>
      obtain ⟨hparting, hbare⟩ := h object hobject
      rw [Option.bind_some, patched, hparting, if_neg (by simp), Option.map_some,
        Option.map_some, unversioned_stamped, hbare]
  · rfl

theorem settled_applyPatch (hbody : SparesStamp body) (hagain : Json.Overrides body body)
    (s : Server) (key : Key) : (s.applyPatch key body).2.Settled key body := by
  intro object hobject
  rw [object?_applyPatch, if_pos rfl] at hobject
  obtain ⟨before, -, hpatched⟩ := Option.bind_eq_some_iff.mp hobject
  unfold patched at hpatched
  split at hpatched
  · cases hpatched
  · rename_i hparting
    obtain rfl := Option.some.inj hpatched
    have heq : key.bare ((s.stamped key (before.merge body)).merge body) =
        key.bare (before.merge body) := by
      rw [hbody.bare_merge, bare_stamped, hbody.bare_merge, hagain]
    refine ⟨?_, by rw [heq, unversioned_stamped]⟩
    rw [← isParting_bare key, heq, isParting_bare]
    simpa using hparting

theorem isSome_applyPatch (hs : s.NonePart)
    (hbody : ∀ object, Api.isParting (Json.merge object body) = Api.isParting object)
    (h : (s.object? key).isSome = true) :
    ((s.applyPatch key body).2.object? key).isSome = true := by
  obtain ⟨object, hobject⟩ := Option.isSome_iff_exists.mp h
  have hparting : Api.isParting (object.merge body) = false :=
    (hbody object).trans (hs key object hobject)
  rw [object?_applyPatch, if_pos rfl, hobject, Option.bind_some, patched, hparting]
  rfl

theorem NonePart.noted (h : s.NonePart) (q : Request) : (s.noted q).NonePart :=
  fun key object hobject => h key object (by rwa [object?_noted] at hobject)

/-! ### Answers of willing servers -/

theorem IsWilling.run_get (h : s.IsWilling) (kind : Kind) (space name : String) :
    (get kind space name).run s = (match s.object? (kind.key space name) with
      | some object => .ok object
      | none => .error (.notFound name), s.noted (.get kind space name)) := by
  rw [get, run_answer_of_grants (h.grants _), object?_noted]
  cases s.object? (kind.key space name) <;> rfl

theorem IsWilling.run_patch (h : s.IsWilling) (kind : Kind) (space name : String) (body : Json) :
    (patch kind space name body).run s =
      (s.noted (.patch kind space name body)).applyPatch (kind.key space name) body := by
  rw [patch, run_answer_of_grants (h.grants _)]

theorem sameContents_noted (s : Server) (q : Request) : SameContents s (s.noted q) :=
  sameContents_of_objects fun key => object?_noted s q key

theorem IsWilling.noted (h : s.IsWilling) (q : Request) : (s.noted q).IsWilling :=
  fun verb outcome hout => h verb outcome ((suffix_outcomes_noted s q verb).mem hout)

theorem isWilling_applyPatch (h : s.IsWilling) (key : Key) (body : Json) :
    (s.applyPatch key body).2.IsWilling :=
  fun verb outcome hout => h verb outcome (by rwa [outcomes_applyPatch] at hout)

theorem settled_noted (h : s.Settled key body) (q : Request) : (s.noted q).Settled key body :=
  fun object hobject => h object (by rwa [object?_noted] at hobject)

end Server

theorem run_observe {α : Type} (call : Call α) (s : Server) :
    (observe call).run s = (.ok (call.run s).1, (call.run s).2) := rfl

theorem yields_patchWorkflow {s : Server} (h : s.IsWilling) (name : String) (body : Json) :
    let noted := s.noted (.patch .workflow defaultSpace name body)
    Yields (fun _ t => (s.workflow? name).isSome = true ∧
        t = (noted.applyPatch (workflowKey name) body).2)
      (fun fault t => s.workflow? name = none ∧ fault = .notFound name ∧ t = noted)
      (patchWorkflow name body) s := by
  intro noted
  have hrun : (patchWorkflow name body).run s =
      ((noted.applyPatch (workflowKey name) body).1.map fun _ => PUnit.unit,
        (noted.applyPatch (workflowKey name) body).2) := by
    rw [patchWorkflow, run_discard, h.run_patch]
    rfl
  cases hobject : s.workflow? name with
  | none =>
    have hnone : noted.object? (workflowKey name) = none :=
      (Server.object?_noted s _ _).trans hobject
    rw [Server.applyPatch_of_none hnone] at hrun
    exact .of_error hrun ⟨rfl, rfl, rfl⟩
  | some object =>
    have hsome : noted.object? (workflowKey name) = some object :=
      (Server.object?_noted s _ _).trans hobject
    obtain ⟨answer, hanswer⟩ := Server.exists_answer_applyPatch hsome body
    rw [hanswer] at hrun
    exact .of_ok hrun ⟨rfl, rfl⟩

/-! ### Patches of workflows -/

theorem sparesStamp_stagePatch (stage : Stage) : SparesStamp (stagePatch stage) :=
  sparesStamp_of_field (by decide) rfl

theorem overrides_stagePatch (stage : Stage) :
    Json.Overrides (stagePatch stage) (stagePatch stage) :=
  Json.overrides_nested (Json.isLeaf_string _) (Json.isLeaf_string _) ["spec", "desiredState"]

theorem sparesStamp_finalizersPatch (finalizers : List String) :
    SparesStamp (Cleanup.finalizersPatch finalizers) :=
  sparesStamp_of_metadata (by decide) rfl

theorem overrides_finalizersPatch (finalizers : List String) :
    Json.Overrides (Cleanup.finalizersPatch finalizers) (Cleanup.finalizersPatch finalizers) :=
  Json.overrides_nested (Json.isLeaf_array _) (Json.isLeaf_array _) ["metadata", "finalizers"]

theorem yields_releaseFinalizer {s : Server} (h : s.IsWilling) (name : String)
    (finalizers : List String) :
    Yields (fun _ t => t.IsWilling ∧
        (Cleanup.finalizer ∈ finalizers →
          t.Settled (workflowKey name) (Cleanup.finalizersPatch finalizers)) ∧
        ((Cleanup.finalizer ∈ finalizers →
          s.Settled (workflowKey name) (Cleanup.finalizersPatch finalizers)) →
          Server.SameContents s t))
      (fun _ _ => False) (Cleanup.releaseFinalizer name finalizers) s := by
  unfold Cleanup.releaseFinalizer Cleanup.dropFinalizer
  by_cases hin : Cleanup.finalizer ∈ finalizers
  · rw [if_pos (List.contains_iff_mem.mpr hin)]
    have patched := yields_patchWorkflow h name (Cleanup.finalizersPatch finalizers)
    have kept (hs : s.Settled (workflowKey name) (Cleanup.finalizersPatch finalizers))
        (q : Request) : Server.SameContents s
          ((s.noted q).applyPatch (workflowKey name) (Cleanup.finalizersPatch finalizers)).2 :=
      Trans.trans (Server.sameContents_noted s q) (Server.settled_noted hs q).sameContents
    have hobserved := run_observe (patchWorkflow name (Cleanup.finalizersPatch finalizers)) s
    obtain ⟨_, _, hrun, _, rfl⟩ | ⟨_, _, hrun, hnone, rfl, rfl⟩ := patched.cases
    · rw [hrun] at hobserved
      refine .of_ok (run_bind_ok hobserved _) ⟨?_, fun _ => ?_, fun hs => kept (hs hin) _⟩
      · exact Server.isWilling_applyPatch (h.noted _) _ _
      · exact Server.settled_applyPatch (sparesStamp_finalizersPatch _)
          (overrides_finalizersPatch _) _ _
    · rw [hrun] at hobserved
      refine .of_ok (run_bind_ok hobserved _) ⟨h.noted _, fun _ object hobject => ?_, fun _ =>
        Server.sameContents_noted s _⟩
      rw [Server.object?_noted] at hobject
      exact absurd (hnone.symm.trans hobject) (by simp)
  · rw [if_neg fun hc => hin (List.contains_iff_mem.mp hc)]
    exact .of_ok rfl ⟨h, fun hc => absurd hc hin, fun _ => Std.Refl.refl s⟩

end Warren.Api
