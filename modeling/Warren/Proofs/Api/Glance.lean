import Warren.Proofs.Api.Contents

/-!
# Reading a workflow after a stage was asked for

Storing an object writes its metadata, and asking for a stage writes the desired stage. A workflow
that was readable before is readable after that, with the same status (`status_of_requested`). The
exception is a workflow whose specification is an array: a patch turns it into an object that lacks
all the other parts.
-/

namespace Warren

/-! ### Metadata -/

namespace Metadata

/-- The fields that are written into the metadata of every object that is stored. -/
def written : List String := ["name", "namespace", "resourceVersion"]

/-- What is written into the metadata of an object that is stored. -/
def writing (name space version : String) : Json :=
  .object [("name", .string name), ("namespace", .string space),
    ("resourceVersion", .string version)]

theorem field?_merge_writing {field : String} (h : field ∉ written) (metadata : Json)
    (name space version : String) :
    (metadata.merge (writing name space version)).field? field = metadata.field? field := by
  simp only [written, List.mem_cons, List.not_mem_nil, or_false, not_or] at h
  rw [writing, Json.merge_cons, Json.merge_cons, Json.field?_merge_of_ne (Ne.symm h.2.2),
    Json.field?_merge_of_ne (Ne.symm h.2.1), Json.field?_merge_of_ne (Ne.symm h.1)]

theorem field?_merge_written {field : String} (h : field ∈ written) (metadata : Json)
    (name space version : String) :
    ∃ text, (metadata.merge (writing name space version)).field? field = some (.string text) := by
  rw [writing, Json.merge_cons, Json.merge_cons]
  simp only [written, List.mem_cons, List.not_mem_nil, or_false] at h
  rcases h with rfl | rfl | rfl
  · exact ⟨name, by rw [Json.field?_merge_of_ne (by decide), Json.field?_merge_of_ne (by decide),
      Json.field?_merge_self rfl, Json.merge_string]⟩
  · exact ⟨space, by rw [Json.field?_merge_of_ne (by decide), Json.field?_merge_self rfl,
      Json.merge_string]⟩
  · exact ⟨version, by rw [Json.field?_merge_self rfl, Json.merge_string]⟩

theorem exists_decode?_merge_writing {metadata : Json}
    (h : metadata = .null ∨ (decode? metadata).isSome = true) (name space version : String) :
    ∃ m, decode? (metadata.merge (writing name space version)) = some m := by
  have texts : ∀ e ∈ standard, e.1 ∈ written → ∀ text, e.2 (.string text) = true := by
    simp [standard, written, isText, Json.string?]
  have lenient : isLenient standard (metadata.merge (writing name space version)) = true := by
    rw [isLenient, Bool.and_eq_true, List.all_eq_true]
    refine ⟨by rw [writing, Json.merge_object]; rfl, fun e he => ?_⟩
    by_cases hwritten : e.1 ∈ written
    · obtain ⟨text, htext⟩ := field?_merge_written hwritten metadata name space version
      simp only [htext]
      exact texts e he hwritten text
    · simp only [field?_merge_writing hwritten]
      rcases h with rfl | h
      · rfl
      · have hmetadata : isLenient standard metadata = true := by
          unfold decode? at h
          split at h
          · assumption
          · cases h
        rw [isLenient, Bool.and_eq_true, List.all_eq_true] at hmetadata
        exact hmetadata.2 e he
  exact ⟨_, if_pos lenient⟩

end Metadata

/-! ### Workflows -/

namespace Workflow

theorem exists_requested (fields : Dict String Json) (stage : Stage) (key : Api.Key)
    (version : String) : ∃ fields' : Dict String Json,
      ((Json.object fields).merge (Api.stagePatch stage)).merge (key.stamp version) =
        .object fields' ∧
      fields'.find? "status" = fields.find? "status" ∧
      fields'.find? "metadata" = some (((fields.find? "metadata").getD .null).merge
        (Metadata.writing key.name key.space version)) ∧
      fields'.find? "spec" = some (((fields.find? "spec").getD .null).merge
        (.object [("desiredState", stage.encode)])) := by
  let object := ((Json.object fields).merge (Api.stagePatch stage)).merge (key.stamp version)
  have hstatus : object.field? "status" = fields.find? "status" := by
    simp only [object]
    rw [Api.Key.stamp, Json.field?_merge_of_ne (by decide), Api.stagePatch,
      Json.field?_merge_of_ne (by decide)]
    rfl
  have hmetadata : object.field? "metadata" = some (((fields.find? "metadata").getD .null).merge
      (Metadata.writing key.name key.space version)) := by
    simp only [object]
    rw [Api.Key.stamp, Json.field?_merge_self rfl, Api.stagePatch,
      Json.field?_merge_of_ne (by decide)]
    rfl
  have hspec : object.field? "spec" = some (((fields.find? "spec").getD .null).merge
      (.object [("desiredState", stage.encode)])) := by
    simp only [object]
    rw [Api.Key.stamp, Json.field?_merge_of_ne (by decide), Api.stagePatch,
      Json.field?_merge_self rfl]
    rfl
  exact ⟨_, Json.merge_object _ _, hstatus, hmetadata, hspec⟩

/-- A readable workflow whose specification is no array stays readable where a stage is asked for,
and its status is kept. -/
theorem status_of_requested {fields : Dict String Json} {w : Workflow}
    (hw : decode? (.object fields) = some w)
    (hspec : ∀ items, fields.find? "spec" ≠ some (.array items)) (stage : Stage) (key : Api.Key)
    (version : String) : ∃ w', decode? (((Json.object fields).merge (Api.stagePatch stage)).merge
      (key.stamp version)) = some w' ∧ w'.status = w.status := by
  obtain ⟨fields', hobject, hstatus', hmetadata', hspec'⟩ :=
    exists_requested fields stage key version
  rw [hobject]
  unfold decode? at hw ⊢
  simp only [Option.bind_eq_bind, Option.bind_eq_some_iff] at hw ⊢
  obtain ⟨_, hfields, metadata, hmetadata, spec, hrequired, _, _, directives, hdirectives, jobId,
    hjobId, user, huser, group, hgroup, manager, hmanager, status, hstatus, hw⟩ := hw
  obtain rfl := Option.some.inj hfields
  obtain rfl := Option.some.inj hw
  -- the metadata
  have readable : (fields.find? "metadata").getD .null = .null ∨
      (Metadata.decode? ((fields.find? "metadata").getD .null)).isSome = true := by
    unfold Dict.defaulted at hmetadata
    cases hfound : fields.find? "metadata" with
    | none => exact Or.inl rfl
    | some j =>
      rw [hfound] at hmetadata
      exact Or.inr (Option.isSome_iff_exists.mpr ⟨_, hmetadata⟩)
  obtain ⟨m, hm⟩ := Metadata.exists_decode?_merge_writing readable key.name key.space version
  -- the specification
  obtain ⟨j, hj, hrecord⟩ := Option.bind_eq_some_iff.mp hrequired
  have hparts : j = .object spec := by
    cases j with
    | object parts => exact congrArg Json.object (Option.some.inj hrecord)
    | array items => exact absurd hj (hspec items)
    | _ => cases hrecord
  have hmerged : fields'.find? "spec" =
      some (.object (Dict.insert spec "desiredState" stage.encode)) := by
    rw [hspec', hj, hparts, Option.getD_some, Json.merge_single rfl, Stage.encode,
      Json.merge_string]
    rfl
  have hother {name : String} (hne : "desiredState" ≠ name) :
      Dict.find? (Dict.insert spec "desiredState" stage.encode) name = Dict.find? spec name := by
    rw [Dict.find?_insert, if_neg hne]
  have hrequested : Dict.find? (Dict.insert spec "desiredState" stage.encode) "desiredState" =
      some stage.encode := by
    rw [Dict.find?_insert, if_pos rfl]
  refine ⟨⟨m, stage, directives, jobId, user, group, manager, status⟩, ⟨fields', rfl, m, ?_,
    Dict.insert spec "desiredState" stage.encode, ?_, stage, ?_, directives, ?_, jobId, ?_, user,
    ?_, group, ?_, manager, ?_, status, ?_, rfl⟩, rfl⟩
  · rw [Dict.defaulted, hmetadata']
    exact hm
  · rw [Dict.required, hmerged]
    rfl
  · rw [Dict.required, hrequested]
    exact stage.decode?_encode
  · rw [Dict.defaulted, hother (by decide)]
    exact hdirectives
  · rw [Dict.required, hother (by decide)]
    exact hjobId
  · rw [Dict.defaulted, hother (by decide)]
    exact huser
  · rw [Dict.defaulted, hother (by decide)]
    exact hgroup
  · rw [Dict.defaulted, hother (by decide)]
    exact hmanager
  · rw [Dict.optional, Dict.defaulted, hstatus']
    exact hstatus

end Workflow

end Warren
