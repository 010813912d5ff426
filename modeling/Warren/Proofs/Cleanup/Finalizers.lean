import Warren.Proofs.Api.Log
import Warren.Proofs.Api.StoredStage

/-!
# The finalizers of others

A patch of finalizers replaces the whole list. A merge with such a patch has the finalizers that
the patch names and no others, and decoding a stored workflow reads them back.
-/

namespace Warren

namespace Json

theorem mapM_string?_eq_some {items : List Json} {texts : List String}
    (h : items.mapM string? = some texts) : items = texts.map .string := by
  induction items generalizing texts with
  | nil =>
    obtain rfl : [] = texts := by simpa using h
    rfl
  | cons item rest ih =>
    rw [List.mapM_cons] at h
    obtain ⟨text, htext, h⟩ := Option.bind_eq_some_iff.mp h
    obtain ⟨others, hothers, h⟩ := Option.bind_eq_some_iff.mp h
    obtain rfl : text :: others = texts := by simpa using h
    have hitem : item = .string text := by
      cases item <;> simp_all [string?]
    rw [List.map_cons, hitem, ih hothers]

theorem exists_mapM_string? {items : List Json} (h : items.all Metadata.isText = true) :
    ∃ texts, items.mapM string? = some texts := by
  induction items with
  | nil => exact ⟨[], rfl⟩
  | cons item rest ih =>
    simp only [List.all_cons, Bool.and_eq_true] at h
    obtain ⟨text, htext⟩ := Option.isSome_iff_exists.mp h.1
    obtain ⟨texts, htexts⟩ := ih h.2
    exact ⟨text :: texts, by simp [List.mapM_cons, htext, htexts]⟩

end Json

namespace Api

def finalizersPath : List String := ["metadata", "finalizers"]

/-- The finalizers of an object that belong to others. -/
def foreign (object : Json) : List Json :=
  (finalizersOf object).filter (· ≠ .string Cleanup.finalizer)

theorem finalizersOf_of_path? {object : Json} {texts : List String}
    (h : object.path? finalizersPath = some (.strings texts)) :
    finalizersOf object = texts.map .string := by
  simp only [finalizersPath] at h
  simp only [finalizersOf, h, Option.bind_some]
  rfl

theorem foreign_of_finalizersOf {object : Json} {finalizers : List String}
    (h : finalizersOf object = finalizers.map .string) :
    foreign object = (Cleanup.others finalizers).map .string := by
  rw [foreign, h, Cleanup.others, List.filter_map]
  congr 1
  refine List.filter_congr fun text _ => ?_
  simp

theorem others_others (finalizers : List String) :
    Cleanup.others (Cleanup.others finalizers) = Cleanup.others finalizers := by
  simp [Cleanup.others]

/-! ### Merges -/

theorem path?_metadataPatch {field other : String} (h : field ≠ other) (object value : Json) :
    (object.merge (metadataPatch [(field, value)])).path? ["metadata", other] =
      object.path? ["metadata", other] := by
  have hpatch : metadataPatch [(field, value)] =
      .object [("metadata", .object [(field, value)])] := rfl
  rw [hpatch, Json.path?_merge_inner, Json.path?_cons]
  simp only [Json.mergeFields, Json.find?_mergeField, if_neg h]
  cases object.field? "metadata" with
  | none => rfl
  | some metadata => simp [Json.path?_cons, Json.field?]

/-- What is written into an object that is stored under a key at some version. -/
def Key.stamp (key : Key) (version : String) : Json :=
  .object [("metadata", .object [("name", .string key.name), ("namespace", .string key.space),
    ("resourceVersion", .string version)])]

theorem stamped_eq (s : Server) (key : Key) (object : Json) :
    s.stamped key object = object.merge (key.stamp (toString (s.version + 1))) := by
  simp only [Server.stamped, Key.stamp, metadataPatch, Json.ofFields, Dict.ofEntries, Dict.insert,
    List.foldl_cons, List.foldl_nil, String.reduceEq, String.reduceLT, if_false]

theorem path?_stamp (field : String) (h : field ∉ ["name", "namespace", "resourceVersion"])
    (key : Key) (version : String) (object : Json) :
    (object.merge (key.stamp version)).path? ["metadata", field] =
      object.path? ["metadata", field] := by
  simp only [List.mem_cons, List.not_mem_nil, or_false, not_or] at h
  rw [Key.stamp, Json.path?_merge_inner, Json.path?_cons]
  simp only [Json.mergeFields, Json.find?_mergeField, if_neg (Ne.symm h.1), if_neg (Ne.symm h.2.1),
    if_neg (Ne.symm h.2.2)]
  cases object.field? "metadata" with
  | none => rfl
  | some metadata => simp [Json.path?_cons, Json.field?]

theorem path?_stamped (field : String) (h : field ∉ ["name", "namespace", "resourceVersion"])
    (s : Server) (key : Key) (object : Json) :
    (s.stamped key object).path? ["metadata", field] = object.path? ["metadata", field] := by
  rw [stamped_eq, path?_stamp field h]

theorem finalizersOf_stamped (s : Server) (key : Key) (object : Json) :
    finalizersOf (s.stamped key object) = finalizersOf object := by
  simp only [finalizersOf, path?_stamped "finalizers" (by decide)]

theorem isDeleting_stamped (s : Server) (key : Key) (object : Json) :
    isDeleting (s.stamped key object) = isDeleting object := by
  simp only [isDeleting, path?_stamped "deletionTimestamp" (by decide)]

theorem finalizersOf_deletionPatch (object : Json) (time : String) :
    finalizersOf (object.merge (metadataPatch [("deletionTimestamp", .string time)])) =
      finalizersOf object := by
  simp only [finalizersOf, path?_metadataPatch (by decide : "deletionTimestamp" ≠ "finalizers")]

theorem isDeleting_deletionPatch (object : Json) (time : String) :
    isDeleting (object.merge (metadataPatch [("deletionTimestamp", .string time)])) = true := by
  have hpath : (object.merge (metadataPatch [("deletionTimestamp", .string time)])).path?
      ["metadata", "deletionTimestamp"] = some (.string time) :=
    Json.path?_merge_nested object "metadata" "deletionTimestamp" time
  rw [isDeleting, hpath, Option.isSome_some]

theorem foreign_stamped (s : Server) (key : Key) (object : Json) :
    foreign (s.stamped key object) = foreign object := by
  simp only [foreign, finalizersOf_stamped]

/-- A body that puts a list in the place of the finalizers of an object, whatever the object is. -/
def Installs (body : Json) (finalizers : List String) : Prop :=
  ∀ object : Json, (object.merge body).path? finalizersPath = some (.strings finalizers)

theorem Installs.foreign {body : Json} {finalizers : List String}
    (h : Installs body (Cleanup.others finalizers)) (object : Json) :
    foreign (object.merge body) = (Cleanup.others finalizers).map .string := by
  rw [foreign_of_finalizersOf (finalizersOf_of_path? (h object)), others_others]

theorem finalizersPatch_eq (finalizers : List String) :
    Cleanup.finalizersPatch finalizers =
      .object [("metadata", .object [("finalizers", .strings (Cleanup.others finalizers))])] := rfl

theorem installs_finalizersPatch (finalizers : List String) :
    Installs (Cleanup.finalizersPatch finalizers) (Cleanup.others finalizers) := by
  intro object
  rw [finalizersPatch_eq, finalizersPath, Json.path?_merge_inner]
  simp [Json.mergeFields, Json.find?_mergeField, Json.strings, Json.isNull, Json.merge]

/-- The patch that moves a workflow to its last stage and releases it. -/
def teardownPatch (finalizers : List String) : Json :=
  (stagePatch .teardown).merge (Cleanup.finalizersPatch finalizers)

theorem teardownPatch_eq (finalizers : List String) :
    teardownPatch finalizers =
      .object [("metadata", .object [("finalizers", .strings (Cleanup.others finalizers))]),
        ("spec", .object [("desiredState", Stage.teardown.encode)])] := rfl

theorem installs_teardownPatch (finalizers : List String) :
    Installs (teardownPatch finalizers) (Cleanup.others finalizers) := by
  intro object
  rw [teardownPatch_eq, finalizersPath, Json.path?_cons, Json.merge_object, Json.field?]
  simp [Json.mergeFields, Json.find?_mergeField, Json.isNull, Json.strings, Json.merge,
    Json.path?_cons, Json.field?]

theorem desiredStage?_teardownPatch (object : Json) (finalizers : List String) :
    desiredStage? (object.merge (teardownPatch finalizers)) = some .teardown := by
  have hpath : (object.merge (teardownPatch finalizers)).path? ["spec", "desiredState"] =
      some Stage.teardown.encode := by
    rw [teardownPatch_eq, Json.path?_cons, Json.merge_object, Json.field?]
    simp [Json.mergeFields, Json.find?_mergeField, Json.isNull, Json.merge_object,
      Json.path?_cons, Json.field?, Stage.encode, Json.merge_string]
  rw [desiredStage?, hpath]
  exact Stage.decode?_encode .teardown

theorem isDeleting_teardownPatch (object : Json) (finalizers : List String) :
    isDeleting (object.merge (teardownPatch finalizers)) = isDeleting object := by
  have hpath : (object.merge (teardownPatch finalizers)).path? ["metadata", "deletionTimestamp"] =
      object.path? ["metadata", "deletionTimestamp"] := by
    rw [teardownPatch_eq, Json.path?_cons, Json.path?_cons, Json.merge_object, Json.field?]
    simp only [Json.fields_object, Json.mergeFields, Json.find?_mergeField, String.reduceEq,
      if_true, if_false, Json.isNull, Bool.false_eq_true, Option.bind_some, Json.merge_object,
      Json.path?_cons, Json.field?, Json.path?_nil]
    cases object.fields.find? "metadata" with
    | none => rfl
    | some metadata => rfl
  rw [isDeleting, hpath, isDeleting]

end Api

/-! ### Decoding -/

theorem Metadata.finalizers_of_decode? {j : Json} {m : Metadata} (h : decode? j = some m) :
    ((j.field? "finalizers").bind Json.items?).getD [] = m.finalizers.map .string := by
  unfold decode? at h
  split at h
  · rename_i hlenient
    obtain rfl := Option.some.inj h
    have hkinds := (Bool.and_eq_true_iff.mp hlenient).2
    have hkind := List.all_eq_true.mp hkinds ("finalizers", isListOf isText) (by simp [standard])
    dsimp only at hkind ⊢
    cases hf : j.field? "finalizers" with
    | none => rfl
    | some value =>
      rw [hf] at hkind
      cases value with
      | array items =>
        have hitems : items.all isText = true := hkind
        obtain ⟨texts, htexts⟩ := Json.exists_mapM_string? hitems
        have hlist : (Json.array items).list? Json.string? = some texts := htexts
        rw [Option.bind_some, Option.bind_some, hlist]
        exact Json.mapM_string?_eq_some htexts
      | null => rfl
      | _ => cases hkind
  · cases h

/-- A workflow that is decoded from an object tells the finalizers of the object. -/
theorem Workflow.finalizers_of_decode? {fields : Dict String Json} {w : Workflow}
    (h : decode? (.object fields) = some w) :
    Api.finalizersOf (.object fields) = w.finalizers.map .string := by
  simp only [decode?, Json.record?, Option.bind_eq_bind, Option.bind_eq_some_iff,
    Option.some.injEq] at h
  obtain ⟨_, rfl, metadata, hmetadata, _, _, _, _, _, _, _, _, _, _, _, _, _, _, _, _, rfl⟩ := h
  simp only [Api.finalizersOf, Json.path?_cons, Json.field?, Json.fields_object, finalizers]
  unfold Dict.defaulted at hmetadata
  cases hf : Dict.find? fields "metadata" with
  | none =>
    rw [hf] at hmetadata
    obtain rfl := Option.some.inj hmetadata
    rfl
  | some j =>
    rw [hf] at hmetadata
    have hread := Metadata.finalizers_of_decode? hmetadata
    simpa [Json.field?] using hread

theorem Workflow.mem_finalizers_of_decode? {object : Json} {w : Workflow} {text : String}
    (h : decode? object = some w) (hmem : .string text ∈ Api.finalizersOf object) :
    text ∈ w.finalizers := by
  cases object with
  | object fields =>
    rw [finalizers_of_decode? h] at hmem
    obtain ⟨_, hfound, hsame⟩ := List.mem_map.mp hmem
    exact Json.string.inj hsame ▸ hfound
  | _ => cases hmem

namespace Api

variable {s : Server}

theorem Server.Logged.exists_object (hs : s.Logged) {key : Key} {object : Json}
    (ho : s.object? key = some object) : ∃ fields, object = .object fields := by
  obtain ⟨_, _, _, marked⟩ := hs.exists_of_object? ho
  have hname := marked.name
  cases object with
  | object fields => exact ⟨fields, rfl⟩
  | _ => cases hname

end Api

end Warren
