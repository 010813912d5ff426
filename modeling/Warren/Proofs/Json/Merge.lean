import Warren.Json.Patch

/-!
# What a merge patch leaves alone

A patch that is an object changes the fields that it names. `field?_merge_single` says what a patch
with one field does to every field of its target, and `path?_merge_of_ne` that the paths through
other fields stay.
-/

namespace Warren.Json

theorem find?_mergeField (fields : Dict String Json) (key other : String) (patch : Json) :
    (mergeField fields (key, patch)).find? other =
      if key = other then
        if patch.isNull then none else some (merge ((fields.find? key).getD .null) patch)
      else fields.find? other := by
  cases patch <;> simp only [mergeField, Dict.find?_erase, Dict.find?_insert, isNull] <;> rfl

@[simp] theorem fields_object (fields : Dict String Json) : (Json.object fields).fields = fields :=
  rfl

theorem merge_object (target : Json) (changes : List (String × Json)) :
    target.merge (.object changes) = .object (mergeFields target.fields changes) := by
  simp only [merge]

theorem merge_string (target : Json) (s : String) : target.merge (.string s) = .string s := by
  simp only [merge]

theorem field?_merge_single (target : Json) (key other : String) (patch : Json) :
    (target.merge (.object [(key, patch)])).field? other =
      if key = other then
        if patch.isNull then none else some (merge ((target.field? key).getD .null) patch)
      else target.field? other := by
  rw [merge_object]
  simp only [field?, fields_object, mergeFields]
  exact find?_mergeField target.fields key other patch

theorem field?_merge_of_ne {key other : String} (h : key ≠ other) (target patch : Json) :
    (target.merge (.object [(key, patch)])).field? other = target.field? other := by
  rw [field?_merge_single, if_neg h]

theorem field?_merge_self {patch : Json} (h : patch.isNull = false) (target : Json) (key : String) :
    (target.merge (.object [(key, patch)])).field? key =
      some (merge ((target.field? key).getD .null) patch) := by
  rw [field?_merge_single, if_pos rfl, h]
  rfl

theorem path?_merge_of_ne {key first : String} (h : key ≠ first) (target patch : Json)
    (rest : List String) :
    (target.merge (.object [(key, patch)])).path? (first :: rest) =
      target.path? (first :: rest) := by
  rw [path?_cons, path?_cons, field?_merge_of_ne h]

/-- A patch with one field inside one field puts its value at the end of that path. -/
theorem path?_merge_nested (target : Json) (outer inner s : String) :
    (target.merge (.object [(outer, .object [(inner, .string s)])])).path? [outer, inner] =
      some (.string s) := by
  rw [path?_cons, field?_merge_self rfl, Option.bind_some, path?_cons, field?_merge_self rfl,
    merge_string]
  rfl

theorem path?_merge_inner (target : Json) (outer : String) (changes : List (String × Json))
    (inner : String) :
    (target.merge (.object [(outer, .object changes)])).path? [outer, inner] =
      (mergeFields ((target.field? outer).getD .null).fields changes).find? inner := by
  rw [path?_cons, field?_merge_self rfl, Option.bind_some, merge_object, path?_cons]
  simp [field?]

end Warren.Json
