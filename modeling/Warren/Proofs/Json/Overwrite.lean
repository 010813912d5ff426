import Warren.Proofs.Dict
import Warren.Proofs.Json.Merge

/-!
# Patches that meet on one target

A patch that writes one path undoes an earlier one that wrote the same path (`Overrides`), and
patches that part on their way may be exchanged (`Commutes`). So a target to which a patch was
applied is left alone by the same patch.
-/

namespace Warren.Json

/-! ### One field after the other -/

theorem merge_array (target : Json) (items : List Json) :
    target.merge (.array items) = .array items := by
  simp only [merge]

theorem merge_cons (target : Json) (change : String × Json) (rest : List (String × Json)) :
    target.merge (.object (change :: rest)) =
      (target.merge (.object [change])).merge (.object rest) := by
  simp only [merge_object, fields_object, mergeFields]

theorem merge_single {patch : Json} (h : patch.isNull = false) (target : Json) (key : String) :
    target.merge (.object [(key, patch)]) =
      .object (target.fields.insert key (((target.field? key).getD .null).merge patch)) := by
  rw [merge_object]
  cases patch with
  | null => cases h
  | _ => rfl

theorem merge_single_single {patch other : Json} (h : patch.isNull = false)
    (h' : other.isNull = false) (target : Json) (key : String) :
    (target.merge (.object [(key, patch)])).merge (.object [(key, other)]) =
      .object (target.fields.insert key
        ((((target.field? key).getD .null).merge patch).merge other)) := by
  rw [merge_single h', field?_merge_self h, merge_single h, fields_object, Dict.insert_insert]
  rfl

theorem merge_inner_cons (target : Json) (key : String) (change : String × Json)
    (rest : List (String × Json)) :
    target.merge (.object [(key, .object (change :: rest))]) =
      (target.merge (.object [(key, .object [change])])).merge (.object [(key, .object rest)]) := by
  rw [merge_single_single rfl rfl, merge_single rfl, merge_cons]

/-! ### Paths -/

/-- The patch that writes a value at the end of a path. -/
def nested : List String → Json → Json
  | [], value => value
  | key :: rest, value => .object [(key, nested rest value)]

/-- A value that takes the place of whatever it is merged into. -/
structure IsLeaf (value : Json) : Prop where
  isNull : value.isNull = false
  replaces : ∀ target : Json, target.merge value = value

theorem isLeaf_string (s : String) : (Json.string s).IsLeaf :=
  ⟨rfl, fun target => merge_string target s⟩

theorem isLeaf_array (items : List Json) : (Json.array items).IsLeaf :=
  ⟨rfl, fun target => merge_array target items⟩

theorem IsLeaf.isNull_nested {value : Json} (h : value.IsLeaf) (path : List String) :
    (nested path value).isNull = false := by
  cases path with
  | nil => exact h.isNull
  | cons => rfl

theorem IsLeaf.path?_merge_nested {value : Json} (h : value.IsLeaf) (target : Json)
    (path : List String) : (target.merge (nested path value)).path? path = some value := by
  induction path generalizing target with
  | nil =>
    rw [nested, h.replaces]
    rfl
  | cons key rest ih =>
    rw [nested, path?_cons, field?_merge_self (h.isNull_nested rest), Option.bind_some, ih]

/-- A patch after which an earlier one makes no difference. -/
def Overrides (later earlier : Json) : Prop :=
  ∀ target : Json, (target.merge earlier).merge later = target.merge later

/-- Patches that may be exchanged. -/
def Commutes (patch other : Json) : Prop :=
  ∀ target : Json, (target.merge patch).merge other = (target.merge other).merge patch

theorem overrides_nested {value other : Json} (h : value.IsLeaf) (h' : other.IsLeaf)
    (path : List String) : Overrides (nested path value) (nested path other) := by
  induction path with
  | nil =>
    intro target
    simp only [nested, h.replaces]
  | cons key rest ih =>
    intro target
    simp only [nested]
    rw [merge_single_single (h'.isNull_nested rest) (h.isNull_nested rest),
      merge_single (h.isNull_nested rest), ih]

theorem commutes_of_ne {key other : String} (hne : key ≠ other) {patch patch' : Json}
    (h : patch.isNull = false) (h' : patch'.isNull = false) :
    Commutes (.object [(key, patch)]) (.object [(other, patch')]) := by
  intro target
  rw [merge_single h', field?_merge_of_ne hne, merge_single h, merge_single h,
    field?_merge_of_ne hne.symm, merge_single h', fields_object, fields_object,
    Dict.insert_comm _ hne]

theorem Commutes.inner {patch other : Json} (hc : Commutes patch other) (h : patch.isNull = false)
    (h' : other.isNull = false) (key : String) :
    Commutes (.object [(key, patch)]) (.object [(key, other)]) := by
  intro target
  rw [merge_single_single h h', merge_single_single h' h, hc]

end Warren.Json
