import Warren.Json.Equality
import Warren.Proofs.Json.Merge
import Warren.Proofs.Message.Fields

/-!
# The laws of merge patches

`Merges` says what a merge patch does, one field at a time and in no order: a field that the patch
does not name is kept, one that is `null` there is removed, and any other is merged on its own.
`merge` is the only function that does so, and the laws follow from what it makes of one field
(`mergedField`): a patch changes nothing the second time, and patches of different fields may be
exchanged.
-/

namespace Warren.Json

/-- What a patch leaves of a field, from what the target and the patch have under its name. -/
def mergedField (old change : Option Json) : Option Json :=
  match change with
  | none => old
  | some patch => if patch.isNull then none else some ((old.getD .null).merge patch)

/-- A patch and what it makes of a target, field by field. -/
inductive Merges : Json → Json → Json → Prop
  /-- What is no object takes the place of its target. -/
  | replace (target : Json) {patch : Json} (h : patch.fields? = none) : Merges target patch patch
  | object {target : Json} {changes fields : Dict String Json} (value : String → Json)
    (sorted : fields.Sorted)
    (kept : ∀ key, changes.find? key = none → fields.find? key = target.field? key)
    (removed : ∀ key, changes.find? key = some .null → fields.find? key = none)
    (found : ∀ key patch, changes.find? key = some patch → patch.isNull = false →
      fields.find? key = some (value key))
    (merged : ∀ key patch, changes.find? key = some patch → patch.isNull = false →
      Merges ((target.field? key).getD .null) patch (value key)) :
    Merges target (.object changes) (.object fields)

theorem merge_of_fields?_eq_none {patch : Json} (h : patch.fields? = none) (target : Json) :
    target.merge patch = patch := by
  cases patch with
  | object changes => cases h
  | _ => simp only [merge]

theorem mergedField_eq_some {patch : Json} (h : patch.isNull = false) (old : Option Json) :
    mergedField old (some patch) = some ((old.getD .null).merge patch) := by
  rw [mergedField, h]
  rfl

/-! ### Values in order -/

theorem Ordered.sorted_fields {j : Json} (h : j.Ordered) : j.fields.Sorted := by
  cases h with
  | object sorted values => exact sorted
  | _ => exact Dict.sorted_nil

theorem Ordered.getD_field? {j : Json} (h : j.Ordered) (key : String) :
    ((j.field? key).getD .null).Ordered := by
  cases hkey : j.field? key with
  | none => exact .null
  | some value =>
    have hmem : (key, value) ∈ j.fields := Dict.mem_of_find? hkey
    cases h with
    | object sorted values => exact values _ hmem
    | _ => cases hmem

theorem sorted_mergeField {fields : Dict String Json} (h : fields.Sorted)
    (change : String × Json) : (mergeField fields change).Sorted := by
  obtain ⟨key, patch⟩ := change
  cases patch with
  | null => exact h.erase key
  | _ => exact h.insert key _

theorem sorted_mergeFields {fields : Dict String Json} (h : fields.Sorted)
    (changes : Dict String Json) : Dict.Sorted (mergeFields fields changes) := by
  induction changes generalizing fields with
  | nil => exact h
  | cons change rest ih => exact ih (sorted_mergeField h change)

theorem find?_mergeFields {changes : Dict String Json} (h : changes.Sorted)
    (fields : Dict String Json) (key : String) :
    (mergeFields fields changes).find? key =
      mergedField (fields.find? key) (changes.find? key) := by
  induction changes generalizing fields with
  | nil => rfl
  | cons change rest ih =>
    obtain ⟨name, patch⟩ := change
    have hrest : Dict.Sorted rest := (List.pairwise_cons.mp h).2
    rw [mergeFields, ih hrest, find?_mergeField, Dict.find?_cons]
    by_cases hname : name = key
    · have hnone : Dict.find? rest key = none := hname ▸ h.find?_tail
      rw [if_pos hname, if_pos hname, hnone, hname]
      rfl
    · rw [if_neg hname, if_neg hname]

theorem field?_merge {changes : Dict String Json} (h : changes.Sorted) (target : Json)
    (key : String) : (target.merge (.object changes)).field? key =
      mergedField (target.field? key) (changes.find? key) := by
  rw [merge_object]
  exact find?_mergeFields h target.fields key

/-! ### The same patch twice, and two patches -/

theorem merge_merge_self {target patch : Json} (ht : target.Ordered) (hp : patch.Ordered) :
    (target.merge patch).merge patch = target.merge patch := by
  induction hp generalizing target with
  | @object changes sorted values ih =>
    have hsorted := sorted_mergeFields ht.sorted_fields changes
    rw [merge_object target, merge_object, fields_object]
    refine congrArg Json.object (Dict.Sorted.ext (sorted_mergeFields hsorted changes) hsorted ?_)
    intro key
    rw [find?_mergeFields sorted, find?_mergeFields sorted]
    cases hchange : changes.find? key with
    | none => rfl
    | some patch =>
      cases hnull : patch.isNull with
      | true => simp only [mergedField, hnull, if_true]
      | false =>
        have hagain := ih (key, patch) (Dict.mem_of_find? hchange) (ht.getD_field? key)
        rw [mergedField_eq_some hnull, mergedField_eq_some hnull, Option.getD_some]
        exact congrArg some hagain
  | _ => exact merge_of_fields?_eq_none rfl _

theorem merge_comm_of_disjoint {target : Json} {changes others : Dict String Json}
    (ht : target.fields.Sorted) (hchanges : changes.Sorted) (hothers : others.Sorted)
    (disjoint : ∀ key, changes.find? key = none ∨ others.find? key = none) :
    (target.merge (.object changes)).merge (.object others) =
      (target.merge (.object others)).merge (.object changes) := by
  simp only [merge_object, fields_object]
  refine congrArg Json.object (Dict.Sorted.ext ?_ ?_ ?_)
  · exact sorted_mergeFields (sorted_mergeFields ht changes) others
  · exact sorted_mergeFields (sorted_mergeFields ht others) changes
  · intro key
    simp only [find?_mergeFields hchanges, find?_mergeFields hothers]
    rcases disjoint key with hnone | hnone
    · rw [hnone]
      rfl
    · rw [hnone]
      rfl

/-! ### What a patch does is a merge, and nothing else -/

theorem merges_merge {target patch : Json} (ht : target.Ordered) (hp : patch.Ordered) :
    Merges target patch (target.merge patch) := by
  induction hp generalizing target with
  | @object changes sorted values ih =>
    rw [merge_object]
    refine .object (fun key => ((target.field? key).getD .null).merge
      ((changes.find? key).getD .null)) (sorted_mergeFields ht.sorted_fields changes) ?_ ?_ ?_ ?_
    · intro key hkey
      rw [find?_mergeFields sorted, hkey]
      rfl
    · intro key hkey
      rw [find?_mergeFields sorted, hkey]
      rfl
    · intro key patch hkey hnull
      rw [find?_mergeFields sorted, hkey, mergedField_eq_some hnull]
      rfl
    · intro key patch hkey hnull
      rw [hkey]
      exact ih (key, patch) (Dict.mem_of_find? hkey) (ht.getD_field? key)
  | _ =>
    rw [merge_of_fields?_eq_none rfl]
    exact .replace _ rfl

theorem Merges.eq_merge {target patch result : Json} (h : Merges target patch result)
    (ht : target.Ordered) (hp : patch.Ordered) : result = target.merge patch := by
  -- the induction is on what is said of the result, as its values are known from there only
  induction h with
  | replace target hnone => exact (merge_of_fields?_eq_none hnone target).symm
  | @object target changes fields value sorted kept removed found merged ih =>
    cases hp with
    | object hchanges hvalues =>
      rw [merge_object]
      refine congrArg Json.object
        (Dict.Sorted.ext sorted (sorted_mergeFields ht.sorted_fields changes) ?_)
      intro key
      rw [find?_mergeFields hchanges]
      cases hchange : changes.find? key with
      | none => exact kept key hchange
      | some patch =>
        cases hnull : patch.isNull with
        | true =>
          have hpatch : patch = .null := by
            cases patch <;> first | rfl | cases hnull
          rw [removed key (hpatch ▸ hchange), mergedField, hnull]
          rfl
        | false =>
          have hvalue := ih key patch hchange hnull (ht.getD_field? key)
            (hvalues (key, patch) (Dict.mem_of_find? hchange))
          rw [found key patch hchange hnull, mergedField_eq_some hnull, hvalue]
          rfl

/-- A patch that is an object makes of a target what `Merges` says and nothing else. The second time
it changes nothing. Of a field that it does not name the old value stays, `null` removes the field,
an object is merged with the old value or with `null`, and any other value takes its place. Patches
that name different fields may be exchanged. -/
theorem merge_laws {target : Json} {changes : Dict String Json} (ht : target.Ordered)
    (hp : (Json.object changes).Ordered) :
    (∀ result, Merges target (.object changes) result ↔
      result = target.merge (.object changes)) ∧
    (target.merge (.object changes)).merge (.object changes) = target.merge (.object changes) ∧
    (∀ key, changes.find? key = none →
      (target.merge (.object changes)).field? key = target.field? key) ∧
    (∀ key, changes.find? key = some .null →
      (target.merge (.object changes)).field? key = none) ∧
    (∀ key inner, changes.find? key = some (.object inner) →
      (target.merge (.object changes)).field? key =
        some (((target.field? key).getD .null).merge (.object inner))) ∧
    (∀ key value, changes.find? key = some value → value.isNull = false → value.fields? = none →
      (target.merge (.object changes)).field? key = some value) ∧
    ∀ others : Dict String Json, (Json.object others).Ordered →
      (∀ key, changes.find? key = none ∨ others.find? key = none) →
      (target.merge (.object changes)).merge (.object others) =
        (target.merge (.object others)).merge (.object changes) := by
  have hchanges : changes.Sorted := hp.sorted_fields
  have hfield := field?_merge hchanges target
  refine ⟨?_, merge_merge_self ht hp, ?_, ?_, ?_, ?_, ?_⟩
  · intro result
    constructor
    · exact fun h => h.eq_merge ht hp
    · rintro rfl
      exact merges_merge ht hp
  · intro key hkey
    rw [hfield, hkey]
    rfl
  · intro key hkey
    rw [hfield, hkey]
    rfl
  · intro key inner hkey
    rw [hfield, hkey]
    rfl
  · intro key value hkey hnull hnone
    rw [hfield, hkey, mergedField_eq_some hnull, merge_of_fields?_eq_none hnone]
  · intro others hothers disjoint
    exact merge_comm_of_disjoint ht.sorted_fields hchanges hothers.sorted_fields disjoint

/-- The theorem applies to a workflow that loses its status and its finalizers and gets a label, and
moves to another stage before or after that. -/
theorem merge_laws_workflow :
    let target : Json := .object [("metadata", .object [("finalizers", .strings ["flux"]),
      ("name", .string "fluxjob-1")]), ("spec", .object [("desiredState", .string "Setup")]),
      ("status", .null)]
    let changes : Dict String Json := [("metadata", .object [("finalizers", .array []),
      ("labels", .object [("rack", .string "r1"), ("room", .null)])]), ("status", .null)]
    let others : Dict String Json :=
      [("spec", .object [("desiredState", .string "Teardown")])]
    let merged : Json := .object [("metadata", .object [("finalizers", .array []),
      ("labels", .object [("rack", .string "r1")]), ("name", .string "fluxjob-1")]),
      ("spec", .object [("desiredState", .string "Setup")])]
    target.Ordered ∧ (Json.object changes).Ordered ∧ target.merge (.object changes) = merged ∧
      Merges target (.object changes) merged ∧ merged.merge (.object changes) = merged ∧
      merged.merge (.object others) = (target.merge (.object others)).merge (.object changes) := by
  intro target changes others merged
  have ht : target.Ordered := ordered_of_sortFields_eq (by decide +kernel)
  have hp : (Json.object changes).Ordered := ordered_of_sortFields_eq (by decide +kernel)
  have hothers : (Json.object others).Ordered := ordered_of_sortFields_eq (by decide +kernel)
  have hmerged : target.merge (.object changes) = merged := by decide +kernel
  have disjoint (key : String) : changes.find? key = none ∨ others.find? key = none := by
    by_cases hkey : key = "spec"
    · exact .inl (by rw [hkey]; decide +kernel)
    · exact .inr (if_neg (Ne.symm hkey))
  obtain ⟨hmerges, hagain, _, _, _, _, hcomm⟩ := merge_laws ht hp
  rw [hmerged] at hmerges hagain hcomm
  exact ⟨ht, hp, hmerged, (hmerges merged).mpr rfl, hagain, hcomm others hothers disjoint⟩

end Warren.Json
