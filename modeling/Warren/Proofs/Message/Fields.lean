import Warren.Allocation.Jobspec
import Warren.JobId
import Warren.Json.Reader
import Warren.Proofs.Dict

/-!
# Fields that are written and read

A record is written as a list of fields, of which some are left out where they have no value. Each
kind of value is read back as it was written, and so is a field by its name.
-/

namespace Warren

/-! ### Values -/

namespace Json

theorem below?_nat {n bound : Nat} (h : n < bound) : (nat n).below? bound = some n := by
  have hbounds : (0 : Int) ≤ n ∧ (n : Int) < bound := by omega
  simp only [below?, nat]
  rw [if_pos hbounds, Int.toNat_natCast]

theorem nat_of_below? {j : Json} {n bound : Nat} (h : j.below? bound = some n) :
    j = nat n ∧ n < bound := by
  unfold below? at h
  split at h
  · rename_i value
    split at h
    · rename_i hbounds
      obtain rfl := Option.some.inj h
      rw [nat, Int.toNat_of_nonneg hbounds.1]
      exact ⟨rfl, by omega⟩
    · cases h
  · cases h

@[simp] theorem word64?_nat (n : UInt64) : (nat n.toNat).word64? = some n := by
  rw [word64?, below?_nat n.toNat_lt, Option.map_some, UInt64.ofNat_toNat]

@[simp] theorem word32?_nat (n : UInt32) : (nat n.toNat).word32? = some n := by
  rw [word32?, below?_nat n.toNat_lt, Option.map_some, UInt32.ofNat_toNat]

theorem nat_of_word64? {j : Json} {n : UInt64} (h : j.word64? = some n) : j = nat n.toNat := by
  obtain ⟨m, hm, rfl⟩ := Option.map_eq_some_iff.mp h
  obtain ⟨hj, hlt⟩ := nat_of_below? hm
  rw [hj, UInt64.toNat_ofNat_of_lt' hlt]

theorem string_of_string? {j : Json} {s : String} (h : j.string? = some s) : j = .string s := by
  cases j <;> simp_all [string?]

theorem boolean_of_boolean? {j : Json} {b : Bool} (h : j.boolean? = some b) : j = .boolean b := by
  cases j <;> simp_all [boolean?]

theorem optional?_nat (n : UInt64) : optional? word64? (nat n.toNat) = some (some n) :=
  (congrArg (Option.map some) (word64?_nat n) :)

@[simp] theorem optional?_string (s : String) :
    optional? string? (.string s) = some (some s) := rfl

theorem optional?_boolean (b : Bool) : optional? boolean? (.boolean b) = some (some b) := rfl

@[simp] theorem decode?_job (id : JobId) : JobId.decode? id.encode = some id := by
  have hread : (nat id.value).below? UInt64.size = some id.value := below?_nat id.bounded
  rw [JobId.encode]
  exact (congrArg (·.bind JobId.ofNat?) hread).trans (JobId.ofNat?_value id)

section

variable {α β : Type} {decode : β → Option α} {encode : α → β}

theorem mapM_map (h : ∀ a, decode (encode a) = some a) (items : List α) :
    (items.map encode).mapM decode = some items := by
  induction items with
  | nil => rfl
  | cons a items ih =>
    rw [List.map_cons, List.mapM_cons, h, ih]
    rfl

end

@[simp] theorem list?_strings (items : List String) :
    list? string? (strings items) = some items := by
  have read (s : String) : string? (.string s) = some s := rfl
  exact mapM_map read items

@[simp] theorem list?_jobs (ids : List JobId) :
    list? JobId.decode? (.array (ids.map JobId.encode)) = some ids :=
  mapM_map decode?_job ids

@[simp] theorem optional?_jobs (ids : List JobId) :
    optional? (list? JobId.decode?) (.array (ids.map JobId.encode)) = some (some ids) :=
  (congrArg (Option.map some) (list?_jobs ids) :)

@[simp] theorem dict?_strings (entries : Dict String String) :
    dict? string? (.object (entries.map fun (key, value) => (key, .string value))) =
      some entries := by
  induction entries with
  | nil => rfl
  | cons e entries ih =>
    simp only [dict?, fields?, Option.bind_some] at ih ⊢
    rw [List.map_cons, List.mapM_cons, ih]
    rfl

/-! ### Order -/

/-- A value whose objects have their fields in order. -/
inductive Ordered : Json → Prop
  | object {fields : Dict String Json} (sorted : fields.Sorted)
    (values : ∀ e ∈ fields, Ordered e.2) : Ordered (.object fields)
  | array {items : List Json} (values : ∀ j ∈ items, Ordered j) : Ordered (.array items)
  | null : Ordered .null
  | boolean (b : Bool) : Ordered (.boolean b)
  | number (n : Number) : Ordered (.number n)
  | string (s : String) : Ordered (.string s)

mutual

theorem ordered_sortFields : (j : Json) → j.sortFields.Ordered
  | .object fields => by
    rw [sortFields]
    exact .object (Dict.sorted_ofEntries _) fun e he =>
      ordered_sortEntries fields e (Dict.mem_of_mem_ofEntries he)
  | .array items => by
    rw [sortFields]
    exact .array (ordered_sortItems items)
  | .null => .null
  | .boolean b => .boolean b
  | .number n => .number n
  | .string s => .string s

theorem ordered_sortItems : (items : List Json) → ∀ j ∈ sortItems items, j.Ordered
  | [] => by simp [sortItems]
  | item :: rest => by
    rw [sortItems]
    exact List.forall_mem_cons.mpr ⟨ordered_sortFields item, ordered_sortItems rest⟩

theorem ordered_sortEntries : (fields : List (String × Json)) → ∀ e ∈ sortEntries fields,
    e.2.Ordered
  | [] => by simp [sortEntries]
  | field :: rest => by
    rw [sortEntries]
    exact List.forall_mem_cons.mpr ⟨ordered_sortEntry field, ordered_sortEntries rest⟩

theorem ordered_sortEntry : (field : String × Json) → (sortEntry field).2.Ordered
  | (_, value) => ordered_sortFields value

end

theorem ordered_of_sortFields_eq {j : Json} (h : j.sortFields = j) : j.Ordered :=
  h ▸ ordered_sortFields j

end Json

/-! ### Fields -/

namespace JobResource

@[simp] theorem find?_optionalField (name : String) (value : Option Json) (k : String) :
    Dict.find? (optionalField name value) k = if name = k then value else none := by
  cases value <;> simp [optionalField, Dict.find?_cons]

@[simp] theorem reverse_optionalField (name : String) (value : Option Json) :
    (optionalField name value).reverse = optionalField name value := by
  cases value <;> rfl

end JobResource

namespace Dict

variable {α : Type} {fields : Dict String Json} {name : String} {decode : Decoder α}
  {encode : α → Json} {value : Option α}

theorem required_of_find? {j : Json} (h : fields.find? name = some j) :
    fields.required name decode = decode j := by
  rw [required, h, Option.bind_some]

theorem optional_eq_elim (fields : Dict String Json) (name : String) (decode : Decoder α) :
    fields.optional name decode = (fields.find? name).elim (some none) (Json.optional? decode) := by
  rw [optional, defaulted]
  cases fields.find? name <;> rfl

theorem elim_some_some (value : Option α) :
    value.elim (some none) (fun a => some (some a)) = some value := by
  cases value <;> rfl

theorem optional_of_find? (h : fields.find? name = value.map encode)
    (hread : ∀ a, Json.optional? decode (encode a) = some (some a)) :
    fields.optional name decode = some value := by
  rw [optional_eq_elim, h]
  cases value with
  | none => rfl
  | some a => exact hread a

theorem filter_of_optional (h : fields.optional name decode = some value)
    (hdecode : ∀ j a, decode j = some a → j = encode a) :
    (fields.find? name).filter (fun j => !j.isNull) = value.map encode := by
  rw [optional, defaulted] at h
  cases hfind : fields.find? name with
  | none =>
    rw [hfind] at h
    obtain rfl := Option.some.inj h
    rfl
  | some j =>
    rw [hfind] at h
    cases j with
    | null =>
      obtain rfl := Option.some.inj h
      rfl
    | _ =>
      obtain ⟨a, ha, rfl⟩ := Option.map_eq_some_iff.mp h
      rw [Option.map_some, ← hdecode _ a ha]
      rfl

end Dict

end Warren
