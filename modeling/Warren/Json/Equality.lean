import Warren.Json.Basic

/-!
# Equality of JSON values

Two values are compared part by part. `equal_iff` says that this decides equality.
-/

namespace Warren.Json

mutual

def equal : Json → Json → Bool
  | .null, .null => true
  | .boolean a, .boolean b => a = b
  | .number a, .number b => a = b
  | .string a, .string b => a = b
  | .array a, .array b => equalItems a b
  | .object a, .object b => equalFields a b
  | _, _ => false
termination_by structural a => a

def equalItems : List Json → List Json → Bool
  | [], [] => true
  | a :: as, b :: bs => equal a b && equalItems as bs
  | _, _ => false
termination_by structural a => a

def equalFields : List (String × Json) → List (String × Json) → Bool
  | [], [] => true
  | a :: as, b :: bs => equalField a b && equalFields as bs
  | _, _ => false
termination_by structural a => a

def equalField : String × Json → String × Json → Bool
  | (key, a), (key', b) => key = key' && equal a b
termination_by structural a => a

end

mutual

theorem equal_refl : ∀ j : Json, equal j j = true
  | .null => rfl
  | .boolean _ | .number _ | .string _ => by simp [equal]
  | .array items => equalItems_refl items
  | .object fields => equalFields_refl fields

theorem equalItems_refl : ∀ items : List Json, equalItems items items = true
  | [] => rfl
  | item :: rest => by simp [equalItems, equal_refl item, equalItems_refl rest]

theorem equalFields_refl : ∀ fields : List (String × Json), equalFields fields fields = true
  | [] => rfl
  | field :: rest => by simp [equalFields, equalField_refl field, equalFields_refl rest]

theorem equalField_refl : ∀ field : String × Json, equalField field field = true
  | (key, value) => by simp [equalField, equal_refl value]

end

mutual

theorem eq_of_equal : ∀ a b : Json, equal a b = true → a = b
  | .null, b, h => by
    cases b <;> simp_all [equal]
  | .boolean _, b, h => by
    cases b <;> simp_all [equal]
  | .number _, b, h => by
    cases b <;> simp_all [equal]
  | .string _, b, h => by
    cases b <;> simp_all [equal]
  | .array items, b, h => by
    cases b with
    | array others => rw [eq_of_equalItems items others h]
    | _ => simp [equal] at h
  | .object fields, b, h => by
    cases b with
    | object others => rw [eq_of_equalFields fields others h]
    | _ => simp [equal] at h

theorem eq_of_equalItems : ∀ as bs : List Json, equalItems as bs = true → as = bs
  | [], bs, h => by
    cases bs with
    | nil => rfl
    | cons _ _ => simp [equalItems] at h
  | a :: as, bs, h => by
    cases bs with
    | nil => simp [equalItems] at h
    | cons b bs =>
      simp only [equalItems, Bool.and_eq_true] at h
      rw [eq_of_equal a b h.1, eq_of_equalItems as bs h.2]

theorem eq_of_equalFields :
    ∀ as bs : List (String × Json), equalFields as bs = true → as = bs
  | [], bs, h => by
    cases bs with
    | nil => rfl
    | cons _ _ => simp [equalFields] at h
  | a :: as, bs, h => by
    cases bs with
    | nil => simp [equalFields] at h
    | cons b bs =>
      simp only [equalFields, Bool.and_eq_true] at h
      rw [eq_of_equalField a b h.1, eq_of_equalFields as bs h.2]

theorem eq_of_equalField : ∀ a b : String × Json, equalField a b = true → a = b
  | (key, a), (key', b), h => by
    simp only [equalField, Bool.and_eq_true, decide_eq_true_eq] at h
    rw [h.1, eq_of_equal a b h.2]

end

theorem equal_iff (a b : Json) : equal a b = true ↔ a = b :=
  ⟨eq_of_equal a b, fun h => h ▸ equal_refl a⟩

instance : DecidableEq Json := fun a b => decidable_of_iff (equal a b = true) (equal_iff a b)

end Warren.Json
