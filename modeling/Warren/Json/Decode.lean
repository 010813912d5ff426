import Warren.Json.Basic

/-!
# Decoding records

A record is an object whose fields are looked up by name, or the array of the values in the order
in which the record declares its fields. Fields that no one asks for are ignored.
-/

namespace Warren

abbrev Decoder (α : Type u) := Json → Option α

namespace Json

/-- The fields of a record that declares the given names. -/
def record? (names : List String) : Decoder (Dict String Json)
  | .object fields => some fields
  | .array items => if items.length ≤ names.length then some (names.zip items) else none
  | _ => none

/-- Whether a value has none of the given fields more than once. -/
def isUnrepeated (names : List String) : Json → Bool
  | .object fields => names.all fun name => (fields.filter (·.1 = name)).length ≤ 1
  | _ => true

/-- A value, where `null` stands for none. -/
def optional? (decode : Decoder α) : Decoder (Option α)
  | .null => some none
  | j => (decode j).map some

def list? (decode : Decoder α) (j : Json) : Option (List α) := j.items?.bind (·.mapM decode)

def dict? (decode : Decoder α) (j : Json) : Option (Dict String α) :=
  j.fields?.bind (·.mapM fun (key, value) => (decode value).map fun v => (key, v))

/-- The name of a case without content: a string, or an object with `null` under that name. -/
def caseName? : Decoder String
  | .string s => some s
  | .object [(s, .null)] => some s
  | _ => none

def word32? (j : Json) : Option UInt32 := (j.below? UInt32.size).map UInt32.ofNat

def word64? (j : Json) : Option UInt64 := (j.below? UInt64.size).map UInt64.ofNat

end Json

namespace Dict

def required (fields : Dict String Json) (name : String) (decode : Decoder α) : Option α :=
  (fields.find? name).bind decode

/-- A field with a value for the record that lacks it. -/
def defaulted (fields : Dict String Json) (name : String) (decode : Decoder α) (default : α) :
    Option α :=
  match fields.find? name with
  | none => some default
  | some j => decode j

/-- A field that may be missing or `null`. -/
def optional (fields : Dict String Json) (name : String) (decode : Decoder α) :
    Option (Option α) :=
  fields.defaulted name (Json.optional? decode) none

end Dict

end Warren
