import Warren.Binary64
import Warren.Dict

/-!
# JSON values

Objects are dictionaries, so a key occurs once and the keys are sorted. A number written without
a fraction and an exponent is an integer, any other is a double; the two are never equal.
-/

namespace Warren

inductive Number where
  | integer (value : Int)
  | real (value : Binary64)
deriving DecidableEq, Repr

inductive Json where
  | null
  | boolean (value : Bool)
  | number (value : Number)
  | string (value : String)
  | array (items : List Json)
  | object (fields : List (String × Json))
deriving Repr, Inhabited

namespace Json

def nat (n : Nat) : Json := .number (.integer n)

def ofFields (fields : List (String × Json)) : Json := .object (Dict.ofEntries fields)

def strings (items : List String) : Json := .array (items.map .string)

/-- Whether the value is `null`. -/
def isNull : Json → Bool
  | .null => true
  | _ => false

def string? : Json → Option String
  | .string s => some s
  | _ => none

def boolean? : Json → Option Bool
  | .boolean b => some b
  | _ => none

def below? (bound : Nat) : Json → Option Nat
  | .number (.integer n) => if 0 ≤ n ∧ n < bound then some n.toNat else none
  | _ => none

def items? : Json → Option (List Json)
  | .array items => some items
  | _ => none

def fields? : Json → Option (Dict String Json)
  | .object fields => some fields
  | _ => none

/-- The fields of an object, none for any other value. -/
def fields (j : Json) : Dict String Json := j.fields?.getD []

def field? (j : Json) (key : String) : Option Json := j.fields.find? key

/-- The value at the end of a path of field names. -/
def path? (j : Json) : List String → Option Json
  | [] => some j
  | key :: rest => (j.field? key).bind (·.path? rest)

@[simp] theorem path?_nil (j : Json) : j.path? [] = some j := rfl

theorem path?_cons (j : Json) (key : String) (rest : List String) :
    j.path? (key :: rest) = (j.field? key).bind (·.path? rest) := rfl

end Json

end Warren
