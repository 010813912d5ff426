import Warren.Json.Decode
import Warren.Text.Timestamp

/-!
# Metadata of objects

The metadata that every object carries. Only the name and the finalizers are used; all the other
standard fields have to be of their kind, or `null`.
-/

namespace Warren

structure Metadata where
  name : String
  finalizers : List String
deriving DecidableEq, Repr

structure Reference where
  name : String
  space : String
deriving DecidableEq, Repr

namespace Metadata

def empty : Metadata := ⟨"", []⟩

def accepts (decode : Decoder α) (j : Json) : Bool := (decode j).isSome

/-- Whether a value is an object whose fields of the given names are `null` or of their kind. -/
def isLenient (kinds : List (String × (Json → Bool))) (j : Json) : Bool :=
  j.fields?.isSome && kinds.all fun (name, isKind) =>
    match j.field? name with
    | none | some .null => true
    | some value => isKind value

def isInteger64 : Json → Bool
  | .number (.integer n) => -0x8000000000000000 ≤ n && n < 0x8000000000000000
  | _ => false

def isText (j : Json) : Bool := j.string?.isSome

def isTruth (j : Json) : Bool := j.boolean?.isSome

def isTime (j : Json) : Bool := accepts (fun j => j.string?.bind Text.Timestamp.parse?) j

def isManagedFields : Json → Bool := isLenient
  [("apiVersion", isText), ("fieldsType", isText), ("manager", isText), ("operation", isText),
    ("subresource", isText), ("time", isTime)]

def isOwner : Json → Bool := isLenient
  [("apiVersion", isText), ("blockOwnerDeletion", isTruth), ("controller", isTruth),
    ("kind", isText), ("name", isText), ("uid", isText)]

/-- Whether every item of an array is of a kind. -/
def isListOf (isKind : Json → Bool) (j : Json) : Bool := j.items?.any (·.all isKind)

def standard : List (String × (Json → Bool)) :=
  let isLabels := accepts (Json.dict? Json.string?)
  [("annotations", isLabels), ("creationTimestamp", isTime), ("deletionGracePeriodSeconds",
    isInteger64), ("deletionTimestamp", isTime), ("finalizers", isListOf isText),
    ("generateName", isText), ("generation", isInteger64), ("labels", isLabels),
    ("managedFields", isListOf isManagedFields), ("name", isText), ("namespace", isText),
    ("ownerReferences", isListOf isOwner), ("resourceVersion", isText), ("selfLink", isText),
    ("uid", isText)]

def decode? : Decoder Metadata := fun j =>
  if isLenient standard j then
    some {
      name := ((j.field? "name").bind Json.string?).getD ""
      finalizers := (((j.field? "finalizers").bind (Json.list? Json.string?)).getD []) }
  else none

end Metadata

namespace Reference

/-- A reference in an object; a missing part is empty. -/
def decode? : Decoder Reference := fun j => do
  let fields ← j.record? ["name", "namespace"]
  some {
    name := ← fields.defaulted "name" Json.string? ""
    space := ← fields.defaulted "namespace" Json.string? "" }

end Reference

end Warren
