import Warren.Json.Basic

/-!
# Merge patches

A patch that is an object changes the named fields of its target: `null` removes a field, and
any other value is merged into the old one. A patch of another kind replaces its target.
-/

namespace Warren.Json

mutual

def merge (target : Json) : Json → Json
  | .object changes => .object (mergeFields target.fields changes)
  | patch => patch

/-- The fields of a target with a list of changes applied in order. -/
def mergeFields (fields : Dict String Json) : List (String × Json) → Dict String Json
  | [] => fields
  | change :: rest => mergeFields (mergeField fields change) rest

def mergeField (fields : Dict String Json) : String × Json → Dict String Json
  | (key, .null) => fields.erase key
  | (key, patch) => fields.insert key (merge ((fields.find? key).getD .null) patch)

end

end Warren.Json
