import Warren.Json.Decode

/-!
# Mounts and data movements

A mount object lists the file systems that are mounted on one node. A data movement is only asked
whether it failed.
-/

namespace Warren

structure ClientMount where
  node : String
  /-- The states of the mounts, if they are known. -/
  states : Option (List String)
deriving DecidableEq, Repr

namespace ClientMount

/-- Whether every mount of the node has reached a state. -/
def isIn (m : ClientMount) (state : String) : Bool := m.states.any (·.all (· = state))

def isMounted (m : ClientMount) : Bool := m.isIn "mounted"

def isUnmounted (m : ClientMount) : Bool := m.isIn "unmounted"

def decodeState? : Decoder String := fun j => do
  let fields ← j.record? ["state"]
  fields.defaulted "state" Json.string? ""

def decodeStatus? : Decoder (List String) := fun j => do
  let fields ← j.record? ["mounts"]
  fields.defaulted "mounts" (Json.list? decodeState?) []

def decodeSpec? : Decoder String := fun j => do
  let fields ← j.record? ["node"]
  fields.defaulted "node" Json.string? ""

def decode? : Decoder ClientMount := fun j => do
  let fields ← j.record? ["spec", "status"]
  some {
    node := ← fields.defaulted "spec" decodeSpec? ""
    states := ← fields.optional "status" decodeStatus? }

end ClientMount

def dataMovementFailed (object : Json) : Bool :=
  (object.path? ["status", "status"]).bind Json.string? = some "Failed"

end Warren
