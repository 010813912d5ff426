import Warren.Objects.Metadata

/-!
# Storage nodes

A storage node reports its own health and the health of its links to compute nodes.
-/

namespace Warren

inductive NodeHealth where
  | ready
  | down
  /-- The node is kept out of use, or has not reported yet. -/
  | disabled
  /-- The node reports something that is not known. -/
  | unknown
deriving DecidableEq, Repr

namespace NodeHealth

def name : NodeHealth → String
  | .ready => "Ready"
  | .down => "Down"
  | .disabled => "Disabled"
  | .unknown => "Unknown"

def ofStatus : Option String → NodeHealth
  | some "Ready" => .ready
  | none | some "Disabled" | some "Drained" => .disabled
  | some "Offline" | some "Failed" | some "NotPresent" | some "Degraded" => .down
  | some _ => .unknown

end NodeHealth

/-- A compute node as a storage node sees it. -/
structure ComputeLink where
  host : String
  status : Option String
deriving DecidableEq, Repr

def ComputeLink.isReady (link : ComputeLink) : Bool := link.status = some "Ready"

structure StorageNode where
  metadata : Metadata
  status : Option String
  links : List ComputeLink
deriving DecidableEq, Repr

namespace StorageNode

def name (n : StorageNode) : String := n.metadata.name

def health (n : StorageNode) : NodeHealth := .ofStatus n.status

/-- The compute nodes whose link to the storage node is not healthy. -/
def offline (n : StorageNode) : List String :=
  (n.links.filter fun link => !link.isReady).map ComputeLink.host

def decodeLink? : Decoder ComputeLink := fun j => do
  let fields ← j.record? ["name", "status"]
  some {
    host := ← fields.required "name" Json.string?
    status := ← fields.optional "status" Json.string? }

def decodeAccess? : Decoder (List ComputeLink) := fun j => do
  let fields ← j.record? ["computes"]
  fields.defaulted "computes" (Json.list? decodeLink?) []

def decodeStatus? : Decoder (Option String × List ComputeLink) := fun j => do
  let fields ← j.record? ["status", "access"]
  let status ← fields.optional "status" Json.string?
  let access ← fields.optional "access" decodeAccess?
  some (status, access.getD [])

def decode? : Decoder StorageNode := fun j => do
  let fields ← j.record? ["metadata", "status"]
  let metadata ← fields.defaulted "metadata" Metadata.decode? .empty
  let status ← fields.optional "status" decodeStatus?
  some ⟨metadata, status.bind Prod.fst, (status.map Prod.snd).getD []⟩

end StorageNode

end Warren
