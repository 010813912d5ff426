import Warren.Objects.Metadata

/-!
# Breakdowns of directives

For every directive of a workflow there is a breakdown: the storage that the directive asks for,
in sets of allocations of one kind.
-/

namespace Warren

/-- How a set of allocations is spread over storage nodes. -/
inductive Strategy where
  | perCompute
  | singleServer
  | acrossServers
deriving DecidableEq, Repr

namespace Strategy

def all : List Strategy := [.perCompute, .singleServer, .acrossServers]

def name : Strategy → String
  | .perCompute => "AllocatePerCompute"
  | .singleServer => "AllocateSingleServer"
  | .acrossServers => "AllocateAcrossServers"

def decode? : Decoder Strategy := fun j =>
  j.caseName?.bind fun s => all.find? fun strategy => strategy.name = s

end Strategy

namespace Breakdown

/-- Storage of one kind that a directive asks for. -/
structure AllocationSet where
  label : String
  strategy : Strategy
  /-- The least capacity of the set in bytes. -/
  capacity : UInt64
  /-- The number of allocations, if it is fixed. -/
  count : Option UInt32
deriving DecidableEq, Repr

/-- The storage that a directive asks for. -/
structure Storage where
  /-- The object that names the storage nodes to use. -/
  servers : Option Reference
  sets : List AllocationSet
deriving DecidableEq, Repr

structure Status where
  ready : Bool
  storage : Option Storage
  /-- The daemons that the job needs on its compute nodes. -/
  daemons : List String
deriving DecidableEq, Repr

end Breakdown

structure Breakdown where
  kind : Option String
  metadata : Metadata
  status : Option Breakdown.Status
deriving DecidableEq, Repr

namespace Breakdown

def name (b : Breakdown) : String := b.metadata.name

def isReady (b : Breakdown) : Bool := b.status.any Status.ready

def storage? (b : Breakdown) : Option Storage := b.status.bind Status.storage

def sets (b : Breakdown) : List AllocationSet := (b.storage?.map Storage.sets).getD []

def servers? (b : Breakdown) : Option Reference := b.storage?.bind Storage.servers

def requires (b : Breakdown) (daemon : String) : Bool :=
  b.status.any (·.daemons.contains daemon)

/-- The number of allocations that is asked for under the constraints of a set. -/
def decodeCount? : Decoder (Option UInt32) := fun j => do
  let fields ← j.record? ["count"]
  fields.optional "count" Json.word32?

def AllocationSet.decode? : Decoder AllocationSet := fun j => do
  let fields ← j.record? ["label", "allocationStrategy", "minimumCapacity", "constraints"]
  some {
    label := ← fields.required "label" Json.string?
    strategy := ← fields.required "allocationStrategy" Strategy.decode?
    capacity := ← fields.required "minimumCapacity" Json.word64?
    count := (← fields.optional "constraints" decodeCount?).join }

def Storage.decode? : Decoder Storage := fun j => do
  let fields ← j.record? ["reference", "allocationSets"]
  some {
    servers := ← fields.optional "reference" Reference.decode?
    sets := ← fields.defaulted "allocationSets" (Json.list? AllocationSet.decode?) [] }

def Status.decode? : Decoder Status := fun j => do
  let fields ← j.record? ["ready", "storage", "requiredDaemons"]
  some {
    ready := ← fields.defaulted "ready" Json.boolean? false
    storage := ← fields.optional "storage" Storage.decode?
    daemons := ← fields.defaulted "requiredDaemons" (Json.list? Json.string?) [] }

def decode? : Decoder Breakdown := fun j => do
  let fields ← j.record? ["kind", "metadata", "status"]
  some {
    kind := ← fields.optional "kind" Json.string?
    metadata := ← fields.defaulted "metadata" Metadata.decode? .empty
    status := ← fields.optional "status" Status.decode? }

end Breakdown

end Warren
