import Warren.Allocation.Placement
import Warren.Objects.Inventory

/-!
# The topology

A compute node is attached to one storage node. The topology is built from the inventory, where a
storage node claims its compute nodes; the first claim on a compute node counts.
-/

namespace Warren

/-- Which compute node is attached to which storage node. -/
structure Topology where
  /-- The storage node of each compute node. -/
  owners : Dict String String
  /-- The compute nodes of each storage node, in the order of the inventory. -/
  attached : Dict String (List String)
deriving Repr

/-- What happens when two storage nodes claim the same compute node. -/
inductive ClaimPolicy where
  | warn
  | fail
deriving DecidableEq, Repr

/-- Two storage nodes claim the same compute node. -/
structure ClaimConflict where
  host : String
  storage : String
  owner : String
deriving DecidableEq, Repr

def ClaimConflict.message (c : ClaimConflict) : String :=
  s!"Same hostname ({c.host}) cannot be associated with both {c.storage} and {c.owner}"

namespace Topology

def empty : Topology := ⟨[], []⟩

def storageOf (t : Topology) (host : String) : Option String := t.owners.find? host

def computesOf (t : Topology) (storage : String) : List String := (t.attached.find? storage).getD []

/-- A claim of a storage node on a compute node. -/
def claim (policy : ClaimPolicy) (storage : String) (t : Topology) (host : String) :
    Except ClaimConflict Topology :=
  match t.storageOf host with
  | none => .ok {
      owners := t.owners.insert host storage
      attached := t.attached.insert storage (t.computesOf storage ++ [host]) }
  | some owner =>
    if owner = storage ∨ policy = .warn then .ok t else .error ⟨host, storage, owner⟩

def addEntry (policy : ClaimPolicy) (t : Topology) (entry : InventoryEntry) :
    Except ClaimConflict Topology :=
  entry.hosts.foldlM (claim policy entry.storage)
    { t with attached := t.attached.insert entry.storage (t.computesOf entry.storage) }

def build (policy : ClaimPolicy) (inventory : Inventory) : Except ClaimConflict Topology :=
  inventory.foldlM (addEntry policy) empty

/-- The number of the given hosts on each storage node, or the sorted hosts that are attached to
none. The hosts that are attached are counted in any case. -/
def serverCounts (t : Topology) (hosts : List String) :
    Except (Failure (List String)) Allocation.ServerCounts := do
  let counts ← Failure.ofCrash (Allocation.ServerCounts.ofServers (hosts.filterMap t.storageOf))
  match hosts.filter fun host => (t.storageOf host).isNone with
  | [] => return counts
  | unknown => throw (.fault (Dict.keys (Dict.ofEntries (unknown.map fun host => (host, ())))))

def unattachedMessage (hosts : List String) : String :=
  let shown := ",".intercalate hosts
  s!"compute nodes {shown} are not attached to any storage node"

end Topology

end Warren
