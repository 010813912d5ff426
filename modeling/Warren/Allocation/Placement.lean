import Warren.Allocation.Fault
import Warren.Crash

/-!
# Placement of allocations

The allocations of a set are placed on the storage servers of a job: as many as there are compute
nodes, in proportion to the compute nodes, or a fixed number that is dealt out in rounds. The size
of an allocation is chosen such that all of them together have the capacity asked for.

Counts are words of 32 bits. A sum that does not fit such a word is a crash, and so is a size for no
compute nodes at all.
-/

namespace Warren.Allocation

/-- The servers of a job with the number of its compute nodes on each, in the order in which the
servers were first seen. -/
abbrev ServerCounts := List (String × UInt32)

namespace ServerCounts

def add (counts : ServerCounts) (server : String) : Except Crash ServerCounts :=
  match counts with
  | [] => .ok [(server, 1)]
  | (s, n) :: rest =>
    if s = server then do
      let more ← Crash.fit32 (n.toNat + 1)
      return (s, more) :: rest
    else do
      let rest ← add rest server
      return (s, n) :: rest

def ofServers (servers : List String) : Except Crash ServerCounts := servers.foldlM add []

def servers (counts : ServerCounts) : List String := counts.map Prod.fst

/-- The servers by decreasing number of compute nodes; ties keep their order. -/
def ranked (counts : ServerCounts) : List String :=
  servers (counts.mergeSort fun a b => b.2 ≤ a.2)

end ServerCounts

/-- A number of allocations on a server. -/
structure Placement where
  count : UInt32
  server : String
deriving DecidableEq, Repr

structure Plan where
  /-- The size of each allocation in bytes. -/
  size : UInt64
  label : String
  storage : List Placement
deriving DecidableEq, Repr

/-- The least quotient that is not below the exact one. -/
def ceilDiv (n d : Nat) : Except Crash Nat :=
  if d = 0 then .error .zeroDivisor else .ok ((n + d - 1) / d)

/-- A size in bytes, of which the largest word stands for all larger ones. -/
def clampSize (n : Nat) : UInt64 := UInt64.ofNat (min n (UInt64.size - 1))

/-- One more allocation on a server. There are never more than the number that is dealt out, which
is a word. -/
def place (placed : List Placement) (server : String) : List Placement :=
  match placed with
  | [] => [⟨1, server⟩]
  | p :: rest =>
    if p.server = server then ⟨p.count + 1, server⟩ :: rest else p :: place rest server

/-- Deals allocations out in rounds, one for each server in a round; `fuel` bounds the rounds. -/
def deal (servers : List String) : (fuel count : Nat) → List Placement → List Placement
  | 0, _, placed => placed
  | fuel + 1, count, placed =>
    if count = 0 then placed
    else
      let round := servers.take count
      deal servers fuel (count - round.length) (round.foldl place placed)

/-- A number of allocations on the servers with the most compute nodes. -/
def spread (counts : ServerCounts) (count : UInt32) : List Placement :=
  deal counts.ranked count.toNat count.toNat []

/-- The greatest common divisor of the numbers of compute nodes. -/
def divisor (counts : ServerCounts) : Nat := counts.foldl (fun d (_, n) => Nat.gcd d n.toNat) 0

def total (counts : ServerCounts) : Except Crash UInt32 :=
  counts.foldlM (fun sum (_, n) => Crash.fit32 (sum.toNat + n.toNat)) 0

/-- The size in bytes, before the least size is applied, and the places of the allocations. -/
def arrange (set : Breakdown.AllocationSet) (counts : ServerCounts) :
    Except (Failure Fault) (UInt64 × List Placement) :=
  let capacity := set.capacity.toNat
  let fixed (count : UInt32) : Except (Failure Fault) (UInt64 × List Placement) := do
    if count = 0 then throw (.fault (.invalidCount set.label))
    let size ← Failure.ofCrash (ceilDiv capacity count.toNat)
    return (clampSize size, spread counts count)
  match set.strategy, set.count with
  | .perCompute, _ => .ok (set.capacity, counts.map fun (server, n) => ⟨n, server⟩)
  | .singleServer, count => fixed (count.getD 1)
  | .acrossServers, some count => fixed count
  | .acrossServers, none => do
    let d := divisor counts
    let nodes ← Failure.ofCrash (total counts)
    let size ← Failure.ofCrash (ceilDiv (d * capacity) nodes.toNat)
    -- the divisor is not zero, or else there were no compute nodes
    return (clampSize size, counts.map fun (server, n) => ⟨UInt32.ofNat (n.toNat / d), server⟩)

/-- Plans a set of allocations, none of which is smaller than `least` bytes. -/
def planSet (counts : ServerCounts) (least : UInt64) (set : Breakdown.AllocationSet) :
    Except (Failure Fault) Plan := do
  if counts.isEmpty then throw (.fault .noServers)
  let (size, storage) ← arrange set counts
  return ⟨max size least, set.label, storage⟩

def planSets (sets : List Breakdown.AllocationSet) (counts : ServerCounts) (least : UInt64) :
    Except (Failure Fault) (List Plan) :=
  sets.mapM (planSet counts least)

def Placement.encode (p : Placement) : Json :=
  .ofFields [("allocationCount", .nat p.count.toNat), ("name", .string p.server)]

def Plan.encode (p : Plan) : Json :=
  .ofFields [("allocationSize", .nat p.size.toNat), ("label", .string p.label),
    ("storage", .array (p.storage.map Placement.encode))]

end Warren.Allocation
