import Warren.Allocation.Limits

/-!
# Resources of a job

The resources of a job are trees. `augment` pairs every compute node with the storage that the
breakdowns of the job ask for: the node moves into a slot together with the storage. Sums and
products that do not fit a word are crashes.
-/

namespace Warren

/-- A resource of a job with the resources below it. -/
structure JobResource where
  kind : String
  count : Option UInt64
  label : Option String
  exclusive : Option Bool
  children : List JobResource
  /-- Fields that are kept as they are. -/
  extra : Dict String Json
deriving Repr, Inhabited

namespace JobResource

def counted (kind : String) (count : UInt64) : JobResource := ⟨kind, some count, none, none, [], []⟩

/-- The count of a resource, one if it has none. -/
def total (r : JobResource) : UInt64 := r.count.getD 1

def fieldNames : List String := ["type", "count", "label", "exclusive", "with"]

mutual

def decode? : Decoder JobResource
  | .object fields =>
    match decodeChildren? fields with
    | none => none
    | some children => do
      some {
        kind := ← Dict.required fields "type" Json.string?
        count := ← Dict.optional fields "count" Json.word64?
        label := ← Dict.optional fields "label" Json.string?
        exclusive := ← Dict.optional fields "exclusive" Json.boolean?
        children
        extra := fields.filter fun field => !fieldNames.contains field.1 }
  | _ => none

/-- The resources in the field for them, none if there is no such field. -/
def decodeChildren? : List (String × Json) → Option (List JobResource)
  | [] => some []
  | field :: rest => if field.1 = "with" then decodeField? field else decodeChildren? rest

def decodeField? : String × Json → Option (List JobResource)
  | (_, value) => decodeArray? value

def decodeArray? : Json → Option (List JobResource)
  | .array items => decodeItems? items
  | _ => none

def decodeItems? : List Json → Option (List JobResource)
  | [] => some []
  | item :: rest => do
    let resource ← decode? item
    let resources ← decodeItems? rest
    some (resource :: resources)

end

/-- A field that is left out where it has no value. -/
def optionalField (name : String) (value : Option Json) : List (String × Json) :=
  (value.map fun j => (name, j)).toList

mutual

def encode : JobResource → Json
  | ⟨kind, count, label, exclusive, children, extra⟩ =>
    .ofFields ([("type", .string kind)]
      ++ optionalField "count" (count.map fun n => .nat n.toNat)
      ++ optionalField "label" (label.map .string)
      ++ optionalField "exclusive" (exclusive.map .boolean)
      ++ (if children.isEmpty then [] else [("with", .array (encodeAll children))])
      ++ extra)

def encodeAll : List JobResource → List Json
  | [] => []
  | r :: rest => encode r :: encodeAll rest

end

end JobResource

namespace Allocation

/-- Where the compute nodes of a job are. -/
inductive Layout where
  | flat (node : JobResource)
  /-- Nodes in groups. -/
  | grouped (group node : JobResource)

/-- The number of compute nodes. -/
def Layout.nodes : Layout → Except Crash UInt64
  | .flat node => .ok node.total
  | .grouped group node => Crash.fit64 (group.total.toNat * node.total.toNat)

def groupKinds : List String := ["chassis", "rack"]

def groupLayout? (group : JobResource) : Option (Option Layout) :=
  match groupKinds.contains group.kind, group.children with
  | true, [child] =>
    if child.kind = "slot" ∧ child.children.any (·.kind = "ssd") then some none
    else if child.kind = "node" then some (some (.grouped group child))
    else none
  | _, _ => none

/-- The layout of the resources of a job, none if storage is paired with the nodes already. -/
def layout : List JobResource → Except Fault (Option Layout)
  | [] => .error .emptyResources
  | first :: rest =>
    let unsupported : Except Fault (Option Layout) :=
      .error (.layout (rest.length + 1) first.kind)
    if first.kind = "slot" ∧ first.children.length = 2 then
      match first.children.find? fun child => child.kind ≠ "ssd" ∧ child.kind ≠ "node" with
      | some child => .error (.slotContent child.kind)
      | none => .ok none
    else if !rest.isEmpty then unsupported
    else if first.kind = "node" then .ok (some (.flat first))
    else match groupLayout? first with
      | some found => .ok found
      | none => unsupported

def gib : UInt64 := 0x40000000

/-- The demand of a job so far. -/
structure Reservation where
  demand : Demand
  /-- The GiB of storage that go with each compute node. -/
  ssd : UInt64
  /-- Whether any storage is asked for. -/
  applied : Bool
deriving DecidableEq, Repr

/-- A reservation with one more set of allocations, of which each has at least `floor` GiB. -/
def Reservation.addSet (nodes floor : UInt64) (r : Reservation) (set : Breakdown.AllocationSet) :
    Except (Failure Fault) Reservation := do
  let label ← Failure.ofFault (Label.ofName set.label)
  if set.strategy ≠ label.strategy then
    throw (.fault (.strategyMismatch set.label label.strategy set.strategy))
  let size := max (set.capacity / gib) floor
  let demand ← Failure.ofCrash (r.demand.add label size)
  let share := if label.isPerCompute then size else size / max nodes 1
  let ssd ← Failure.ofCrash (Crash.fit64 (r.ssd.toNat + share.toNat))
  return ⟨demand, ssd, true⟩

def breakdownKind : String := "DirectiveBreakdown"

def Reservation.addBreakdown (nodes floor : UInt64) (r : Reservation) (b : Breakdown) :
    Except (Failure Fault) Reservation := do
  let kind := b.kind.getD ""
  if kind ≠ breakdownKind then throw (.fault (.breakdownKind kind))
  if !b.isReady then throw (.fault (.breakdownNotReady b.name))
  b.sets.foldlM (addSet nodes floor) r

def reserve (nodes floor : UInt64) (breakdowns : List Breakdown) :
    Except (Failure Fault) Reservation :=
  breakdowns.foldlM (Reservation.addBreakdown nodes floor) ⟨.zero, 0, false⟩

/-- Slots that hold a node and its storage. -/
def storageSlot (node : JobResource) (count ssd : UInt64) : JobResource :=
  { JobResource.counted "slot" count with
    label := some "rabbit"
    children := [{ node with count := some 1 },
      { JobResource.counted "ssd" ssd with exclusive := some true }] }

def Layout.withStorage (ssd : UInt64) : Layout → JobResource
  | .flat node => storageSlot node node.total ssd
  | .grouped group node => { group with children := [storageSlot node node.total ssd] }

/-- What becomes of the resources of a job. -/
inductive Augmentation where
  | extended (resources : List JobResource)
  /-- No storage is asked for. -/
  | unchanged
  /-- Storage is paired with the nodes already. -/
  | alreadyApplied

/-- The resources of a job with the storage that its breakdowns ask for, within the limits. -/
def augment (resources : List JobResource) (breakdowns : List Breakdown) (floor : UInt64)
    (limits : Limits) : Except (Failure Fault) Augmentation := do
  match ← Failure.ofFault (layout resources) with
  | none => return .alreadyApplied
  | some found =>
    let nodes ← Failure.ofCrash found.nodes
    let reservation ← reserve nodes floor breakdowns
    Failure.ofFault (reservation.demand.validate limits nodes)
    return if reservation.applied then .extended [found.withStorage reservation.ssd]
      else .unchanged

def copyOffload (breakdowns : List Breakdown) : Bool :=
  breakdowns.any (·.requires "copy-offload")

end Allocation

end Warren
