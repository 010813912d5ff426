import Warren.Objects.Breakdown

/-!
# Faults of planning

Why the storage of a job can neither be reserved nor placed.
-/

namespace Warren.Allocation

/-- Why no storage can be planned for a job. -/
inductive Fault where
  /-- The job asks for no resources. -/
  | emptyResources
  /-- A top-level slot holds something besides nodes and storage. -/
  | slotContent (kind : String)
  /-- The resources are neither a node nor a group of nodes. -/
  | layout (entries : Nat) (first : String)
  | breakdownKind (kind : String)
  | breakdownNotReady (name : String)
  | unknownLabel (label : String)
  | strategyMismatch (label : String) (expected got : Strategy)
  /-- More storage per node than is allowed. -/
  | limitExceeded (requested : UInt64) (bucket : String) (allowable : UInt64)
  /-- A set asks for no allocation at all. -/
  | invalidCount (label : String)
  | noServers
deriving DecidableEq, Repr

namespace Fault

def message : Fault → String
  | .emptyResources => "jobspec resources empty"
  | .slotContent kind => s!"jobspec resources has top level 'slot' entry with {kind} below it"
  | .layout entries first =>
    "jobspec resources must have a single top-level 'node' entry, " ++
      s!"got {entries} entries, first entry '{first}'"
  | .breakdownKind kind => s!"unsupported breakdown kind '{kind}'"
  | .breakdownNotReady name => s!"Breakdown {name} marked as not ready"
  | .unknownLabel label => s!"unrecognized storage label '{label}'"
  | .strategyMismatch label expected got =>
    let wanted := expected.name
    let found := got.name
    s!"{label} allocationStrategy must be '{wanted}' but got '{found}'"
  | .limitExceeded requested bucket allowable =>
    s!"Requested a total of {requested} GiB of {bucket} storage per node " ++
      s!"but max is {allowable} GiB per node"
  | .invalidCount label => s!"allocation count of '{label}' must be positive"
  | .noServers => "no storage servers are attached to the compute nodes of the job"

end Fault

end Warren.Allocation
