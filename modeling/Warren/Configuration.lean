import Warren.Allocation.Limits
import Warren.Directive
import Warren.NameSet
import Warren.Stage
import Warren.Topology

/-!
# The configuration

All settings of the service, with the standard values for those that are not configured.
-/

namespace Warren

structure Configuration where
  kubeconfig : Option String
  /-- The address at which job managers connect. -/
  listen : String
  /-- The time between two polls of the watches. -/
  watchInterval : Span
  /-- The delay before the first attempt after a failure. -/
  retryDelay : Span
  maxRetryDelay : Span
  /-- How long a transient condition may last. -/
  conditionTimeout : Span
  timeouts : Stage.Timeouts
  /-- Whether compute nodes that lost their storage node are drained. -/
  drains : Bool
  /-- Whether they are marked where they are not drained. -/
  softDrains : Bool
  /-- The only compute nodes that may be drained, if not all of them. -/
  drainAllowlist : Option NameSet
  restrictsPersistent : Bool
  /-- The user who may create file systems that outlive their job. -/
  owner : UInt32
  /-- The number of data movements that are kept in the record of a job. -/
  savedMovements : Nat
  /-- The least size of an allocation in bytes. -/
  leastAllocation : UInt64
  limits : Allocation.Limits
  presets : Dict String Preset
  /-- The file with the inventory, if it is not read from the server. -/
  mapping : Option String
  /-- Whether the scheduler is left alone with the resources and the state of storage. -/
  withoutGraph : Bool
  /-- The file with the resource graph. -/
  graph : Option String
  /-- The compute nodes that are never marked. -/
  excluded : NameSet
  claimPolicy : ClaimPolicy
deriving DecidableEq, Repr

namespace Configuration

/-- The standard settings of a service that runs as a user. -/
def standard (owner : UInt32) : Configuration where
  kubeconfig := none
  listen := "127.0.0.1:9431"
  watchInterval := .seconds 5
  retryDelay := .seconds 5
  maxRetryDelay := .seconds 300
  conditionTimeout := .seconds 10
  timeouts := .unlimited
  drains := true
  softDrains := true
  drainAllowlist := none
  restrictsPersistent := true
  owner
  savedMovements := 0
  leastAllocation := 0x100000000
  limits := .unlimited
  presets := []
  mapping := none
  withoutGraph := false
  graph := none
  excluded := []
  claimPolicy := .fail

end Configuration

end Warren
