import Warren.Configuration
import Warren.ResourceGraph

/-!
# The site

What the service knows about its surroundings and does not change while it runs.
-/

namespace Warren

structure Site where
  config : Configuration
  topology : Topology
  /-- The graph of the scheduler, if the service keeps the state of storage in it. -/
  graph : Option ResourceGraph
  /-- The primary group of a user. -/
  groupOf : UInt32 → UInt32

namespace Site

/-- Whether a host may be marked: it is known, and it is not excluded. -/
def isMarkable (site : Site) (host : String) : Bool :=
  !site.config.excluded.contains host &&
    match site.graph with
    | some graph => graph.computes.contains host
    | none => (site.topology.storageOf host).isSome

def isDrainable (site : Site) (host : String) : Bool :=
  match site.config.drainAllowlist with
  | some allowed => allowed.contains host
  | none => true

end Site

end Warren
