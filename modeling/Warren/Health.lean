import Warren.Api.Basic
import Warren.Message.Notice
import Warren.Objects.StorageNode
import Warren.Site

/-!
# The health of storage

When a storage node reports its health, the state of its devices and of the compute nodes that
depend on it is passed on: a compute node without its storage is drained, or marked such that jobs
with storage avoid it. Writing the hosts of a notice may crash the program.
-/

namespace Warren.Health

/-- A notice about hosts, none without hosts. -/
def about (make : List String → Except Crash Notice) (hosts : List String) :
    List (Except Crash Notice) :=
  if hosts.isEmpty then [] else [make hosts]

/-- Notices about the devices of a storage node, if it is in the graph. -/
def deviceNotices (site : Site) (node : StorageNode) : List (Except Crash Notice) :=
  match site.graph.bind (·.racks.find? node.name) with
  | some rack => (List.range rack.devices.toNat).map fun slot =>
      .ok (.setStatus s!"{rack.path}/ssd{slot}" (node.health = .ready))
  | none => []

/-- The compute nodes to drain: those that lost their link. -/
def toDrain (site : Site) (node : StorageNode) : List String :=
  if site.config.drains then node.offline.filter site.isDrainable else []

/-- The compute nodes without storage: all of a node that is not ready, and those that lost their
link where that does not drain them. -/
def withoutStorage (site : Site) (node : StorageNode) : NameSet :=
  if node.health ≠ .ready then .ofList (site.topology.computesOf node.name)
  else if !site.config.drains && site.config.softDrains then .ofList node.offline
  else []

def toMark (site : Site) (node : StorageNode) : List String :=
  (withoutStorage site node).toList.filter site.isMarkable

def toUnmark (site : Site) (node : StorageNode) : List String :=
  (site.topology.computesOf node.name).filter fun host =>
    !(withoutStorage site node).contains host && site.isMarkable host

def linkReason : String := "rabbit lost PCIe connection"

/-- The notices that the health of a storage node calls for. -/
def notices (site : Site) (node : StorageNode) : List (Except Crash Notice) :=
  deviceNotices site node
    ++ about (Notice.drainHosts · linkReason) (toDrain site node)
    ++ about Notice.unmarkHosts (toUnmark site node)
    ++ about Notice.markHosts (toMark site node)

/-- The notices that an event of the storage nodes calls for. -/
def onEvent (site : Site) : Api.Event → List (Except Crash Notice)
  | .added object | .modified object =>
    ((StorageNode.decode? object).map (notices site)).getD []
  | .deleted _ | .bookmark _ | .error _ _ => []

/-- The notices that compute nodes call for that are to be marked. -/
def mark (site : Site) (hosts : List String) (reason : String) : List (Except Crash Notice) :=
  let targets := hosts.filter site.isMarkable
  about Notice.markHosts targets
    ++ if site.config.drains then about (Notice.drainHosts · reason) targets else []

end Warren.Health
