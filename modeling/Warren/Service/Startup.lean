import Warren.Controller.Basic
import Warren.Fault
import Warren.Health
import Warren.Json.Reader
import Warren.Watch

/-!
# Starting the service

Before the service runs it reads the inventory and the resource graph, passes the health of all
storage nodes on, and sets the watches up. A mapping file takes the place of the inventory on the
server.
-/

namespace Warren

/-- A file with its content, none if it cannot be read. -/
structure File where
  path : String
  content : Option String
deriving DecidableEq, Repr

namespace Inventory

/-- The fields of a record as it stands in a text, where no field of the record may be repeated. -/
def textualRecord? (names : List String) (j : Json) : Option (Dict String Json) := do
  if j.isUnrepeated names then j.record? names else none

/-- The host list of each storage node in a mapping, as it stands in a text. -/
def decodeMapping? : Decoder (Dict String String) := fun j => do
  let fields ← textualRecord? ["rabbits"] j
  let storages ← fields.required "rabbits" Json.fields?
  let entries ← storages.mapM fun (storage, value) => do
    let entry ← textualRecord? ["hostlist"] value
    some (storage, ← entry.required "hostlist" Json.string?)
  some (Dict.ofEntries entries)

def ofMapping (mapping : Dict String String) : Except (Failure Misconfiguration) Inventory :=
  mapping.mapM fun (storage, text) => do
    match ← Failure.ofCrash (Hostlist.expandUnique? text) with
    | some hosts => return ⟨storage, hosts⟩
    | none => throw (.fault (.invalidHostsOf storage text))

def ofMappingFile (file : File) : Except (Failure Misconfiguration) Inventory :=
  match file.content with
  | none => .error (.fault (.unreadable file.path))
  | some text => match (Json.read? text).bind decodeMapping? with
    | none => .error (.fault (.invalidMapping file.path))
    | some mapping => ofMapping mapping

end Inventory

namespace ResourceGraph

def ofFile (file : File) : Except Warren.Fault ResourceGraph :=
  match file.content with
  | none => .error .unreadable
  | some text => match Json.parse? text with
    | none => .error .malformedDocument
    | some document => (ofDocument document).mapError fun
      | .malformed => .malformedDocument
      | .noVertices => .misconfigured (.noGraphVertices file.path)
      | .invalidDevices storage => .misconfigured (.invalidDevices storage)
      | .noPath storage => .misconfigured (.noRackPath storage)

end ResourceGraph

namespace Topology

/-- The topology of an inventory, where a conflict is a fault of the configuration. -/
def load (policy : ClaimPolicy) (inventory : Inventory) : Except Fault Topology :=
  (build policy inventory).mapError fun conflict => .misconfigured (.claimConflict conflict)

def ofMappingFile (policy : ClaimPolicy) (file : File) : Except Fault Topology := do
  load policy (← (Inventory.ofMappingFile file).mapError .ofConfiguration)

end Topology

namespace Startup

/-- Work in the world that may end in a fault of the start. -/
abbrev Starting := ExceptT Fault (StateM World)

def ask (conversation : Api.Call α) : Starting α := fun w =>
  let (outcome, w) := (Effect.call conversation).run w
  (outcome.mapError .api, w)

def require : Except Fault α → Starting α
  | .ok a => pure a
  | .error fault => throw fault

/-- The topology, from a mapping file if there is one. -/
def topology (config : Configuration) : Option File → Starting Topology
  | some file => require (Topology.ofMappingFile config.claimPolicy file)
  | none => do
    let object ← ask (Api.get .inventory Api.defaultSpace Inventory.objectName)
    let inventory ← ask (match Inventory.decode? object with
      | some inventory => pure inventory
      | none => throw .decode)
    require (Topology.load config.claimPolicy inventory)

/-- The resource graph, unless the service works without it. -/
def graph (config : Configuration) (file : Option File) : Except Fault (Option ResourceGraph) :=
  if config.withoutGraph then .ok none
  else match file with
    | some file => (ResourceGraph.ofFile file).map some
    | none => .error (.misconfigured .graphRequired)

def ladder (config : Configuration) : Backoff := .start config.retryDelay config.maxRetryDelay

/-- Passes the health of all storage nodes on. The watches of the storage nodes and the workflows
follow, the former from there on, the latter from the start. -/
def watches (site : Site) : Starting (List Watch) := do
  let (storages, version) ← ask (Api.list .storage (.space Api.defaultSpace) none none)
  modify fun w => w.announce (storages.flatMap fun object => Health.onEvent site (.added object))
  let cursor (version : String) := Watch.Cursor.at version (ladder site.config)
  return [⟨.storage, Api.defaultSpace, cursor version⟩,
    ⟨.workflow, Api.defaultSpace, cursor Watch.start⟩]

/-- The site of the service and its watches. The mapping file and the file with the graph are
given if the configuration names them. -/
def launch (config : Configuration) (mapping graph : Option File) (groupOf : UInt32 → UInt32) :
    Starting (Site × List Watch) := do
  let site : Site := {
    config
    topology := ← topology config mapping
    graph := ← require (Startup.graph config graph)
    groupOf }
  return (site, ← watches site)

end Startup

end Warren
