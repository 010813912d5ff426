import Warren.Json.Decode
import Warren.NameSet
import Warren.Text.Numeral

/-!
# The resource graph

The graph of the scheduler names the rack in which a storage node lives, the number of storage
devices there, and the compute nodes that the scheduler knows.
-/

namespace Warren

structure Rack where
  path : String
  /-- The number of storage devices. -/
  devices : UInt32
deriving DecidableEq, Repr

/-- The part of the graph that is about storage. -/
structure ResourceGraph where
  /-- The rack of each storage node. -/
  racks : Dict String Rack
  computes : NameSet
deriving DecidableEq, Repr

namespace ResourceGraph

/-- Why a document does not describe a graph. -/
inductive Fault where
  /-- The document is no JSON text, or a vertex lacks something. -/
  | malformed
  | noVertices
  | invalidDevices (storage : String)
  | noPath (storage : String)
deriving DecidableEq, Repr

structure Vertex where
  kind : String
  name : String
  properties : Dict String Json
  paths : Dict String String

def Vertex.decode? : Decoder Vertex := fun j => do
  let fields ← j.record? ["metadata"]
  let metadata ← fields.required "metadata"
    (Json.record? ["type", "name", "properties", "paths"])
  some {
    kind := ← metadata.required "type" Json.string?
    name := ← metadata.defaulted "name" Json.string? ""
    properties := ← metadata.defaulted "properties" Json.fields? []
    paths := ← metadata.defaulted "paths" (Json.dict? Json.string?) [] }

/-- The number of devices of a rack that does not name one. -/
def standardDevices : UInt32 := 36

/-- The number of devices of a rack: a number or the text of one. -/
def devices? : Option Json → Option UInt32
  | none => some standardDevices
  | some (.string s) => (Text.readBelow? UInt32.size s.toList).map UInt32.ofNat
  | some j => j.word32?

/-- The graph with one more vertex. Racks without a storage node do not count. -/
def add (g : ResourceGraph) (v : Vertex) : Except Fault ResourceGraph :=
  if v.kind = "node" then .ok { g with computes := g.computes.add v.name }
  else if v.kind = "rack" then
    match (v.properties.find? "rabbit").bind Json.string? with
    | none => .ok g
    | some storage => match devices? (v.properties.find? "ssdcount") with
      | none => .error (.invalidDevices storage)
      | some devices => match v.paths.find? "containment" with
        | none => .error (.noPath storage)
        | some path => .ok { g with racks := g.racks.insert storage ⟨path, devices⟩ }
  else .ok g

def ofVertices (vertices : List Vertex) : Except Fault ResourceGraph :=
  vertices.foldlM add ⟨[], []⟩

def ofDocument (document : Json) : Except Fault ResourceGraph :=
  match (document.path? ["scheduling", "graph", "nodes"]).or
      (document.path? ["graph", "nodes"]) with
  | none => .error .noVertices
  | some vertices => match vertices.list? Vertex.decode? with
    | none => .error .malformed
    | some vertices => ofVertices vertices

end ResourceGraph

end Warren
