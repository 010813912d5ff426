import Warren.Json.Decode

/-!
# The inventory

The inventory lists the storage nodes and the compute nodes that are attached to each of them.
-/

namespace Warren

/-- A storage node with its compute nodes. -/
structure InventoryEntry where
  storage : String
  hosts : List String
deriving DecidableEq, Repr

/-- The storage nodes in the order in which they are listed. -/
abbrev Inventory := List InventoryEntry

namespace Inventory

def objectName : String := "default"

def decodeHost? : Decoder String := fun j => do
  let fields ← j.record? ["name"]
  fields.required "name" Json.string?

def decodeEntry? : Decoder InventoryEntry := fun j => do
  let fields ← j.record? ["name", "computesAccess"]
  some {
    storage := ← fields.required "name" Json.string?
    hosts := ← fields.defaulted "computesAccess" (Json.list? decodeHost?) [] }

def decodeSpec? : Decoder Inventory := fun j => do
  let fields ← j.record? ["storageNodes"]
  fields.defaulted "storageNodes" (Json.list? decodeEntry?) []

def decode? : Decoder Inventory := fun j => do
  let fields ← j.record? ["spec"]
  fields.defaulted "spec" decodeSpec? []

end Inventory

end Warren
