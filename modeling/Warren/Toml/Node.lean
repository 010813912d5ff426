import Warren.Toml.Value

/-!
# Building TOML tables

A document fills its tables step by step. A table that was only mentioned on the way to another one
can still get a header of its own; one that has a header, or was written by dotted keys, cannot.
Values are closed: nothing is added to an inline table or to an array of values.
-/

namespace Warren.Toml

inductive Origin where
  /-- It has a header, or is the document itself. -/
  | header
  /-- It is on the way to the table of a header. -/
  | implied
  /-- It is on the way to the value of a dotted key. -/
  | dotted
deriving DecidableEq, Repr

inductive Node where
  | value (value : Value)
  | table (origin : Origin) (entries : List (String × Node))
  /-- Tables under a doubled header, of which there is at least one; the last one is still open. -/
  | tables (before : List (List (String × Node))) (last : List (String × Node))
deriving Inhabited

namespace Node

abbrev Nodes := Dict String Node

/-- A change of the nodes of a table, which may be refused. It is told how the table came about. -/
abbrev Change := Origin → Nodes → Option Nodes

/-- How the tables of a path are entered. -/
inductive Passage where
  /-- On the way to the table of a header. -/
  | toHeader
  /-- On the way to the value of a dotted key. -/
  | toKey
  /-- Back to the table of the last header. -/
  | back
deriving DecidableEq, Repr

/-- How a table comes about that is missing on the way. -/
def Passage.origin : Passage → Origin
  | .toKey => .dotted
  | .toHeader | .back => .implied

/-- Whether a table on the way may be entered. Dotted keys do not enter the table of a header. -/
def Passage.enters : Passage → Origin → Bool
  | .toKey, .header => false
  | _, _ => true

/-- A change of the table at the end of a path. -/
def along (passage : Passage) (change : Change) : List String → Change
  | [] => change
  | key :: path => fun _ nodes =>
    let further := along passage change path
    match nodes.find? key with
    | none =>
      (further passage.origin []).map fun inner => nodes.insert key (.table passage.origin inner)
    | some (.table origin inner) =>
      if passage.enters origin then
        (further origin inner).map fun inner => nodes.insert key (.table origin inner)
      else none
    | some (.tables before last) =>
      (further .header last).map fun last => nodes.insert key (.tables before last)
    | some (.value _) => none

/-- Adds a node under a key that is not taken. -/
def addNew (key : String) (node : Node) : Change := fun _ nodes =>
  if nodes.has key then none else some (nodes.insert key node)

/-- Adds a value. The last table on the way of a dotted key was written by dotted keys, and a table
that was written by dotted keys gets no others. -/
def addValue (path : List String) (key : String) (value : Value) : Change :=
  along .toKey (fun origin nodes =>
    if origin = .dotted ↔ path = [] then none else addNew key (.value value) origin nodes) path

def openTable (key : String) : Change := fun _ nodes =>
  match nodes.find? key with
  | none => some (nodes.insert key (.table .header []))
  | some (.table .implied inner) => some (nodes.insert key (.table .header inner))
  | some _ => none

def openNext (key : String) : Change := fun _ nodes =>
  match nodes.find? key with
  | none => some (nodes.insert key (.tables [] []))
  | some (.tables before last) => some (nodes.insert key (.tables (before ++ [last]) []))
  | some _ => none

mutual

def toValue : Node → Value
  | .value v => v
  | .table _ entries => .table (toEntries entries)
  | .tables before last => .array (toTables before ++ [.table (toEntries last)])

def toEntries : List (String × Node) → List (String × Value)
  | [] => []
  | entry :: rest => toEntry entry :: toEntries rest

def toEntry : String × Node → String × Value
  | (key, node) => (key, toValue node)

def toTables : List (List (String × Node)) → List Value
  | [] => []
  | entries :: rest => .table (toEntries entries) :: toTables rest

end

end Node

end Warren.Toml
