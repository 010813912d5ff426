import Warren.Api.Basic
import Warren.Json.Patch
import Warren.Text.Numeral
import Warren.Text.Split

/-!
# An API server

A server keeps objects with their versions in memory, and a log of what happened to them for the
watches. Requests may fail: the outcomes that are scripted for a kind of request are used up one
by one, and a request that is to fail leaves the objects, the version and the log as they are.
-/

namespace Warren.Api

structure Key where
  plural : String
  space : String
  name : String
deriving DecidableEq, Repr

def Kind.key (kind : Kind) (space name : String) : Key := ⟨kind.plural, space, name⟩

/-- Keys are ordered by collection, then by namespace, then by name. -/
def Key.Before (a b : Key) : Prop :=
  a.plural < b.plural ∨ (a.plural = b.plural ∧
    (a.space < b.space ∨ (a.space = b.space ∧ a.name < b.name)))

instance : LT Key := ⟨Key.Before⟩

instance : DecidableLT Key := fun a b =>
  inferInstanceAs (Decidable (a.plural < b.plural ∨ (a.plural = b.plural ∧
    (a.space < b.space ∨ (a.space = b.space ∧ a.name < b.name)))))

/-- Something that happened to an object at some version. -/
structure Change where
  key : Key
  version : Nat
  event : Event
deriving Repr

structure Server where
  objects : Dict Key Json
  version : Nat
  /-- What happened, the oldest first. -/
  log : List Change
  /-- A watch from below this version is refused. -/
  compactedBefore : Nat
  /-- Such a watch is refused with an event in its answer instead of a status. -/
  goneAsEvent : Bool
  /-- The outcomes of the next requests of each kind, where `none` lets a request through. -/
  outcomes : Verb → List (Option Fault)
  /-- The answers of the next watches, given without a look at the objects. -/
  scripted : List (List Event)
  /-- The requests received, the oldest first. -/
  requests : List Request

/-- A conversation with a server, which may end in a fault. -/
abbrev Call := ExceptT Fault (StateM Server)

def Request.verb : Request → Verb
  | .get .. => .get
  | .list .. => .list
  | .create .. => .create
  | .patch .. => .patch
  | .delete .. => .delete
  | .watch .. => .watch

/-- The finalizers of an object, none if they are no array. -/
def finalizersOf (object : Json) : List Json :=
  ((object.path? ["metadata", "finalizers"]).bind Json.items?).getD []

def isDeleting (object : Json) : Bool := (object.path? ["metadata", "deletionTimestamp"]).isSome

def metadataPatch (fields : List (String × Json)) : Json :=
  .object [("metadata", Json.ofFields fields)]

/-- Whether an object carries the labels of a selector, which are separated by commas. -/
def matchesSelector (object : Json) : Option String → Bool
  | none => true
  | some selector => (Text.pieces ',' selector.toList).all fun term =>
    match Text.cut? '=' term with
    | some (key, value) =>
      let label := object.path? ["metadata", "labels", String.ofList key]
      label.bind Json.string? = some (String.ofList value)
    | none => false

namespace Server

def empty : Server := ⟨[], 0, [], 0, false, fun _ => [], [], []⟩

def object? (s : Server) (key : Key) : Option Json := s.objects.find? key

/-- The stored objects of a kind in scope, in the order of their keys. -/
def objectsIn (s : Server) (kind : Kind) (scope : Scope) : List Json :=
  (s.objects.filter fun (key, _) => key.plural = kind.plural && scope.holds key.space).map Prod.snd

/-! ### Changes -/

/-- An object as it is stored: with its name, its namespace and its version. -/
def stamped (s : Server) (key : Key) (object : Json) : Json :=
  object.merge (metadataPatch [("name", .string key.name), ("namespace", .string key.space),
    ("resourceVersion", .string (toString (s.version + 1)))])

def store (s : Server) (key : Key) (object : Json) (isNew : Bool) : Server :=
  let object := s.stamped key object
  { s with
    objects := s.objects.insert key object
    version := s.version + 1
    log := s.log ++ [⟨key, s.version + 1, if isNew then .added object else .modified object⟩] }

def remove (s : Server) (key : Key) : Server :=
  match s.object? key with
  | none => s
  | some object =>
    let object := object.merge
      (metadataPatch [("resourceVersion", .string (toString (s.version + 1)))])
    { s with
      objects := s.objects.erase key
      version := s.version + 1
      log := s.log ++ [⟨key, s.version + 1, .deleted object⟩] }

/-- Stores an object in place of the one under its key, if there is one. -/
def put (s : Server) (key : Key) (object : Json) : Server :=
  s.store key object (s.object? key).isNone

def update (s : Server) (key : Key) (patch : Json) : Server :=
  s.store key (((s.object? key).getD .null).merge patch) false

/-- Forgets what happened so far: a watch from an earlier version is refused from now on. -/
def compact (s : Server) (asEvent : Bool) : Server :=
  { s with compactedBefore := s.version, goneAsEvent := asEvent }

/-- Adds to the outcomes of the next requests of a kind. -/
def script (s : Server) (verb : Verb) (added : List (Option Fault)) : Server :=
  { s with outcomes := fun v => if v = verb then s.outcomes v ++ added else s.outcomes v }

def inject (s : Server) (events : List Event) : Server :=
  { s with scripted := s.scripted ++ [events] }

/-! ### Requests -/

def receive (s : Server) (request : Request) : Server :=
  { s with requests := s.requests ++ [request] }

/-- Uses up the outcome of the next request of a kind. -/
def outcome (s : Server) (verb : Verb) : Option Fault × Server :=
  match s.outcomes verb with
  | [] => (none, s)
  | next :: rest =>
    (next, { s with outcomes := fun v => if v = verb then rest else s.outcomes v })

/-- The answer to a patch. An object that is being deleted goes with its last finalizer. -/
def applyPatch (s : Server) (key : Key) (patch : Json) : Except Fault Json × Server :=
  match s.object? key with
  | none => (.error (.notFound key.name), s)
  | some object =>
    let object := object.merge patch
    if isDeleting object ∧ (finalizersOf object).isEmpty then (.ok object, s.remove key)
    else (.ok (s.stamped key object), s.store key object false)

def applyCreate (s : Server) (key : Key) (body : Json) : Except Fault Json × Server :=
  match s.object? key with
  | some _ => (.error (.alreadyExists key.name), s)
  | none => (.ok (s.stamped key body), s.store key body true)

/-- The answer to a deletion. An object with finalizers is only marked. -/
def applyDelete (s : Server) (key : Key) : Except Fault Unit × Server :=
  match s.object? key with
  | none => (.error (.notFound key.name), s)
  | some object =>
    if (finalizersOf object).isEmpty then (.ok (), s.remove key)
    else
      let marked := object.merge
        (metadataPatch [("deletionTimestamp", .string "2024-01-01T00:00:00Z")])
      (.ok (), s.store key marked false)

/-- The events of a kind in scope after a version; after version zero, the stored objects. -/
def eventsSince (s : Server) (kind : Kind) (scope : Scope) (since : Nat) :
    Except Fault (List Event) :=
  if since = 0 then .ok ((s.objectsIn kind scope).map .added)
  else if since < s.compactedBefore then
    let message := s!"too old resource version: {since}"
    if s.goneAsEvent then .ok [.error 410 message] else .error (.status 410 message)
  else
    .ok ((s.log.filter fun c => c.key.plural = kind.plural && since < c.version
      && scope.holds c.key.space).map Change.event)

end Server

/-- Makes a request, which is answered by `act` unless it is to fail. -/
def answer (request : Request) (act : Server → Except Fault α × Server) : Call α := fun s =>
  match (s.receive request).outcome request.verb with
  | (some fault, s) => (.error fault, s)
  | (none, s) => act s

def get (kind : Kind) (space name : String) : Call Json :=
  answer (.get kind space name) fun s =>
    match s.object? (kind.key space name) with
    | some object => (.ok object, s)
    | none => (.error (.notFound name), s)

/-- The name in the metadata of an object, empty if there is none. -/
def nameOf (object : Json) : String :=
  ((object.path? ["metadata", "name"]).bind Json.string?).getD ""

/-- Reads the objects in scope that carry the labels of a selector, up to a limit. The answer
comes with the version from which a watch has to go on. -/
def list (kind : Kind) (scope : Scope) (selector : Option String) (limit : Option Nat) :
    Call (List Json × String) :=
  answer (.list kind scope selector limit) fun s =>
    let found := (s.objectsIn kind scope).filter (matchesSelector · selector)
    (.ok (found.take (limit.getD found.length), toString s.version), s)

def create (kind : Kind) (space : String) (body : Json) : Call Json :=
  answer (.create kind space body) (·.applyCreate (kind.key space (nameOf body)) body)

def patch (kind : Kind) (space name : String) (body : Json) : Call Json :=
  answer (.patch kind space name body) (·.applyPatch (kind.key space name) body)

def delete (kind : Kind) (space name : String) : Call Unit :=
  answer (.delete kind space name) (·.applyDelete (kind.key space name))

/-- Reads what happened to the objects in scope after a version. -/
def watch (kind : Kind) (scope : Scope) (version : String) : Call (List Event) := fun s =>
  match s.scripted with
  | events :: rest =>
    (.ok events, { s.receive (.watch kind scope version) with scripted := rest })
  | [] => (answer (.watch kind scope version) fun s =>
      (s.eventsSince kind scope ((Text.readBelow? UInt64.size version.toList).getD 0), s)) s

end Warren.Api
