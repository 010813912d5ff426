import Warren.Json.Equality

/-!
# Objects of the API

Objects live in collections, under a namespace and a name. This module names the collections, the
requests made against them, the events that watches report and the faults of requests.
-/

namespace Warren.Api

/-- A collection of objects of one kind. -/
structure Kind where
  group : String
  version : String
  kind : String
  plural : String
deriving DecidableEq, Repr

def workflowGroup : String := "dataworkflowservices.github.io"

/-- The namespace of workflows and of references that name none. -/
def defaultSpace : String := "default"

/-- A namespace, where the empty one stands for the default. -/
def spaceOrDefault (space : String) : String := if space = "" then defaultSpace else space

namespace Kind

def ofWorkflowGroup (kind plural : String) : Kind := ⟨workflowGroup, "v1alpha2", kind, plural⟩

/-- The version with the group, if the kind has one. -/
def apiVersion (k : Kind) : String :=
  if k.group = "" then k.version else k.group ++ "/" ++ k.version

def workflow : Kind := ofWorkflowGroup "Workflow" "workflows"
def storage : Kind := ofWorkflowGroup "Storage" "storages"
def breakdown : Kind := ofWorkflowGroup "DirectiveBreakdown" "directivebreakdowns"
def computes : Kind := ofWorkflowGroup "Computes" "computes"
def servers : Kind := ofWorkflowGroup "Servers" "servers"
def inventory : Kind := ofWorkflowGroup "SystemConfiguration" "systemconfigurations"
def clientMount : Kind := ofWorkflowGroup "ClientMount" "clientmounts"
def dataMovement : Kind := ⟨"nnf.cray.hpe.com", "v1alpha6", "NnfDataMovement", "nnfdatamovements"⟩
def secret : Kind := ⟨"", "v1", "Secret", "secrets"⟩

end Kind

/-- The label selector of the objects that belong to a workflow. -/
def workflowSelector (name : String) : String :=
  let label := workflowGroup ++ "/workflow"
  s!"{label}.name={name},{label}.namespace={defaultSpace}"

/-- The part of a collection that a request is about. -/
inductive Scope where
  | space (name : String)
  | cluster
deriving DecidableEq, Repr

def Scope.holds : Scope → String → Bool
  | .space name, other => name = other
  | .cluster, _ => true

inductive Verb where
  | get
  | list
  | create
  | patch
  | delete
  | watch
deriving DecidableEq, Repr

inductive Fault where
  /-- The server answered with an error status. -/
  | status (code : Nat) (message : String)
  /-- The server was not reached. -/
  | transport (message : String)
  /-- The answer does not have the form of the object asked for. -/
  | decode
deriving DecidableEq, Repr

namespace Fault

def message : Fault → String
  | .status code text => s!"API request failed with status {code}: {text}"
  | .transport text => s!"API request failed: {text}"
  | .decode => "Cannot decode API object"

def code? : Fault → Option Nat
  | .status code _ => some code
  | _ => none

def isNotFound (f : Fault) : Bool := f.code? = some 404

def isConflict (f : Fault) : Bool := f.code? = some 409

/-- The version is too old to resume a watch from. -/
def isGone (f : Fault) : Bool := f.code? = some 410

def notFound (name : String) : Fault := .status 404 s!"{name} not found"

def alreadyExists (name : String) : Fault := .status 409 s!"{name} already exists"

@[simp] theorem isNotFound_notFound (name : String) : (notFound name).isNotFound = true := rfl

end Fault

inductive Event where
  | added (object : Json)
  | modified (object : Json)
  | deleted (object : Json)
  /-- Only moves the version on. -/
  | bookmark (version : String)
  /-- The watch failed on the side of the server. -/
  | error (code : Nat) (message : String)
deriving DecidableEq, Repr

namespace Event

def object? : Event → Option Json
  | .added object | .modified object | .deleted object => some object
  | .bookmark _ | .error _ _ => none

def version? : Event → Option String
  | .bookmark version => some version
  | event => (event.object?.bind (·.path? ["metadata", "resourceVersion"])).bind Json.string?

end Event

/-- A request as the server sees it. -/
inductive Request where
  | get (kind : Kind) (space name : String)
  | list (kind : Kind) (scope : Scope) (selector : Option String) (limit : Option Nat)
  | create (kind : Kind) (space : String) (body : Json)
  | patch (kind : Kind) (space name : String) (body : Json)
  | delete (kind : Kind) (space name : String)
  | watch (kind : Kind) (scope : Scope) (version : String)
deriving DecidableEq, Repr

end Warren.Api
