import Warren.Backoff
import Warren.Cleanup.Basic
import Warren.Message.Notice

/-!
# Cleanup tasks

A task serves one request until it succeeds or the workflow is gone. It pauses after every failure,
and looks at the workflow again before the next attempt.
-/

namespace Warren.Cleanup

/-- What a task wants to reach. -/
inductive Aim where
  | delete
  | teardown
deriving DecidableEq, Repr

/-- A task between two attempts. -/
structure Task where
  aim : Aim
  name : String
  /-- The finalizers of the workflow as last seen. -/
  finalizers : List String
  backoff : Backoff
deriving DecidableEq, Repr

namespace Task

def ofRequest (backoff : Backoff) : Request → Task
  | .delete name finalizers => ⟨.delete, name, finalizers, backoff⟩
  | .teardown _ name finalizers _ => ⟨.teardown, name, finalizers, backoff⟩

def act (t : Task) : Api.Call Unit :=
  match t.aim with
  | .delete => deleteWorkflow t.name t.finalizers
  | .teardown => teardownWorkflow t.name t.finalizers

/-- One attempt. The task goes on if it failed and the workflow is not gone. -/
def attempt (t : Task) : StateM Api.Server (Option Task) := do
  match ← t.act.run with
  | .ok () => return none
  | .error fault =>
    return if fault.isNotFound then none else some { t with backoff := t.backoff.fail }

/-- Looks at the workflow again. The task is over if it is gone. -/
def refresh (t : Task) : StateM Api.Server (Option Task) := do
  match ← (currentFinalizers t.name).run with
  | .ok finalizers => return some { t with finalizers }
  | .error fault => return if fault.isNotFound then none else some t

def resume (t : Task) : StateM Api.Server (Option Task) := do
  match ← t.refresh with
  | some t => t.attempt
  | none => return none

end Task

/-- Entries for the record of a job with some data movements, none without any. -/
def movementNotices (id : JobId) (movements : List Json) : List Notice :=
  if movements.isEmpty then [] else [.kvsPut id [("rabbit_datamovements", .array movements)]]

/-- What comes before the first attempt: the data movements of a workflow are kept, if they can be
read. -/
def prepare : Request → StateM Api.Server (List Notice)
  | .delete .. => return []
  | .teardown id name _ saved => do
    match ← (dataMovements name saved).run with
    | .ok movements => return movementNotices id movements
    | .error _ => return []

end Warren.Cleanup
