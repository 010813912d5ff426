import Warren.Api.Server
import Warren.JobId
import Warren.Objects.Mount
import Warren.Objects.Workflow

/-!
# Cleaning up workflows

At the end of a job its workflow is moved to its last stage and later deleted. Both release the
finalizer of the service, and leave the finalizers of others alone.
-/

namespace Warren

namespace Api

def observe (call : Call α) : Call (Except Fault α) := ExceptT.lift (ExceptT.run call)

def stagePatch (stage : Stage) : Json :=
  .object [("spec", .object [("desiredState", stage.encode)])]

def getWorkflow (name : String) : Call Json := get .workflow defaultSpace name

def patchWorkflow (name : String) (body : Json) : Call Unit := do
  discard <| patch .workflow defaultSpace name body

def decoded (decode : Decoder α) (object : Json) : Call α :=
  match decode object with
  | some a => pure a
  | none => throw .decode

end Api

namespace Cleanup

inductive Request where
  /-- Release the finalizer and delete the workflow. -/
  | delete (name : String) (finalizers : List String)
  /-- Release the finalizer and move the workflow to its last stage. -/
  | teardown (id : JobId) (name : String) (finalizers : List String) (saved : Nat)
deriving DecidableEq, Repr

def finalizer : String := "flux-framework.readthedocs.io/workflow"

def others (finalizers : List String) : List String := finalizers.filter (· ≠ finalizer)

def finalizersPatch (finalizers : List String) : Json :=
  Api.metadataPatch [("finalizers", .strings (others finalizers))]

def currentFinalizers (name : String) : Api.Call (List String) := do
  let w ← Api.decoded Workflow.decode? (← Api.getWorkflow name)
  return w.finalizers

/-- Removes the finalizer of the service, if it is among some finalizers. -/
def dropFinalizer (name : String) (finalizers : List String) : Api.Call Unit :=
  if finalizers.contains finalizer then Api.patchWorkflow name (finalizersPatch finalizers)
  else pure ()

/-- Removes the finalizer of the service from a workflow with the given finalizers. If that fails,
it is tried once more with the finalizers that the workflow has then. -/
def releaseFinalizer (name : String) (finalizers : List String) : Api.Call Unit := do
  match ← Api.observe (dropFinalizer name finalizers) with
  | .ok () => pure ()
  | .error fault =>
    if fault.isNotFound then pure ()
    else dropFinalizer name (← currentFinalizers name)

def deleteWorkflow (name : String) (finalizers : List String) : Api.Call Unit := do
  releaseFinalizer name finalizers
  Api.delete .workflow Api.defaultSpace name

def teardownWorkflow (name : String) (finalizers : List String) : Api.Call Unit :=
  Api.patchWorkflow name ((Api.stagePatch .teardown).merge (finalizersPatch finalizers))

/-- Some data movements of a workflow, those that failed first. -/
def dataMovements (name : String) (count : Nat) : Api.Call (List Json) := do
  if count = 0 then return []
  let limit := min count (UInt32.size - 1)
  let (found, _) ← Api.list .dataMovement .cluster (some (Api.workflowSelector name)) (some limit)
  let (failed, rest) := found.partition dataMovementFailed
  return (failed ++ rest).take count

end Cleanup

end Warren
