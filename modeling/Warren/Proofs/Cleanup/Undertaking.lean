import Warren.Cleanup.Task
import Warren.Proofs.Cleanup.Respect

/-!
# Undertakings of the cleanup

A workflow is released or cleaned up request by request, and other controllers write its finalizers
before each of them. An `Undertaking` is what is left to do. Where nothing comes in between it does
what the conversations of the service do: see `onwards_release`, `onwards_attempt` and
`onwards_resume`. `harmless_throughout_iff` says when the finalizers of others stay as they are
stored, whatever comes in between.
-/

namespace Warren.Cleanup

open Api Api.Server

variable {s t : Server} {name : String}

/-! ### Tasks -/

/-- What goes on with a task after an attempt with some outcome. -/
def Task.after (task : Task) : Except Fault Unit → Option Task
  | .ok () => none
  | .error fault =>
    if fault.isNotFound then none else some { task with backoff := task.backoff.fail }

theorem Task.attempt_apply (task : Task) (s : Server) :
    task.attempt s = (task.after (task.act.run s).1, (task.act.run s).2) := by
  rw [attempt, bind_apply]
  cases (task.act.run s).1 <;> rfl

theorem Task.refresh_apply (task : Task) (s : Server) : task.refresh s =
    match (currentFinalizers task.name).run s with
      | (.ok finalizers, t) => (some { task with finalizers }, t)
      | (.error fault, t) => (if fault.isNotFound then none else some task, t) := by
  rw [refresh, bind_apply]
  obtain ⟨out, t⟩ := (currentFinalizers task.name).run s
  cases out <;> rfl

/-! ### Undertakings -/

/-- What is to be asked next about a workflow, and the task that it is asked for, if it is one. -/
inductive Undertaking where
  /-- The finalizer of the service is taken from the workflow as last seen. -/
  | release (task : Option Task) (name : String) (finalizers : List String)
  /-- The workflow is looked at because that failed. -/
  | reread (task : Option Task) (name : String)
  /-- The finalizer of the service is taken from the workflow as it was just read. -/
  | drop (task : Option Task) (name : String) (finalizers : List String)
  | delete (task : Task)
  | tearDown (task : Task)
  /-- The workflow is looked at before the next attempt. -/
  | refresh (task : Task)

namespace Undertaking

def ofTask (task : Task) : Undertaking :=
  match task.aim with
  | .delete => .release (some task) task.name task.finalizers
  | .teardown => .tearDown task

/-- A task pauses after an attempt that failed. -/
def pause (task : Option Task) (outcome : Except Fault Unit) : Option Undertaking :=
  (task.bind (·.after outcome)).map .refresh

/-- What is left to do after the answer to the first patch. -/
def released (task : Option Task) (name : String) : Except Fault Unit → Option Undertaking
  | .ok () => task.map .delete
  | .error fault => if fault.isNotFound then task.map .delete else some (.reread task name)

def seen (task : Option Task) (name : String) :
    Except Fault (List String) → Option Undertaking
  | .ok finalizers => some (.drop task name finalizers)
  | .error fault => pause task (.error fault)

def dropped (task : Option Task) : Except Fault Unit → Option Undertaking
  | .ok () => task.map .delete
  | .error fault => pause task (.error fault)

/-- One request, or none if there is no finalizer to take. -/
def proceed : Undertaking → StateM Server (Option Undertaking)
  | .release task name finalizers =>
    return released task name (← (dropFinalizer name finalizers).run)
  | .reread task name => return seen task name (← (currentFinalizers name).run)
  | .drop task name finalizers => return dropped task (← (dropFinalizer name finalizers).run)
  | .delete task => return pause (some task) (← (Api.delete .workflow defaultSpace task.name).run)
  | .tearDown task =>
    return pause (some task) (← (teardownWorkflow task.name task.finalizers).run)
  | .refresh task => return (← task.refresh).map ofTask

/-! ### Nothing in between -/

/-- So many requests without a pause. -/
def onwards : Nat → Option Undertaking → StateM Server (Option Undertaking)
  | n + 1, some u => match u with
    | .refresh task => return some (.refresh task)
    | _ => do onwards n (← u.proceed)
  | _, left => return left

variable {task : Option Task} {finalizers : List String}

theorem onwards_none (n : Nat) (s : Server) : onwards n none s = (none, s) := by
  cases n <;> rfl

theorem onwards_pause (n : Nat) (task : Option Task) (outcome : Except Fault Unit) (s : Server) :
    onwards n (pause task outcome) s = (pause task outcome, s) := by
  unfold pause
  cases task.bind (·.after outcome) with
  | none => exact onwards_none n s
  | some task => cases n <;> rfl

theorem onwards_tearDown (n : Nat) (task : Task) (s : Server) :
    onwards (n + 1) (some (.tearDown task)) s =
      (pause (some task) ((teardownWorkflow task.name task.finalizers).run s).1,
        ((teardownWorkflow task.name task.finalizers).run s).2) :=
  onwards_pause n (some task) _ _

theorem onwards_delete (n : Nat) (task : Task) (s : Server) :
    onwards (n + 1) (some (.delete task)) s =
      (pause (some task) ((Api.delete .workflow defaultSpace task.name).run s).1,
        ((Api.delete .workflow defaultSpace task.name).run s).2) :=
  onwards_pause n (some task) _ _

/-- What follows a release: a task that deletes its workflow goes on to do so. -/
def outcome (task : Option Task) (released : Except Fault Unit × Server) :
    Option Undertaking × Server :=
  match released, task with
  | (.error fault, t), _ => (pause task (.error fault), t)
  | (.ok _, t), none => (none, t)
  | (.ok _, t), some task =>
    (pause (some task) ((Api.delete .workflow defaultSpace task.name).run t).1,
      ((Api.delete .workflow defaultSpace task.name).run t).2)

theorem onwards_map_delete (n : Nat) (task : Option Task) (s : Server) :
    onwards (n + 1) (task.map .delete) s = outcome task (.ok (), s) := by
  cases task with
  | none => rfl
  | some task => exact onwards_delete n task s

theorem onwards_drop (n : Nat) (task : Option Task) (name : String) (finalizers : List String)
    (s : Server) : onwards (n + 2) (some (.drop task name finalizers)) s =
      outcome task ((dropFinalizer name finalizers).run s) := by
  change onwards (n + 1) (dropped task ((dropFinalizer name finalizers).run s).1)
    ((dropFinalizer name finalizers).run s).2 = _
  obtain ⟨out, t⟩ := (dropFinalizer name finalizers).run s
  cases out with
  | ok _ => exact onwards_map_delete n task t
  | error fault => exact onwards_pause (n + 1) task (.error fault) t

theorem run_releaseFinalizer (name : String) (finalizers : List String) (s : Server) :
    (releaseFinalizer name finalizers).run s = match (dropFinalizer name finalizers).run s with
      | (.ok _, t) => (.ok (), t)
      | (.error fault, t) => if fault.isNotFound then (.ok (), t)
          else (do dropFinalizer name (← currentFinalizers name)).run t := by
  have hobserve : (Api.observe (dropFinalizer name finalizers)).run s =
      (.ok ((dropFinalizer name finalizers).run s).1, ((dropFinalizer name finalizers).run s).2) :=
    rfl
  rw [releaseFinalizer, run_bind_ok hobserve]
  obtain ⟨out, t⟩ := (dropFinalizer name finalizers).run s
  cases out with
  | ok _ => rfl
  | error fault =>
    dsimp only
    cases fault.isNotFound <;> rfl

theorem onwards_release (n : Nat) (task : Option Task) (name : String) (finalizers : List String)
    (s : Server) : onwards (n + 4) (some (.release task name finalizers)) s =
      outcome task ((releaseFinalizer name finalizers).run s) := by
  change onwards (n + 3) (released task name ((dropFinalizer name finalizers).run s).1)
    ((dropFinalizer name finalizers).run s).2 = _
  rw [run_releaseFinalizer]
  obtain ⟨out, t⟩ := (dropFinalizer name finalizers).run s
  cases out with
  | ok _ => exact onwards_map_delete (n + 2) task t
  | error fault =>
    dsimp only
    unfold released
    dsimp only
    cases fault.isNotFound with
    | true => exact onwards_map_delete (n + 2) task t
    | false =>
      rw [if_neg Bool.false_ne_true, if_neg Bool.false_ne_true, run_bind_apply]
      change onwards (n + 2) (seen task name ((currentFinalizers name).run t).1)
        ((currentFinalizers name).run t).2 = _
      obtain ⟨found, u⟩ := (currentFinalizers name).run t
      cases found with
      | ok current => exact onwards_drop n task name current u
      | error fault => exact onwards_pause (n + 2) task (.error fault) u

theorem onwards_attempt (task : Task) (s : Server) : onwards 4 (some (ofTask task)) s =
    ((task.attempt s).1.map .refresh, (task.attempt s).2) := by
  rw [Task.attempt_apply]
  unfold ofTask Task.act
  cases task.aim with
  | teardown => exact onwards_tearDown 3 task s
  | delete =>
    dsimp only
    rw [onwards_release 0, deleteWorkflow, run_bind_apply]
    obtain ⟨out, t⟩ := (releaseFinalizer task.name task.finalizers).run s
    cases out <;> rfl

theorem onwards_resume (task : Task) (s : Server) :
    onwards 4 ((Undertaking.refresh task).proceed s).1 ((Undertaking.refresh task).proceed s).2 =
      ((task.resume s).1.map .refresh, (task.resume s).2) := by
  rw [Task.resume, bind_apply]
  change onwards 4 ((task.refresh s).1.map ofTask) (task.refresh s).2 = _
  cases (task.refresh s).1 with
  | none => rfl
  | some next => exact onwards_attempt next (task.refresh s).2

/-! ### Others in between -/

/-- If the next request is a patch of finalizers, it leaves those of others as they are stored. -/
def IsHarmless (s : Server) (u : Undertaking) : Prop := Respected s (u.proceed s).2

/-- The next request does not replace the finalizers of the workflow, or is refused when it does so,
or the copy that they are taken from is current. -/
def IsSafe (s : Server) : Undertaking → Prop
  | .release _ name finalizers | .drop _ name finalizers =>
    finalizers.contains finalizer = true → s.grants .patch = true → s.IsCurrent name finalizers
  | .tearDown task => s.grants .patch = true → s.IsCurrent task.name task.finalizers
  | .reread .. | .delete _ | .refresh _ => True

/-- Every request of an undertaking has a property, whatever happens to the server before each of
them. -/
def Throughout (P : Server → Undertaking → Prop) :
    Server → Option Undertaking → List (List Occurrence) → Prop
  | s, some u, past :: rest =>
    P (s.after past) u ∧
      Throughout P (u.proceed (s.after past)).2 (u.proceed (s.after past)).1 rest
  | _, _, _ => True

theorem isHarmless_iff (s : Server) (u : Undertaking) : IsHarmless s u ↔ IsSafe s u := by
  have looked (name : String) : Respected s ((currentFinalizers name).run s).2 := by
    rw [state_currentFinalizers]
    exact respected_look name s
  cases u with
  | release task name finalizers => exact respected_dropFinalizer_iff
  | drop task name finalizers => exact respected_dropFinalizer_iff
  | tearDown task => exact respected_teardownWorkflow_iff
  | reread task name => exact iff_of_true (looked name) trivial
  | refresh task =>
    have hstate : ((Undertaking.refresh task).proceed s).2 =
        ((currentFinalizers task.name).run s).2 := by
      change (task.refresh s).2 = _
      rw [Task.refresh_apply]
      obtain ⟨out, t⟩ := (currentFinalizers task.name).run s
      cases out <;> rfl
    rw [IsHarmless, hstate]
    exact iff_of_true (looked task.name) trivial
  | delete task =>
    have deleted : Respected s (s.serve (.delete .workflow defaultSpace task.name)) :=
      (respected_serve ..).mpr trivial
    exact iff_of_true deleted trivial

/-- Whatever happens to a server before the requests of an undertaking, and whichever of them fail,
the patches of the finalizers of its workflow leave those of others as they are stored exactly if
each is refused or made from a current copy. -/
theorem harmless_throughout_iff (s : Server) (left : Option Undertaking)
    (course : List (List Occurrence)) :
    Throughout IsHarmless s left course ↔ Throughout IsSafe s left course := by
  induction course generalizing s left with
  | nil => cases left <;> exact Iff.rfl
  | cons past rest ih =>
    cases left with
    | none => exact Iff.rfl
    | some u => exact and_congr (isHarmless_iff _ u) (ih _ _)

/-- A workflow gets a second finalizer after it was last seen. -/
def claimed : Occurrence :=
  .put (workflowKey "fluxjob-1") (metadataPatch [("finalizers", .strings [finalizer, "other"])])

/-- The second finalizer goes with the first one. -/
theorem release_takes_foreign : ¬Throughout IsHarmless Server.empty
    (some (.release none "fluxjob-1" [finalizer])) [[claimed]] := by
  intro harmless
  have safe := (isHarmless_iff _ _).mp harmless.1 (by decide) rfl
  have lost := safe _ rfl
  revert lost
  decide +kernel

end Undertaking

end Warren.Cleanup
