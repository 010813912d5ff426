import Warren.Proofs.Cleanup.Waning

/-!
# Attempts of a cleanup task

An attempt of a task reaches its aim, finds the workflow gone, or uses up a fault that was scripted
(`Task.IsFit.reached`, `Task.IsFit.again`). Looking at the workflow again keeps a task fit for the
next attempt (`Task.IsFit.refreshed`), or finds the workflow gone (`Task.IsFit.gone`).
-/

namespace Warren

namespace Cleanup

open Api Api.Server

variable {s t u : Server} {name : String} {finalizers : List String}

/-! ### Conversations -/

theorem releases_finalizersPatch (kind : Kind) (space name : String) (finalizers : List String) :
    (Request.patch kind space name (finalizersPatch finalizers)).Releases :=
  ⟨finalizers, installs_finalizersPatch finalizers⟩

theorem releases_teardownPatch (name : String) (finalizers : List String) :
    (Request.patch .workflow defaultSpace name (teardownPatch finalizers)).Releases :=
  ⟨finalizers, installs_teardownPatch finalizers⟩

theorem asks_act (task : Task) : Asks Request.Releases task.act := by
  unfold Task.act
  cases task.aim with
  | delete =>
    have released : Asks Request.Releases (releaseFinalizer task.name task.finalizers) :=
      asks_releaseFinalizer trivial (releases_finalizersPatch _ _ _) task.finalizers
    exact released.bind fun _ => .delete trivial
  | teardown => exact .discard (.patch (releases_teardownPatch task.name task.finalizers))

theorem ends_dropFinalizer (hs : s.IsHonest) (hknown : s.IsHeld name → finalizer ∈ finalizers) :
    Ends name (¬·.IsHeld name) s ((dropFinalizer name finalizers).run s) := by
  unfold dropFinalizer
  by_cases hin : finalizers.contains finalizer = true
  · rw [if_pos hin]
    refine ends_patch hs (releases_finalizersPatch ..) fun t object _ ht => ?_
    rintro ⟨after, hafter, hmem⟩
    exact not_mem_of_patched (installs_finalizersPatch finalizers) (ht.symm.trans hafter) hmem
  · rw [if_neg hin]
    exact .met fun hheld => hin (List.contains_iff_mem.mpr (hknown hheld))

theorem run_currentFinalizers_cases (hs : s.IsHonest) (name : String) :
    (∃ found t, (currentFinalizers name).run s = (.ok found, t) ∧
      (s.IsHeld name → finalizer ∈ found)) ∨
    ∃ fault t, (currentFinalizers name).run s = (.error fault, t) ∧
      (fault.isNotFound = true → s.workflow? name = none) := by
  rw [run_currentFinalizers]
  cases hget : (Api.get .workflow defaultSpace name).run s with
  | mk out v =>
    cases out with
    | ok object =>
      have hobject : s.workflow? name = some object := object?_of_run_get hget
      cases hw : Workflow.decode? object with
      | none => exact .inr ⟨.decode, v, by simp only [hw], nofun⟩
      | some w =>
        refine .inl ⟨w.finalizers, v, by simp only [hw], ?_⟩
        rintro ⟨stored, hstored, hmem⟩
        obtain rfl := Option.some.inj (hobject.symm.trans hstored)
        exact Workflow.mem_finalizers_of_decode? hw hmem
    | error fault =>
      refine .inr ⟨fault, v, rfl, fun hmissing => ?_⟩
      rw [Api.get, run_answer, show (Request.get Kind.workflow defaultSpace name).verb =
        (lookRequest name).verb from rfl] at hget
      cases hout : (s.outcome (lookRequest name).verb).1 with
      | some scripted =>
        rw [hout, Option.elim_some] at hget
        have hfault : scripted = fault := Except.error.inj (congrArg Prod.fst hget)
        have hnot := isNotFound_of_outcome hs (by simp [lookRequest, Request.verb]) hout
        rw [hfault, hmissing] at hnot
        cases hnot
      | none =>
        rw [hout, Option.elim_none, object?_noted] at hget
        cases ho : s.workflow? name with
        | none => rfl
        | some object =>
          rw [show s.object? (Kind.workflow.key defaultSpace name) = some object from ho] at hget
          cases hget

theorem asks_reread : Asks Request.Releases (currentFinalizers name) :=
  asks_currentFinalizers trivial

theorem wanes_of_asks {call : Api.Call α} (h : Asks Request.Releases call) (name : String)
    (s : Server) : Wanes name s (call.run s).2 := (h s).wanes name

/-- What is left of a release whose first patch was refused can fail again. -/
theorem ends_reread (hs : s.IsHonest) (hfewer : s.pending < u.pending) :
    Ends name (¬·.IsHeld name) u
      ((do dropFinalizer name (← currentFinalizers name) : Api.Call Unit).run s) := by
  have waned : Wanes name s ((currentFinalizers name).run s).2 := wanes_of_asks asks_reread name s
  have hle := waned.pending_le
  have hhonest := waned.isHonest hs
  rw [run_bind_apply]
  obtain ⟨found, v, hread, hknown⟩ | ⟨fault, v, hread, hgone⟩ := run_currentFinalizers_cases hs name
  · rw [hread] at waned hle hhonest ⊢
    exact (ends_dropFinalizer hhonest (hknown ∘ waned.held)).of_le (by omega)
  · rw [hread] at waned hle ⊢
    cases hkind : fault.isNotFound with
    | true => exact .missing hkind (waned.absent (hgone hkind))
    | false => exact .refused hkind (Nat.lt_of_le_of_lt hle hfewer)

theorem ends_releaseFinalizer (hs : s.IsHonest) (hknown : s.IsHeld name → finalizer ∈ finalizers) :
    Ends name (¬·.IsHeld name) s ((releaseFinalizer name finalizers).run s) := by
  have dropped := ends_dropFinalizer hs hknown
  have waned := wanes_of_asks (asks_dropFinalizer (releases_finalizersPatch _ _ name finalizers))
    name s
  rw [Undertaking.run_releaseFinalizer]
  cases hdrop : (dropFinalizer name finalizers).run s with
  | mk out t =>
    rw [hdrop] at dropped waned
    cases dropped with
    | met free => exact .met free
    | missing known absent =>
      dsimp only
      rw [if_pos known]
      exact .met (not_isHeld_of_absent absent)
    | refused known fewer =>
      dsimp only
      rw [if_neg (by simp [known])]
      exact ends_reread (waned.isHonest hs) fewer

/-! ### Attempts -/

/-- What an aim is about a workflow that is still there. -/
def Aim.IsReachedBy (aim : Aim) (object : Json) : Prop :=
  .string finalizer ∉ finalizersOf object ∧ match aim with
    | .delete => isDeleting object = true ∧ finalizersOf object ≠ []
    | .teardown => desiredStage? object = some .teardown

/-- A workflow is as a task wants it, or it is gone. -/
def Aim.Reached (aim : Aim) (name : String) (s : Server) : Prop :=
  ∀ object, s.workflow? name = some object → aim.IsReachedBy object

theorem Aim.reached_of_absent (aim : Aim) (h : s.workflow? name = none) : aim.Reached name s := by
  intro object hobject
  rw [h] at hobject
  cases hobject

theorem ends_deleteWorkflow (hs : s.IsHonest) (hknown : s.IsHeld name → finalizer ∈ finalizers) :
    Ends name (Aim.delete.Reached name) s ((deleteWorkflow name finalizers).run s) := by
  have released : Asks Request.Releases (releaseFinalizer name finalizers) :=
    asks_releaseFinalizer trivial (releases_finalizersPatch _ _ name) finalizers
  have waned := wanes_of_asks released name s
  refine (ends_releaseFinalizer hs hknown).bind waned.pending_le fun _ t hrun free => ?_
  rw [hrun] at waned
  refine ends_delete (waned.isHonest hs) fun u before hbefore hu after hafter => ?_
  have hdeleted : t.deleted (workflowKey name) before = some after := hu.symm.trans hafter
  have hsame := finalizersOf_of_deleted hdeleted
  unfold deleted at hdeleted
  split at hdeleted
  · cases hdeleted
  · rename_i hothers
    refine ⟨fun hmem => free ⟨before, hbefore, hsame ▸ hmem⟩, ?_, ?_⟩
    · rw [← Option.some.inj hdeleted, isDeleting_stamped, isDeleting_deletionPatch]
    · rw [hsame]
      simpa using hothers

theorem ends_teardownWorkflow (hs : s.IsHonest) (name : String) (finalizers : List String) :
    Ends name (Aim.teardown.Reached name) s ((teardownWorkflow name finalizers).run s) := by
  refine ends_patch hs (releases_teardownPatch name finalizers) fun t before _ ht after hafter => ?_
  have hpatched : s.patched (workflowKey name) (teardownPatch finalizers) before = some after :=
    ht.symm.trans hafter
  refine ⟨not_mem_of_patched (installs_teardownPatch finalizers) hpatched, ?_⟩
  unfold patched at hpatched
  split at hpatched
  · cases hpatched
  · rw [← Option.some.inj hpatched, desiredStage?_stamped]
    exact desiredStage?_teardownPatch before finalizers

/-- A task knows of the finalizer of the service, and is not misled about its workflow. -/
structure Task.IsFit (task : Task) (s : Server) : Prop where
  honest : s.IsHonest
  known : s.IsHeld task.name → finalizer ∈ task.finalizers

theorem Task.IsFit.ends {task : Task} (h : task.IsFit s) :
    Ends task.name (task.aim.Reached task.name) s (task.act.run s) := by
  unfold Task.act
  cases task.aim with
  | delete => exact ends_deleteWorkflow h.honest h.known
  | teardown => exact ends_teardownWorkflow h.honest task.name task.finalizers

/-- A task that ends with an attempt reached its aim. -/
theorem Task.IsFit.reached {task : Task} (h : task.IsFit s) (ha : task.attempt s = (none, t)) :
    task.aim.Reached task.name t := by
  have ended := h.ends
  rw [Task.attempt_apply] at ha
  obtain ⟨hleft, ht⟩ := Prod.mk.inj ha
  cases hact : task.act.run s with
  | mk out v =>
    rw [hact] at ended hleft ht
    obtain rfl : v = t := ht
    cases ended with
    | met holds => exact holds
    | missing known absent => exact Aim.reached_of_absent _ absent
    | refused known fewer => simp [Task.after, known] at hleft

/-- A task that goes on after an attempt counts one more failure, and fewer faults are to come. -/
theorem Task.IsFit.again {task next : Task} (h : task.IsFit s)
    (ha : task.attempt s = (some next, t)) :
    next = { task with backoff := task.backoff.fail } ∧ t.pending < s.pending ∧ next.IsFit t := by
  have ended := h.ends
  have waned := wanes_of_asks (asks_act task) task.name s
  rw [Task.attempt_apply] at ha
  obtain ⟨hleft, ht⟩ := Prod.mk.inj ha
  cases hact : task.act.run s with
  | mk out v =>
    rw [hact] at ended waned hleft ht
    obtain rfl : v = t := ht
    cases ended with
    | met holds => cases hleft
    | missing known absent => simp [Task.after, known] at hleft
    | refused known fewer =>
      obtain rfl : { task with backoff := task.backoff.fail } = next := by
        simpa [Task.after, known] using hleft
      exact ⟨rfl, fewer, waned.isHonest h.honest, h.known ∘ waned.held⟩

theorem Task.state_refresh (task : Task) (s : Server) :
    (task.refresh s).2 = ((currentFinalizers task.name).run s).2 := by
  rw [Task.refresh_apply]
  obtain ⟨out, t⟩ := (currentFinalizers task.name).run s
  cases out <;> rfl

theorem wanes_refresh (task : Task) (name : String) (s : Server) :
    Wanes name s (task.refresh s).2 := by
  rw [Task.state_refresh]
  exact wanes_of_asks asks_reread name s

theorem Task.IsFit.gone {task : Task} (h : task.IsFit s) (hr : task.refresh s = (none, t)) :
    t.workflow? task.name = none := by
  have waned := wanes_refresh task task.name s
  rw [hr] at waned
  rw [Task.refresh_apply] at hr
  obtain ⟨found, v, hread, -⟩ | ⟨fault, v, hread, hgone⟩ :=
    run_currentFinalizers_cases h.honest task.name
  · rw [hread] at hr
    cases hr
  · rw [hread] at hr
    cases hkind : fault.isNotFound with
    | true => exact waned.absent (hgone hkind)
    | false =>
      dsimp only at hr
      rw [if_neg (by simp [hkind])] at hr
      cases hr

/-- A task that goes on with a look at its workflow has the same aim and the same pauses. -/
theorem Task.IsFit.refreshed {task next : Task} (h : task.IsFit s)
    (hr : task.refresh s = (some next, t)) :
    next.aim = task.aim ∧ next.name = task.name ∧ next.backoff = task.backoff ∧
      t.pending ≤ s.pending ∧ next.IsFit t := by
  have waned := wanes_refresh task task.name s
  rw [hr] at waned
  rw [Task.refresh_apply] at hr
  obtain ⟨found, v, hread, hknown⟩ | ⟨fault, v, hread, -⟩ :=
    run_currentFinalizers_cases h.honest task.name
  · rw [hread] at hr
    obtain rfl : { task with finalizers := found } = next :=
      Option.some.inj (congrArg Prod.fst hr)
    exact ⟨rfl, rfl, rfl, waned.pending_le, waned.isHonest h.honest, hknown ∘ waned.held⟩
  · rw [hread] at hr
    dsimp only at hr
    split at hr
    · cases hr
    · obtain rfl : task = next := Option.some.inj (congrArg Prod.fst hr)
      exact ⟨rfl, rfl, rfl, waned.pending_le, waned.isHonest h.honest, h.known ∘ waned.held⟩

namespace Task

variable {task : Task}

theorem aim_of_attempt {next : Task} (h : task.attempt s = (some next, t)) :
    next.aim = task.aim := by
  have hleft : task.after (task.act.run s).1 = some next := by
    rw [attempt_apply] at h
    exact congrArg Prod.fst h
  cases hout : (task.act.run s).1 with
  | ok _ =>
    rw [hout] at hleft
    cases hleft
  | error fault =>
    rw [hout, after] at hleft
    split at hleft
    · cases hleft
    · rw [← Option.some.inj hleft]

theorem aim_of_refresh {next : Task} (h : task.refresh s = (some next, t)) :
    next.aim = task.aim := by
  rw [refresh_apply] at h
  cases hread : (currentFinalizers task.name).run s with
  | mk out v =>
    rw [hread] at h
    cases out with
    | ok found => rw [← Option.some.inj (congrArg Prod.fst h)]
    | error fault =>
      dsimp only at h
      split at h
      · cases h
      · rw [← Option.some.inj (congrArg Prod.fst h)]

theorem asked_attempt {P : Api.Request → Prop} {left : Option Task} (hact : Asks P task.act)
    (h : task.attempt s = (left, t)) : Asked P s t := by
  have hasked : Asked P s (task.act.run s).2 := hact s
  rw [attempt_apply] at h
  obtain ⟨_, rfl⟩ := Prod.mk.inj h
  exact hasked

theorem asked_refresh {P : Api.Request → Prop} {left : Option Task}
    (hlook : P (lookRequest task.name)) (h : task.refresh s = (left, t)) : Asked P s t := by
  have hasked : Asked P s ((currentFinalizers task.name).run s).2 := asks_currentFinalizers hlook s
  rw [← state_refresh, h] at hasked
  exact hasked

theorem resume_of_gone (h : task.refresh s = (none, t)) : task.resume s = (none, t) := by
  rw [resume, bind_apply, h]
  rfl

theorem resume_of_refreshed {fresh : Task} (h : task.refresh s = (some fresh, t)) :
    task.resume s = fresh.attempt t := by
  rw [resume, bind_apply, h]

end Task

end Cleanup

namespace Api

variable {s t : Server}

/-! ### Workflows that are torn down stay -/

/-- A workflow that is stored and not being deleted. -/
def Server.IsLive (s : Server) (name : String) : Prop :=
  ∃ object, s.workflow? name = some object ∧ isDeleting object = false

/-- A request that reads, or that moves a workflow to its last stage. -/
def Request.Retains : Request → Prop
  | .get .. | .list .. => True
  | .patch _ _ _ body => ∃ finalizers, body = teardownPatch finalizers
  | .create .. | .delete .. | .watch .. => False

namespace Server

theorem isLive_serve {q : Request} {name : String} (hq : q.Retains) (h : s.IsLive name) :
    (s.serve q).IsLive name := by
  obtain ⟨object, hobject, hdeleting⟩ := h
  cases q with
  | get kind space n =>
    exact ⟨object, (object?_serve_get s kind space n _).trans hobject, hdeleting⟩
  | list kind scope selector limit =>
    exact ⟨object, (object?_serve_list s kind scope selector limit _).trans hobject, hdeleting⟩
  | create => exact hq.elim
  | delete => exact hq.elim
  | watch => exact hq.elim
  | patch kind space n body =>
    obtain ⟨finalizers, rfl⟩ := hq
    have hserved := object?_serve_patch s kind space n (teardownPatch finalizers) (workflowKey name)
    split at hserved
    · rename_i hkey
      have hmerged : isDeleting (object.merge (teardownPatch finalizers)) = false := by
        rw [isDeleting_teardownPatch]
        exact hdeleting
      have hstays : Api.isParting (object.merge (teardownPatch finalizers)) = false := by
        rw [Api.isParting, hmerged, Bool.false_and]
      rw [hkey.1, show s.object? (workflowKey name) = some object from hobject, Option.bind_some,
        patched, if_neg (by simp [hstays])] at hserved
      exact ⟨_, hserved, (isDeleting_stamped ..).trans hmerged⟩
    · exact ⟨object, hserved.trans hobject, hdeleting⟩

theorem Asked.isLive (h : Asked Request.Retains s t) {name : String} (hs : s.IsLive name) :
    t.IsLive name :=
  h.keeps (I := fun s t => s.IsLive name → t.IsLive name) (fun _ => id) (fun _ _ _ h h' => h' ∘ h)
    (fun _ _ hq => isLive_serve hq) hs

end Server

end Api

namespace Cleanup

open Api Api.Server

variable {s t : Server}

/-! ### Requests for the cleanup -/

namespace Request

def aim : Request → Aim
  | .delete .. => .delete
  | .teardown .. => .teardown

def name : Request → String
  | .delete name _ | .teardown _ name _ _ => name

def finalizers : Request → List String
  | .delete _ finalizers | .teardown _ _ finalizers _ => finalizers

end Request

theorem ofRequest_eq (backoff : Backoff) (request : Request) :
    Task.ofRequest backoff request = ⟨request.aim, request.name, request.finalizers, backoff⟩ := by
  cases request <;> rfl

theorem asked_prepare {P : Api.Request → Prop}
    (hlist : ∀ selector limit, P (.list .dataMovement .cluster selector limit))
    (request : Request) (s : Server) : Asked P s (prepare request s).2 := by
  cases request with
  | delete => exact Std.Refl.refl s
  | teardown id name finalizers saved =>
    have hasked : Asked P s ((dataMovements name saved).run s).2 := asks_dataMovements hlist saved s
    have hstate : (prepare (.teardown id name finalizers saved) s).2 =
        ((dataMovements name saved).run s).2 := by
      rw [prepare, bind_apply]
      cases ((dataMovements name saved).run s).1 <;> rfl
    rw [hstate]
    exact hasked

end Cleanup

end Warren
