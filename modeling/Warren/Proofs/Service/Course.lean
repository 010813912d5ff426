import Warren.Proofs.Controller.Turn
import Warren.Service.Run

/-!
# The controller of a running service

The service works on its controller only by turns, by time limits that are reached and by changes of
the surroundings. Whatever it does, its controller goes through a course of happenings, so what
holds of all reachable states of the controller holds while the service runs.
-/

namespace Warren.Service

variable {site : Site} {s t : Service} {α β : Type}

/-- The controller goes through a course of happenings. -/
def Goes (site : Site) (s t : Service) : Prop :=
  ∃ course, t.controller = s.controller.run site course

theorem Goes.refl (s : Service) : Goes site s s := ⟨[], rfl⟩

theorem Goes.trans {u : Service} (h : Goes site s t) (h' : Goes site t u) : Goes site s u := by
  obtain ⟨course, ht⟩ := h
  obtain ⟨rest, hu⟩ := h'
  refine ⟨course ++ rest, ?_⟩
  rw [Controller.run_append, ← ht, hu]

theorem Goes.reachable (h : Goes site s t) (hs : Controller.Reachable site s.controller) :
    Controller.Reachable site t.controller := by
  obtain ⟨course, ht⟩ := h
  obtain ⟨world, past, hpast⟩ := hs
  refine ⟨world, past ++ course, ?_⟩
  rw [Controller.run_append, ← hpast, ht]

theorem goes_of_step {h : Happening} (hstep : t.controller = s.controller.step site h) :
    Goes site s t := ⟨[h], hstep⟩

theorem goes_of_eq (h : t.controller = s.controller) : Goes site s t := ⟨[], h⟩

theorem goes_of_world {w : World} (ht : t.controller = { s.controller with world := w })
    (hle : s.world.ticket ≤ w.ticket) : Goes site s t := by
  have hdrawn : s.controller.world.ticket + (w.ticket - s.world.ticket) = w.ticket :=
    Nat.add_sub_cancel' hle
  refine goes_of_step (h := .outside w (w.ticket - s.world.ticket)) ?_
  rw [ht, Controller.step, hdrawn]

/-- Work of the service under which the controller goes through a course of happenings. -/
def Drives (site : Site) (x : StateM Service α) : Prop := ∀ s, Goes site s (x s).2

theorem Drives.pure (a : α) : Drives site (Pure.pure a : StateM Service α) := fun s => .refl s

theorem Drives.bind {x : StateM Service α} {f : α → StateM Service β} (hx : Drives site x)
    (hf : ∀ a, Drives site (f a)) : Drives site (x >>= f) :=
  fun s => (hx s).trans (hf (x s).1 (x s).2)

theorem Drives.get_bind {f : Service → StateM Service α} (h : ∀ s, Goes site s (f s s).2) :
    Drives site (get >>= f) := h

theorem goes_ite {p : Prop} [Decidable p] {x y : StateM Service α} (hx : Goes site s (x s).2)
    (hy : Goes site s (y s).2) : Goes site s ((if p then x else y) s).2 := by
  split
  · exact hx
  · exact hy

theorem Drives.modify {f : Service → Service} (h : ∀ s, (f s).controller = s.controller) :
    Drives site (modify f) := fun s => goes_of_eq (h s)

theorem Drives.forM {f : α → StateM Service PUnit} (hf : ∀ a, Drives site (f a)) (items : List α) :
    Drives site (items.forM f) := by
  induction items with
  | nil => exact .pure _
  | cons a rest ih => exact .bind (hf a) fun _ => ih

theorem Drives.mapM {f : α → StateM Service β} (hf : ∀ a, Drives site (f a)) (items : List α) :
    Drives site (items.mapM f) := by
  induction items with
  | nil =>
    rw [List.mapM_nil]
    exact .pure _
  | cons a rest ih =>
    rw [List.mapM_cons]
    exact .bind (hf a) fun _ => .bind ih fun _ => .pure _

theorem drives_serve (action : StateM Api.Server α) :
    Drives site (inWorld (World.serve action)) :=
  fun s => goes_of_world (w := { s.world with api := (action s.world.api).2 }) rfl (Nat.le_refl _)

theorem drives_draw : Drives site draw :=
  fun s => goes_of_world (w := { s.world with ticket := s.world.ticket + 1 }) rfl (Nat.le_succ _)

theorem drives_tellAll (notices : List Notice) : Drives site (tellAll notices) :=
  fun s => goes_of_world (w := s.world.tellAll notices) rfl (Nat.le_refl _)

theorem drives_announce (notices : List (Except Crash Notice)) :
    Drives site (modify (·.mapWorld (·.announce notices))) :=
  fun s => goes_of_world (w := s.world.announce notices) rfl (by simp)

theorem drives_handle (message : Message) : Drives site (handle site message) := by
  cases message with
  | request ticket asked => exact fun s => goes_of_step (h := .turn (.request asked)) rfl
  | event event => exact fun s => goes_of_step (h := .turn (.event event)) rfl
  | timeout id stage => exact fun s => goes_of_step (h := .turn (.timeout id stage)) rfl

theorem drives_pause (task : Option Cleanup.Task) : Drives site (pause task) := by
  cases task with
  | none => exact .pure _
  | some task =>
    refine .get_bind fun s => goes_ite ?_ ?_
    · exact Drives.modify (fun _ => rfl) s
    · exact Drives.bind drives_draw (fun _ => .modify fun _ => rfl) s

theorem drives_expire (id : JobId) (ticket : Nat) : Drives site (expire id ticket) := by
  intro s
  unfold expire
  dsimp only [modify, modifyGet, MonadStateOf.modifyGet, StateT.modifyGet]
  cases hf : s.controller.registry.find? id with
  | none => exact .refl s
  | some r =>
    dsimp only
    cases ht : r.timer with
    | none => exact .refl s
    | some timer =>
      dsimp only
      split
      · refine goes_of_step (h := .ring id) ?_
        rw [Controller.step, Controller.ring, hf]
        dsimp only
        rw [ht]
        rfl
      · exact .refl s

theorem drives_control_sweep : Drives site (control (Controller.sweep site)) :=
  fun _ => goes_of_step (h := .turn .sweep) rfl

theorem drives_sweepIfDue : Drives site (sweepIfDue site) := by
  refine .get_bind fun s => ?_
  cases s.sweeps with
  | none => exact .refl s
  | some ticker =>
    refine goes_ite ?_ (.refl s)
    exact Drives.bind drives_control_sweep
      (fun _ => .bind drives_draw fun _ => .modify fun _ => rfl) s

theorem drives_handleAll : Drives site (handleAll site) := by
  have emptied : Drives site (modify fun s => { s with inbox := [] }) := .modify fun _ => rfl
  exact .get_bind fun s => emptied.bind (fun _ => .forM drives_handle s.inbox) s

theorem drives_deliver (kind : Api.Kind) (event : Api.Event) :
    Drives site (deliver site kind event) := by
  unfold deliver
  split
  · exact drives_announce _
  · exact .modify fun _ => rfl

theorem drives_pollWatch (w : Watch) : Drives site (pollWatch site w) := by
  refine .get_bind fun s => ?_
  exact Drives.bind (drives_serve (w.poll s.now))
    (fun polled => .bind (.forM (drives_deliver polled.1.kind) polled.2) fun _ => .pure _) s

theorem drives_pollAll : Drives site (pollAll site) :=
  .get_bind fun s => Drives.bind (.mapM drives_pollWatch s.watches)
    (fun _ => .modify fun _ => rfl) s

theorem drives_pollIfDue : Drives site (pollIfDue site) := by
  refine .get_bind fun s => ?_
  cases s.polls with
  | none => exact .refl s
  | some ticker =>
    refine goes_ite ?_ (.refl s)
    exact Drives.bind drives_pollAll
      (fun _ => .bind drives_draw fun _ => .modify fun _ => rfl) s

theorem drives_clean (request : Cleanup.Request) : Drives site (clean site request) :=
  .bind (drives_serve _) fun _ => .bind (drives_tellAll _) fun _ =>
    .bind (drives_serve _) fun task => drives_pause task

/-- Every piece of work takes the controller through a course of happenings. -/
theorem drives_perform (work : Work) : Drives site (perform site work) := by
  cases work with
  | takeOn =>
    exact fun s => goes_of_world (w := { s.world with cleanups := [] }) rfl (Nat.le_refl _)
  | clean request => exact drives_clean request
  | retry task => exact .bind (drives_serve _) fun left => drives_pause left
  | expire id ticket => exact drives_expire id ticket
  | control => exact .bind drives_sweepIfDue fun _ => drives_handleAll
  | poll => exact drives_pollIfDue

theorem drives_settleWithin (fuel : Nat) : Drives site (settleWithin site fuel) := by
  induction fuel with
  | zero => exact .pure _
  | succ fuel ih =>
    refine .bind (.modify fun _ => rfl) fun _ => .get_bind fun s => goes_ite (.refl s) ?_
    refine Drives.get_bind (fun s => ?_) s
    cases s.ready with
    | nil => exact .refl s
    | cons work rest =>
      have taken : Drives site (modify fun s => { s with ready := rest }) := .modify fun _ => rfl
      exact taken.bind (fun _ => .bind (drives_perform work) fun _ => ih) s

theorem drives_drainWithin (fuel : Nat) : Drives site (drainWithin site fuel) := by
  induction fuel with
  | zero => exact drives_settleWithin _
  | succ fuel ih =>
    refine .bind (drives_settleWithin _) fun _ => .get_bind fun s => goes_ite (.refl s) ?_
    refine Drives.get_bind (fun s => ?_) s
    cases s.inbox with
    | nil => exact .refl s
    | cons message rest =>
      have taken : Drives site (modify fun s => { s with inbox := rest }) := .modify fun _ => rfl
      exact taken.bind (fun _ => .bind (drives_handle message) fun _ => ih) s

theorem goes_advance (s : Service) (time : Span) : Goes site s (s.advance time) :=
  goes_of_world (w := { s.world with now := s.world.now + time }) rfl (Nat.le_refl _)

theorem reachable_begin (site : Site) (world : World) (watches : List Watch) :
    Controller.Reachable site (begin site world watches).controller :=
  Controller.reachable_start site _

/-- A service that works on until nothing is left to do has a controller in a reachable state. -/
theorem reachable_settle (h : Controller.Reachable site s.controller) :
    Controller.Reachable site (settle site s).2.controller :=
  (drives_settleWithin workLimit s).reachable h

theorem reachable_drain (h : Controller.Reachable site s.controller) :
    Controller.Reachable site (drain site s).2.controller :=
  (drives_drainWithin workLimit s).reachable h

theorem reachable_advance (h : Controller.Reachable site s.controller) (time : Span) :
    Controller.Reachable site (s.advance time).controller :=
  (goes_advance s time).reachable h

end Warren.Service
