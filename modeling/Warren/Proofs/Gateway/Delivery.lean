import Mathlib.Data.List.Forall2
import Warren.Proofs.Gateway.Course

/-!
# What gets on the connections

Whatever order the connections, the tasks of the requests, the controller and the senders of notices
run in, a request gets its one response on the connection that it came from, and a notice gets on
all the connections that are open when its turn comes. `delivery` puts this together for all runs.
-/

namespace Warren

namespace Connection

@[simp] theorem isOpen_push (frame : Outgoing) (c : Connection) :
    (c.push frame).isOpen = c.isOpen := by
  unfold push
  split <;> rfl

theorem queue_push (frame : Outgoing) (c : Connection) :
    (c.push frame).queue = c.queue ++ if c.isOpen then [frame] else [] := by
  unfold push
  split <;> simp

end Connection

/-- The response to the request of a task, if it was queued on a connection. -/
def RequestTask.queued? (connection : Nat) (task : RequestTask) : Option Response :=
  match task.phase with
  | .ended answer true =>
    if task.connection = connection then some (task.response answer) else none
  | _ => none

/-- A response says which request it is for and what the controller made of that request. A request
without an answer was dropped by a controller that had stopped. -/
inductive Response.Answers (number : UInt64) : Option (Except Refusal Reply) → Response → Prop
  | done : Answers number (some (.ok .done))
      { number, success := true, failure := none, failureKind := none, workflows := none }
  | workflows (ids : List JobId) : Answers number (some (.ok (.workflows ids)))
      { number, success := true, failure := none, failureKind := none, workflows := some ids }
  | refused (refusal : Refusal) : Answers number (some (.error refusal))
      { number, success := false, failure := some refusal.message,
        failureKind := some refusal.kind, workflows := none }
  | dropped : Answers number none
      { number, success := false, failure := some "workflow reconciler is not running",
        failureKind := some "internal", workflows := none }

namespace RequestTask

theorem answers_response (task : RequestTask) (answer : Option (Except Refusal Reply)) :
    (task.response answer).Answers task.number answer := by
  rcases answer with _ | refusal | _ | ids
  · exact .dropped
  · exact .refused refusal
  · exact .done
  · exact .workflows ids

/-- A task whose response was queued on a connection. -/
def isAnswered (connection : Nat) (task : RequestTask) : Bool :=
  match task.phase with
  | .ended _ true => task.connection = connection
  | _ => false

/-- A response that is for the request of a task, with the answer that the task got. -/
def Gets (task : RequestTask) (response : Response) : Prop :=
  ∃ answer, task.phase = .ended answer true ∧ response.Answers task.number answer

theorem queued?_cases (connection : Nat) (task : RequestTask) :
    (task.isAnswered connection = true ∧
      ∃ response, task.queued? connection = some response ∧ task.Gets response) ∨
    (task.isAnswered connection = false ∧ task.queued? connection = none) := by
  cases hphase : task.phase with
  | ended answer queued =>
    by_cases hqueued : queued = true ∧ task.connection = connection
    · obtain ⟨rfl, hconnection⟩ := hqueued
      refine .inl ⟨by simp [isAnswered, hphase, hconnection], task.response answer,
        by simp [queued?, hphase, hconnection], answer, hphase, task.answers_response answer⟩
    · refine .inr ⟨?_, ?_⟩
      · cases queued <;> simp_all [isAnswered]
      · cases queued <;> simp_all [queued?]
  | _ => exact .inr ⟨by simp [isAnswered, hphase], by simp [queued?, hphase]⟩

theorem gets_queued (connection : Nat) (tasks : List RequestTask) :
    List.Forall₂ Gets (tasks.filter (isAnswered connection))
      (tasks.filterMap (queued? connection)) := by
  induction tasks with
  | nil => exact .nil
  | cons task tasks ih =>
    obtain ⟨hanswered, response, hresponse, gets⟩ | ⟨hother, hnone⟩ := queued?_cases connection task
    · rw [List.filter_cons_of_pos hanswered, List.filterMap_cons_some hresponse]
      exact .cons gets ih
    · rw [List.filter_cons_of_neg (by simp [hother]), List.filterMap_cons_none hnone]
      exact ih

end RequestTask

namespace Gateway

variable {g after : Gateway} {number connection ticket : Nat} {frame : Outgoing} {event : Event}

/-! ### Connections -/

section

variable {p : Prop} [Decidable p]

theorem isOpen_of_push (h : after.connections[connection]? =
    g.connections[connection]?.map fun c => if p then c.push frame else c) :
    after.isOpen connection = g.isOpen connection := by
  rw [isOpen, h, isOpen]
  cases g.connections[connection]? with
  | none => rfl
  | some c => by_cases hp : p <;> simp [hp]

theorem queue_of_push (h : after.connections[connection]? =
    g.connections[connection]?.map fun c => if p then c.push frame else c) :
    after.queue connection =
      g.queue connection ++ if p ∧ g.isOpen connection then [frame] else [] := by
  rw [queue, h, queue, isOpen]
  rcases Option.eq_none_or_eq_some g.connections[connection]? with hc | ⟨c, hc⟩
  · simp [hc]
  · by_cases hp : p <;> simp [hc, hp, Connection.queue_push]

end

theorem isOpen_conclude (g : Gateway) (ticket : Nat) (task : RequestTask)
    (answer : Option (Except Refusal Reply)) (connection : Nat) :
    (g.conclude ticket task answer).isOpen connection = g.isOpen connection :=
  isOpen_of_push (List.getElem?_modify ..)

theorem queue_conclude (g : Gateway) (ticket : Nat) (task : RequestTask)
    (answer : Option (Except Refusal Reply)) (connection : Nat) :
    (g.conclude ticket task answer).queue connection = g.queue connection ++
      if task.connection = connection ∧ g.isOpen connection then
        [.response (task.response answer)] else [] :=
  queue_of_push (List.getElem?_modify ..)

theorem getElem?_of_map (h : after.connections = g.connections.map (·.push frame))
    (connection : Nat) : after.connections[connection]? =
      g.connections[connection]?.map fun c => if True then c.push frame else c := by
  simp [h]

theorem isOpen_of_map (h : after.connections = g.connections.map (·.push frame))
    (connection : Nat) : after.isOpen connection = g.isOpen connection :=
  isOpen_of_push (getElem?_of_map h connection)

theorem queue_of_map (h : after.connections = g.connections.map (·.push frame))
    (connection : Nat) : after.queue connection =
      g.queue connection ++ if g.isOpen connection then [frame] else [] := by
  simpa using queue_of_push (getElem?_of_map h connection)

theorem isOpen_of_attach (h : after.connections = g.connections ++ [⟨true, []⟩])
    (hlt : connection < g.connections.length) : after.isOpen connection = g.isOpen connection := by
  rw [isOpen, h, List.getElem?_append, if_pos hlt, isOpen]

theorem queue_of_attach (h : after.connections = g.connections ++ [⟨true, []⟩])
    (connection : Nat) : after.queue connection = g.queue connection := by
  rw [queue, h, List.getElem?_append, queue]
  split
  · rfl
  · rename_i hnew
    rw [List.getElem?_eq_none (Nat.le_of_not_lt hnew)]
    cases connection - g.connections.length <;> rfl

theorem isOpen_of_detach (h : (g.detach number).isOpen connection) : g.isOpen connection := by
  rw [isOpen, detach, List.getElem?_modify] at h
  rw [isOpen]
  cases hc : g.connections[connection]? with
  | none => simp [hc] at h
  | some c => by_cases hnumber : number = connection <;> simp_all

theorem queue_detach (number connection : Nat) :
    (g.detach number).queue connection = g.queue connection := by
  rw [queue, detach, List.getElem?_modify, queue]
  cases g.connections[connection]? with
  | none => rfl
  | some c => by_cases hnumber : number = connection <;> simp [hnumber]

theorem lt_of_isOpen (h : g.isOpen connection) : connection < g.connections.length := by
  refine Nat.lt_of_not_le fun hle => ?_
  rw [isOpen, List.getElem?_eq_none hle] at h
  cases h

theorem isOpen_of_step (hlt : connection < g.connections.length)
    (hopen : (g.step event).isOpen connection) : g.isOpen connection := by
  have heffect := g.effect_step event
  generalize g.step event = after at heffect hopen
  cases heffect with
  | attached running => rwa [isOpen_of_attach rfl hlt] at hopen
  | detached number silent => exact isOpen_of_detach hopen
  | refused ticket task | responded ticket task =>
    rwa [isOpen_conclude] at hopen
  | fanned notice rest running hnotices => rwa [isOpen_of_map rfl] at hopen
  | _ => exact hopen

theorem length_le_step (g : Gateway) (event : Event) :
    g.connections.length ≤ (g.step event).connections.length := by
  have heffect := g.effect_step event
  generalize g.step event = after at heffect
  cases heffect with
  | attached running => simp
  | detached number silent => simp [detach]
  | refused ticket task | responded ticket task => simp [conclude]
  | fanned notice rest running hnotices => simp
  | _ => exact Nat.le_refl _

theorem told_step (g : Gateway) (connection : Nat) (event : Event) :
    ((g.step event).queue connection).filterMap Outgoing.notice? =
      (g.queue connection).filterMap Outgoing.notice? ++ told connection g event := by
  have heffect := g.effect_step event
  generalize g.step event = after at heffect
  cases heffect with
  | none silent => simp [told, silent.fanned]
  | attached running =>
    rw [queue_of_attach rfl]
    simp [told, Gateway.fanned]
  | detached number silent => simp [told, silent.fanned, queue_detach]
  | refused ticket task | responded ticket task =>
    rw [queue_conclude]
    split <;> simp [told, Gateway.fanned, Outgoing.notice?]
  | fanned notice rest running hnotices =>
    rw [queue_of_map rfl, told]
    split <;> simp [Gateway.fanned, running, hnotices, Outgoing.notice?]
  | _ => simp [told, Gateway.fanned, queue, setPhase, stop]

/-! ### Responses -/

/-- What a task can have: a connection that there is, and a response that was queued unless the
connection is closed. -/
structure Sound (g : Gateway) : Prop where
  known : ∀ task ∈ g.tasks, task.connection < g.connections.length
  unqueued : ∀ task ∈ g.tasks, ∀ answer, task.phase = .ended answer false →
    g.isOpen task.connection = false
  /-- The responses in a queue are those of tasks of this connection, each once. -/
  responses : ∀ connection, ((g.queue connection).filterMap Outgoing.response?).Perm
    (g.tasks.filterMap (RequestTask.queued? connection))

theorem sound_idle : idle.Sound where
  known := List.forall_mem_nil _
  unqueued := List.forall_mem_nil _
  responses _ := .refl _

theorem mem_setPhase {phase : Phase} {task : RequestTask}
    (h : task ∈ (g.setPhase ticket phase).tasks) : task ∈ g.tasks ∨
      ∃ before, g.tasks[ticket]? = some before ∧ task = { before with phase } := by
  obtain ⟨i, hi⟩ := List.mem_iff_getElem?.mp h
  rw [getElem?_setPhase] at hi
  split at hi
  · rename_i heq
    subst heq
    obtain ⟨before, hbefore, rfl⟩ := Option.map_eq_some_iff.mp hi
    exact .inr ⟨before, hbefore, rfl⟩
  · exact .inl (List.mem_of_getElem? hi)

theorem perm_filterMap_modify {α β : Type} {f : α → Option β} {change : α → α} {items : List α}
    {i : Nat} {a : α} (ha : items[i]? = some a) (hnone : f a = none) :
    ((items.modify i change).filterMap f).Perm (items.filterMap f ++ (f (change a)).toList) := by
  induction items generalizing i with
  | nil => simp at ha
  | cons first rest ih =>
    cases i with
    | zero =>
      obtain rfl : first = a := by simpa using ha
      rw [List.modify_zero_cons, List.filterMap_cons, List.filterMap_cons, hnone]
      cases f (change first) with
      | none => simp
      | some b => exact (List.perm_append_singleton b _).symm
    | succ i =>
      have hrest := ih (by simpa using ha)
      rw [List.modify_succ_cons, List.filterMap_cons, List.filterMap_cons]
      cases f first with
      | none => exact hrest
      | some b => exact hrest.cons b

theorem queued?_drop (connection : Nat) (task : RequestTask) :
    task.drop.queued? connection = task.queued? connection := by
  cases hphase : task.phase <;> simp [RequestTask.drop, RequestTask.queued?, hphase]

theorem mem_of_ended {task : RequestTask} {answer : Option (Except Refusal Reply)} {queued : Bool}
    (h : task ∈ (g.step event).tasks) (hphase : task.phase = .ended answer queued) :
    task ∈ g.tasks ∨ queued = g.isOpen task.connection := by
  have heffect := g.effect_step event
  generalize g.step event = after at heffect h
  cases heffect with
  | heard connection number asked hopen =>
    rcases List.mem_append.mp h with h | h
    · exact .inl h
    · obtain rfl := List.mem_singleton.mp h
      cases hphase
  | passed ticket before htask hbefore | settled ticket before answer htask hbefore =>
    rcases mem_setPhase h with h | ⟨_, -, rfl⟩
    · exact .inl h
    · cases hphase
  | refused ticket before htask | responded ticket before answer htask =>
    rcases mem_setPhase h with h | ⟨other, hother, rfl⟩
    · exact .inl h
    · obtain rfl := Option.some.inj (htask.symm.trans hother)
      obtain ⟨-, rfl⟩ := Phase.ended.inj hphase
      exact .inr rfl
  | stopped =>
    obtain ⟨before, hbefore, rfl⟩ := List.mem_map.mp h
    cases hcase : before.phase <;> simp_all [RequestTask.drop]
  | _ => exact .inl h

theorem Sound.known_step (h : g.Sound) (event : Event) :
    ∀ task ∈ (g.step event).tasks, task.connection < g.connections.length := by
  intro task htask
  -- The connection is part of what a task keeps from its request.
  have horigin : task.origin ∈ (g.step event).tasks.map RequestTask.origin :=
    List.mem_map_of_mem htask
  rw [origins_step] at horigin
  rcases List.mem_append.mp horigin with hold | hnew
  · obtain ⟨before, hbefore, heq⟩ := List.mem_map.mp hold
    have hconnection : before.connection = task.connection := congrArg Prod.fst heq
    exact hconnection ▸ h.known before hbefore
  · unfold Gateway.heard at hnew
    split at hnew
    · split at hnew
      · rename_i hopen
        have hconnection : task.connection = _ := congrArg Prod.fst (List.mem_singleton.mp hnew)
        rw [hconnection]
        exact lt_of_isOpen hopen
      · cases hnew
    · cases hnew

theorem queued?_conclude (g : Gateway) (task : RequestTask) (answer : Option (Except Refusal Reply))
    (connection : Nat) :
    (RequestTask.queued? connection
      { task with phase := .ended answer (g.isOpen task.connection) }).toList =
      List.filterMap Outgoing.response?
        (if task.connection = connection ∧ g.isOpen connection then
          [.response (task.response answer)] else []) := by
  by_cases hconnection : task.connection = connection
  · subst hconnection
    cases hopen : g.isOpen task.connection <;>
      simp [RequestTask.queued?, RequestTask.response, Outgoing.response?]
  · rw [if_neg fun h => hconnection h.1]
    cases g.isOpen task.connection <;> simp [RequestTask.queued?, hconnection]

/-- Up to the end of a task its response is in no queue. -/
theorem perm_setPhase {task : RequestTask} (htask : g.tasks[ticket]? = some task)
    (hnone : task.queued? connection = none) (phase : Phase) :
    ((g.setPhase ticket phase).tasks.filterMap (RequestTask.queued? connection)).Perm
      (g.tasks.filterMap (RequestTask.queued? connection) ++
        (RequestTask.queued? connection { task with phase }).toList) :=
  perm_filterMap_modify htask hnone

theorem Sound.responses_conclude (h : g.Sound) {task : RequestTask}
    (htask : g.tasks[ticket]? = some task) (hnone : task.queued? connection = none)
    (answer : Option (Except Refusal Reply)) :
    (((g.conclude ticket task answer).queue connection).filterMap Outgoing.response?).Perm
      ((g.conclude ticket task answer).tasks.filterMap (RequestTask.queued? connection)) := by
  rw [queue_conclude, List.filterMap_append, ← queued?_conclude]
  exact ((h.responses connection).append_right _).trans (perm_setPhase htask hnone _).symm

theorem Sound.responses_step (h : g.Sound) (event : Event) (connection : Nat) :
    (((g.step event).queue connection).filterMap Outgoing.response?).Perm
      ((g.step event).tasks.filterMap (RequestTask.queued? connection)) := by
  have hperm := h.responses connection
  have heffect := g.effect_step event
  generalize g.step event = after at heffect
  cases heffect with
  | attached running =>
    rw [queue_of_attach rfl]
    exact hperm
  | detached number silent =>
    rw [queue_detach]
    exact hperm
  | heard number request asked hopen =>
    rw [List.filterMap_append]
    exact (List.append_nil _).symm ▸ hperm
  | passed ticket task htask hphase | settled ticket task answer htask hphase =>
    have hnone : task.queued? connection = none := by simp [RequestTask.queued?, hphase]
    exact hperm.trans ((perm_setPhase htask hnone _).trans (.of_eq (List.append_nil _))).symm
  | refused ticket task htask hphase | responded ticket task answer htask hphase =>
    have hnone : task.queued? connection = none := by simp [RequestTask.queued?, hphase]
    exact h.responses_conclude htask hnone _
  | stopped =>
    have hdrop : RequestTask.queued? connection ∘ RequestTask.drop =
      RequestTask.queued? connection := funext (queued?_drop connection)
    rw [stop, List.filterMap_map, hdrop]
    exact hperm
  | fanned notice rest running hnotices =>
    rw [queue_of_map rfl, List.filterMap_append]
    split <;> exact (List.append_nil _).symm ▸ hperm
  | _ => exact hperm

theorem Sound.step (h : g.Sound) (event : Event) : (g.step event).Sound where
  known task htask := Nat.lt_of_lt_of_le (h.known_step event task htask) (g.length_le_step event)
  unqueued task htask answer hphase := by
    have hclosed : g.isOpen task.connection = false := by
      rcases mem_of_ended htask hphase with hold | hnew
      · exact h.unqueued task hold answer hphase
      · exact hnew.symm
    rw [Bool.eq_false_iff] at hclosed ⊢
    exact fun hopen => hclosed (isOpen_of_step (h.known_step event task htask) hopen)
  responses := h.responses_step event

theorem Sound.run (h : g.Sound) (events : List Event) : (g.run events).Sound := by
  induction events generalizing g with
  | nil => exact h
  | cons event rest ih => exact ih (h.step event)

/-! ### Delivery -/

/-- A task whose request was dealt with has its response queued after its next turn, or has had that
turn, as long as the connection is open. -/
theorem Sound.respond {task : RequestTask} {answer : Option (Except Refusal Reply)} (h : g.Sound)
    (htask : g.tasks[ticket]? = some task) (hverdict : task.phase.verdict? = some answer)
    (hopen : g.isOpen task.connection) :
    (g.respond ticket).tasks[ticket]? = some { task with phase := .ended answer true } := by
  rw [Gateway.respond, htask]
  cases hphase : task.phase with
  | fresh | waiting =>
    rw [hphase] at hverdict
    cases hverdict
  | settled other =>
    obtain rfl : other = answer := by simpa [hphase, Phase.verdict?] using hverdict
    dsimp only
    rw [hphase]
    simp [tasks_conclude, getElem?_setPhase, htask, hopen]
  | ended other queued =>
    obtain rfl : other = answer := by simpa [hphase, Phase.verdict?] using hverdict
    cases queued with
    | false =>
      rw [h.unqueued task (List.mem_of_getElem? htask) other hphase] at hopen
      cases hopen
    | true =>
      cases task
      cases hphase
      exact htask

theorem Sound.mem_queue {task : RequestTask} {answer : Option (Except Refusal Reply)} (h : g.Sound)
    (htask : { task with phase := .ended answer true } ∈ g.tasks) :
    .response (task.response answer) ∈ g.queue task.connection := by
  have hqueued : RequestTask.queued? task.connection { task with phase := .ended answer true } =
      some (task.response answer) := by simp [RequestTask.queued?, RequestTask.response]
  have hresponse : task.response answer ∈
      (g.queue task.connection).filterMap Outgoing.response? :=
    (h.responses task.connection).mem_iff.mpr (List.mem_filterMap.mpr ⟨_, htask, hqueued⟩)
  obtain ⟨frame, hframe, heq⟩ := List.mem_filterMap.mp hresponse
  cases frame with
  | response r =>
    obtain rfl := Option.some.inj heq
    exact hframe
  | notice n => cases heq

/-- The gateway after any events.

* Its tasks are the requests that were heard, in order, each with its connection and number.
* The responses in the queue of a connection are, up to order, one for each task of this connection
  that was answered, with the number of its request and with its answer.
* A task has the verdict of the controller on its request, the only one there is.
* After a verdict a task needs at most one more turn for its response to be queued, as long as the
  connection is open.
* The notices in the queue of a connection are those that went to all connections while it was open,
  in that order.
* The notices that went to the connections and then those that have not yet are all that were sent,
  in the order of sending. -/
theorem delivery (events : List Event) :
    let g := idle.run events
    g.tasks.map RequestTask.origin = idle.collect heard events ∧
    (∀ connection, ∃ responses,
      ((g.queue connection).filterMap Outgoing.response?).Perm responses ∧
        List.Forall₂ RequestTask.Gets (g.tasks.filter (RequestTask.isAnswered connection))
          responses) ∧
    (∀ ticket, g.verdict ticket = idle.collect (verdicts ticket) events) ∧
    (∀ ticket task answer, g.tasks[ticket]? = some task → task.phase.verdict? = some answer →
      g.isOpen task.connection →
        (g.respond ticket).tasks[ticket]? = some { task with phase := .ended answer true } ∧
          ∃ response, response.Answers task.number answer ∧
            .response response ∈ (g.respond ticket).queue task.connection) ∧
    (∀ connection, (g.queue connection).filterMap Outgoing.notice? =
      idle.collect (told connection) events) ∧
    idle.collect fanned events ++ g.notices = idle.collect sent events := by
  have hsound := sound_idle.run events
  refine ⟨run_eq_append (fun g => g.tasks.map RequestTask.origin) origins_step idle events,
    fun connection => ⟨_, hsound.responses connection, RequestTask.gets_queued connection _⟩,
    fun ticket => ?_, fun ticket task answer htask hverdict hopen => ?_,
    fun connection => ?_, idle.notices_run events⟩
  · exact run_eq_append (fun g => g.verdict ticket) (fun g => g.verdict_step ticket) idle events
  · have hended := hsound.respond htask hverdict hopen
    have hafter : ((idle.run events).respond ticket).Sound := hsound.step (.respond ticket)
    exact ⟨hended, _, task.answers_response answer,
      hafter.mem_queue (List.mem_of_getElem? hended)⟩
  · exact run_eq_append (fun g => (g.queue connection).filterMap Outgoing.notice?)
      (fun g => g.told_step connection) idle events

/-- Two job managers with a request each. One of them leaves before it is answered, and the
controller stops without an answer to the other one. -/
def twoManagers (notice : Notice) : List Event :=
  [.attach, .attach, .hear 0 (some (.request 7 .status)), .hear 1 (some (.request 7 .status)),
    .pass 1, .pass 0, .notify notice, .settle 1 (some (.ok .done)), .fanOut, .detach 1,
    .respond 1, .stop, .respond 0]

theorem delivery_two_managers :
    let notice := Notice.setStatus "rabbit1" true
    let g := idle.run (twoManagers notice)
    g.queue 0 = [.notice notice, .response
        ⟨7, false, some "workflow reconciler is not running", some "internal", none⟩] ∧
      g.queue 1 = [.notice notice] ∧
      (∃ responses, ((g.queue 0).filterMap Outgoing.response?).Perm responses ∧
        List.Forall₂ RequestTask.Gets (g.tasks.filter (RequestTask.isAnswered 0)) responses) ∧
      idle.collect (verdicts 1) (twoManagers notice) = [some (.ok .done)] ∧
      idle.collect (told 1) (twoManagers notice) = [notice] := by
  have hall := delivery (twoManagers (.setStatus "rabbit1" true))
  exact ⟨rfl, rfl, hall.2.1 0, (hall.2.2.1 1).symm, (hall.2.2.2.2.1 1).symm⟩

end Gateway

end Warren
