import Warren.Gateway.Basic

/-!
# The course of the gateway

A run of the gateway is looked at from outside: the requests that are heard on the connections,
what the controller makes of each of them, the notices that are sent and those that go to the
connections. `Effect` lists what an event can do. From it every step adds to the state just what is
observed of it, and `run_eq_append` carries that over to runs.
-/

namespace Warren

def RequestTask.origin (task : RequestTask) : Nat × UInt64 × Request :=
  (task.connection, task.number, task.asked)

/-- What became of the request at the controller: its answer, or none where it was dropped. -/
def Phase.verdict? : Phase → Option (Option (Except Refusal Reply))
  | .settled answer | .ended answer _ => some answer
  | .fresh | .waiting => none

def Phase.isFresh : Phase → Bool
  | .fresh => true
  | _ => false

def Phase.isWaiting : Phase → Bool
  | .waiting => true
  | _ => false

def Outgoing.response? : Outgoing → Option Response
  | .response r => some r
  | .notice _ => none

def Outgoing.notice? : Outgoing → Option Notice
  | .response _ => none
  | .notice n => some n

namespace Gateway

/-! ### Observations -/

section

variable {α : Type} {observe : Gateway → Event → List α}

/-- What is observed along a run, event by event. -/
def collect (observe : Gateway → Event → List α) (g : Gateway) : List Event → List α
  | [] => []
  | event :: rest => observe g event ++ collect observe (g.step event) rest

theorem run_eq_append (view : Gateway → List α)
    (h : ∀ g event, view (g.step event) = view g ++ observe g event) (g : Gateway)
    (events : List Event) : view (g.run events) = view g ++ g.collect observe events := by
  induction events generalizing g with
  | nil => exact (List.append_nil _).symm
  | cons event rest ih =>
    rw [collect, ← List.append_assoc, ← h]
    exact ih (g.step event)

end

/-- The request that is heard as a frame. -/
def heard (g : Gateway) : Event → List (Nat × UInt64 × Request)
  | .hear connection (some (.request number asked)) =>
    if g.isOpen connection then [(connection, number, asked)] else []
  | _ => []

/-- The notice that is sent to the gateway. -/
def sent (g : Gateway) : Event → List Notice
  | .notify notice => if g.isRunning then [notice] else []
  | _ => []

/-- The notice that goes to all connections. -/
def fanned (g : Gateway) : Event → List Notice
  | .fanOut => if g.isRunning then g.notices.take 1 else []
  | _ => []

/-- The notice that goes to all connections, on a connection that is open. -/
def told (connection : Nat) (g : Gateway) (event : Event) : List Notice :=
  if g.isOpen connection then g.fanned event else []

def isFresh (g : Gateway) (ticket : Nat) : Bool := g.tasks[ticket]?.any (·.phase.isFresh)

def isWaiting (g : Gateway) (ticket : Nat) : Bool := g.tasks[ticket]?.any (·.phase.isWaiting)

/-- What the controller makes of a request that it has not had or has not dealt with. -/
def verdicts (ticket : Nat) (g : Gateway) : Event → List (Option (Except Refusal Reply))
  | .settle other answer => if other = ticket ∧ g.isWaiting ticket then [answer] else []
  | .stop => if g.isWaiting ticket then [none] else []
  | .pass other => if other = ticket ∧ g.isFresh ticket ∧ !g.isServed then [none] else []
  | _ => []

/-! ### Steps -/

/-- Whether an event shows in none of the observations. -/
structure IsSilent (g : Gateway) (event : Event) : Prop where
  heard : g.heard event = []
  sent : g.sent event = []
  fanned : g.fanned event = []
  verdicts : ∀ ticket, g.verdicts ticket event = []

/-- All that an event can do. -/
inductive Effect (g : Gateway) : Event → Gateway → Prop
  | none {event : Event} (silent : g.IsSilent event) : Effect g event g
  | attached (running : g.isRunning = true) :
      Effect g .attach { g with connections := g.connections ++ [⟨true, []⟩] }
  | detached {event : Event} (connection : Nat) (silent : g.IsSilent event) :
      Effect g event (g.detach connection)
  | heard (connection : Nat) (number : UInt64) (asked : Request) (hopen : g.isOpen connection) :
      Effect g (.hear connection (some (.request number asked)))
        { g with tasks := g.tasks ++ [⟨connection, number, asked, .fresh⟩] }
  | passed (ticket : Nat) (task : RequestTask) (htask : g.tasks[ticket]? = some task)
      (hphase : task.phase = .fresh) (served : g.isServed = true) :
      Effect g (.pass ticket) (g.setPhase ticket .waiting)
  | refused (ticket : Nat) (task : RequestTask) (htask : g.tasks[ticket]? = some task)
      (hphase : task.phase = .fresh) (stopped : g.isServed = false) :
      Effect g (.pass ticket) (g.conclude ticket task Option.none)
  | settled (ticket : Nat) (task : RequestTask) (answer : Option (Except Refusal Reply))
      (htask : g.tasks[ticket]? = some task) (hphase : task.phase = .waiting) :
      Effect g (.settle ticket answer) (g.setPhase ticket (.settled answer))
  | responded (ticket : Nat) (task : RequestTask) (answer : Option (Except Refusal Reply))
      (htask : g.tasks[ticket]? = some task) (hphase : task.phase = .settled answer) :
      Effect g (.respond ticket) (g.conclude ticket task answer)
  | stopped : Effect g .stop g.stop
  | notified (notice : Notice) (running : g.isRunning = true) :
      Effect g (.notify notice) { g with notices := g.notices ++ [notice] }
  | fanned (notice : Notice) (rest : List Notice) (running : g.isRunning = true)
      (hnotices : g.notices = notice :: rest) :
      Effect g .fanOut
        { g with
          notices := rest
          connections := g.connections.map (Connection.push (.notice notice)) }
  | quit : Effect g .quit { g with isRunning := false }

theorem effect_hear (g : Gateway) (connection : Nat) (frame : Option Incoming) :
    g.Effect (.hear connection frame) (g.hear connection frame) := by
  unfold hear
  split
  · rename_i hopen
    rcases frame with _ | ⟨number, asked⟩ | _
    · exact .detached connection ⟨rfl, rfl, rfl, fun _ => rfl⟩
    · exact .heard connection number asked hopen
    · exact .none ⟨rfl, rfl, rfl, fun _ => rfl⟩
  · rename_i hclosed
    refine .none ⟨?_, rfl, rfl, fun _ => rfl⟩
    rcases frame with _ | ⟨number, asked⟩ | _ <;> simp [Gateway.heard, hclosed]

theorem effect_pass (g : Gateway) (ticket : Nat) : g.Effect (.pass ticket) (g.pass ticket).1 := by
  have silent (hnot : g.isFresh ticket = false) : g.IsSilent (.pass ticket) := by
    refine ⟨rfl, rfl, rfl, fun other => if_neg ?_⟩
    rintro ⟨rfl, hfresh, -⟩
    rw [hnot] at hfresh
    cases hfresh
  unfold pass
  split
  · rename_i task htask
    split
    · rename_i hphase
      split
      · exact .passed ticket task htask hphase ‹_›
      · exact .refused ticket task htask hphase (Bool.eq_false_iff.mpr ‹_›)
    · rename_i hphase
      refine .none (silent ?_)
      rw [isFresh, htask, Option.any_some]
      cases hcase : task.phase with
      | fresh => exact absurd hcase hphase
      | _ => rfl
  · rename_i htask
    exact .none (silent (by rw [isFresh, htask, Option.any_none]))

theorem effect_settle (g : Gateway) (ticket : Nat) (answer : Option (Except Refusal Reply)) :
    g.Effect (.settle ticket answer) (g.settle ticket answer) := by
  have silent (hnot : g.isWaiting ticket = false) : g.IsSilent (.settle ticket answer) := by
    refine ⟨rfl, rfl, rfl, fun other => if_neg ?_⟩
    rintro ⟨rfl, hwaiting⟩
    rw [hnot] at hwaiting
    cases hwaiting
  unfold settle
  split
  · rename_i task htask
    split
    · exact .settled ticket task answer htask ‹_›
    · rename_i hphase
      refine .none (silent ?_)
      rw [isWaiting, htask, Option.any_some]
      cases hcase : task.phase with
      | waiting => exact absurd hcase hphase
      | _ => rfl
  · rename_i htask
    exact .none (silent (by rw [isWaiting, htask, Option.any_none]))

theorem effect_fanOut (g : Gateway) : g.Effect .fanOut g.fanOut := by
  unfold fanOut
  split
  · exact .fanned _ _ ‹_› ‹_›
  · rename_i hother
    refine .none ⟨rfl, rfl, ?_, fun _ => rfl⟩
    cases hrunning : g.isRunning with
    | false => simp [Gateway.fanned, hrunning]
    | true =>
      cases hnotices : g.notices with
      | nil => simp [Gateway.fanned, hnotices]
      | cons notice rest => exact absurd hnotices (hother notice rest hrunning)

theorem effect_step (g : Gateway) (event : Event) : g.Effect event (g.step event) := by
  cases event with
  | attach =>
    simp only [step, attach]
    split
    · exact .attached ‹_›
    · exact .none ⟨rfl, rfl, rfl, fun _ => rfl⟩
  | detach connection => exact .detached connection ⟨rfl, rfl, rfl, fun _ => rfl⟩
  | hear connection frame => exact g.effect_hear connection frame
  | pass ticket => exact g.effect_pass ticket
  | settle ticket answer => exact g.effect_settle ticket answer
  | respond ticket =>
    simp only [step, respond]
    split
    · rename_i task htask
      split
      · exact .responded ticket task _ htask ‹_›
      · exact .none ⟨rfl, rfl, rfl, fun _ => rfl⟩
    · exact .none ⟨rfl, rfl, rfl, fun _ => rfl⟩
  | stop => exact .stopped
  | notify notice =>
    simp only [step, notify]
    split
    · exact .notified notice ‹_›
    · rename_i hended
      refine .none ⟨rfl, ?_, rfl, fun _ => rfl⟩
      simp [sent, hended]
  | fanOut => exact g.effect_fanOut
  | quit =>
    simp only [step, Gateway.quit]
    split
    · exact .quit
    · exact .none ⟨rfl, rfl, rfl, fun _ => rfl⟩

/-! ### Tasks -/

section

variable (g : Gateway)

theorem getElem?_setPhase (ticket other : Nat) (phase : Phase) :
    (g.setPhase ticket phase).tasks[other]? = if ticket = other then
      g.tasks[other]?.map fun task => { task with phase } else g.tasks[other]? := by
  rw [setPhase, List.getElem?_modify]
  split <;> simp [*]

theorem tasks_conclude (ticket : Nat) (task : RequestTask)
    (answer : Option (Except Refusal Reply)) :
    (g.conclude ticket task answer).tasks =
      (g.setPhase ticket (.ended answer (g.isOpen task.connection))).tasks := rfl

theorem origins_setPhase (ticket : Nat) (phase : Phase) :
    (g.setPhase ticket phase).tasks.map RequestTask.origin = g.tasks.map RequestTask.origin := by
  refine List.ext_getElem? fun i => ?_
  rw [List.getElem?_map, List.getElem?_map, getElem?_setPhase]
  split
  · rw [Option.map_map]
    rfl
  · rfl

theorem origin_drop (task : RequestTask) : task.drop.origin = task.origin := by
  unfold RequestTask.drop
  split <;> rfl

theorem origins_step (event : Event) :
    (g.step event).tasks.map RequestTask.origin =
      g.tasks.map RequestTask.origin ++ g.heard event := by
  have heffect := g.effect_step event
  generalize g.step event = after at heffect
  cases heffect with
  | none silent => simp [silent.heard]
  | detached connection silent => simp [silent.heard, detach]
  | heard connection number asked hopen => simp [Gateway.heard, hopen, RequestTask.origin]
  | passed | settled => simp [Gateway.heard, origins_setPhase]
  | refused | responded => simp [Gateway.heard, tasks_conclude, origins_setPhase]
  | stopped => simp [Gateway.heard, stop, origin_drop, Function.comp_def]
  | _ => simp [Gateway.heard]

/-- What became of the request of a task, if anything did. -/
def verdict (ticket : Nat) : List (Option (Except Refusal Reply)) :=
  (g.tasks[ticket]?.bind fun task => task.phase.verdict?).toList

variable {g} in
theorem verdict_of_getElem? {ticket : Nat} {task : RequestTask}
    (htask : g.tasks[ticket]? = some task) :
    g.verdict ticket = task.phase.verdict?.toList := by
  rw [verdict, htask, Option.bind_some]

variable {g} in
theorem verdict_setPhase {ticket : Nat} {task : RequestTask}
    (htask : g.tasks[ticket]? = some task) (phase : Phase) (other : Nat) :
    (g.setPhase ticket phase).verdict other =
      if ticket = other then phase.verdict?.toList else g.verdict other := by
  rw [verdict, getElem?_setPhase]
  split
  · rename_i heq
    subst heq
    rw [htask, Option.map_some, Option.bind_some]
  · rfl

variable {g} in
theorem verdict_conclude {ticket : Nat} {task : RequestTask}
    (htask : g.tasks[ticket]? = some task) (answer : Option (Except Refusal Reply)) (other : Nat) :
    (g.conclude ticket task answer).verdict other =
      if ticket = other then [answer] else g.verdict other :=
  verdict_setPhase htask (.ended answer (g.isOpen task.connection)) other

/-- The controller deals with a request at most once, and the task keeps what it made of it. -/
theorem verdict_step (ticket : Nat) (event : Event) :
    (g.step event).verdict ticket = g.verdict ticket ++ g.verdicts ticket event := by
  have heffect := g.effect_step event
  generalize g.step event = after at heffect
  cases heffect with
  | none silent => simp [silent.verdicts]
  | detached connection silent => simp [silent.verdicts, detach, verdict]
  | heard connection number asked hopen =>
    simp only [verdict, verdicts, List.getElem?_append, List.append_nil]
    split
    · rfl
    · rename_i hnew
      rw [List.getElem?_eq_none (Nat.le_of_not_lt hnew)]
      cases ticket - g.tasks.length <;> rfl
  | passed other task htask hphase served =>
    rw [verdict_setPhase htask]
    split
    · rename_i heq
      subst heq
      simp [verdict_of_getElem? htask, hphase, Phase.verdict?, verdicts, served]
    · rename_i hne
      simp [verdicts, hne]
  | settled other task answer htask hphase =>
    rw [verdict_setPhase htask]
    split
    · rename_i heq
      subst heq
      simp [verdict_of_getElem? htask, hphase, Phase.verdict?, verdicts, isWaiting, htask,
        Phase.isWaiting]
    · rename_i hne
      simp [verdicts, hne]
  | refused other task htask hphase stopped =>
    rw [verdict_conclude htask]
    split
    · rename_i heq
      subst heq
      simp [verdict_of_getElem? htask, hphase, Phase.verdict?, verdicts, isFresh, htask,
        Phase.isFresh, stopped]
    · rename_i hne
      simp [verdicts, hne]
  | responded other task answer htask hphase =>
    rw [verdict_conclude htask]
    split
    · rename_i heq
      subst heq
      simp [verdict_of_getElem? htask, hphase, Phase.verdict?, verdicts]
    · simp [verdicts]
  | stopped =>
    simp only [verdict, verdicts, stop, List.getElem?_map, isWaiting]
    rcases Option.eq_none_or_eq_some g.tasks[ticket]? with htask | ⟨task, htask⟩
    · simp [htask]
    · cases hphase : task.phase <;>
        simp [htask, RequestTask.drop, hphase, Phase.verdict?, Phase.isWaiting]
  | _ => simp [verdict, verdicts]

end

/-! ### Notices -/

section

variable (g : Gateway)

theorem notices_step (event : Event) :
    g.fanned event ++ (g.step event).notices = g.notices ++ g.sent event := by
  have heffect := g.effect_step event
  generalize g.step event = after at heffect
  cases heffect with
  | none silent => simp [silent.fanned, silent.sent]
  | detached connection silent => simp [silent.fanned, silent.sent, detach]
  | notified notice running => simp [Gateway.fanned, sent, running]
  | fanned notice rest running hnotices => simp [Gateway.fanned, sent, running, hnotices]
  | _ => simp [Gateway.fanned, sent, setPhase, conclude, stop]

theorem notices_run (events : List Event) :
    g.collect Gateway.fanned events ++ (g.run events).notices =
      g.notices ++ g.collect sent events := by
  induction events generalizing g with
  | nil => rw [collect, collect, List.nil_append, List.append_nil, run, List.foldl_nil]
  | cons event rest ih =>
    rw [collect, collect, List.append_assoc, ← List.append_assoc g.notices, ← notices_step,
      List.append_assoc]
    exact congrArg (g.fanned event ++ ·) (ih (g.step event))

end

end Gateway

end Warren
