import Warren.Controller.Expiry
import Warren.Proofs.Api.StoredStage

/-!
# What is done for a job

Whatever a message leads to, a job is worked on in small deeds: a request, a notice, a time limit, a
mark in its record. `Deed.apply` is what a deed does, `Deed.Fits` when it may be done, and `Does` a
number of deeds one after the other. The lemmas on single deeds are lifted to all of them, so what
holds of the work for a job is read off from the deeds that it consists of.
-/

namespace Warren

/-- A request for the work on a job: it reads, or it takes the finalizer of the service from the
workflow of the job. -/
def Api.Request.Tends (name : String) : Api.Request → Prop
  | .get .. | .list .. => True
  | .patch kind space n body => kind = .workflow ∧ space = defaultSpace ∧ n = name ∧
      ∃ finalizers, body = Cleanup.finalizersPatch finalizers
  | .create .. | .delete .. | .watch .. => False

theorem Api.Request.Tends.keepsStages {name : String} {q : Api.Request} (h : q.Tends name) :
    q.KeepsStages := by
  cases q with
  | patch kind space n body =>
    obtain ⟨_, _, _, finalizers, rfl⟩ := h
    exact Or.inr ⟨_, rfl⟩
  | _ => exact h

/-- Something that is done for a job. -/
inductive Deed where
  /-- A request that asks for no stage. -/
  | ask (request : Api.Request)
  /-- A request for a stage of the workflow. -/
  | moveTo (stage : Stage)
  | tell (notices : List Notice)
  /-- The program crashes over a number or a text. -/
  | crash
  | startTimer (stage : Stage)
  | cancelTimer
  /-- The workflow is handed to the cleanup, to be moved to its last stage. -/
  | tearDown (finalizers : List String)
  /-- The workflow turns out to be gone. -/
  | lose
  /-- The workflow is handed to the cleanup, to be deleted. -/
  | dispose (finalizers : List String)
  | releaseEpilog
  | consume
  | observe (condition : Option Transient)
  | spend (tolerance : UInt32)

namespace Case

/-- The case after a request. -/
def serve (c : Case) (q : Api.Request) : Case :=
  { c with world := { c.world with api := c.world.api.serve q } }

end Case

namespace Deed

/-- The case after a deed. -/
def apply (site : Site) : Deed → Case → Case
  | .ask q, c => c.serve q
  | .moveTo stage, c => c.serve (Api.stageRequest c.record.name stage)
  | .tell notices, c => { c with world := c.world.tellAll notices }
  | .crash, c => { c with world := c.world.crash }
  | .startTimer stage, c => ((Handling.startTimer site stage).run c).2
  | .cancelTimer, c => { c with record := c.record.cancelTimer }
  | .tearDown finalizers, c => {
      record := { c.record.cancelTimer with tornDown := true, condition := none }
      world := c.world.handOver
        (.teardown c.record.id c.record.name finalizers site.config.savedMovements) }
  | .lose, c => { c with record := { c.record.cancelTimer with tornDown := true, deleted := true } }
  | .dispose finalizers, c => {
      record := { c.record with deleted := true }
      world := c.world.handOver (.delete c.record.name finalizers) }
  | .releaseEpilog, c => {
      record := { c.record with epilogRemoved := true }
      world := c.world.tell (.epilogRemove c.record.id) }
  | .consume, c => { c with record := { c.record with resources := .consumed } }
  | .observe condition, c => { c with record := { c.record with condition } }
  | .spend tolerance, c => { c with record := { c.record with tolerance } }

/-- Whether a deed may be done: a workflow that is torn down gets no stage, no time limit, gives no
compute nodes up and is not torn down again, one that is to be deleted gets no stage and is not
deleted again. -/
def Fits (c : Case) : Deed → Prop
  | .ask q => q.Tends c.record.name
  | .moveTo _ => c.record.tornDown = false ∧ c.record.deleted = false
  | .startTimer _ | .tearDown _ | .lose | .spend _ => c.record.tornDown = false
  | .dispose _ => c.record.deleted = false
  | .releaseEpilog => c.record.epilogRemoved = false
  | .tell _ | .crash | .cancelTimer | .consume | .observe _ => True

/-- A deed that asks for no stage. -/
def Still : Deed → Prop
  | .moveTo _ => False
  | _ => True

/-- A deed that asks for no stage, starts no time limit and gives no compute nodes up. -/
def Calm : Deed → Prop
  | .moveTo _ | .startTimer _ | .spend _ => False
  | _ => True

/-- A deed without a request to the server. -/
def Silent : Deed → Prop
  | .ask _ | .moveTo _ => False
  | _ => True

/-- A deed that is calm and silent. -/
def Quiet : Deed → Prop
  | .ask _ | .moveTo _ | .startTimer _ | .spend _ => False
  | _ => True

theorem Quiet.calm {d : Deed} (h : d.Quiet) : d.Calm := by
  cases d <;> trivial

theorem Quiet.silent {d : Deed} (h : d.Quiet) : d.Silent := by
  cases d <;> trivial

/-- The deeds that a report of a workflow may lead to: a stage is asked for only where the workflow
completed the one before. -/
def Answers (w : Workflow) : Deed → Prop
  | .moveTo next | .startTimer next =>
    w.isComplete w.desired = true ∧ w.desired.onComplete = .advance next
  | .spend _ => False
  | _ => True

/-- The deeds that the end of a time limit may lead to. -/
def Extends (stage : Stage) : Deed → Prop
  | .moveTo _ => False
  | .startTimer next => next = stage
  | _ => True

theorem Calm.answers {d : Deed} (h : d.Calm) (w : Workflow) : d.Answers w := by
  cases d with
  | moveTo next => exact h.elim
  | startTimer next => exact h.elim
  | spend tolerance => exact h.elim
  | _ => trivial

theorem Calm.extends {d : Deed} (h : d.Calm) (stage : Stage) : d.Extends stage := by
  cases d with
  | moveTo next => exact h.elim
  | startTimer next => exact h.elim
  | _ => trivial

theorem Calm.still {d : Deed} (h : d.Calm) : d.Still := by
  cases d with
  | moveTo next => exact h.elim
  | _ => trivial

theorem Extends.still {d : Deed} {stage : Stage} (h : d.Extends stage) : d.Still := by
  cases d with
  | moveTo next => exact h.elim
  | _ => trivial

end Deed

namespace Case

/-- The case after some deeds, each of which fits. -/
inductive Does (site : Site) : Case → List Deed → Case → Prop
  | nil (c : Case) : Does site c [] c
  | cons {c t : Case} {d : Deed} {ds : List Deed} (fits : d.Fits c)
      (rest : Does site (d.apply site c) ds t) : Does site c (d :: ds) t

variable {site : Site} {P Q : Deed → Prop} {c t : Case}

theorem Does.append {u : Case} {ds es : List Deed} (h : Does site c ds t) (h' : Does site t es u) :
    Does site c (ds ++ es) u := by
  induction h with
  | nil c => exact h'
  | cons fits _ ih => exact .cons fits (ih h')

/-- The case after some deeds of a kind. -/
def Did (site : Site) (P : Deed → Prop) (c t : Case) : Prop :=
  ∃ ds : List Deed, (∀ d ∈ ds, P d) ∧ Does site c ds t

instance : Std.Refl (Did site P) := ⟨fun c => ⟨[], by simp, .nil c⟩⟩

theorem Did.trans {u : Case} (h : Did site P c t) (h' : Did site P t u) : Did site P c u := by
  obtain ⟨ds, hds, hdoes⟩ := h
  obtain ⟨es, hes, hdoes'⟩ := h'
  refine ⟨ds ++ es, fun d hd => ?_, hdoes.append hdoes'⟩
  rcases List.mem_append.mp hd with hd | hd
  · exact hds d hd
  · exact hes d hd

instance : Trans (Did site P) (Did site P) (Did site P) := ⟨Did.trans⟩

theorem Did.one {d : Deed} (hP : P d) (fits : d.Fits c) : Did site P c (d.apply site c) :=
  ⟨[d], by simpa using hP, .cons fits (.nil _)⟩

theorem Did.mono (h : ∀ d, P d → Q d) (hd : Did site P c t) : Did site Q c t := by
  obtain ⟨ds, hds, hdoes⟩ := hd
  exact ⟨ds, fun d hd => h d (hds d hd), hdoes⟩

/-- What single deeds of a kind keep where they fit, any number of them keeps. -/
theorem Did.keeps {I : Case → Case → Prop} (refl : ∀ c, I c c)
    (trans : ∀ c t u, I c t → I t u → I c u)
    (step : ∀ c d, P d → d.Fits c → I c (d.apply site c)) (h : Did site P c t) : I c t := by
  obtain ⟨ds, hds, hdoes⟩ := h
  -- along the deeds: the head keeps the relation because it fits, the rest by induction
  induction hdoes with
  | nil c => exact refl c
  | @cons c t d ds fits _ ih =>
    have hrest : ∀ e ∈ ds, P e := fun e he => hds e (List.mem_cons_of_mem _ he)
    exact trans c _ t (step c d (hds d (List.mem_cons_self ..)) fits) (ih hrest)

end Case

/-! ### What deeds keep -/

theorem Handling.state_run_startTimer (site : Site) (stage : Stage) (c : Case) :
    ((startTimer site stage).run c).2 = match site.config.timeouts.of stage with
      | none => c
      | some limit =>
        if c.record.timerStage = some stage then c
        else {
          record := { c.record with
            timer := some ⟨stage, c.world.now + limit, c.world.ticket, false⟩ }
          world := { c.world with ticket := c.world.ticket + 1 } } := by
  unfold startTimer
  cases site.config.timeouts.of stage <;> rfl

namespace Deed

variable {site : Site}

theorem apply_startTimer_cases (site : Site) (stage : Stage) (c : Case) :
    (Deed.startTimer stage).apply site c = c ∨ ∃ timer, timer.ticket = c.world.ticket ∧
      (Deed.startTimer stage).apply site c = {
        record := { c.record with timer := some timer }
        world := { c.world with ticket := c.world.ticket + 1 } } := by
  rw [Deed.apply, Handling.state_run_startTimer]
  cases site.config.timeouts.of stage with
  | none => exact Or.inl rfl
  | some limit =>
    by_cases h : c.record.timerStage = some stage
    · exact Or.inl (if_pos h)
    · exact Or.inr ⟨_, rfl, if_neg h⟩

theorem id_apply (d : Deed) (c : Case) : (d.apply site c).record.id = c.record.id := by
  cases d with
  | startTimer stage =>
    rcases apply_startTimer_cases site stage c with h | ⟨timer, _, h⟩ <;> rw [h]
  | _ => rfl

theorem tornDown_apply {d : Deed} {c : Case} (h : c.record.tornDown = true) :
    (d.apply site c).record.tornDown = true := by
  cases d with
  | startTimer stage =>
    rcases apply_startTimer_cases site stage c with h' | ⟨timer, _, h'⟩ <;> rw [h'] <;>
      exact h
  | tearDown => rfl
  | lose => rfl
  | _ => exact h

theorem deleted_apply {d : Deed} {c : Case} (h : c.record.deleted = true) :
    (d.apply site c).record.deleted = true := by
  cases d with
  | startTimer stage =>
    rcases apply_startTimer_cases site stage c with h' | ⟨timer, _, h'⟩ <;> rw [h'] <;>
      exact h
  | dispose => rfl
  | lose => rfl
  | _ => exact h

theorem api_apply_of_silent {d : Deed} (h : d.Silent) (c : Case) :
    (d.apply site c).world.api = c.world.api := by
  cases d with
  | ask => exact h.elim
  | moveTo => exact h.elim
  | startTimer stage =>
    rcases apply_startTimer_cases site stage c with h' | ⟨timer, _, h'⟩ <;> rw [h']
  | _ => rfl

end Deed

namespace Case

variable {site : Site} {P : Deed → Prop} {c t : Case}

theorem Did.id (h : Did site P c t) : t.record.id = c.record.id :=
  h.keeps (I := fun c t => t.record.id = c.record.id) (fun _ => rfl)
    (fun _ _ _ h h' => h'.trans h) (fun c d _ _ => d.id_apply c)

theorem Did.tornDown (h : Did site P c t) : c.record.tornDown = true → t.record.tornDown = true :=
  h.keeps (I := fun c t => c.record.tornDown = true → t.record.tornDown = true) (fun _ h => h)
    (fun _ _ _ h h' hc => h' (h hc)) (fun _ _ _ _ => Deed.tornDown_apply)

theorem Did.deleted (h : Did site P c t) : c.record.deleted = true → t.record.deleted = true :=
  h.keeps (I := fun c t => c.record.deleted = true → t.record.deleted = true) (fun _ h => h)
    (fun _ _ _ h h' hc => h' (h hc)) (fun _ _ _ _ => Deed.deleted_apply)

theorem Did.api_of_silent (h : Did site Deed.Silent c t) : t.world.api = c.world.api :=
  h.keeps (I := fun c t => t.world.api = c.world.api) (fun _ => rfl)
    (fun _ _ _ h h' => h'.trans h) (fun c _ hd _ => Deed.api_apply_of_silent hd c)

theorem Did.calm (h : Did site P c t) (htorn : c.record.tornDown = true) :
    Did site Deed.Calm c t := by
  obtain ⟨ds, -, hdoes⟩ := h
  refine ⟨ds, ?_, hdoes⟩
  induction hdoes with
  | nil c => simp
  | @cons c t d ds fits _ ih =>
    intro e he
    rcases List.mem_cons.mp he with rfl | he
    · cases e with
      | moveTo => simp [Deed.Fits, htorn] at fits
      | startTimer => simp [Deed.Fits, htorn] at fits
      | spend => simp [Deed.Fits, htorn] at fits
      | _ => trivial
    · exact ih (Deed.tornDown_apply htorn) e he

/-- The clock stands still, tickets are drawn in order, and a time limit that was not there before
has a ticket that was drawn since. -/
structure Ticks (c t : Case) : Prop where
  now : t.world.now = c.world.now
  ticket_le : c.world.ticket ≤ t.world.ticket
  timer : ∀ timer, t.record.timer = some timer → c.record.timer = some timer ∨
    c.world.ticket ≤ timer.ticket ∧ timer.ticket < t.world.ticket

theorem Ticks.refl (c : Case) : Ticks c c := ⟨rfl, Nat.le_refl _, fun _ h => Or.inl h⟩

theorem Ticks.trans {u : Case} (h : Ticks c t) (h' : Ticks t u) : Ticks c u := by
  refine ⟨h'.now.trans h.now, Nat.le_trans h.ticket_le h'.ticket_le, fun timer htimer => ?_⟩
  have hle := h.ticket_le
  have hle' := h'.ticket_le
  rcases h'.timer timer htimer with hold | hnew
  · rcases h.timer timer hold with hold | hnew
    · exact Or.inl hold
    · exact Or.inr ⟨hnew.1, by omega⟩
  · exact Or.inr ⟨by omega, hnew.2⟩

theorem ticks_apply (d : Deed) (c : Case) : Ticks c (d.apply site c) := by
  have cancelled {t : Case} (hnow : t.world.now = c.world.now)
      (hticket : t.world.ticket = c.world.ticket) (htimer : t.record.timer = none) : Ticks c t :=
    ⟨hnow, Nat.le_of_eq hticket.symm, fun timer h => by simp [htimer] at h⟩
  cases d with
  | startTimer stage =>
    rcases Deed.apply_startTimer_cases site stage c with h | ⟨timer, hticket, h⟩
    · rw [h]
      exact .refl c
    · rw [h]
      refine ⟨rfl, Nat.le_succ _, fun other hother => Or.inr ?_⟩
      obtain rfl := Option.some.inj hother
      rw [hticket]
      exact ⟨Nat.le_refl _, Nat.lt_succ_self _⟩
  | cancelTimer => exact cancelled rfl rfl rfl
  | tearDown => exact cancelled rfl rfl rfl
  | lose => exact cancelled rfl rfl rfl
  | _ => exact ⟨rfl, Nat.le_refl _, fun _ h => Or.inl h⟩

theorem Did.ticks (h : Did site P c t) : Ticks c t :=
  h.keeps (I := Ticks) .refl (fun _ _ _ => .trans) (fun c d _ _ => ticks_apply d c)

theorem Did.ticket_of_calm (h : Did site Deed.Calm c t) : t.world.ticket = c.world.ticket := by
  refine h.keeps (I := fun c t => t.world.ticket = c.world.ticket) (fun _ => rfl)
    (fun _ _ _ h h' => h'.trans h) (fun c d hd _ => ?_)
  cases d with
  | startTimer => exact hd.elim
  | _ => rfl

theorem Did.asked_of_still (h : Did site Deed.Still c t) :
    Api.Server.Asked Api.Request.KeepsStages c.world.api t.world.api := by
  refine h.keeps (I := fun c t => Api.Server.Asked Api.Request.KeepsStages c.world.api t.world.api)
    (fun c => Std.Refl.refl c.world.api) (fun _ _ _ h h' => Trans.trans h h') (fun c d hd hf => ?_)
  cases d with
  | ask q => exact Api.Server.Asked.one hf.keepsStages c.world.api
  | moveTo => exact hd.elim
  | startTimer stage =>
    rw [Deed.api_apply_of_silent (d := .startTimer stage) trivial]
    exact Std.Refl.refl c.world.api
  | _ => exact Std.Refl.refl c.world.api

theorem Did.asked (h : Did site P c t) :
    Api.Server.Asked (Api.Request.SetsOnly c.record.name) c.world.api t.world.api := by
  have named : t.record.name = c.record.name ∧
      Api.Server.Asked (Api.Request.SetsOnly c.record.name) c.world.api t.world.api := by
    refine h.keeps (I := fun c t => t.record.name = c.record.name ∧
      Api.Server.Asked (Api.Request.SetsOnly c.record.name) c.world.api t.world.api)
      (fun c => ⟨rfl, Std.Refl.refl c.world.api⟩) ?_ ?_
    · rintro c t u ⟨hname, hasked⟩ ⟨hname', hasked'⟩
      rw [hname] at hname' hasked'
      exact ⟨hname', Trans.trans hasked hasked'⟩
    · intro c d _ hf
      refine ⟨by rw [Record.name, Record.name, d.id_apply], ?_⟩
      cases d with
      | ask q => exact Api.Server.Asked.one (hf.keepsStages.setsOnly _) c.world.api
      | moveTo stage => exact Api.Server.Asked.one (Api.setsOnly_stageRequest _ stage) c.world.api
      | startTimer stage =>
        rw [Deed.api_apply_of_silent (d := .startTimer stage) trivial]
        exact Std.Refl.refl c.world.api
      | _ => exact Std.Refl.refl c.world.api
  exact named.2

end Case

end Warren
