import Warren.Proofs.Controller.Dealing
import Warren.Proofs.Controller.Pace
import Warren.Proofs.Controller.Regress
import Warren.Proofs.Controller.Repetition

/-!
# Reports that touch nothing

A report may be worked off without a trace in the record of the job and without a request that
writes a workflow. `spared_report_iff` says which reports these are: those that the job is past
(`Idle`), and those that have nothing left to do (`Spent`). All others do something that no later
step of the same report takes back.
-/

namespace Warren

/-- The name of the workflow that a request creates, patches or deletes. -/
def Api.Request.written? : Request → Option String
  | .patch kind _ name _ | .delete kind _ name =>
    if kind.plural = Kind.workflow.plural then some name else none
  | .create kind _ body => if kind.plural = Kind.workflow.plural then some (nameOf body) else none
  | .get .. | .list .. | .watch .. => none

namespace Api.Server

variable {s t : Server}

/-- A workflow was written. -/
def Altered (s t : Server) : Prop :=
  ∃ q u, q.written?.isSome = true ∧ Served s u ∧ Served (u.serve q) t

instance : Trans Altered Served Altered :=
  ⟨fun ⟨q, u, hq, hu, ht⟩ h => ⟨q, u, hq, hu, Trans.trans ht h⟩⟩

theorem altered_serve {q : Request} (h : q.written?.isSome = true) (s : Server) :
    Altered s (s.serve q) := ⟨q, s, h, Std.Refl.refl s, Std.Refl.refl _⟩

theorem Altered.not_asked (h : Altered s t) : ¬Asked (fun q => q.written? = none) s t := by
  obtain ⟨q, _, hq, ⟨before, _, rfl⟩, ⟨after, _, rfl⟩⟩ := h
  intro hasked
  have hnone : q.written? = none := by
    refine hasked.drop_requests q ?_
    rw [requests_serveAll, requests_serve, requests_serveAll, List.append_assoc, List.append_assoc,
      List.drop_left]
    simp
  rw [hnone] at hq
  cases hq

theorem Asked.of_requests {P Q : Request → Prop} (h : Asked P s t)
    (hQ : ∀ q ∈ t.requests.drop s.requests.length, Q q) : Asked Q s t := by
  obtain ⟨qs, _, rfl⟩ := h
  rw [requests_serveAll, List.drop_left] at hQ
  exact ⟨qs, hQ, rfl⟩

end Api.Server

/-! ### Work that touches nothing -/

namespace Case

/-- Neither the record nor a workflow was touched, and the cleanup got nothing to do. -/
structure Spared (c t : Case) : Prop where
  record : t.record = c.record
  cleanups : t.world.cleanups = c.world.cleanups
  asked : Api.Server.Asked (fun q => q.written? = none) c.world.api t.world.api

instance : Std.Refl Spared := ⟨fun c => ⟨rfl, rfl, Std.Refl.refl c.world.api⟩⟩

instance : Trans Spared Spared Spared where
  trans h h' := ⟨h'.record.trans h.record, h'.cleanups.trans h.cleanups,
    Trans.trans h.asked h'.asked⟩

/-- A workflow was written. -/
def Altered (c t : Case) : Prop := Api.Server.Altered c.world.api t.world.api

instance : Trans Altered Silently Altered where
  trans := by
    intro c t u h (hsilent : u.world.api = t.world.api)
    unfold Altered
    rw [hsilent]
    exact h

theorem Altered.not_spared {c t : Case} (h : Altered c t) : ¬Spared c t :=
  fun spared => h.not_asked spared.asked

end Case

namespace Handling

open Case (Did Spared)

variable {site : Site} {w : Workflow} {c t : Case} {α β : Type}

/-- Work that succeeds and touches nothing. -/
def Spares (work : Handling α) (c : Case) : Prop :=
  Yields (fun _ t => c.Spared t) (fun _ _ => False) work c

theorem Spares.bind {x : Handling α} {f : α → Handling β} (hx : Spares x c)
    (hf : ∀ a t, c.Spared t → Spares (f a) t) : Spares (x >>= f) c :=
  Yields.bind hx fun a t ht => (hf a t ht).mono (fun _ _ hu => Trans.trans ht hu) fun _ _ => id

theorem spares_tell (notice : JobId → Notice) (c : Case) : Spares (tell notice) c :=
  .of_ok rfl ⟨rfl, rfl, Std.Refl.refl c.world.api⟩

theorem spares_saveTiming (object : Json) (c : Case) : Spares (saveTiming object) c := by
  unfold saveTiming
  cases timing? object with
  | none => exact .of_ok rfl (Std.Refl.refl c)
  | some entry => exact spares_tell _ c

theorem spares_token {found : Option String} (h : ((token w).run c.world.api).1 = .ok found) :
    Spares (call (token w)) c := by
  have hcall := run_call (token w) c
  rw [h] at hcall
  have read : Api.Asks (fun q => q.written? = none) (token w) := by
    unfold token
    cases w.status.bind Workflow.Status.token with
    | none => exact .pure _
    | some reference => exact .bind (.get rfl) fun _ => .pure _
  exact .of_ok hcall ⟨rfl, rfl, read c.world.api⟩

theorem spares_react (object : Json) (h : Noted w c.record) : Spares (react site w object) c := by
  have quiet : Quiet (react site w object) c := quiet_react object h
  obtain ⟨_, t, hrun, still⟩ := quiet.ok
  have silent : t.world.api = c.world.api := by
    have hsilent : ((react site w object).run c).2.world.api = c.world.api :=
      leads_silently (leads_react w object c)
    rw [hrun] at hsilent
    exact hsilent
  exact .of_ok hrun ⟨still.record, still.cleanups, silent ▸ Std.Refl.refl _⟩

theorem noted_of_react (site : Site) (object : Json)
    (h : ((react site w object).run c).2.record = c.record) :
    Noted w c.record := by
  unfold Noted
  cases hcondition : w.condition with
  | error =>
    intro hblocks
    rw [← h]
    exact tornDown_react hcondition hblocks object c
  | transient =>
    rw [react, hcondition] at h
    have hsame : some (observed c.world.now w c.record.condition) = c.record.condition :=
      congrArg Record.condition h
    exact ⟨_, hsame.symm⟩
  | normal =>
    rw [react, hcondition] at h
    exact (congrArg Record.condition h).symm

/-! ### When a report touches nothing -/

/-- A completed stage whose step touches nothing any more: the resources were handed back, or the
job is only told that it may start. -/
def Harmless (w : Workflow) (c : Case) : Stage.Action → Prop
  | .applyBreakdowns => c.record.resources = .consumed
  | .releaseProlog => ∃ found, ((token w).run c.world.api).1 = .ok found
  | .advance _ | .moveToTeardown | .finish => False

/-- A report that touches nothing though it is followed: there is no finalizer to release, no time
limit to give up and no step to take, and the condition was noted. -/
structure Spent (w : Workflow) (c : Case) : Prop where
  released : w.isActive .teardown = true → w.isComplete .teardown = false →
    Cleanup.finalizer ∉ w.finalizers
  unlimited : w.isComplete w.desired = true → c.record.timerStage ≠ some w.desired
  harmless : w.isComplete w.desired = true → Harmless w c w.desired.onComplete
  noted : Noted w c.record

theorem spares_act (object : Json) {action : Stage.Action} (h : Harmless w c action) :
    Spares (act site w object action) c := by
  cases action with
  | applyBreakdowns =>
    have hconsumed : c.record.resources = .consumed := h
    have hsame : ({ c.record with resources := .consumed } : Record) = c.record := by
      rw [← hconsumed]
    have hrun : (applyBreakdowns site w object).run c =
        (.ok (), { c with record := { c.record with resources := .consumed } }) := by
      have hupdate : (update fun r => { r with resources := .consumed }).run c =
          (.ok (), { c with record := { c.record with resources := .consumed } }) := rfl
      rw [applyBreakdowns, run_bind_ok (run_record c), run_bind_ok hupdate]
      dsimp only
      rw [hconsumed]
      rfl
    exact .of_ok hrun ⟨hsame, rfl, Std.Refl.refl _⟩
  | releaseProlog =>
    obtain ⟨found, hfound⟩ := h
    refine (spares_token hfound).bind fun _ t _ => ?_
    exact (spares_tell _ t).bind fun _ u _ => spares_saveTiming object u
  | advance => exact h.elim
  | moveToTeardown => exact h.elim
  | finish => exact h.elim

theorem run_release_of_none {finalizers : List String} (h : Cleanup.finalizer ∉ finalizers)
    (c : Case) :
    (call (Cleanup.releaseFinalizer c.record.name finalizers)).run c = (.ok (), c) := by
  have hdrop : Cleanup.dropFinalizer c.record.name finalizers = pure () := by
    rw [Cleanup.dropFinalizer, if_neg (by simpa using h)]
  rw [Cleanup.releaseFinalizer, hdrop]
  rfl

theorem spares_complete (object : Json) (hunlimited : c.record.timerStage ≠ some w.desired)
    (hharmless : Harmless w c w.desired.onComplete) :
    Spares (complete site w object w.desired) c := by
  refine .congr (y := act site w object w.desired.onComplete) ?_ (spares_act object hharmless)
  rw [run_complete, freed_of_ne hunlimited]

theorem spares_follow (object : Json) (h : Idle w c.record ∨ Spent w c) :
    Spares (follow site w object) c := by
  have reacted (hspent : Spent w c) {t : Case} (ht : c.Spared t) :
      Spares (react site w object) t := spares_react object (by rw [ht.record]; exact hspent.noted)
  cases followed site w object c with
  | idle _ hrun => exact .congr hrun (.of_ok rfl (Std.Refl.refl c))
  | parting hbusy hactive hnot hrun =>
    have hspent : Spent w c := h.resolve_left hbusy
    have released : Spares (call (Cleanup.releaseFinalizer c.record.name w.finalizers)) c :=
      .of_ok (run_release_of_none (hspent.released hactive hnot) c) (Std.Refl.refl c)
    exact .congr hrun (released.bind fun _ t ht => reacted hspent ht)
  | complete hbusy hcomplete hrun =>
    have hspent : Spent w c := h.resolve_left hbusy
    have completed : Spares (complete site w object w.desired) c :=
      spares_complete object (hspent.unlimited hcomplete) (hspent.harmless hcomplete)
    exact .congr hrun (completed.bind fun _ t ht => reacted hspent ht)
  | working hbusy _ _ hrun => exact .congr hrun (reacted (h.resolve_left hbusy) (Std.Refl.refl c))

theorem spared_report (object : Json) (h : Idle w c.record ∨ Spent w c) :
    Leads Spared (report site w object) c := by
  have followed : Spares (follow site w object) c := spares_follow object h
  obtain ⟨_, t, hrun, spared⟩ := followed.ok
  unfold Leads
  rw [run_report, hrun]
  exact spared

/-! ### What a report leaves in the record for good -/

end Handling

namespace Case

theorem Did.consumed {site : Site} {P : Deed → Prop} {c t : Case} (h : Did site P c t) :
    c.record.resources = .consumed → t.record.resources = .consumed := by
  refine h.keeps (I := fun c t => c.record.resources = .consumed → t.record.resources = .consumed)
    (fun _ h => h) (fun _ _ _ h h' hc => h' (h hc)) fun c d _ _ hc => ?_
  cases d with
  | startTimer stage =>
    rcases Deed.apply_startTimer_cases site stage c with h | ⟨timer, _, h⟩ <;> rw [h] <;> exact hc
  | consume => rfl
  | _ => exact hc

theorem Did.untimed {site : Site} {c t : Case} (h : Did site Deed.Calm c t)
    (hc : c.record.timer = none) : t.record.timer = none := by
  cases htimer : t.record.timer with
  | none => rfl
  | some timer =>
    rcases h.limits.timer timer htimer with hold | ⟨_, hstarts⟩
    · rw [hc] at hold
      cases hold
    · exact hstarts.elim

end Case

namespace Handling

open Case (Did Spared)

variable {site : Site} {w : Workflow} {c t : Case}

theorem holds_of_act {Q : Record → Prop} {object : Json} (hcomplete : w.isComplete w.desired = true)
    (hbusy : ¬Idle w c.record)
    (hact : ∀ t, Q ((act site w object w.desired.onComplete).run t).2.record)
    (hkept : ∀ {t u : Case}, Did site Deed.Quiet t u → Q t.record → Q u.record) :
    Q ((report site w object).run c).2.record :=
  holds_report_of_complete (Q := fun t => Q t.record) hcomplete hbusy (hact (freed w.desired c))
    (fun t => hkept (leads_react w object t)) fun t => hkept (leads_giveUp object t)

theorem deleted_report (site : Site) (hcomplete : w.isComplete w.desired = true)
    (hbusy : ¬Idle w c.record) (haction : w.desired.onComplete = .finish) (object : Json) :
    ((report site w object).run c).2.record.deleted = true := by
  refine holds_of_act (Q := fun r => r.deleted = true) hcomplete hbusy (fun t => ?_)
    fun did => did.deleted
  obtain ⟨_, u, hrun, hgone⟩ := (yields_finish object t).ok
  rw [haction]
  change ((finish object).run t).2.record.deleted = true
  rw [hrun]
  exact hgone

theorem tornDown_report (site : Site) (hcomplete : w.isComplete w.desired = true)
    (hbusy : ¬Idle w c.record) (haction : w.desired.onComplete = .moveToTeardown) (object : Json) :
    ((report site w object).run c).2.record.tornDown = true := by
  refine holds_of_act (Q := fun r => r.tornDown = true) hcomplete hbusy (fun t => ?_)
    fun did => did.tornDown
  rw [haction]
  rfl

theorem consumed_report (site : Site) (hcomplete : w.isComplete w.desired = true)
    (hbusy : ¬Idle w c.record) (haction : w.desired.onComplete = .applyBreakdowns) (object : Json) :
    ((report site w object).run c).2.record.resources = .consumed := by
  refine holds_of_act (Q := fun r => r.resources = .consumed) hcomplete hbusy (fun t => ?_)
    fun did => did.consumed
  have applied : Leads (fun t u : Case => u.record = { t.record with resources := .consumed })
      (applyBreakdowns site w object) t := (yields_applyBreakdowns object).leads
  rw [haction]
  exact congrArg Record.resources applied

theorem tornDown_report_of_fault (site : Site) {fault : Api.Fault}
    (hcomplete : w.isComplete w.desired = true) (hbusy : ¬Idle w c.record)
    (haction : w.desired.onComplete = .releaseProlog)
    (hfault : ((token w).run c.world.api).1 = .error fault) (object : Json) :
    ((report site w object).run c).2.record.tornDown = true := by
  obtain ⟨timer, hfreed⟩ := freed_eq w.desired c
  have hcall := run_call (token w) { c with record := { c.record with timer } }
  rw [hfault] at hcall
  obtain ⟨u, hu⟩ : ∃ u, (complete site w object w.desired).run c = (.error fault, u) := by
    rw [run_complete, haction, hfreed]
    exact ⟨_, run_bind_error hcall _⟩
  rw [run_report, run_follow_of_complete site hcomplete hbusy, run_bind_error hu]
  exact tornDown_giveUp object u

/-- The limit of a stage that is reported complete is given up, unless the workflow moves on. -/
theorem untimed_report (site : Site) (hcomplete : w.isComplete w.desired = true)
    (hnext : ∀ next, w.desired.onComplete ≠ .advance next)
    (hstage : c.record.timerStage = some w.desired) (hbusy : ¬Idle w c.record) (object : Json) :
    ((report site w object).run c).2.record.timer = none := by
  rw [run_report_of_timer hcomplete hstage hbusy]
  have did : Did site (Deed.Answers w) ⟨c.record.cancelTimer, c.world⟩
      ((report site w object).run ⟨c.record.cancelTimer, c.world⟩).2 := leads_report w object _
  refine (did.mono fun d hd => ?_ : Did site Deed.Calm _ _).untimed rfl
  cases d with
  | moveTo next => exact absurd hd.2 (hnext next)
  | startTimer next => exact absurd hd.2 (hnext next)
  | spend => exact hd
  | _ => trivial

theorem exists_run_react (site : Site) (w : Workflow) (object : Json) (c : Case) :
    ∃ t, (react site w object).run c = (.ok (), t) := by
  cases hcondition : w.condition with
  | error =>
    rw [react, hcondition]
    dsimp only
    rw [run_bind_ok (run_tell _ c), tearDownBlocked, run_bind_ok (run_record _)]
    split
    · exact ⟨_, rfl⟩
    · exact ⟨_, rfl⟩
  | transient =>
    rw [react, hcondition]
    exact ⟨_, rfl⟩
  | normal =>
    rw [react, hcondition]
    exact ⟨_, rfl⟩

theorem noted_of_follow {object : Json}
    (hfollow : (follow site w object).run c = (react site w object).run t)
    (ht : t.record = c.record)
    (h : ((report site w object).run c).2.record = c.record) : Noted w c.record := by
  obtain ⟨u, hu⟩ := exists_run_react site w object t
  rw [run_report, hfollow, hu] at h
  rw [← ht]
  refine noted_of_react site object ?_
  rw [hu, ht]
  exact h

theorem altered_release {name : String} {finalizers : List String}
    (h : Cleanup.finalizer ∈ finalizers) (s : Api.Server) :
    Leads Api.Server.Altered (Cleanup.releaseFinalizer name finalizers) s := by
  have patched :
      Leads Api.Server.Altered (Api.observe (Cleanup.dropFinalizer name finalizers)) s := by
    change Leads Api.Server.Altered (Cleanup.dropFinalizer name finalizers) s
    rw [Cleanup.dropFinalizer, if_pos (by simpa using h)]
    have served : Leads Api.Server.Altered (Api.patch .workflow Api.defaultSpace name
        (Cleanup.finalizersPatch finalizers)) s :=
      Api.Server.altered_serve (q := .patch .workflow Api.defaultSpace name _) rfl s
    exact served.discard
  refine patched.bind_right (S := Api.Server.Served) fun found t _ => ?_
  cases found with
  | ok _ => exact .pure _ t
  | error fault =>
    change Leads Api.Server.Served (if fault.isNotFound = true then _ else _) t
    split
    · exact .pure _ t
    · have again : Api.Asks (fun _ => True) (do
          Cleanup.dropFinalizer name (← Cleanup.currentFinalizers name)) :=
        .bind (Cleanup.asks_currentFinalizers trivial) fun _ => Cleanup.asks_dropFinalizer trivial
      exact again t

theorem harmless_of_spared {object : Json} (hcomplete : w.isComplete w.desired = true)
    (hbusy : ¬Idle w c.record) (h : Leads Spared (report site w object) c) :
    c.record.timerStage ≠ some w.desired ∧ Harmless w c w.desired.onComplete := by
  have hrecord : ((report site w object).run c).2.record = c.record := h.record
  have live (hstays : w.desired.onComplete ≠ .finish) : c.record.tornDown = false :=
    tornDown_of_not_idle hbusy fun hd => hstays (by rw [hd]; rfl)
  have untimed (hnext : ∀ next, w.desired.onComplete ≠ .advance next) :
      c.record.timerStage ≠ some w.desired := by
    intro hstage
    have hnone := untimed_report site hcomplete hnext hstage hbusy object
    rw [hrecord] at hnone
    rw [Record.timerStage, hnone] at hstage
    cases hstage
  -- each other step leaves a mark in the record for good, or asks for the next stage
  cases haction : w.desired.onComplete with
  | applyBreakdowns =>
    have hconsumed := consumed_report site hcomplete hbusy haction object
    rw [hrecord] at hconsumed
    exact ⟨untimed (by simp [haction]), hconsumed⟩
  | releaseProlog =>
    refine ⟨untimed (by simp [haction]), ?_⟩
    cases htoken : ((token w).run c.world.api).1 with
    | ok found => exact ⟨found, htoken⟩
    | error fault =>
      have hlost := tornDown_report_of_fault site hcomplete hbusy haction htoken object
      rw [hrecord, live (by simp [haction])] at hlost
      cases hlost
  | advance next =>
    have asking :
        Leads (Case.Asking (Api.stageRequest c.record.name next)) (report site w object) c :=
      asking_report hcomplete haction hbusy object
    have altered : Case.Altered c ((report site w object).run c).2 := by
      rw [Case.Altered, (asking : _ = _)]
      exact Api.Server.altered_serve rfl _
    exact absurd h altered.not_spared
  | moveToTeardown =>
    have hlost := tornDown_report site hcomplete hbusy haction object
    rw [hrecord, live (by simp [haction])] at hlost
    cases hlost
  | finish =>
    have hgone := deleted_report site hcomplete hbusy haction object
    rw [hrecord, deleted_of_not_idle hbusy] at hgone
    cases hgone

/-- A finalizer that is left to be released leads to a patch of the workflow. -/
theorem released_of_spared {object : Json} (hrun : (follow site w object).run c = (do
      call (Cleanup.releaseFinalizer c.record.name w.finalizers)
      react site w object : Handling Unit).run c)
    (h : Leads Spared (report site w object) c) : Cleanup.finalizer ∉ w.finalizers := by
  intro hmem
  have released : Leads Case.Altered
      (call (Cleanup.releaseFinalizer c.record.name w.finalizers)) c :=
    altered_release hmem c.world.api
  have followed : Leads Case.Altered (follow site w object) c :=
    .congr hrun (released.bind_right fun _ t _ => leads_silently (leads_react w object t))
  have altered : Case.Altered c ((report site w object).run c).2 :=
    holds_report followed fun t ht =>
      Trans.trans ht (leads_silently (leads_giveUp object t) : Case.Silently t _)
  exact altered.not_spared h

/-- A report touches nothing exactly if the job is past it, or everything that it leads to was
done. -/
theorem spared_report_iff (site : Site) (w : Workflow) (object : Json) (c : Case) :
    Leads Spared (report site w object) c ↔ Idle w c.record ∨ Spent w c := by
  refine ⟨fun h => ?_, spared_report object⟩
  have hrecord : ((report site w object).run c).2.record = c.record := h.record
  cases followed site w object c with
  | idle hidle _ => exact Or.inl hidle
  | parting _ hactive hnot hrun =>
    have hreleased : Cleanup.finalizer ∉ w.finalizers := released_of_spared hrun h
    have hincomplete : w.isComplete w.desired ≠ true := by
      rw [Workflow.desired_of_isActive hactive, hnot]
      exact Bool.false_ne_true
    -- without a finalizer to release, what is left of the report is the condition
    rw [run_bind_ok (run_release_of_none hreleased c)] at hrun
    exact Or.inr ⟨fun _ _ => hreleased, fun hyes => absurd hyes hincomplete,
      fun hyes => absurd hyes hincomplete, noted_of_follow hrun rfl hrecord⟩
  | complete hbusy hcomplete hrun =>
    obtain ⟨hunlimited, hharmless⟩ := harmless_of_spared hcomplete hbusy h
    have completed : Spares (complete site w object w.desired) c :=
      spares_complete object hunlimited hharmless
    obtain ⟨_, t, hok, spared⟩ := completed.ok
    rw [run_bind_ok hok] at hrun
    refine Or.inr ⟨fun hactive hnot => ?_, fun _ => hunlimited, fun _ => hharmless,
      noted_of_follow hrun spared.record hrecord⟩
    rw [← Workflow.desired_of_isActive hactive, hcomplete] at hnot
    cases hnot
  | working _ hincomplete hearly hrun =>
    have incomplete (hyes : w.isComplete w.desired = true) : False := by
      rw [hincomplete] at hyes
      cases hyes
    have early (hyes : w.isActive .teardown = true) : False := by
      rw [hearly] at hyes
      cases hyes
    exact Or.inr ⟨fun hyes => (early hyes).elim, fun hyes => (incomplete hyes).elim,
      fun hyes => (incomplete hyes).elim, noted_of_follow hrun rfl hrecord⟩

end Handling

end Warren
