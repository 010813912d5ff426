import Warren.Proofs.Api.Contents
import Warren.Proofs.Controller.Blocked

/-!
# Reports that come once more

A report of a workflow leaves the job in a state in which the same report leads to nothing: either
the job is past such reports (`Idle`), or everything that the report leads to was done (`Done`).
`done_report` says so for a server on which no request fails and no object is about to go, and
`quiet_report` that nothing is done then. `alike_report` puts the two together.
-/

namespace Warren

open Api (workflowKey)

/-- The record, the requests for the cleanup and the contents of the server are as they were. -/
structure Case.Still (c t : Case) : Prop where
  record : t.record = c.record
  cleanups : t.world.cleanups = c.world.cleanups
  now : t.world.now = c.world.now
  contents : Api.Server.SameContents c.world.api t.world.api
  willing : c.world.api.IsWilling → t.world.api.IsWilling

namespace Case

instance : Std.Refl Still := ⟨fun _ => ⟨rfl, rfl, rfl, Std.Refl.refl _, id⟩⟩

instance : Trans Still Still Still where
  trans h h' := ⟨h'.record.trans h.record, h'.cleanups.trans h.cleanups, h'.now.trans h.now,
    Trans.trans h.contents h'.contents, h'.willing ∘ h.willing⟩

end Case

namespace Handling

variable {site : Site} {w : Workflow} {c t : Case} {α β : Type}

/-- Work that succeeds and changes nothing. -/
def Quiet (work : Handling α) (c : Case) : Prop :=
  Yields (fun _ t => c.Still t) (fun _ _ => False) work c

theorem Quiet.bind {x : Handling α} {f : α → Handling β} (hx : Quiet x c)
    (hf : ∀ a t, c.Still t → Quiet (f a) t) : Quiet (x >>= f) c :=
  Yields.bind hx fun a t ht => (hf a t ht).mono (fun _ _ hu => Trans.trans ht hu) fun _ _ => id

theorem quiet_of_run {x : Handling α} {a : α} (hx : x.run c = (.ok a, t)) (h : c.Still t) :
    Quiet x c := Yields.of_ok hx h

theorem quiet_record {f : Record → Handling α} (h : Quiet (f c.record) c) :
    Quiet (record >>= f) c := h

theorem quiet_pure (a : α) (c : Case) : Quiet (pure a) c := quiet_of_run rfl (Std.Refl.refl c)

theorem yields_call {P : α → Api.Server → Prop} {F : Api.Fault → Api.Server → Prop}
    {conversation : Api.Call α} (h : Yields P F conversation c.world.api) :
    Yields (fun a t => ∃ api, P a api ∧ t = { c with world := { c.world with api } })
      (fun fault t => ∃ api, F fault api ∧ t = { c with world := { c.world with api } })
      (call conversation) c := by
  have hcall := run_call conversation c
  obtain ⟨a, api, hrun, hP⟩ | ⟨fault, api, hrun, hF⟩ := h.cases
  · rw [hrun] at hcall
    exact .of_ok hcall ⟨api, hP, rfl⟩
  · rw [hrun] at hcall
    exact .of_error hcall ⟨api, hF, rfl⟩

theorem quiet_call {conversation : Api.Call α}
    (h : Yields (fun _ api => Api.Server.SameContents c.world.api api ∧ api.IsWilling)
      (fun _ _ => False) conversation c.world.api) : Quiet (call conversation) c := by
  refine (yields_call h).mono (fun _ t ht => ?_) fun _ _ hf => ?_
  · obtain ⟨api, ⟨hcontents, hwilling⟩, rfl⟩ := ht
    exact ⟨rfl, rfl, rfl, hcontents, fun _ => hwilling⟩
  · obtain ⟨_, hfalse, _⟩ := hf
    exact hfalse

/-! ### What a report leaves behind -/

/-- The object with the token of a workflow is there, if the workflow names one. -/
def HasToken (w : Workflow) (s : Api.Server) : Prop :=
  ∀ reference, w.status.bind Workflow.Status.token = some reference → (s.object?
    (Api.Kind.secret.key (Api.spaceOrDefault reference.space) reference.name)).isSome = true

/-- The step that belongs to a completed stage was taken. -/
def Taken (site : Site) (w : Workflow) (c : Case) : Stage.Action → Prop
  | .applyBreakdowns => c.record.resources = .consumed
  | .advance next => (c.world.api.workflow? c.record.name).isSome = true ∧
      c.world.api.Settled (workflowKey c.record.name) (Api.stagePatch next) ∧
      (site.config.timeouts.of next = none ∨ c.record.timerStage = some next)
  | .releaseProlog => HasToken w c.world.api
  | .moveToTeardown | .finish => False

/-- The condition of a workflow was noted. -/
def Noted (w : Workflow) (r : Record) : Prop :=
  match w.condition with
  | .error => w.desired.blocksOnEpilog = true → r.tornDown = true
  | .transient => ∃ since, r.condition = some ⟨since, w.message, w.desired⟩
  | .normal => r.condition = none

/-- What the stage of a workflow leads to was done. -/
structure Prepared (site : Site) (w : Workflow) (c : Case) : Prop where
  released : w.isActive .teardown = true → w.isComplete .teardown = false →
    Cleanup.finalizer ∈ w.finalizers → c.world.api.Settled (workflowKey c.record.name)
      (Cleanup.finalizersPatch w.finalizers)
  unlimited : w.isComplete w.desired = true → c.record.timerStage ≠ some w.desired
  taken : w.isComplete w.desired = true → Taken site w c w.desired.onComplete

/-- Everything that a report leads to was done. -/
structure Done (site : Site) (w : Workflow) (c : Case) : Prop extends Prepared site w c where
  noted : Noted w c.record

theorem Taken.still {action : Stage.Action} (h : Taken site w c action) (ht : c.Still t) :
    Taken site w t action := by
  have hsome (key : Api.Key) (hc : (c.world.api.object? key).isSome = true) :
      (t.world.api.object? key).isSome = true := by
    have hmap := congrArg Option.isSome (ht.contents key)
    simpa [hc] using hmap
  cases action with
  | applyBreakdowns => exact (congrArg Record.resources ht.record).trans h
  | advance next =>
    obtain ⟨hstored, hsettled, htimer⟩ := h
    simp only [Taken, ht.record]
    exact ⟨hsome _ hstored, ht.contents.settled (Api.sparesStamp_stagePatch next) hsettled, htimer⟩
  | releaseProlog => exact fun reference hreference => hsome _ (h reference hreference)
  | moveToTeardown => exact h
  | finish => exact h

theorem Done.still (h : Done site w c) (ht : c.Still t) : Done site w t where
  released hactive hnot hmem := by
    rw [ht.record]
    exact ht.contents.settled (Api.sparesStamp_finalizersPatch _) (h.released hactive hnot hmem)
  unlimited hcomplete := by
    rw [ht.record]
    exact h.unlimited hcomplete
  taken hcomplete := (h.taken hcomplete).still ht
  noted := by
    rw [ht.record]
    exact h.noted

/-! ### A report after everything was done

Each piece of work is quiet if what it would do was done. -/

theorem quiet_tell (notice : JobId → Notice) (c : Case) : Quiet (tell notice) c :=
  quiet_of_run (t := { c with world := c.world.tell (notice c.record.id) }) rfl
    ⟨rfl, rfl, rfl, Std.Refl.refl c.world.api, id⟩

theorem quiet_saveTiming (object : Json) (c : Case) : Quiet (saveTiming object) c := by
  unfold saveTiming
  cases timing? object with
  | none => exact quiet_pure _ c
  | some entry => exact quiet_tell _ c

theorem quiet_update {f : Record → Record} (h : f c.record = c.record) : Quiet (update f) c :=
  quiet_of_run (t := { c with record := f c.record }) rfl
    ⟨h, rfl, rfl, Std.Refl.refl c.world.api, id⟩

theorem quiet_startTimer {stage : Stage} (h : site.config.timeouts.of stage = none ∨
    c.record.timerStage = some stage) : Quiet (startTimer site stage) c := by
  have hstate : ((startTimer site stage).run c).2 = c := by
    rw [state_run_startTimer]
    cases hlimit : site.config.timeouts.of stage with
    | none => rfl
    | some limit =>
      obtain hnone | htimer := h
      · rw [hlimit] at hnone
        cases hnone
      · exact if_pos htimer
  have hout : ((startTimer site stage).run c).1 = .ok () := by
    unfold startTimer
    cases site.config.timeouts.of stage <;> rfl
  exact quiet_of_run (Prod.ext hout hstate) (Std.Refl.refl c)

theorem quiet_release (hwilling : c.world.api.IsWilling) {finalizers : List String}
    (h : Cleanup.finalizer ∈ finalizers → c.world.api.Settled (workflowKey c.record.name)
      (Cleanup.finalizersPatch finalizers)) :
    Quiet (call (Cleanup.releaseFinalizer c.record.name finalizers)) c := by
  refine quiet_call ((Api.yields_releaseFinalizer hwilling _ _).mono ?_ fun _ _ => id)
  exact fun _ _ ht => ⟨ht.2.2 h, ht.1⟩

theorem quiet_react (object : Json) (h : Noted w c.record) : Quiet (react site w object) c := by
  unfold react
  unfold Noted at h
  cases hcondition : w.condition with
  | error =>
    rw [hcondition] at h
    refine (quiet_tell _ c).bind fun _ t ht => ?_
    have hnot : (w.desired.blocksOnEpilog && !t.record.tornDown) = false := by
      rw [ht.record]
      cases hblocks : w.desired.blocksOnEpilog with
      | false => rfl
      | true => rw [h hblocks]; rfl
    refine quiet_of_run (t := t) (a := ()) ?_ (Std.Refl.refl t)
    change (if (w.desired.blocksOnEpilog && !t.record.tornDown) = true then
      tearDown site object else pure ()).run t = _
    rw [hnot]
    rfl
  | transient =>
    rw [hcondition] at h
    obtain ⟨since, hsince⟩ := h
    have hobserved : some (observed c.world.now w c.record.condition) = c.record.condition := by
      rw [hsince]
      rfl
    have hsame : ({ c.record with
        condition := some (observed c.world.now w c.record.condition) } : Record) = c.record := by
      rw [hobserved]
    exact quiet_of_run (t := { c with record := { c.record with
      condition := some (observed c.world.now w c.record.condition) } }) rfl
      ⟨hsame, rfl, rfl, Std.Refl.refl _, id⟩
  | normal =>
    rw [hcondition] at h
    have hsame : ({ c.record with condition := none } : Record) = c.record := by
      rw [← (h : c.record.condition = none)]
    exact quiet_update hsame

theorem quiet_requestStage (hwilling : c.world.api.IsWilling) {next : Stage}
    (hstored : (c.world.api.workflow? c.record.name).isSome = true)
    (hsettled : c.world.api.Settled (workflowKey c.record.name) (Api.stagePatch next)) :
    Quiet (call (requestStage c.record.name next)) c := by
  refine quiet_call ((Api.yields_patchWorkflow hwilling _ _).mono ?_ ?_)
  · rintro _ _ ⟨_, rfl⟩
    exact ⟨Trans.trans (Api.Server.sameContents_noted _ _)
      (Api.Server.settled_noted hsettled _).sameContents,
      Api.Server.isWilling_applyPatch (hwilling.noted _) _ _⟩
  · rintro _ _ ⟨hnone, _⟩
    rw [hnone] at hstored
    cases hstored

theorem quiet_token (hwilling : c.world.api.IsWilling) (h : HasToken w c.world.api) :
    Quiet (call (token w)) c := by
  unfold token
  cases hreference : w.status.bind Workflow.Status.token with
  | none => exact quiet_of_run (t := c) rfl (Std.Refl.refl c)
  | some reference =>
    obtain ⟨secret, hsecret⟩ := Option.isSome_iff_exists.mp (h reference hreference)
    have hget := hwilling.run_get .secret (Api.spaceOrDefault reference.space) reference.name
    rw [hsecret] at hget
    refine quiet_call (.of_ok (run_bind_ok hget _) ⟨Api.Server.sameContents_noted _ _, ?_⟩)
    exact hwilling.noted _

theorem quiet_act (hwilling : c.world.api.IsWilling) (object : Json) {action : Stage.Action}
    (h : Taken site w c action) : Quiet (act site w object action) c := by
  cases action with
  | applyBreakdowns =>
    have hconsumed : c.record.resources = .consumed := h
    have consumed : Quiet (update fun r => { r with resources := .consumed }) c :=
      quiet_update (by rw [← hconsumed])
    refine quiet_record (consumed.bind fun _ t _ => ?_)
    rw [hconsumed]
    exact quiet_pure _ t
  | advance next =>
    obtain ⟨hstored, hsettled, htimer⟩ := h
    refine (quiet_requestStage hwilling hstored hsettled).bind fun _ t ht => ?_
    refine (quiet_saveTiming object t).bind fun _ u hu => quiet_startTimer ?_
    rw [hu.record, ht.record]
    exact htimer
  | releaseProlog =>
    refine (quiet_token hwilling h).bind fun found t _ => ?_
    exact (quiet_tell _ t).bind fun _ u _ => quiet_saveTiming object u
  | moveToTeardown => exact h.elim
  | finish => exact h.elim

theorem quiet_complete (hwilling : c.world.api.IsWilling) (object : Json) {stage : Stage}
    (hunlimited : c.record.timerStage ≠ some stage) (h : Taken site w c stage.onComplete) :
    Quiet (complete site w object stage) c := by
  refine .congr (y := act site w object stage.onComplete) ?_ (quiet_act hwilling object h)
  rw [run_complete, freed_of_ne hunlimited]

theorem quiet_follow (hwilling : c.world.api.IsWilling) (object : Json)
    (h : Idle w c.record ∨ Done site w c) : Quiet (follow site w object) c := by
  have done (hbusy : ¬Idle w c.record) : Done site w c := h.resolve_left hbusy
  have reacted (hbusy : ¬Idle w c.record) {t : Case} (ht : c.Still t) :
      Quiet (react site w object) t := quiet_react object ((done hbusy).still ht).noted
  cases followed site w object c with
  | idle _ hrun => exact .congr hrun (quiet_pure _ c)
  | parting hbusy hactive hnot hrun =>
    refine .congr hrun ?_
    exact (quiet_release hwilling ((done hbusy).released hactive hnot)).bind fun _ t ht =>
      reacted hbusy ht
  | complete hbusy hcomplete hrun =>
    refine .congr hrun ?_
    exact (quiet_complete hwilling object ((done hbusy).unlimited hcomplete)
      ((done hbusy).taken hcomplete)).bind fun _ t ht => reacted hbusy ht
  | working hbusy _ _ hrun => exact .congr hrun (reacted hbusy (Std.Refl.refl c))

/-- A report that comes once more leads to nothing. -/
theorem quiet_report (hwilling : c.world.api.IsWilling) (object : Json)
    (h : Idle w c.record ∨ Done site w c) : Quiet (report site w object) c := by
  obtain ⟨_, t, hrun, still⟩ := (quiet_follow hwilling object h).ok
  exact quiet_of_run (by rw [run_report, hrun]) still

/-! ### What a report does

Each piece of work does what makes it quiet the next time, whatever it finds. -/

theorem Prepared.condition (h : Prepared site w c) (hapi : t.world.api = c.world.api)
    {condition : Option Transient} (hrecord : t.record = { c.record with condition }) :
    Prepared site w t := by
  have hname : t.record.name = c.record.name := by rw [hrecord]; rfl
  have htimer : t.record.timerStage = c.record.timerStage := by rw [hrecord]; rfl
  refine ⟨fun hactive hnot hmem => ?_, fun hcomplete => ?_, fun hcomplete => ?_⟩
  · rw [hapi, hname]
    exact h.released hactive hnot hmem
  · rw [htimer]
    exact h.unlimited hcomplete
  · have htaken := h.taken hcomplete
    revert htaken
    cases w.desired.onComplete with
    | applyBreakdowns =>
      intro htaken
      exact (congrArg Record.resources hrecord).trans htaken
    | advance next =>
      intro htaken
      simp only [Taken, hapi, hname, htimer]
      exact htaken
    | releaseProlog =>
      intro htaken
      simp only [Taken, hapi]
      exact htaken
    | moveToTeardown => exact id
    | finish => exact id

theorem yields_record {P : α → Case → Prop} {E : Api.Fault → Case → Prop} {f : Record → Handling α}
    (h : Yields P E (f c.record) c) : Yields P E (record >>= f) c := h

theorem yields_tell (notice : JobId → Notice) (c : Case) :
    Yields (fun _ t => t.record = c.record ∧ t.world.api = c.world.api) (fun _ _ => False)
      (tell notice) c := .of_ok rfl ⟨rfl, rfl⟩

theorem yields_saveTiming (object : Json) (c : Case) :
    Yields (fun _ t => t.record = c.record ∧ t.world.api = c.world.api) (fun _ _ => False)
      (saveTiming object) c := by
  unfold saveTiming
  cases timing? object with
  | none => exact .of_ok rfl ⟨rfl, rfl⟩
  | some entry => exact yields_tell _ c

theorem done_of_noted (h : Idle w c.record ∨ Prepared site w c)
    (hapi : t.world.api = c.world.api) {condition : Option Transient}
    (hrecord : t.record = { c.record with condition }) (hnoted : Noted w t.record) :
    Idle w t.record ∨ Done site w t := by
  rcases h with hidle | hprepared
  · refine Or.inl ?_
    rw [hrecord]
    exact hidle
  · exact Or.inr ⟨hprepared.condition hapi hrecord, hnoted⟩

theorem yields_react_of_error (object : Json) (hcondition : w.condition = .error)
    (h : Idle w c.record ∨ Prepared site w c) :
    Yields (fun _ t => Idle w t.record ∨ Done site w t) (fun _ _ => False)
      (react site w object) c := by
  have hreact : react site w object = (do
      tell (.raise · (failureText ("workflow hit an error: " ++ w.message)))
      tearDownBlocked site w.desired object) := by
    rw [react, hcondition]
  rw [hreact]
  refine (yields_tell _ c).bind fun _ t ht => ?_
  change Yields _ _ (if (w.desired.blocksOnEpilog && !t.record.tornDown) = true then _ else _) t
  rw [ht.1]
  split
  · rename_i hblocked
    -- the job is torn down now, in a stage that is not the last one
    have hne : w.desired ≠ .teardown := by
      intro hd
      simp [hd, Stage.blocksOnEpilog] at hblocked
    exact .of_ok rfl (Or.inl (Or.inr (Or.inr ⟨rfl, Workflow.isActive_of_ne hne⟩)))
  · rename_i hfree
    have hnoted : Noted w c.record := by
      unfold Noted
      rw [hcondition]
      intro hblocks
      simpa [hblocks] using hfree
    exact .of_ok rfl (done_of_noted h ht.2 ht.1 (ht.1 ▸ hnoted))

theorem yields_react (object : Json) (h : Idle w c.record ∨ Prepared site w c) :
    Yields (fun _ t => Idle w t.record ∨ Done site w t) (fun _ _ => False)
      (react site w object) c := by
  cases hcondition : w.condition with
  | error => exact yields_react_of_error object hcondition h
  | normal =>
    have hreact : react site w object = update fun r => { r with condition := none } := by
      rw [react, hcondition]
    have hnoted : Noted w { c.record with condition := none } := by
      unfold Noted
      rw [hcondition]
    rw [hreact]
    exact .of_ok (t := { c with record := { c.record with condition := none } }) rfl
      (done_of_noted h rfl rfl hnoted)
  | transient =>
    let condition := observed c.world.now w c.record.condition
    have hreact : react site w object = modify fun c =>
        let condition := observed c.world.now w c.record.condition
        { c with record := { c.record with condition := some condition } } := by
      rw [react, hcondition]
    have hnoted : Noted w { c.record with condition := some condition } := by
      unfold Noted
      rw [hcondition]
      exact ⟨_, rfl⟩
    rw [hreact]
    exact .of_ok (t := { c with record := { c.record with condition := some condition } }) rfl
      (done_of_noted h rfl rfl hnoted)

/-- The time limit of a stage runs, if the stage has one, and the rest is as it was. -/
structure Timed (site : Site) (stage : Stage) (c t : Case) : Prop where
  api : t.world.api = c.world.api
  cleanups : t.world.cleanups = c.world.cleanups
  record : t.record = { c.record with timer := t.record.timer }
  runs : site.config.timeouts.of stage = none ∨ t.record.timerStage = some stage
  kept : site.config.timeouts.of stage = none ∨ c.record.timerStage = some stage →
    t.record = c.record

theorem yields_startTimer (site : Site) (stage : Stage) (c : Case) :
    Yields (fun _ t => Timed site stage c t) (fun _ _ => False) (startTimer site stage) c := by
  cases hlimit : site.config.timeouts.of stage with
  | none =>
    have hrun : (startTimer site stage).run c = (.ok (), c) := by
      unfold startTimer
      rw [hlimit]
      rfl
    exact .of_ok hrun ⟨rfl, rfl, rfl, Or.inl hlimit, fun _ => rfl⟩
  | some limit =>
    have hout : ((startTimer site stage).run c).1 = .ok () := by
      unfold startTimer
      rw [hlimit]
      rfl
    have hstate := state_run_startTimer site stage c
    rw [hlimit] at hstate
    by_cases hrunning : c.record.timerStage = some stage
    · exact .of_ok (Prod.ext hout (hstate.trans (if_pos hrunning)))
        ⟨rfl, rfl, rfl, Or.inr hrunning, fun _ => rfl⟩
    · refine .of_ok (Prod.ext hout (hstate.trans (if_neg hrunning)))
        ⟨rfl, rfl, rfl, Or.inr rfl, fun h => ?_⟩
      rw [hlimit] at h
      exact absurd (h.resolve_left (by simp)) hrunning

theorem yields_finish (object : Json) (c : Case) :
    Yields (fun _ t => t.record.deleted = true) (fun _ _ => False) (finish object) c := by
  have released : Yields (fun _ _ => True) (fun _ _ => False) releaseEpilog c := by
    refine yields_record ?_
    split
    · exact .of_ok rfl trivial
    · exact .of_ok rfl trivial
  refine released.bind fun _ t _ => ?_
  refine (yields_saveTiming object t).bind fun _ u _ => yields_record ?_
  exact .of_ok rfl rfl

variable (hwilling : c.world.api.IsWilling)

include hwilling

theorem yields_advance (hpart : c.world.api.NonePart) (object : Json) (next : Stage) :
    Yields (fun _ t => Taken site w t (.advance next) ∧
        (t.record.timerStage = c.record.timerStage ∨ t.record.timerStage = some next))
      (fun _ _ => True) (advance site next object) c := by
  have asked := yields_call (c := c) (Api.yields_patchWorkflow hwilling c.record.name
    (Api.stagePatch next))
  refine yields_record (.bind (asked.mono (fun _ _ => id) fun _ _ _ => trivial) fun _ t ht => ?_)
  obtain ⟨api, ⟨hstored, hapi⟩, rfl⟩ := ht
  have hstays : (api.workflow? c.record.name).isSome = true := by
    rw [hapi]
    refine Api.Server.isSome_applyPatch (hpart.noted _)
      (fun object => Api.isParting_stagePatch object next) ?_
    rw [Api.Server.object?_noted]
    exact hstored
  have hsettled : api.Settled (workflowKey c.record.name) (Api.stagePatch next) := by
    rw [hapi]
    exact Api.Server.settled_applyPatch (Api.sparesStamp_stagePatch next)
      (Api.overrides_stagePatch next) _ _
  refine .bind ((yields_saveTiming object _).mono (fun _ _ => id) fun _ _ => False.elim)
    fun _ u hu => ?_
  refine (yields_startTimer site next u).mono (fun _ v hv => ?_) fun _ _ => False.elim
  have hname : v.record.name = c.record.name := by rw [hv.record, hu.1]; rfl
  have hvapi' : v.world.api = api := hv.api.trans hu.2
  refine ⟨?_, ?_⟩
  · simp only [Taken, hname, hvapi']
    exact ⟨hstays, hsettled, hv.runs⟩
  · refine hv.runs.imp (fun h => ?_) id
    rw [hv.kept (Or.inl h), hu.1]

omit hwilling in
theorem yields_token {s : Api.Server} (hwilling : s.IsWilling) (w : Workflow) :
    Yields (fun _ t => HasToken w t) (fun _ _ => True) (token w) s := by
  unfold token
  cases hreference : w.status.bind Workflow.Status.token with
  | none =>
    refine .of_ok rfl fun reference h => ?_
    rw [hreference] at h
    cases h
  | some reference =>
    have hget := hwilling.run_get .secret (Api.spaceOrDefault reference.space) reference.name
    cases hsecret : s.object? (Api.Kind.secret.key (Api.spaceOrDefault reference.space)
        reference.name) with
    | none =>
      rw [hsecret] at hget
      exact .of_error (run_bind_error hget _) trivial
    | some secret =>
      rw [hsecret] at hget
      refine .of_ok (run_bind_ok hget _) fun other h => ?_
      rw [hreference] at h
      obtain rfl := Option.some.inj h
      rw [Api.Server.object?_noted, hsecret]
      rfl

theorem yields_releaseProlog (object : Json) :
    Yields (fun _ t => HasToken w t.world.api ∧ t.record = c.record) (fun _ _ => True)
      (releaseProlog w object) c := by
  have read := (yields_call (yields_token hwilling w)).mono (fun _ _ => id) fun _ _ _ => trivial
  refine read.bind fun found t ht => ?_
  obtain ⟨api, htoken, rfl⟩ := ht
  refine ((yields_tell _ _).mono (fun _ _ => id) fun _ _ => False.elim).bind fun _ u hu => ?_
  refine (yields_saveTiming object u).mono (fun _ v hv => ⟨?_, hv.1.trans hu.1⟩)
    fun _ _ => False.elim
  rw [hv.2, hu.2]
  exact htoken

omit hwilling in
theorem yields_applyBreakdowns (object : Json) :
    Yields (fun _ t => t.record = { c.record with resources := .consumed })
      (fun _ t => t.record = { c.record with resources := .consumed })
      (applyBreakdowns site w object) c := by
  have consumed : Yields (fun _ t => t.record = { c.record with resources := .consumed })
      (fun _ t => t.record = { c.record with resources := .consumed })
      (update fun r => { r with resources := .consumed }) c := .of_ok rfl rfl
  refine yields_record (consumed.bind fun _ t ht => ?_)
  cases c.record.resources with
  | consumed => exact .of_ok rfl ht
  | unknown => exact .of_ok rfl ht
  | pending resources =>
    have read : Yields (fun _ u => u.record = { c.record with resources := .consumed })
        (fun _ u => u.record = { c.record with resources := .consumed })
        (call (breakdowns w)) t := by
      have looked := yields_call (c := t) (yields_trivial (breakdowns w) t.world.api)
      exact looked.mono (fun _ _ ⟨_, _, hu⟩ => hu ▸ ht) fun _ _ ⟨_, _, hu⟩ => hu ▸ ht
    refine read.bind fun found u hu => ?_
    split
    · exact .of_ok rfl hu
    · exact .of_ok rfl hu

omit hwilling in
theorem prepared_of_early (hd : w.desired ≠ .teardown)
    (htimer : c.record.timerStage ≠ some w.desired)
    (htaken : Taken site w c w.desired.onComplete) : Prepared site w c where
  released hactive := absurd (hactive.symm.trans (Workflow.isActive_of_ne hd)) (by simp)
  unlimited _ := htimer
  taken _ := htaken

theorem yields_act_of_advance (hpart : c.world.api.NonePart)
    (hunlimited : c.record.timerStage ≠ some w.desired) (object : Json) (next : Stage)
    (hd : w.desired ≠ .teardown) (hne : w.desired ≠ next)
    (hnext : w.desired.onComplete = .advance next) :
    Yields (fun _ t => Idle w t.record ∨ Prepared site w t)
      (fun _ _ => w.isActive .teardown = false) (act site w object w.desired.onComplete) c := by
  have advanced : Yields (fun _ t => Taken site w t (.advance next) ∧
        (t.record.timerStage = c.record.timerStage ∨ t.record.timerStage = some next))
      (fun _ _ => True) (advance site next object) c := yields_advance hwilling hpart object next
  rw [hnext]
  refine advanced.mono (fun _ t ht => Or.inr ?_) fun _ _ _ => Workflow.isActive_of_ne hd
  refine prepared_of_early hd ?_ (hnext ▸ ht.1)
  rcases ht.2 with h | h
  · rw [h]
    exact hunlimited
  · rw [h]
    exact fun he => hne (Option.some.inj he).symm

theorem yields_act (hpart : c.world.api.NonePart)
    (hunlimited : c.record.timerStage ≠ some w.desired) (object : Json) :
    Yields (fun _ t => Idle w t.record ∨ Prepared site w t)
      (fun _ _ => w.isActive .teardown = false) (act site w object w.desired.onComplete) c := by
  cases hd : w.desired with
  | proposal =>
    have hne : w.desired ≠ .teardown := by simp [hd]
    refine (yields_applyBreakdowns object).mono (fun _ t ht => Or.inr ?_)
      fun _ _ _ => Workflow.isActive_of_ne hne
    refine prepared_of_early hne ?_ ?_
    · rw [ht]
      exact hunlimited
    · rw [hd]
      exact congrArg Record.resources ht
  | setup =>
    have hnext : w.desired.onComplete = .advance .dataIn := by rw [hd]; rfl
    exact hd ▸ yields_act_of_advance hwilling hpart hunlimited object .dataIn (by simp [hd])
      (by simp [hd]) hnext
  | dataIn =>
    have hnext : w.desired.onComplete = .advance .preRun := by rw [hd]; rfl
    exact hd ▸ yields_act_of_advance hwilling hpart hunlimited object .preRun (by simp [hd])
      (by simp [hd]) hnext
  | preRun =>
    have hne : w.desired ≠ .teardown := by simp [hd]
    refine (yields_releaseProlog hwilling object).mono (fun _ t ht => Or.inr ?_)
      fun _ _ _ => Workflow.isActive_of_ne hne
    refine prepared_of_early hne ?_ ?_
    · rw [ht.2]
      exact hunlimited
    · rw [hd]
      exact ht.1
  | postRun =>
    have hnext : w.desired.onComplete = .advance .dataOut := by rw [hd]; rfl
    exact hd ▸ yields_act_of_advance hwilling hpart hunlimited object .dataOut (by simp [hd])
      (by simp [hd]) hnext
  | dataOut =>
    have hne : w.desired ≠ .teardown := by simp [hd]
    exact .of_ok rfl (Or.inl (Or.inr (Or.inr ⟨rfl, Workflow.isActive_of_ne hne⟩)))
  | teardown =>
    exact (yields_finish object c).mono (fun _ t ht => Or.inl (Or.inr (Or.inl ht)))
      fun _ _ => False.elim

theorem yields_complete (hpart : c.world.api.NonePart) (object : Json) :
    Yields (fun _ t => Idle w t.record ∨ Prepared site w t)
      (fun _ _ => w.isActive .teardown = false) (complete site w object w.desired) c := by
  have hunlimited := timerStage_freed w.desired c
  obtain ⟨timer, hfreed⟩ := freed_eq w.desired c
  rw [hfreed] at hunlimited
  unfold Yields
  rw [run_complete, hfreed]
  exact yields_act (c := { c with record := { c.record with timer } }) hwilling hpart hunlimited
    object

theorem yields_follow (hpart : c.world.api.NonePart) (object : Json) :
    Yields (fun _ t => Idle w t.record ∨ Done site w t) (fun _ _ => w.isActive .teardown = false)
      (follow site w object) c := by
  have reacted {t : Case} (h : Idle w t.record ∨ Prepared site w t) :
      Yields (fun _ u => Idle w u.record ∨ Done site w u)
        (fun _ _ => w.isActive .teardown = false) (react site w object) t :=
    (yields_react object h).mono (fun _ _ => id) fun _ _ => False.elim
  have unfinished (hincomplete : w.isComplete w.desired = false) {P : Prop}
      (h : w.isComplete w.desired = true) : P := by
    rw [hincomplete] at h
    cases h
  cases followed site w object c with
  | idle hidle hrun => exact .congr hrun (.of_ok rfl (Or.inl hidle))
  | parting _ hactive hnot hrun =>
    have released := (yields_call (Api.yields_releaseFinalizer hwilling c.record.name
      w.finalizers)).mono (fun _ _ => id) fun _ _ h => (h.elim fun _ h => h.1.elim :
        w.isActive .teardown = false)
    refine .congr hrun (released.bind fun _ t ht => reacted (Or.inr ?_))
    obtain ⟨api, ⟨_, hsettled, _⟩, rfl⟩ := ht
    have hincomplete : w.isComplete w.desired = false := by
      rw [Workflow.desired_of_isActive hactive, hnot]
    exact ⟨fun _ _ hmem => hsettled hmem, unfinished hincomplete, unfinished hincomplete⟩
  | complete _ _ hrun =>
    exact .congr hrun
      ((yields_complete hwilling hpart object).bind fun _ t ht => reacted ht)
  | working _ hincomplete hearly hrun =>
    refine .congr hrun (reacted (Or.inr ⟨fun hactive => ?_, unfinished hincomplete,
      unfinished hincomplete⟩))
    rw [hearly] at hactive
    cases hactive

/-- A report does all that it leads to, unless the job is past it then. -/
theorem done_report (hpart : c.world.api.NonePart) (object : Json) :
    let t := ((report site w object).run c).2
    Idle w t.record ∨ Done site w t := by
  have followed : Yields (fun _ u => Idle w u.record ∨ Done site w u)
      (fun _ _ => w.isActive .teardown = false) (follow site w object) c :=
    yields_follow hwilling hpart object
  dsimp only
  rw [run_report]
  obtain ⟨_, u, hrun, hdone⟩ | ⟨_, u, hrun, hactive⟩ := followed.cases
  · rw [hrun]
    exact hdone
  · rw [hrun]
    exact Or.inl (Or.inr (Or.inr ⟨tornDown_giveUp object u, hactive⟩))

end Handling

namespace Controller

variable {site : Site} {c t : Controller} {α : Type}

/-- The records, the requests for the cleanup and the contents of the server are as they were. -/
structure Alike (c t : Controller) : Prop where
  registry : t.registry = c.registry
  cleanups : t.world.cleanups = c.world.cleanups
  contents : Api.Server.SameContents c.world.api t.world.api

theorem alike_work {g : Registry} {record : Record} {handling : Handling α}
    (hg : c.registry = g.put record) (h : Handling.Quiet handling ⟨record, c.world⟩) :
    c.Alike (work record handling c).2 := by
  obtain ⟨_, case, hrun, still⟩ := Yields.ok h
  have hrecord : case.record = record := still.record
  rw [state_work, hrun]
  refine ⟨?_, still.cleanups, still.contents⟩
  change c.registry.put case.record = c.registry
  rw [hrecord, hg]
  exact Dict.insert_insert g record.id record record

theorem alike_report (hc : c.Kept) (hwilling : c.world.api.IsWilling)
    (hpart : c.world.api.NonePart) (site : Site) (w : Workflow) (object : Json) :
    let t := (work (c.registry.recordOf w.jobId) (Handling.report site w object) c).2
    t.Alike (work (t.registry.recordOf w.jobId) (Handling.report site w object) t).2 := by
  intro t
  let case : Case := ⟨c.registry.recordOf w.jobId, c.world⟩
  let after : Case := ((Handling.report site w object).run case).2
  have ht : t = ⟨c.registry.put after.record, after.world⟩ := rfl
  have did : Case.Did site (Deed.Answers w) case after := Handling.leads_report w object case
  have hid : after.record.id = w.jobId := did.id.trans (hc.recordOf w.jobId).1
  have hrecord : t.registry.recordOf w.jobId = after.record := by
    rw [ht, Registry.recordOf_put, if_pos hid]
  have done : Handling.Idle w after.record ∨ Handling.Done site w after :=
    Handling.done_report (c := case) hwilling hpart object
  rw [hrecord]
  exact alike_work rfl (Handling.quiet_report (did.asked.isWilling hwilling) object done)

end Controller

end Warren
