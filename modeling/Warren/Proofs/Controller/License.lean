import Warren.Proofs.Cleanup.Finalizers
import Warren.Proofs.Controller.Errand

/-!
# What work on a job is allowed to do

A license says which requests may be made, which notices may be sent and what may be handed to the
cleanup. Every piece of work on a job stays within a license that allows what the piece is for:
`within_report` says what a report of a workflow needs, `within_expire` that an expired limit may
cost the job compute nodes, and `within_condemn` that the end of a condition may mark some.
-/

namespace Warren

/-! ### Requests and notices that mean nothing special -/

namespace Api.Request

/-- A patch that writes the desired stage of an object. -/
def SetsDesired : Request → Prop
  | .patch _ _ _ body => (body.path? ["spec", "desiredState"]).isSome = true
  | _ => False

/-- A patch that takes the finalizer of the service from some object. -/
def Drops : Request → Prop
  | .patch _ _ _ body => ∃ object : Json, .string Cleanup.finalizer ∈ finalizersOf object ∧
      .string Cleanup.finalizer ∉ finalizersOf (object.merge body)
  | _ => False

/-- A request that neither moves a workflow on nor releases it. -/
def IsPlain (q : Request) : Prop := ¬q.SetsDesired ∧ ¬q.Drops

/-- A request that is about no other workflow than that of one name. -/
def KeepsTo (name : String) : Request → Prop
  | .get kind _ other | .patch kind _ other _ | .delete kind _ other =>
    kind.plural = Kind.workflow.plural → other = name
  | .create kind _ body => kind.plural = Kind.workflow.plural → nameOf body = name
  | .list .. | .watch .. => True

/-- A plain request that is about no other workflow. -/
def IsUsual (name : String) (q : Request) : Prop := q.IsPlain ∧ q.KeepsTo name

theorem isPlain_get (kind : Kind) (space name : String) : (Request.get kind space name).IsPlain :=
  ⟨id, id⟩

theorem isPlain_list (kind : Kind) (scope : Scope) (selector : Option String) (limit : Option Nat) :
    (Request.list kind scope selector limit).IsPlain := ⟨id, id⟩

theorem isPlain_create (kind : Kind) (space : String) (body : Json) :
    (Request.create kind space body).IsPlain := ⟨id, id⟩

theorem not_drops_of_field {kind : Kind} {space name field : String} (h : field ≠ "metadata")
    (value : Json) : ¬(Request.patch kind space name (.object [(field, value)])).Drops := by
  rintro ⟨object, hmem, hnot⟩
  have hpath := Json.path?_merge_of_ne h object value ["finalizers"]
  refine hnot ?_
  simp only [finalizersOf, hpath]
  exact hmem

theorem isPlain_patch_of_field {kind : Kind} {space name field : String} {value : Json}
    (hmetadata : field ≠ "metadata")
    (hspec : field = "spec" → value.path? ["desiredState"] = none) :
    (Request.patch kind space name (.object [(field, value)])).IsPlain := by
  refine ⟨fun hsets => ?_, not_drops_of_field hmetadata value⟩
  have hpath : (Json.object [(field, value)]).path? ["spec", "desiredState"] = none := by
    rw [Json.path?_cons, Json.field?, Json.fields_object, Dict.find?_cons]
    split
    · rename_i hfield
      exact hspec hfield
    · rfl
  simp only [SetsDesired, hpath, Option.isSome_none] at hsets
  cases hsets

/-- A workflow is read by its own name. -/
theorem isUsual_get (name : String) : (Request.get .workflow defaultSpace name).IsUsual name :=
  ⟨isPlain_get .., fun _ => rfl⟩

theorem isUsual_get_of_ne {kind : Kind} (h : kind.plural ≠ Kind.workflow.plural)
    (space other name : String) : (Request.get kind space other).IsUsual name :=
  ⟨isPlain_get .., fun hkind => absurd hkind h⟩

theorem not_drops_stageRequest (name : String) (stage : Stage) :
    ¬(stageRequest name stage).Drops := not_drops_of_field (by decide) _

theorem not_setsDesired_finalizersPatch (kind : Kind) (space name : String)
    (finalizers : List String) :
    ¬(Request.patch kind space name (Cleanup.finalizersPatch finalizers)).SetsDesired := by
  rw [finalizersPatch_eq]
  simp [SetsDesired, Json.path?_cons, Json.field?, Dict.find?_cons]

end Api.Request

namespace Notice

/-- A notice that neither hands resources back, nor takes some, nor releases the job. -/
def IsPlain : Notice → Prop
  | .resourceUpdate _ | .prologRemove .. | .epilogRemove _ | .nodeFailure .. => False
  | _ => True

/-- The job that a notice is about; a notice about compute nodes or storage is about none. -/
def job? : Notice → Option JobId
  | .resourceUpdate content => some content.id
  | .prologRemove id _ _ | .epilogRemove id | .memo id _ | .jobRaise id _ _ _
  | .nodeFailure id _ | .kvsPut id _ => some id
  | .drain .. | .setProperty .. | .removeProperty .. | .setStatus .. => none

end Notice

/-! ### Licenses -/

/-- What may be asked of the server, told to the job manager and handed to the cleanup. -/
structure License where
  asks : Api.Request → Prop
  tells : Notice → Prop
  hands : Cleanup.Request → Prop

/-- What was done to the world is licensed. -/
def World.Acts (l : License) (w v : World) : Prop :=
  Api.Server.Asked l.asks w.api v.api ∧ ∃ x, World.Sends x w v ∧
    (∀ notice ∈ x.notices, l.tells notice) ∧ ∀ request ∈ x.cleanups, l.hands request

namespace World

variable {l : License} {w v : World}

theorem acts_of_asked (hasked : Api.Server.Asked l.asks w.api v.api)
    (hnotices : v.notices = w.notices) (hcleanups : v.cleanups = w.cleanups) : Acts l w v :=
  ⟨hasked, .empty, ⟨by rw [hnotices]; exact (List.append_nil _).symm,
    by rw [hcleanups]; exact (List.append_nil _).symm⟩, by simp [Dispatch.empty],
    by simp [Dispatch.empty]⟩

theorem acts_tellAll {notices : List Notice} (h : ∀ notice ∈ notices, l.tells notice) (w : World) :
    Acts l w (w.tellAll notices) :=
  ⟨Std.Refl.refl w.api, ⟨notices, []⟩, ⟨rfl, (List.append_nil _).symm⟩, h, by simp⟩

theorem acts_announce {notices : List (Except Crash Notice)}
    (h : ∀ notice ∈ Notice.upToCrash notices, l.tells notice) (w : World) :
    Acts l w (w.announce notices) := by
  obtain ⟨hasked, x, hsent, hx⟩ := acts_tellAll h w
  rw [announce_eq]
  exact ⟨hasked, x, ⟨hsent.notices, hsent.cleanups⟩, hx⟩

theorem acts_handOver {request : Cleanup.Request} (h : l.hands request) (w : World) :
    Acts l w (w.handOver request) :=
  ⟨Std.Refl.refl w.api, ⟨[], [request]⟩, ⟨(List.append_nil _).symm, rfl⟩, by simp, by simpa using h⟩

instance : Std.Refl (Acts l) := ⟨fun w => acts_of_asked (Std.Refl.refl w.api) rfl rfl⟩

instance : Trans (Acts l) (Acts l) (Acts l) where
  trans := by
    rintro u v w ⟨hasked, x, hx, hnotices, hcleanups⟩ ⟨hasked', y, hy, hnotices', hcleanups'⟩
    refine ⟨Trans.trans hasked hasked', x.append y, hx.trans hy, fun notice hn => ?_,
      fun request hr => ?_⟩
    · rcases List.mem_append.mp hn with hn | hn
      · exact hnotices notice hn
      · exact hnotices' notice hn
    · rcases List.mem_append.mp hr with hr | hr
      · exact hcleanups request hr
      · exact hcleanups' request hr

end World

/-- What every piece of work on a job may do: nothing special, about no other job, and handing the
workflow of the job to the cleanup to be moved to its last stage. -/
structure License.Allows (l : License) (site : Site) (id : JobId) : Prop where
  asks : ∀ q : Api.Request, q.IsUsual id.workflowName → l.asks q
  tells : ∀ notice : Notice, notice.IsPlain → notice.job? = some id → l.tells notice
  hands : ∀ finalizers,
    l.hands (.teardown id id.workflowName finalizers site.config.savedMovements)

/-- Work on a job stays within a license. -/
def Case.Within (l : License) (id : JobId) (c t : Case) : Prop :=
  c.record.id = id → t.record.id = id ∧ World.Acts l c.world t.world

namespace Handling

open Case (Within)

variable {site : Site} {l : License} {id : JobId} {c : Case} {α : Type}

instance : Std.Refl (Within l id) := ⟨fun c hid => ⟨hid, Std.Refl.refl c.world⟩⟩

instance : Trans (Within l id) (Within l id) (Within l id) where
  trans := by
    intro c t u ht hu hid
    obtain ⟨hid', first⟩ := ht hid
    obtain ⟨hid'', second⟩ := hu hid'
    exact ⟨hid'', Trans.trans first second⟩

/-! ### Single steps -/

theorem within_call {conversation : Api.Call α} (h : Api.Asks l.asks conversation) (c : Case) :
    Leads (Within l id) (call conversation) c :=
  fun hid => ⟨hid, World.acts_of_asked (h c.world.api) rfl rfl⟩

theorem within_tell {notice : JobId → Notice} (h : l.tells (notice id)) :
    Leads (Within l id) (tell notice) c := by
  intro hid
  refine ⟨hid, World.acts_tellAll (fun n hn => ?_) c.world⟩
  rw [List.mem_singleton.mp hn, hid]
  exact h

theorem within_handOver {request : Cleanup.Request} (h : l.hands request) (c : Case) :
    Leads (Within l id) (handOver request) c :=
  fun hid => ⟨hid, World.acts_handOver h c.world⟩

theorem within_crash (c : Case) : Leads (Within l id) crash c :=
  fun hid => ⟨hid, World.acts_of_asked (Std.Refl.refl c.world.api) rfl rfl⟩

theorem within_update {f : Record → Record} (h : ∀ r, (f r).id = r.id) (c : Case) :
    Leads (Within l id) (update f) c :=
  fun hid => ⟨(h c.record).trans hid, Std.Refl.refl c.world⟩

theorem within_startTimer (site : Site) (stage : Stage) (c : Case) :
    Leads (Within l id) (startTimer site stage) c := by
  intro hid
  rcases Deed.apply_startTimer_cases site stage c with h | ⟨timer, _, h⟩
  · have hstate : ((startTimer site stage).run c).2 = c := h
    rw [hstate]
    exact ⟨hid, Std.Refl.refl c.world⟩
  · have hstate : ((startTimer site stage).run c).2 = {
        record := { c.record with timer := some timer }
        world := { c.world with ticket := c.world.ticket + 1 } } := h
    rw [hstate]
    exact ⟨hid, World.acts_of_asked (Std.Refl.refl c.world.api) rfl rfl⟩

theorem isPlain_of_mem_mark {site : Site} {hosts : List String} {reason : String} {notice : Notice}
    (h : notice ∈ Notice.upToCrash (Health.mark site hosts reason)) :
    notice.IsPlain ∧ notice.job? = none := by
  obtain ⟨targets, rfl | rfl⟩ := mem_mark h <;> exact ⟨trivial, rfl⟩

variable (allows : l.Allows site id)

include allows

theorem asks_usual {conversation : Api.Call α}
    (h : Api.Asks (Api.Request.IsUsual id.workflowName) conversation) :
    Api.Asks l.asks conversation := Api.Asks.mono allows.asks h

theorem within_saveTiming (object : Json) (c : Case) :
    Leads (Within l id) (saveTiming object) c := by
  unfold saveTiming
  cases timing? object with
  | none => exact .pure _ c
  | some entry => exact within_tell (allows.tells _ trivial rfl)

theorem within_saveWorkflow (object : Json) (c : Case) :
    Leads (Within l id) (saveWorkflow object) c := within_tell (allows.tells _ trivial rfl)

theorem within_tearDown (object : Json) (c : Case) :
    Leads (Within l id) (tearDown site object) c := by
  refine .bind (within_saveWorkflow allows object c) fun _ t _ => leads_record ?_
  have handed : Leads (Within l id) (handOver (.teardown t.record.id t.record.name
      (finalizersIn object) site.config.savedMovements)) t := by
    intro hid
    have hname : t.record.name = id.workflowName := by rw [Record.name, hid]
    rw [hname, hid]
    exact within_handOver (allows.hands _) t hid
  exact handed.bind fun _ u _ => within_update (fun _ => rfl) u

theorem within_tearDownStored (c : Case) : Leads (Within l id) (tearDownStored site) c := by
  have looked : Leads (Within l id) (call (Api.observe (Api.getWorkflow c.record.name))) c := by
    intro hid
    have hname : c.record.name = id.workflowName := by rw [Record.name, hid]
    rw [hname]
    exact within_call (asks_usual allows (.observe (.get (Api.Request.isUsual_get _)))) c hid
  refine leads_record (looked.bind fun found t _ => ?_)
  cases found with
  | ok object => exact .bind (within_tearDown allows object t) fun _ u _ => .pure _ u
  | error fault =>
    change Leads _ (if fault.isNotFound = true then _ else _) t
    split
    · exact .bind (within_update (fun _ => rfl) t) fun _ u _ => .pure _ u
    · exact .throw _ t

theorem within_tearDownBlocked (stage : Stage) (object : Json) (c : Case) :
    Leads (Within l id) (tearDownBlocked site stage object) c := by
  refine leads_record ?_
  split
  · exact within_tearDown allows object c
  · exact .pure _ c

theorem within_react (w : Workflow) (object : Json) (c : Case) :
    Leads (Within l id) (react site w object) c := by
  unfold react
  cases w.condition with
  | error =>
    exact .bind (within_tell (allows.tells _ trivial rfl)) fun _ t _ =>
      within_tearDownBlocked allows _ object t
  | transient => exact fun hid => ⟨hid, Std.Refl.refl c.world⟩
  | normal => exact within_update (fun _ => rfl) c

theorem within_giveUp (object : Json) (c : Case) : Leads (Within l id) (giveUp site object) c := by
  have raised (t : Case) : Leads (Within l id)
      (tell (.raise · "DWS/Rabbit interactions failed")) t :=
    within_tell (allows.tells _ trivial rfl)
  refine leads_record ?_
  split
  · exact .bind (within_tearDown allows object c) fun _ t _ => raised t
  · exact raised c

/-! ### Expired limits -/

theorem within_lagging (name : String) (stage : Stage) (c : Case) :
    Leads (Within l id) (call (Api.observe (lagging name stage))) c := by
  refine within_call (asks_usual allows (.observe ?_)) c
  exact .bind (.list ⟨Api.Request.isPlain_list .., trivial⟩) fun _ =>
    .bind (.mapM fun _ _ => .decoded _ _) fun _ => .pure _

theorem within_tearDownStuck (stage : Stage) (c : Case) :
    Leads (Within l id) (tearDownStuck site stage) c := by
  refine leads_record ?_
  split
  · have torn : Leads (Within l id) (ExceptT.lift (tearDownStored site).run : Handling _) c :=
      within_tearDownStored allows c
    exact torn.discard
  · exact .pure _ c

theorem within_dispensable (stage : Stage) (c : Case) :
    Leads (Within l id) (dispensable stage) c := by
  refine leads_record ?_
  split
  · exact .pure _ c
  · refine .bind (within_lagging allows _ _ c) fun found t _ => ?_
    cases found <;> exact .pure _ t

theorem within_expire (spares : ∀ nodes, l.tells (.nodeFailure id nodes)) (stage : Stage)
    (c : Case) : Leads (Within l id) (expire site stage) c := by
  refine leads_record ?_
  split
  · refine .bind (within_update (fun _ => rfl) c) fun _ t _ => leads_record ?_
    split
    · exact .pure _ t
    · refine .bind (within_dispensable allows stage t) fun found u _ => ?_
      cases found with
      | some nodes =>
        refine .bind (within_update (fun _ => rfl) u) fun _ v _ => ?_
        exact .bind (within_tell (spares nodes)) fun _ w _ => within_startTimer site stage w
      | none =>
        exact .bind (within_tell (allows.tells _ trivial rfl)) fun _ v _ =>
          within_tearDownStuck allows stage v
  · exact .pure _ c

theorem within_markLagging
    (marks : ∀ notice : Notice, notice.IsPlain → notice.job? = none → l.tells notice) (c : Case) :
    Leads (Within l id) (markLagging site) c := by
  refine leads_record (.bind (within_lagging allows _ _ c) fun found t _ => ?_)
  cases found with
  | ok nodes =>
    intro hid
    have told (notice : Notice)
        (h : notice ∈ Notice.upToCrash (Health.mark site nodes mountReason)) : l.tells notice :=
      marks notice (isPlain_of_mem_mark h).1 (isPlain_of_mem_mark h).2
    exact ⟨hid, World.acts_announce told t.world⟩
  | error _ => exact .pure _ t

theorem within_condemn
    (marks : ∀ notice : Notice, notice.IsPlain → notice.job? = none → l.tells notice) (c : Case) :
    Leads (Within l id) (condemn site) c := by
  refine leads_record ?_
  cases c.record.condition with
  | none => exact .pure _ c
  | some condition =>
    have ending (t : Case) : Leads (Within l id) (do
        tell (.raise · (failureText
          ("workflow in 'TransientCondition' state too long: " ++ condition.message)))
        tearDownStuck site condition.stage) t :=
      .bind (within_tell (allows.tells _ trivial rfl)) fun _ u _ =>
        within_tearDownStuck allows _ u
    refine .bind (within_update (fun _ => rfl) c) fun _ t _ => ?_
    change Leads _ (if condition.stage = .preRun then _ else _) t
    split
    · exact .bind (within_markLagging allows marks t) fun _ u _ => ending u
    · exact ending t

omit allows

/-! ### Reports -/

/-- How a job that is known with some resources gets them back: it gets none if they are unknown,
and otherwise what `assign` makes of them and of the breakdowns that are read, unless that is a
crash. -/
inductive Offered (site : Site) (w : Workflow) (id : JobId) (api : Api.Server) :
    Resources → ResourceUpdate → Prop
  | unknown : Offered site w id api .unknown ⟨id, [], false, some unknownResources, none⟩
  | pending {resources assigned : List JobResource} {found : List Breakdown}
    {failure : Option String} (read : ((breakdowns w).run api).1 = .ok found)
    (assign : assign site.config resources found = .ok (assigned, failure)) :
    Offered site w id api (.pending resources)
      ⟨id, assigned, Allocation.copyOffload found, failure, exclusionFor site.config⟩

theorem Offered.id_eq {w : Workflow} {api : Api.Server} {resources : Resources}
    {content : ResourceUpdate} (h : Offered site w id api resources content) :
    content.id = id := by
  cases h <;> rfl

end Handling

/-- What a report of a workflow may lead to besides: each stage that it completed has a step of its
own, and a workflow that works on its last stage is released. -/
structure License.Follows (l : License) (site : Site) (w : Workflow) (id : JobId) (tornDown : Bool)
    (resources : Resources) (api : Api.Server) : Prop where
  released : w.isActive .teardown = true → ∀ finalizers,
    l.asks (.patch .workflow Api.defaultSpace id.workflowName (Cleanup.finalizersPatch finalizers))
  advanced : ∀ before next, w.isComplete before = true → before.onComplete = .advance next →
    tornDown = false → l.asks (Api.stageRequest id.workflowName next)
  offered : w.isComplete .proposal = true → ∀ content,
    Handling.Offered site w id api resources content → l.tells (.resourceUpdate content)
  started : w.isComplete .preRun = true → ∀ environment token,
    l.tells (.prologRemove id environment token)
  ended : w.isComplete .teardown = true → l.tells (.epilogRemove id)
  disposed : w.isComplete .teardown = true → ∀ finalizers,
    l.hands (.delete id.workflowName finalizers)

namespace Handling

open Case (Within)

variable {site : Site} {l : License} {id : JobId} {c : Case}

theorem within_applyBreakdowns (allows : l.Allows site id) {w : Workflow} (object : Json)
    (offered : ∀ content, Offered site w id c.world.api c.record.resources content →
      l.tells (.resourceUpdate content)) :
    Leads (Within l id) (applyBreakdowns site w object) c := by
  have consumed : Leads (Within l id) (update fun r => { r with resources := .consumed }) c :=
    within_update (fun _ => rfl) c
  refine leads_record (consumed.bind fun _ t ht => ?_)
  obtain rfl := (congrArg Prod.snd ht).symm
  cases hresources : c.record.resources with
  | consumed => exact .pure _ _
  | unknown => exact within_tell (offered _ (hresources ▸ .unknown))
  | pending resources =>
    have read : Api.Asks l.asks (breakdowns w) :=
      asks_usual allows
        (asks_breakdowns (fun _ _ => Api.Request.isUsual_get_of_ne (by decide) ..) w)
    refine .bind (within_call read _) fun found t ht => ?_
    have hread : ((breakdowns w).run c.world.api).1 = .ok found := congrArg Prod.fst ht
    cases hassign : assign site.config resources found with
    | error crash => exact within_crash t
    | ok assigned =>
      have hoffered := offered _ (hresources ▸ Offered.pending hread hassign)
      exact .bind (within_tell hoffered) fun _ u _ => within_saveWorkflow allows object u

theorem within_releaseProlog (allows : l.Allows site id) {w : Workflow}
    (started : ∀ environment token, l.tells (.prologRemove id environment token)) (object : Json)
    (c : Case) : Leads (Within l id) (releaseProlog w object) c := by
  have read : Api.Asks l.asks (token w) := by
    refine asks_usual allows ?_
    unfold token
    cases w.status.bind Workflow.Status.token with
    | none => exact .pure _
    | some reference =>
      exact .bind (.get (Api.Request.isUsual_get_of_ne (by decide) ..)) fun _ => .pure _
  refine .bind (within_call read c) fun found t _ => ?_
  exact .bind (within_tell (started _ found)) fun _ u _ => within_saveTiming allows object u

theorem within_finish (allows : l.Allows site id) (ended : l.tells (.epilogRemove id))
    (disposed : ∀ finalizers, l.hands (.delete id.workflowName finalizers)) (object : Json)
    (c : Case) : Leads (Within l id) (finish object) c := by
  have released : Leads (Within l id) releaseEpilog c := by
    refine leads_record ?_
    split
    · exact .pure _ c
    · exact .bind (within_tell ended) fun _ t _ => within_update (fun _ => rfl) t
  refine released.bind fun _ t _ => ?_
  refine .bind (within_saveTiming allows object t) fun _ u _ => leads_record ?_
  have handed : Leads (Within l id) (handOver (.delete u.record.name (finalizersIn object))) u := by
    intro hid
    have hname : u.record.name = id.workflowName := by rw [Record.name, hid]
    rw [hname]
    exact within_handOver (disposed _) u hid
  exact handed.bind fun _ v _ => within_update (fun _ => rfl) v

theorem within_advance (allows : l.Allows site id) {next : Stage}
    (advanced : l.asks (Api.stageRequest id.workflowName next)) (object : Json) (c : Case) :
    Leads (Within l id) (advance site next object) c := by
  have moved : Leads (Within l id) (call (requestStage c.record.name next)) c := by
    intro hid
    have hname : c.record.name = id.workflowName := by rw [Record.name, hid]
    rw [hname]
    exact within_call (.discard (.patch advanced)) c hid
  refine leads_record (moved.bind fun _ t _ => ?_)
  exact .bind (within_saveTiming allows object t) fun _ u _ => within_startTimer site next u

/-- A completed stage has the step that belongs to it, which a workflow that is torn down takes in
its last stage only. -/
theorem within_act (allows : l.Allows site id) {w : Workflow}
    (follows : l.Follows site w id c.record.tornDown c.record.resources c.world.api)
    (hcomplete : w.isComplete w.desired = true)
    (htorn : w.desired ≠ .teardown → c.record.tornDown = false) (object : Json) :
    Leads (Within l id) (act site w object w.desired.onComplete) c := by
  have step (next : Stage) (hd : w.desired ≠ .teardown) (h : w.desired.onComplete = .advance next) :
      Leads (Within l id) (advance site next object) c :=
    within_advance allows (follows.advanced _ next hcomplete h (htorn hd)) object c
  cases hd : w.desired with
  | proposal => exact within_applyBreakdowns allows object (follows.offered (hd ▸ hcomplete))
  | setup => exact step .dataIn (by simp [hd]) (by simp [hd, Stage.onComplete])
  | dataIn => exact step .preRun (by simp [hd]) (by simp [hd, Stage.onComplete])
  | preRun => exact within_releaseProlog allows (follows.started (hd ▸ hcomplete)) object c
  | postRun => exact step .dataOut (by simp [hd]) (by simp [hd, Stage.onComplete])
  | dataOut => exact within_tearDown allows object c
  | teardown =>
    exact within_finish allows (follows.ended (hd ▸ hcomplete)) (follows.disposed (hd ▸ hcomplete))
      object c

theorem within_complete (allows : l.Allows site id) {w : Workflow}
    (follows : l.Follows site w id c.record.tornDown c.record.resources c.world.api)
    (hcomplete : w.isComplete w.desired = true)
    (htorn : w.desired ≠ .teardown → c.record.tornDown = false) (object : Json) :
    Leads (Within l id) (complete site w object w.desired) c := by
  have cancelled : Leads (Within l id) cancelTimer c := within_update (fun _ => rfl) c
  exact leads_complete cancelled fun timer =>
    within_act (c := { c with record := { c.record with timer } }) allows follows hcomplete htorn
      object

theorem within_follow (allows : l.Allows site id) {w : Workflow}
    (follows : l.Follows site w id c.record.tornDown c.record.resources c.world.api)
    (object : Json) : Leads (Within l id) (follow site w object) c := by
  cases followed site w object c with
  | idle _ hrun => exact .congr hrun (.pure _ c)
  | parting _ hactive _ hrun =>
    have released : Leads (Within l id)
        (call (Cleanup.releaseFinalizer c.record.name w.finalizers)) c := by
      intro hid
      have hname : c.record.name = id.workflowName := by rw [Record.name, hid]
      rw [hname]
      exact within_call (Cleanup.asks_releaseFinalizer
        (allows.asks _ (Api.Request.isUsual_get _)) (follows.released hactive) _) c hid
    exact .congr hrun (released.bind fun _ t _ => within_react allows w object t)
  | complete hbusy hcomplete hrun =>
    have completed : Leads (Within l id) (complete site w object w.desired) c :=
      within_complete allows follows hcomplete (tornDown_of_not_idle hbusy) object
    exact .congr hrun (completed.bind fun _ t _ => within_react allows w object t)
  | working _ _ _ hrun => exact .congr hrun (within_react allows w object c)

/-- A report of a workflow leads to what belongs to the stage that it reports. -/
theorem within_report (allows : l.Allows site id) {w : Workflow}
    (follows : l.Follows site w id c.record.tornDown c.record.resources c.world.api)
    (object : Json) : Leads (Within l id) (report site w object) c :=
  holds_report (within_follow allows follows object) fun t ht =>
    Trans.trans ht (within_giveUp allows object t : Within l id t _)

end Handling

end Warren
