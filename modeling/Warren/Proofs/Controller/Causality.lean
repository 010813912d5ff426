import Warren.Proofs.Cleanup.Attempts
import Warren.Proofs.Controller.License
import Warren.Proofs.Controller.Lifespan
import Warren.Proofs.Controller.Resting

/-!
# What control steps are caused by

Every turn stays within any license that serves it (`acts_of_serves`), which says what has to be
licensed for what a turn is about. A turn has such a license of its own (`Turn.license`): a stage is
asked for by the request or the report that asks for it, and what hands resources back, lets the job
start or end and gives the workflow away follows a report of the stage that it belongs to. The
cleanup moves what it is handed to the last stage or deletes it after that: `causes_take` says what
that comes to.
-/

namespace Warren

/-! ### Causes -/

namespace Turn

/-- A turn that is told of a workflow of the service. -/
def Reports (turn : Turn) (w : Workflow) : Prop :=
  ∃ event, turn = .event event ∧ Controller.reported? event = some w

/-- A turn that is to bring the workflow of a job to a stage: a request does so, or the report that
the stage before is complete. -/
def Occasions (turn : Turn) (id : JobId) (stage : Stage) : Prop :=
  (∃ nodelist, turn = .request (.setup id nodelist) ∧ stage = .setup) ∨
  (turn = .request (.postRun id true) ∧ stage = .postRun) ∨
  ∃ w before, turn.Reports w ∧ w.jobId = id ∧ w.isComplete before = true ∧
    (before, stage) ∈ [(Stage.setup, Stage.dataIn), (.dataIn, .preRun), (.postRun, .dataOut)]

/-- What a turn may ask of the server. -/
def Asks (c : Controller) (turn : Turn) (q : Api.Request) : Prop :=
  (q.SetsDesired → ∃ id stage, q = Api.stageRequest id.workflowName stage ∧
    turn.Occasions id stage ∧ ∀ r, c.registry.find? id = some r → r.tornDown = false) ∧
  (q.Drops → ∃ w body, turn.Reports w ∧ w.isActive .teardown = true ∧
    q = .patch .workflow Api.defaultSpace w.jobId.workflowName body)

/-- What a turn may tell the job manager. -/
def Tells (site : Site) (c : Controller) (turn : Turn) : Notice → Prop
  | .resourceUpdate content => ∃ w, turn.Reports w ∧ w.isComplete .proposal = true ∧
      Handling.Offered site w w.jobId c.world.api (c.registry.recordOf w.jobId).resources content
  | .prologRemove id _ _ => ∃ w, turn.Reports w ∧ w.isComplete .preRun = true ∧ id = w.jobId
  | .epilogRemove id => ∃ w, turn.Reports w ∧ w.isComplete .teardown = true ∧ id = w.jobId
  | _ => True

/-- What a turn may hand to the cleanup. -/
def Hands (turn : Turn) : Cleanup.Request → Prop
  | .teardown .. => True
  | .delete name _ => ∃ w, turn.Reports w ∧ w.isComplete .teardown = true ∧
      name = w.jobId.workflowName

def license (site : Site) (c : Controller) (turn : Turn) : License :=
  ⟨turn.Asks c, turn.Tells site c, turn.Hands⟩

end Turn

/-- What a turn needs of a license: work on the job that it is about, and what belongs to the kind
of the turn. -/
structure License.Serves (l : License) (site : Site) (c : Controller) (turn : Turn) : Prop where
  allows : ∀ id, turn.job? = some id → l.Allows site id
  setup : ∀ id nodelist, turn = .request (.setup id nodelist) →
    Controller.isLeaving c.registry id = false → l.asks (Api.stageRequest id.workflowName .setup)
  postRun : ∀ id, turn = .request (.postRun id true) →
    (c.registry.recordOf id).tornDown = false → l.asks (Api.stageRequest id.workflowName .postRun)
  follows : ∀ w, turn.Reports w → l.Follows site w w.jobId (c.registry.recordOf w.jobId).tornDown
    (c.registry.recordOf w.jobId).resources c.world.api
  spares : ∀ id stage, turn = .timeout id stage → ∀ nodes, l.tells (.nodeFailure id nodes)
  /-- A sweep revisits any jobs, and may mark compute nodes. -/
  sweeps : turn = .sweep → (∀ id, l.Allows site id) ∧
    ∀ notice : Notice, notice.IsPlain → notice.job? = none → l.tells notice

namespace Controller

open Handling (asks_usual)

variable {site : Site} {l : License} {id : JobId} {c t : Controller} {turn : Turn} {α : Type}

theorem tells_of_isPlain {notice : Notice} (h : notice.IsPlain) (site : Site) (c : Controller)
    (turn : Turn) : turn.Tells site c notice := by
  cases notice with
  | resourceUpdate => exact h.elim
  | prologRemove => exact h.elim
  | epilogRemove => exact h.elim
  | _ => trivial

theorem allows_license (site : Site) (c : Controller) (turn : Turn) (id : JobId) :
    (turn.license site c).Allows site id where
  asks _ hq := ⟨fun h => absurd h hq.1.1, fun h => absurd h hq.1.2⟩
  tells _ hn _ := tells_of_isPlain hn site c turn
  hands _ := trivial

theorem follows_license {w : Workflow} (hw : turn.Reports w) (site : Site) (c : Controller) :
    (turn.license site c).Follows site w w.jobId (c.registry.recordOf w.jobId).tornDown
      (c.registry.recordOf w.jobId).resources c.world.api where
  released hactive finalizers :=
    ⟨fun h => absurd h (Api.Request.not_setsDesired_finalizersPatch _ _ _ _),
      fun _ => ⟨w, _, hw, hactive, rfl⟩⟩
  advanced before next hcomplete hnext htorn := by
    refine ⟨fun _ => ⟨w.jobId, next, rfl, Or.inr (Or.inr ⟨w, before, hw, rfl, hcomplete, ?_⟩),
      fun r hr => ?_⟩, fun h => absurd h (Api.Request.not_drops_stageRequest _ _)⟩
    · cases before with
      | setup => cases hnext; decide
      | dataIn => cases hnext; decide
      | postRun => cases hnext; decide
      | _ => cases hnext
    · rw [← Registry.recordOf_of_find? hr, htorn]
  offered hcomplete content hoffered := ⟨w, hw, hcomplete, hoffered⟩
  started hcomplete _ _ := ⟨w, hw, hcomplete, rfl⟩
  ended hcomplete := ⟨w, hw, hcomplete, rfl⟩
  disposed hcomplete _ := ⟨w, hw, hcomplete, rfl⟩

theorem serves_license (site : Site) (c : Controller) (turn : Turn) :
    (turn.license site c).Serves site c turn where
  allows id _ := allows_license site c turn id
  setup id nodelist hturn hleaving := by
    refine ⟨fun _ => ⟨id, .setup, rfl, Or.inl ⟨nodelist, hturn, rfl⟩, fun r hr => ?_⟩,
      fun h => absurd h (Api.Request.not_drops_stageRequest _ _)⟩
    rw [isLeaving_eq, Registry.recordOf_of_find? hr, Bool.or_eq_false_iff] at hleaving
    exact hleaving.1
  postRun id hturn htorn := by
    refine ⟨fun _ => ⟨id, .postRun, rfl, Or.inr (Or.inl ⟨hturn, rfl⟩), fun r hr => ?_⟩,
      fun h => absurd h (Api.Request.not_drops_stageRequest _ _)⟩
    rw [← Registry.recordOf_of_find? hr, htorn]
  follows w hw := follows_license hw site c
  spares _ _ _ _ := trivial
  sweeps _ := ⟨allows_license site c turn, fun _ hn _ => tells_of_isPlain hn site c turn⟩

/-! ### Answers to requests -/

/-- What the controller did to its world is licensed. -/
def Acted (l : License) (c t : Controller) : Prop := World.Acts l c.world t.world

theorem acted_of_world (h : t.world = c.world) : Acted l c t := by
  unfold Acted
  rw [h]
  exact Std.Refl.refl c.world

instance : Std.Refl (Acted l) := ⟨fun _ => acted_of_world rfl⟩

instance : Trans (Acted l) (Acted l) (Acted l) where
  trans := by
    intro c t u (h : World.Acts l c.world t.world) (h' : World.Acts l t.world u.world)
    exact (Trans.trans h h' : World.Acts l c.world u.world)

theorem acted_ask {conversation : Api.Call α} (h : Api.Asks l.asks conversation) (c : Controller) :
    Leads (Acted l) (ask conversation) c := World.acts_of_asked (h c.world.api) rfl rfl

theorem acted_notice {notice : Notice} (h : l.tells notice) :
    Leads (Acted l) (inWorld (.tell notice)) c := by
  refine World.acts_tellAll (fun n hn => ?_) c.world
  rw [List.mem_singleton.mp hn]
  exact h

theorem acted_demand (refusal : Refusal) (a : Option α) (c : Controller) :
    Leads (Acted l) (demand refusal a) c := by
  cases a with
  | some a => exact .pure a c
  | none => exact .throw refusal c

theorem acted_drop (id : JobId) (c : Controller) : Leads (Acted l) (drop id) c :=
  acted_of_world rfl

theorem acted_work {record : Record} {handling : Handling α} (hid : record.id = id)
    (h : Leads (Case.Within l id) handling ⟨record, c.world⟩) :
    Leads (Acted l) (ExceptT.lift (work record handling) : Answering _) c := (h hid).2

theorem acted_moveToPostRun {r : Record} (hid : r.id = id)
    (staged : l.asks (Api.stageRequest id.workflowName .postRun)) (known : Bool) (c : Controller) :
    Leads (Acted l) (moveToPostRun site known r) c := by
  have asked : Leads (Acted l) (ask (Api.observe (Handling.requestStage r.name .postRun))) c := by
    rw [Record.name, hid]
    exact acted_ask (.observe (.discard (.patch staged))) c
  refine asked.bind fun found t _ => ?_
  cases found with
  | ok _ =>
    exact Leads.discard (acted_work hid (Handling.within_startTimer site .postRun _))
  | error fault =>
    change Leads _ (if (!known || fault.isNotFound) = true then _ else _) t
    split
    · exact .bind (acted_drop r.id t) fun _ u _ => .throw _ u
    · exact .throw _ t

section

variable (allows : l.Allows site id)

include allows

theorem acted_getWorkflow (c : Controller) :
    Leads (Acted l) (ask (Api.observe (Api.getWorkflow id.workflowName))) c :=
  acted_ask (asks_usual allows (.observe (.get (Api.Request.isUsual_get _)))) c

theorem acted_readWorkflow (c : Controller) : Leads (Acted l) (readWorkflow id) c := by
  refine .bind (acted_getWorkflow allows c) fun found t _ => ?_
  cases found with
  | ok object => exact acted_ask (.decoded _ _) t
  | error fault =>
    change Leads _ (if fault.isNotFound = true then _ else _) t
    split
    · exact .bind (acted_drop id t) fun _ u _ => .throw _ u
    · exact .throw _ t

theorem acted_writeServers (counts : Allocation.ServerCounts) (b : Breakdown) (c : Controller) :
    Leads (Acted l) (writeServers site counts b) c := by
  unfold writeServers
  cases b.servers? with
  | none => exact .pure _ c
  | some reference =>
    dsimp only
    split
    · exact .throw _ c
    · exact .throw _ c
    · have usual (sets : Json) : (Api.Request.patch .servers (Api.spaceOrDefault reference.space)
          reference.name (.object [("spec", .object [("allocationSets", sets)])])).IsUsual
          id.workflowName :=
        ⟨Api.Request.isPlain_patch_of_field (by decide) fun _ => rfl, fun h => absurd h (by decide)⟩
      exact acted_ask (asks_usual allows (.discard (.patch (usual _)))) c

theorem acted_place (nodelist : List String) (c : Controller) :
    Leads (Acted l) (place site id nodelist) c := by
  refine .bind (leads_survive _ c) fun found s _ => ?_
  refine .bind (acted_demand _ found s) fun hosts t _ => ?_
  refine .bind (acted_readWorkflow allows t) fun w u _ => ?_
  refine .bind (leads_countServers site hosts u) fun counts v _ => ?_
  refine .bind (leads_survive _ v) fun rabbits v' _ => ?_
  refine .bind (acted_notice (allows.tells _ trivial rfl)) fun _ x _ => ?_
  refine .bind (acted_demand _ _ x) fun computes y _ => ?_
  have usual (data : Json) : (Api.Request.patch .computes (Api.spaceOrDefault computes.space)
      computes.name (.object [("data", data)])).IsUsual id.workflowName :=
    ⟨Api.Request.isPlain_patch_of_field (by decide) fun h => absurd h (by decide),
      fun h => absurd h (by decide)⟩
  refine .bind (acted_ask (asks_usual allows (.discard (.patch (usual _)))) y) fun _ z _ => ?_
  have read : Api.Asks l.asks (Handling.breakdowns w) := asks_usual allows
    (Handling.asks_breakdowns (fun _ _ => Api.Request.isUsual_get_of_ne (by decide) ..) w)
  refine .bind (acted_ask read z) fun found s _ => ?_
  exact .bind (.forM (fun b _ => acted_writeServers allows counts b) s) fun _ r _ => .pure _ r

theorem acted_setup (nodelist : List String) {c : Controller}
    (hstage : isLeaving c.registry id = false → l.asks (Api.stageRequest id.workflowName .setup)) :
    Leads (Acted l) (setup site id nodelist) c := by
  refine leads_get ?_
  split
  · exact .pure _ c
  · rename_i hleaving
    have staged := hstage (by simpa using hleaving)
    refine .bind (acted_place allows nodelist c) fun found t _ => ?_
    refine .bind (acted_ask (.discard (.patch staged)) t) fun _ u _ => ?_
    have settled : Leads (Acted l) (settle site id found.1 found.2) u := by
      refine leads_get (Leads.discard ?_)
      exact acted_work rfl (Handling.within_startTimer site .setup _)
    exact .bind settled fun _ v _ => .pure _ v

theorem acted_moveToTeardown {r : Record} (hid : r.id = id) (c : Controller) :
    Leads (Acted l) (moveToTeardown site r) c := by
  refine .bind (acted_work hid (Handling.within_tearDownStored allows _)) fun found t _ => ?_
  match found with
  | .ok true => exact .pure _ t
  | .ok false => exact acted_drop r.id t
  | .error fault => exact .throw _ t

theorem acted_teardown {c : Controller} (hid : (c.registry.recordOf id).id = id) :
    Leads (Acted l) (teardown site id) c := by
  refine leads_get (leads_unlessTornDown (acted_of_world rfl) fun _ => ?_)
  refine .tryCatch (acted_moveToTeardown allows hid _) fun refusal u _ => ?_
  split
  · exact .bind (acted_drop id u) fun _ v _ => .throw _ v
  · exact .throw _ u

theorem acted_abort {c : Controller} (hid : (c.registry.recordOf id).id = id) :
    Leads (Acted l) (abort site id) c := by
  refine leads_get ?_
  split
  · exact acted_teardown allows hid
  · refine .bind (acted_getWorkflow allows c) fun found t _ => ?_
    cases found with
    | ok object =>
      have fresh : (Record.fresh id .unknown).id = id := rfl
      have torn := acted_work fresh (Handling.within_tearDown allows object ⟨_, t.world⟩)
      exact .bind torn.discard fun _ u _ => .pure _ u
    | error fault =>
      dsimp only
      split
      · exact .pure _ t
      · exact .throw _ t

theorem acted_postRun {c : Controller} (hid : (c.registry.recordOf id).id = id) {started : Bool}
    (hstage : started = true → (c.registry.recordOf id).tornDown = false →
      l.asks (Api.stageRequest id.workflowName .postRun)) :
    Leads (Acted l) (postRun site id started) c := by
  refine leads_get (leads_unlessTornDown (acted_of_world rfl) fun htorn => ?_)
  cases started with
  | true => exact acted_moveToPostRun hid (hstage rfl htorn) _ _
  | false => exact acted_moveToTeardown allows hid _

end

theorem acted_create (details : CreateRequest) (allows : l.Allows site details.id)
    (c : Controller) : Leads (Acted l) (create site details) c := by
  refine .bind (acted_demand _ _ c) fun directives t _ => ?_
  split
  · refine .bind (.throw _ t) fun _ u h => ?_
    cases h
  · refine leads_get ?_
    cases t.registry.find? details.id with
    | some record => exact .bind (acted_of_world rfl) fun _ u _ => .pure _ u
    | none =>
      have created : Api.Asks l.asks
          (createObject (newWorkflow site details.id details.user directives)) := by
        refine asks_usual allows
          (.bind (.observe (.create ⟨Api.Request.isPlain_create .., fun _ => ?_⟩))
            fun created => ?_)
        · exact nameOf_newWorkflow site details.id details.user directives
        cases created with
        | ok _ => exact .pure _
        | error fault =>
          change Api.Asks _ (if fault.isConflict = true then _ else _)
          split
          · exact .pure _
          · exact .throw _
      refine .bind (acted_ask created t) fun _ u _ => ?_
      refine .bind (acted_of_world rfl) fun _ v _ => ?_
      exact .bind (acted_notice (allows.tells _ trivial rfl)) fun _ w _ => .pure _ w

/-! ### Turns -/

theorem acted_revisit {handling : Handling Unit} (hc : c.Kept)
    (h : ∀ case, Leads (Case.Within l id) handling case) :
    Acted l c (revisit id handling c).2 := by
  rw [state_revisit]
  cases hf : c.registry.find? id with
  | none => exact Std.Refl.refl c
  | some r => exact (h ⟨r, c.world⟩ (hc.own id r hf)).2

theorem acted_sweep (hc : c.Kept) (allows : ∀ id, l.Allows site id)
    (marks : ∀ notice : Notice, notice.IsPlain → notice.job? = none → l.tells notice) :
    Acted l c (c.take site .sweep) :=
  sweep_of_visits hc fun _ ht id => acted_revisit ht (Handling.within_condemn (allows id) marks)

/-- Every turn stays within a license that serves it. -/
theorem acts_of_serves (hc : c.Kept) (serves : l.Serves site c turn) :
    Acted l c (c.take site turn) := by
  have hid (id : JobId) : (c.registry.recordOf id).id = id := (hc.recordOf id).1
  cases turn with
  | request asked =>
    cases asked with
    | create details => exact acted_create details (serves.allows _ rfl) c
    | setup id nodelist =>
      exact acted_setup (serves.allows id rfl) nodelist (serves.setup id nodelist rfl)
    | postRun id started =>
      refine acted_postRun (serves.allows id rfl) (hid id) fun hstarted htorn => ?_
      exact serves.postRun id (by rw [hstarted]) htorn
    | teardown id => exact acted_teardown (serves.allows id rfl) (hid id)
    | abort id => exact acted_abort (serves.allows id rfl) (hid id)
    | status => exact Std.Refl.refl c
  | event event =>
    have hevent := take_event site c event
    cases hw : reported? event with
    | none =>
      rw [hw] at hevent
      rw [hevent]
      exact Std.Refl.refl c
    | some w =>
      rw [hw] at hevent
      rcases hevent with ⟨object, _, htake⟩ | ⟨_, htake⟩
      · rw [htake]
        have follows := serves.follows w ⟨event, rfl, hw⟩
        have allows : l.Allows site w.jobId :=
          serves.allows w.jobId (by rw [Turn.job?, hw, Option.map_some])
        exact (Handling.within_report (c := ⟨c.registry.recordOf w.jobId, c.world⟩) allows follows
          object (hid w.jobId)).2
      · rw [htake]
        exact acted_of_world rfl
  | timeout id stage =>
    have spares := serves.spares id stage rfl
    exact acted_revisit hc (Handling.within_expire (serves.allows id rfl) spares stage)
  | sweep => exact acted_sweep hc (serves.sweeps rfl).1 (serves.sweeps rfl).2

theorem acts_take (hc : c.Kept) (site : Site) (turn : Turn) :
    Acted (turn.license site c) c (c.take site turn) :=
  acts_of_serves hc (serves_license site c turn)

end Controller

/-! ### The cleanup -/

/-- A patch that moves an object to its last stage. -/
def Api.Request.MovesToLast : Api.Request → Prop
  | .patch _ _ _ body => body.path? ["spec", "desiredState"] = some Stage.teardown.encode
  | _ => False

namespace Cleanup

open Api Api.Server

/-- What is left to do of a request for the cleanup at some time, whatever else happens to the
server meanwhile. -/
inductive Request.Arises (request : Request) : Undertaking → Prop
  | first (backoff : Backoff) : Arises request (.ofTask (.ofRequest backoff request))
  | next {u v : Undertaking} {s t : Server} (earlier : Arises request u)
    (step : u.proceed s = (some v, t)) : Arises request v

/-- A request that the cleanup makes to the server for a request that it serves. -/
def Request.Makes (request : Request) (q : Api.Request) : Prop :=
  ∃ s : Server, q ∈ (prepare request s).2.requests.drop s.requests.length ∨
    ∃ u, request.Arises u ∧ q ∈ (u.proceed s).2.requests.drop s.requests.length

/-- A workflow that is to be moved to its last stage is read and patched in no other way. -/
def Undertaking.IsTeardown : Undertaking → Prop
  | .tearDown task | .refresh task => task.aim = .teardown
  | .release .. | .reread .. | .drop .. | .delete _ => False

theorem isTeardown_ofTask {task : Task} (h : task.aim = .teardown) :
    (Undertaking.ofTask task).IsTeardown := by
  rw [Undertaking.ofTask, h]
  exact h

theorem isTeardown_proceed {u v : Undertaking} {s t : Server} (h : u.IsTeardown)
    (step : u.proceed s = (some v, t)) : v.IsTeardown := by
  cases u with
  | release => exact h.elim
  | reread => exact h.elim
  | drop => exact h.elim
  | delete => exact h.elim
  | tearDown task =>
    have hleft : Undertaking.pause (some task)
        ((teardownWorkflow task.name task.finalizers).run s).1 = some v := congrArg Prod.fst step
    obtain ⟨next, hnext, rfl⟩ := Option.map_eq_some_iff.mp hleft
    have hattempt : task.attempt s = (some next, (task.attempt s).2) := by
      have hact : task.act = teardownWorkflow task.name task.finalizers := by
        have haim : task.aim = .teardown := h
        rw [Task.act, haim]
      rw [Task.attempt_apply, hact]
      exact congrArg (·, _) hnext
    exact (Task.aim_of_attempt hattempt).trans h
  | refresh task =>
    have hleft : (task.refresh s).1.map Undertaking.ofTask = some v := congrArg Prod.fst step
    obtain ⟨next, hnext, rfl⟩ := Option.map_eq_some_iff.mp hleft
    have hrefresh : task.refresh s = (some next, (task.refresh s).2) := Prod.ext hnext rfl
    exact isTeardown_ofTask ((Task.aim_of_refresh hrefresh).trans h)

theorem movesToLast_of_makes {request : Request} {q : Api.Request} (haim : request.aim = .teardown)
    (h : request.Makes q) (hdrops : q.Drops) : q.MovesToLast := by
  obtain ⟨s, hprepare | ⟨u, harises, hproceed⟩⟩ := h
  · have asked : Asked Api.Request.IsPlain s (prepare request s).2 :=
      asked_prepare (Api.Request.isPlain_list _ _) request s
    exact absurd hdrops (asked.drop_requests q hprepare).2
  · have teardown : u.IsTeardown := by
      clear hproceed
      induction harises with
      | first backoff =>
        refine isTeardown_ofTask ?_
        rw [ofRequest_eq]
        exact haim
      | next _ step ih => exact isTeardown_proceed ih step
    have asked : Asked (fun q => q.Drops → q.MovesToLast) s (u.proceed s).2 := by
      cases u with
      | release => exact teardown.elim
      | reread => exact teardown.elim
      | drop => exact teardown.elim
      | delete => exact teardown.elim
      | tearDown task =>
        have patched : Asks (fun q : Api.Request => q.Drops → q.MovesToLast)
            (teardownWorkflow task.name task.finalizers) :=
          .discard (.patch fun _ => rfl)
        exact patched s
      | refresh task =>
        have looked : Asks (fun q : Api.Request => q.Drops → q.MovesToLast)
            (currentFinalizers task.name) := asks_currentFinalizers fun h => h.elim
        have hstate : ((Undertaking.refresh task).proceed s).2 =
            ((currentFinalizers task.name).run s).2 := Task.state_refresh task s
        rw [hstate]
        exact looked s
    exact asked.drop_requests q hproceed hdrops

end Cleanup

namespace Controller

variable {site : Site} {c : Controller} {turn : Turn}

/-! ### Causes of what a turn comes to -/

/-- The cause of a notice that lets a job go on: its workflow completed the stage before. -/
def Prompted (turn : Turn) : Notice → Prop
  | .resourceUpdate content => ∃ w, turn.Reports w ∧ w.isComplete .proposal = true ∧
      content.id = w.jobId
  | .prologRemove id _ _ => ∃ w, turn.Reports w ∧ w.isComplete .preRun = true ∧ id = w.jobId
  | .epilogRemove id => ∃ w, turn.Reports w ∧ w.isComplete .teardown = true ∧ id = w.jobId
  | _ => True

/-- What a turn asks for, tells and hands over, and what the cleanup does with that, has its causes
in the turn. -/
structure Causes (site : Site) (c : Controller) (turn : Turn) : Prop where
  /-- A stage other than the last one is asked for, for a job that is not torn down. -/
  stages : ∀ q ∈ requested c (c.take site turn), q.SetsDesired → ∃ id stage,
    q = Api.stageRequest id.workflowName stage ∧ turn.Occasions id stage ∧ stage ≠ .teardown ∧
      ∀ r, c.registry.find? id = some r → r.tornDown = false
  /-- The finalizer of the service goes because the workflow works on its last stage. -/
  released : ∀ q ∈ requested c (c.take site turn), q.Drops → ∃ w body, turn.Reports w ∧
    w.isActive .teardown = true ∧
      q = .patch .workflow Api.defaultSpace w.jobId.workflowName body
  notices : ∀ notice ∈ (c.world.since (c.take site turn).world).notices, Prompted turn notice
  /-- The cleanup takes the finalizer away with the patch for the last stage, or because the
  workflow completed that stage. -/
  cleanups : ∀ request ∈ (c.world.since (c.take site turn).world).cleanups, ∀ q,
    request.Makes q → q.Drops → q.MovesToLast ∨ ∃ w, turn.Reports w ∧
      w.isActive .teardown = true ∧ request.name = w.jobId.workflowName

theorem ne_teardown_of_occasions {id : JobId} {stage : Stage} (h : turn.Occasions id stage) :
    stage ≠ .teardown := by
  rcases h with ⟨_, _, rfl⟩ | ⟨_, rfl⟩ | ⟨_, before, _, _, _, hmem⟩
  · decide
  · decide
  · rintro rfl
    cases before <;> revert hmem <;> decide

/-- In every state that the controller comes to, a turn does what it is the cause of. -/
theorem causes_take (hc : Reachable site c) (turn : Turn) : Causes site c turn := by
  obtain ⟨asked, x, sends, tells, hands⟩ := acts_take hc.kept site turn
  have hasked (q : Api.Request) (hq : q ∈ requested c (c.take site turn)) : turn.Asks c q :=
    asked.drop_requests q hq
  refine ⟨fun q hq hsets => ?_, fun q hq => (hasked q hq).2, fun notice hn => ?_,
    fun request hr q hmakes hdrops => ?_⟩
  · obtain ⟨id, stage, hrequest, hoccasion, htorn⟩ := (hasked q hq).1 hsets
    exact ⟨id, stage, hrequest, hoccasion, ne_teardown_of_occasions hoccasion, htorn⟩
  · rw [sends.since] at hn
    have htells : turn.Tells site c notice := tells notice hn
    cases notice with
    | resourceUpdate content =>
      obtain ⟨w, hw, hcomplete, hoffered⟩ := htells
      exact ⟨w, hw, hcomplete, hoffered.id_eq⟩
    | _ => exact htells
  · rw [sends.since] at hr
    have hhands : turn.Hands request := hands request hr
    cases request with
    | teardown => exact Or.inl (Cleanup.movesToLast_of_makes rfl hmakes hdrops)
    | delete name finalizers =>
      obtain ⟨w, hw, hcomplete, hname⟩ := hhands
      exact Or.inr ⟨w, hw, Workflow.isActive_of_isComplete hcomplete, hname⟩

theorem causes_take_ready : Reachable Sample.site Sample.ready ∧
    Causes Sample.site Sample.ready (.event (.modified (Sample.stored Sample.ready))) :=
  ⟨Sample.reachable_ready, causes_take Sample.reachable_ready _⟩

end Controller

end Warren
