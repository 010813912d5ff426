import Warren.Proofs.Controller.Resting

/-!
# Jobs on their way out

A job that is torn down rests in every turn, so nothing revives its workflow while its record stays.
A job whose workflow is only to be deleted rests but for the end of its run and for a time limit
that is started again; `deleted_run` says exactly when these disturb it.
-/

namespace Warren.Controller

variable {site : Site} {id : JobId} {r : Record} {c : Controller}

/-! ### Torn down -/

theorem rests_of_tornDown {turn : Turn} (hc : c.Kept) (hf : c.registry.find? id = some r)
    (htorn : r.tornDown = true) : Rests id c (c.take site turn) := by
  cases turn with
  | request asked => exact rests_request hc hf (Or.inl htorn) fun _ => htorn
  | event event => exact rests_event hc hf (Or.inl htorn)
  | timeout job stage => exact rests_timeout_of_tornDown hc hf htorn
  | sweep => exact rests_sweep hc

theorem find?_step_of_not_turn {h : Happening} (hturn : ∀ turn, h ≠ .turn turn) {s : Record}
    (hs : (c.step site h).registry.find? id = some s) (hc : c.Kept) :
    ∃ r, c.registry.find? id = some r ∧ s.tornDown = r.tornDown ∧ s.deleted = r.deleted := by
  cases h with
  | turn turn => exact absurd rfl (hturn turn)
  | outside world drawn => exact ⟨s, hs, rfl, rfl⟩
  | ring other =>
    change (c.ring other).registry.find? id = some s at hs
    rw [find?_ring hc] at hs
    split at hs
    · obtain ⟨r, hf, rfl⟩ := Option.map_eq_some_iff.mp hs
      exact ⟨r, hf, rfl, rfl⟩
    · exact ⟨s, hs, rfl, rfl⟩

/-- The record of a job is there throughout a course of happenings. -/
def Stays (site : Site) (id : JobId) : Controller → List Happening → Prop
  | c, [] => c.registry.has id = true
  | c, h :: rest => c.registry.has id = true ∧ Stays site id (c.step site h) rest

instance decidableStays (site : Site) (id : JobId) :
    (c : Controller) → (course : List Happening) → Decidable (Stays site id c course)
  | c, [] => inferInstanceAs (Decidable (c.registry.has id = true))
  | c, h :: rest =>
    have := decidableStays site id (c.step site h) rest
    inferInstanceAs (Decidable (c.registry.has id = true ∧ Stays site id (c.step site h) rest))

theorem Stays.has {course : List Happening} (h : Stays site id c course) :
    c.registry.has id = true := by
  cases course with
  | nil => exact h
  | cons happening rest => exact h.1

/-- What every step keeps of the record of a job, a course keeps throughout which the record
stays. -/
theorem find?_run {P : Record → Prop} (hstep : ∀ (c : Controller) h r s, c.Kept →
      c.registry.find? id = some r → P r → (c.step site h).registry.find? id = some s → P s)
    {later : List Happening} (hc : c.Kept) (hf : c.registry.find? id = some r) (hr : P r)
    (hstays : Stays site id c later) :
    ∃ s, (c.run site later).registry.find? id = some s ∧ P s := by
  -- along the course; `hstays` gives the record after each step, `Kept` the own identifier of it
  induction later generalizing c r with
  | nil => exact ⟨r, hf, hr⟩
  | cons h rest ih =>
    obtain ⟨s, hs⟩ := Option.isSome_iff_exists.mp hstays.2.has
    exact ih (kept_step hc site h) hs (hstep c h r s hc hf hr hs) hstays.2

theorem tornDown_step {h : Happening} {s : Record} (hc : c.Kept)
    (hf : c.registry.find? id = some r) (htorn : r.tornDown = true)
    (hs : (c.step site h).registry.find? id = some s) : s.tornDown = true := by
  by_cases hturn : ∃ turn, h = .turn turn
  · obtain ⟨turn, rfl⟩ := hturn
    obtain ⟨q, hq, hqs⟩ := (rests_of_tornDown hc hf htorn).record s hs
    obtain rfl : r = q := Option.some.inj (hf.symm.trans hq)
    exact hqs.tornDown htorn
  · obtain ⟨q, hq, hsame, _⟩ := find?_step_of_not_turn (fun turn h => hturn ⟨turn, h⟩) hs hc
    obtain rfl : r = q := Option.some.inj (hf.symm.trans hq)
    rw [hsame, htorn]

/-- A job that is torn down stays torn down while its record stays, and whatever the controller does
next, it asks for no stage of the workflow and starts no time limit of the job. -/
theorem tornDown_run {later : List Happening} (hreach : Reachable site c)
    (hf : c.registry.find? id = some r) (htorn : r.tornDown = true)
    (hstays : Stays site id c later) :
    (∃ s, (c.run site later).registry.find? id = some s ∧ s.tornDown = true) ∧
      ∀ turn, ¬AskedStage id (c.run site later) ((c.run site later).take site turn) ∧
        ¬StartedTimer id (c.run site later) ((c.run site later).take site turn) := by
  have hkept : (c.run site later).Kept := kept_run hreach.kept site later
  obtain ⟨s, hs, htorn'⟩ := find?_run (P := fun r => r.tornDown = true)
    (fun _ _ _ _ => tornDown_step) hreach.kept hf htorn hstays
  refine ⟨⟨s, hs, htorn'⟩, fun turn => ?_⟩
  have rests : Rests id (c.run site later) ((c.run site later).take site turn) :=
    rests_of_tornDown hkept hs htorn'
  exact ⟨rests.not_askedStage, rests.not_startedTimer hkept⟩

/-- The theorem applies to a job that is torn down after its data was staged out, through the late
end of its run and a late report. -/
theorem tornDown_run_dataOut :
    let c := Sample.report (Sample.start .dataOut)
    let later : List Happening := [.turn (.request (.postRun Sample.job true)),
      .turn (.event (.modified (Sample.workflow .setup))), .turn .sweep]
    ∃ r, c.registry.find? Sample.job = some r ∧ r.tornDown = true ∧
      Stays Sample.site Sample.job c later ∧
      (∃ s, (c.run Sample.site later).registry.find? Sample.job = some s ∧ s.tornDown = true) ∧
      ∀ turn, ¬AskedStage Sample.job (c.run Sample.site later)
          ((c.run Sample.site later).take Sample.site turn) ∧
        ¬StartedTimer Sample.job (c.run Sample.site later)
          ((c.run Sample.site later).take Sample.site turn) := by
  intro c later
  have reached : Reachable Sample.site c :=
    Sample.reachable_report (Sample.reachable_start .dataOut)
  have found : (c.registry.find? Sample.job).any Record.tornDown = true := by decide +kernel
  obtain ⟨r, hf, htorn⟩ := (Option.any_eq_true _ _).mp found
  have stays : Stays Sample.site Sample.job c later := by decide +kernel
  exact ⟨r, hf, htorn, stays, tornDown_run reached hf htorn stays⟩

/-! ### To be deleted -/

/-- Whether the end of a time limit starts that limit again: the job goes on without some compute
nodes. -/
def Prolongs (site : Site) (world : World) (r : Record) (stage : Stage) : Prop :=
  r.tornDown = false ∧ r.timerStage = some stage ∧ (site.config.timeouts.of stage).isSome = true ∧
    ∃ nodes, ((Handling.dispensable stage).run ⟨r.cancelTimer, world⟩).1 = .ok (some nodes)

/-- Whether the end of the run of a job starts a time limit: the stage after the run is limited, it
can be asked for, and its limit does not run yet. -/
def Begins (site : Site) (world : World) (r : Record) : Prop :=
  r.tornDown = false ∧ r.timerStage ≠ some .postRun ∧
    (site.config.timeouts.of .postRun).isSome = true ∧
    ∃ u, ((Handling.requestStage r.name .postRun).run world.api).1 = .ok u

/-- The record ends with a time limit that was started in between. -/
def Limited (c t : Case) : Prop :=
  ∃ timer, t.record.timer = some timer ∧ c.world.ticket ≤ timer.ticket

theorem not_limited_of_calm {c t : Case} (hdrawn : Drawn c.world c.record)
    (h : Case.Did site Deed.Calm c t) : ¬Limited c t := by
  rintro ⟨timer, htimer, hle⟩
  have hticket : t.world.ticket = c.world.ticket := h.ticket_of_calm
  rcases h.ticks.timer timer htimer with hold | hnew
  · have hlt := hdrawn timer hold
    omega
  · omega

theorem not_limited_self {c : Case} (hdrawn : Drawn c.world c.record) : ¬Limited c c := by
  rintro ⟨timer, htimer, hle⟩
  have hlt := hdrawn timer htimer
  omega

theorem limited_startTimer (site : Site) (stage : Stage) {c : Case}
    (hdrawn : Drawn c.world c.record) :
    Limited c ((Handling.startTimer site stage).run c).2 ↔
      c.record.timerStage ≠ some stage ∧ (site.config.timeouts.of stage).isSome = true := by
  have idle : ¬Limited c c := not_limited_self hdrawn
  rw [Handling.state_run_startTimer]
  cases site.config.timeouts.of stage with
  | none => simpa using idle
  | some limit =>
    dsimp only
    by_cases hstage : c.record.timerStage = some stage
    · rw [if_pos hstage]
      simpa [hstage] using idle
    · rw [if_neg hstage]
      simp [Limited, hstage]

theorem limited_dispense (site : Site) (stage : Stage) (nodes : List String) {c : Case}
    (huntimed : c.record.timer = none) :
    Limited c ((Handling.dispense site stage nodes).run c).2 ↔
      (site.config.timeouts.of stage).isSome = true := by
  let left : Case := {
    record := { c.record with tolerance := c.record.tolerance - UInt32.ofNat nodes.length }
    world := c.world.tell (.nodeFailure c.record.id nodes) }
  have dispensed : (Handling.dispense site stage nodes).run c =
      (Handling.startTimer site stage).run left := rfl
  have hstage : left.record.timerStage ≠ some stage := by
    simp [left, Record.timerStage, huntimed]
  have started := limited_startTimer site stage (c := left) (drawn_of_untimed huntimed)
  rw [dispensed]
  -- a notice draws no ticket, so what is new for `left` is new for `c`
  change Limited left _ ↔ _
  rw [started]
  exact ⟨fun h => h.2, fun h => ⟨hstage, h⟩⟩

/-- A limit that ends is gone before the controller looks for compute nodes to do without. -/
theorem run_expire {stage : Stage} {case : Case} (hstage : case.record.timerStage = some stage)
    (htorn : case.record.tornDown = false) :
    (Handling.expire site stage).run case = (do
      match ← Handling.dispensable stage with
      | some nodes => Handling.dispense site stage nodes
      | none => Handling.overrun site stage : Handling Unit).run
        ⟨case.record.cancelTimer, case.world⟩ := by
  have cancelled : Handling.cancelTimer.run case =
      (.ok (), ⟨case.record.cancelTimer, case.world⟩) := rfl
  have htorn' : ¬case.record.cancelTimer.tornDown = true := by
    simpa [Record.cancelTimer] using htorn
  rw [Handling.expire, run_bind_ok (Handling.run_record case), if_pos hstage,
    run_bind_ok cancelled, run_bind_ok (Handling.run_record _)]
  exact congrArg (fun work : Handling Unit => work.run _) (if_neg htorn')

theorem run_expire_of_ne {stage : Stage} {c : Case}
    (h : c.record.timerStage ≠ some stage) : (Handling.expire site stage).run c = (.ok (), c) := by
  rw [Handling.expire, run_bind_ok (Handling.run_record c), if_neg h]
  rfl

theorem limited_expire (site : Site) (stage : Stage) {c : Case} (hdrawn : Drawn c.world c.record)
    (htorn : c.record.tornDown = false) :
    Limited c ((Handling.expire site stage).run c).2 ↔ Prolongs site c.world c.record stage := by
  by_cases hstage : c.record.timerStage = some stage
  · rw [run_expire hstage htorn]
    let after : Case := ⟨c.record.cancelTimer, c.world⟩
    have looked : Case.Did site Deed.Calm after ((Handling.dispensable stage).run after).2 :=
      Handling.leads_dispensable stage after
    have same : ((Handling.dispensable stage).run after).2.record = after.record :=
      Handling.record_run_dispensable stage after
    cases hfound : (Handling.dispensable stage).run after with
    | mk found u =>
      rw [hfound] at looked same
      have hticket : u.world.ticket = c.world.ticket := looked.ticket_of_calm
      have hlimited (t : Case) : Limited c t ↔ Limited u t := by
        rw [Limited, Limited, hticket]
      -- the old limit is cancelled by now, so a limit that runs in the end is a new one
      have untimed : u.record.timer = none := by
        rw [same]
        rfl
      have hnone (hnot : ∀ nodes, found ≠ .ok (some nodes)) :
          ¬Prolongs site c.world c.record stage := by
        rintro ⟨_, _, _, nodes, hnodes⟩
        exact hnot nodes ((congrArg Prod.fst hfound).symm.trans hnodes)
      match found with
      | .error fault =>
        rw [run_bind_error hfound, hlimited]
        exact iff_of_false (not_limited_self (drawn_of_untimed untimed))
          (hnone fun _ h => by cases h)
      | .ok none =>
        have ended : Case.Did site Deed.Calm u ((Handling.overrun site stage).run u).2 :=
          Handling.leads_overrun stage u
        rw [run_bind_ok hfound, hlimited]
        exact iff_of_false (not_limited_of_calm (drawn_of_untimed untimed) ended)
          (hnone fun _ h => by cases h)
      | .ok (some nodes) =>
        rw [run_bind_ok hfound, hlimited]
        dsimp only
        rw [limited_dispense site stage nodes untimed]
        constructor
        · intro hlimit
          exact ⟨htorn, hstage, hlimit, nodes, congrArg Prod.fst hfound⟩
        · rintro ⟨_, _, hlimit, _⟩
          exact hlimit
  · rw [run_expire_of_ne hstage]
    exact iff_of_false (not_limited_self hdrawn) fun h => hstage h.2.1

theorem find?_work {handling : Handling α} {record : Record}
    (hsame : (handling.run ⟨record, c.world⟩).2.record.id = id) :
    (work record handling c).2.registry.find? id =
      some (handling.run ⟨record, c.world⟩).2.record := by
  rw [state_work, Registry.find?_put, if_pos hsame]

theorem startedTimer_work {handling : Handling α} {record : Record}
    (hsame : (handling.run ⟨record, c.world⟩).2.record.id = id) :
    StartedTimer id c (work record handling c).2 ↔
      Limited ⟨record, c.world⟩ (handling.run ⟨record, c.world⟩).2 := by
  have hfind := find?_work hsame
  constructor
  · rintro ⟨s, timer, hs, htimer, hle⟩
    obtain rfl := Option.some.inj (hfind.symm.trans hs)
    exact ⟨timer, htimer, hle⟩
  · rintro ⟨timer, htimer, hle⟩
    exact ⟨_, timer, hfind, htimer, hle⟩

theorem find?_work_startTimer (site : Site) (stage : Stage) (hid : r.id = id) (c : Controller) :
    (work r (Handling.startTimer site stage) c).2.registry.find? id =
      some ((Handling.startTimer site stage).run ⟨r, c.world⟩).2.record :=
  find?_work ((Deed.id_apply (.startTimer stage) _).trans hid)

theorem expire_turn {stage : Stage} (hc : c.Kept) (hf : c.registry.find? id = some r)
    (htorn : r.tornDown = false) :
    ¬AskedStage id c (c.take site (.timeout id stage)) ∧
      (StartedTimer id c (c.take site (.timeout id stage)) ↔ Prolongs site c.world r stage) := by
  have hid : r.id = id := hc.own id r hf
  have expired : Case.Did site (Deed.Extends stage) ⟨r, c.world⟩
      ((Handling.expire site stage).run ⟨r, c.world⟩).2 := Handling.leads_expire stage _
  rw [take_timeout hf]
  constructor
  · rintro ⟨q, hq, hset⟩
    have still := (expired.mono fun _ => Deed.Extends.still).asked_of_still
    exact (still.drop_requests q hq).not_setsStage _ hset
  · rw [startedTimer_work (expired.id.trans hid)]
    exact limited_expire site stage (c := ⟨r, c.world⟩) (hc.drawn id r hf) htorn

theorem askedStage_postRun (hc : c.Kept) (hf : c.registry.find? id = some r)
    (htorn : r.tornDown = false) :
    AskedStage id c (c.take site (.request (.postRun id true))) := by
  have hrecord : c.registry.recordOf id = r := Registry.recordOf_of_find? hf
  have hapi : (c.take site (.request (.postRun id true))).world.api =
      c.world.api.serve (Api.stageRequest id.workflowName .postRun) :=
    api_run_postRun site hc (by rw [hrecord, htorn])
  refine ⟨Api.stageRequest id.workflowName .postRun, ?_, Api.setsStage_stageRequest.mpr rfl⟩
  rw [requested, hapi, Api.Server.requests_serve, List.drop_left]
  exact List.mem_singleton.mpr rfl

theorem eq_of_find?_forget {g : Registry} {drops : Prop} [Decidable drops] {s : Record}
    (hf : g.find? id = some r) (hs : (if drops then g.erase id else g).find? id = some s) :
    s = r := by
  split at hs
  · rw [Dict.find?_erase, if_pos rfl] at hs
    cases hs
  · exact Option.some.inj (hs.symm.trans hf)

theorem startedTimer_postRun (hc : c.Kept) (hf : c.registry.find? id = some r)
    (htorn : r.tornDown = false) :
    StartedTimer id c (c.take site (.request (.postRun id true))) ↔ Begins site c.world r := by
  have hid : r.id = id := hc.own id r hf
  have hname : r.name = id.workflowName := by rw [Record.name, hid]
  have hrecord : c.registry.recordOf id = r := Registry.recordOf_of_find? hf
  have htake : c.take site (.request (.postRun id true)) =
      ((postRun site id true).run c).2 := rfl
  have hfind : (c.registry.ensure id).find? id = some r := find?_ensure hf hid
  rw [htake, run_postRun site hc (by rw [hrecord, htorn]), Begins, hname, hrecord]
  generalize (Handling.requestStage id.workflowName .postRun).run c.world.api = answer
  obtain ⟨outcome, api⟩ := answer
  cases outcome with
  | ok u =>
    have started := limited_startTimer site .postRun (c := ⟨r, { c.world with api }⟩)
      (hc.drawn id r hf)
    have sameId : ((Handling.startTimer site .postRun).run
        ⟨r, { c.world with api }⟩).2.record.id = id :=
      (Deed.id_apply (.startTimer .postRun) _).trans hid
    let asked : Controller :=
      { registry := c.registry.ensure id, world := { c.world with api } }
    have worked : StartedTimer id asked (work r (Handling.startTimer site .postRun) asked).2 ↔
        Limited ⟨r, asked.world⟩ ((Handling.startTimer site .postRun).run ⟨r, asked.world⟩).2 :=
      startedTimer_work sameId
    -- the request draws no ticket, so what is new after it is new since `c`
    refine (worked.trans started).trans ?_
    constructor
    · rintro ⟨hstage, hlimit⟩
      exact ⟨htorn, hstage, hlimit, u, rfl⟩
    · rintro ⟨_, hstage, hlimit, _⟩
      exact ⟨hstage, hlimit⟩
  | error fault =>
    refine iff_of_false ?_ ?_
    · rintro ⟨s, timer, hs, htimer, hle⟩
      have hsame : s = r := eq_of_find?_forget hfind hs
      have hlt := hc.drawn id r hf timer (hsame ▸ htimer)
      omega
    · rintro ⟨_, _, _, u, hu⟩
      cases hu

/-- A job whose workflow is to be deleted rests in all turns but two, and in these once it is torn
down. -/
theorem rests_of_deleted (hc : c.Kept) (hf : c.registry.find? id = some r)
    (hdeleted : r.deleted = true) (turn : Turn) :
    Rests id c (c.take site turn) ∨ r.tornDown = false ∧
      (turn = .request (.postRun id true) ∨ ∃ stage, turn = .timeout id stage) := by
  cases htorn : r.tornDown with
  | true => exact Or.inl (rests_of_tornDown hc hf htorn)
  | false =>
    cases turn with
    | request asked =>
      by_cases hrun : asked = .postRun id true
      · exact Or.inr ⟨rfl, Or.inl (congrArg Turn.request hrun)⟩
      · exact Or.inl (rests_request hc hf (Or.inr hdeleted) fun h => absurd h hrun)
    | event event => exact Or.inl (rests_event hc hf (Or.inr hdeleted))
    | timeout job stage =>
      by_cases hj : job = id
      · subst hj
        exact Or.inr ⟨rfl, Or.inr ⟨stage, rfl⟩⟩
      · exact Or.inl (rests_take_of_ne hc fun h => hj (Option.some.inj h))
    | sweep => exact Or.inl (rests_sweep hc)

theorem deleted_postRun {s : Record} (hc : c.Kept) (hf : c.registry.find? id = some r)
    (htorn : r.tornDown = false) (hdeleted : r.deleted = true)
    (hs : (c.take site (.request (.postRun id true))).registry.find? id = some s) :
    s.deleted = true := by
  have hid : r.id = id := hc.own id r hf
  have hrecord : c.registry.recordOf id = r := Registry.recordOf_of_find? hf
  have hfind : (c.registry.ensure id).find? id = some r := find?_ensure hf hid
  change ((postRun site id true).run c).2.registry.find? id = some s at hs
  rw [run_postRun site hc (by rw [hrecord, htorn]), hrecord] at hs
  generalize (Handling.requestStage id.workflowName .postRun).run c.world.api = answer at hs
  obtain ⟨outcome, api⟩ := answer
  cases outcome with
  | ok u =>
    have hfind' := find?_work_startTimer site .postRun hid
      { registry := c.registry.ensure id, world := { c.world with api } }
    obtain rfl := Option.some.inj (hfind'.symm.trans hs)
    exact Deed.deleted_apply (d := .startTimer .postRun) hdeleted
  | error fault =>
    obtain rfl : s = r := eq_of_find?_forget hfind hs
    exact hdeleted

theorem deleted_timeout {stage : Stage} {s : Record} (hc : c.Kept)
    (hf : c.registry.find? id = some r) (hdeleted : r.deleted = true)
    (hs : (c.take site (.timeout id stage)).registry.find? id = some s) : s.deleted = true := by
  have hid : r.id = id := hc.own id r hf
  have expired : Case.Did site (Deed.Extends stage) ⟨r, c.world⟩
      ((Handling.expire site stage).run ⟨r, c.world⟩).2 := Handling.leads_expire stage _
  have hfind := find?_work (c := c) (expired.id.trans hid)
  rw [take_timeout hf] at hs
  obtain rfl := Option.some.inj (hfind.symm.trans hs)
  exact expired.deleted hdeleted

theorem deleted_step {h : Happening} {s : Record} (hc : c.Kept)
    (hf : c.registry.find? id = some r) (hdeleted : r.deleted = true)
    (hs : (c.step site h).registry.find? id = some s) : s.deleted = true := by
  by_cases hturn : ∃ turn, h = .turn turn
  · obtain ⟨turn, rfl⟩ := hturn
    rcases rests_of_deleted hc hf hdeleted turn with rests | ⟨htorn, rfl | ⟨stage, rfl⟩⟩
    · obtain ⟨q, hq, hqs⟩ := rests.record s hs
      obtain rfl : r = q := Option.some.inj (hf.symm.trans hq)
      exact hqs.deleted hdeleted
    · exact deleted_postRun hc hf htorn hdeleted hs
    · exact deleted_timeout hc hf hdeleted hs
  · obtain ⟨q, hq, _, hsame⟩ := find?_step_of_not_turn (fun turn h => hturn ⟨turn, h⟩) hs hc
    obtain rfl : r = q := Option.some.inj (hf.symm.trans hq)
    rw [hsame, hdeleted]

theorem askedStage_of_deleted (hc : c.Kept) (hf : c.registry.find? id = some r)
    (hdeleted : r.deleted = true) (turn : Turn) :
    AskedStage id c (c.take site turn) ↔
      turn = .request (.postRun id true) ∧ r.tornDown = false := by
  constructor
  · intro hasked
    rcases rests_of_deleted hc hf hdeleted turn with rests | ⟨htorn, rfl | ⟨stage, rfl⟩⟩
    · exact absurd hasked rests.not_askedStage
    · exact ⟨rfl, htorn⟩
    · exact absurd hasked (expire_turn hc hf htorn).1
  · rintro ⟨rfl, htorn⟩
    exact askedStage_postRun hc hf htorn

theorem startedTimer_of_deleted (hc : c.Kept) (hf : c.registry.find? id = some r)
    (hdeleted : r.deleted = true) (turn : Turn) :
    StartedTimer id c (c.take site turn) ↔
      (turn = .request (.postRun id true) ∧ Begins site c.world r) ∨
        ∃ stage, turn = .timeout id stage ∧ Prolongs site c.world r stage := by
  constructor
  · intro hstarted
    rcases rests_of_deleted hc hf hdeleted turn with rests | ⟨htorn, rfl | ⟨stage, rfl⟩⟩
    · exact absurd hstarted (rests.not_startedTimer hc)
    · exact Or.inl ⟨rfl, (startedTimer_postRun hc hf htorn).mp hstarted⟩
    · exact Or.inr ⟨stage, rfl, (expire_turn hc hf htorn).2.mp hstarted⟩
  · rintro (⟨rfl, hbegins⟩ | ⟨stage, rfl, hprolongs⟩)
    · exact (startedTimer_postRun hc hf hbegins.1).mpr hbegins
    · exact (expire_turn hc hf hprolongs.1).2.mpr hprolongs

/-- A job whose workflow is to be deleted stays so while its record stays. The controller then asks
for a stage exactly at the end of the run of a job that is not torn down, and it starts a time limit
exactly there, if the stage is limited, and where a job goes on without some compute nodes. -/
theorem deleted_run {later : List Happening} (hreach : Reachable site c)
    (hf : c.registry.find? id = some r) (hdeleted : r.deleted = true)
    (hstays : Stays site id c later) :
    ∃ s, (c.run site later).registry.find? id = some s ∧ s.deleted = true ∧ ∀ turn,
      (AskedStage id (c.run site later) ((c.run site later).take site turn) ↔
        turn = .request (.postRun id true) ∧ s.tornDown = false) ∧
      (StartedTimer id (c.run site later) ((c.run site later).take site turn) ↔
        (turn = .request (.postRun id true) ∧ Begins site (c.run site later).world s) ∨
          ∃ stage, turn = .timeout id stage ∧ Prolongs site (c.run site later).world s stage) := by
  have hkept : (c.run site later).Kept := kept_run hreach.kept site later
  obtain ⟨s, hs, hdeleted'⟩ := find?_run (P := fun r => r.deleted = true)
    (fun _ _ _ _ => deleted_step) hreach.kept hf hdeleted hstays
  exact ⟨s, hs, hdeleted', fun turn => ⟨askedStage_of_deleted hkept hs hdeleted' turn,
    startedTimer_of_deleted hkept hs hdeleted' turn⟩⟩

/-- The run of a job ends after its workflow was reported complete in its last stage. -/
theorem postRun_after_deletion :
    let c := Sample.report (Sample.start .teardown)
    let t := c.take Sample.site (.request (.postRun Sample.job true))
    Reachable Sample.site c ∧
      (∃ r, c.registry.find? Sample.job = some r ∧ r.deleted = true) ∧
      AskedStage Sample.job c t ∧ StartedTimer Sample.job c t := by
  intro c t
  have reached : Reachable Sample.site c :=
    Sample.reachable_report (Sample.reachable_start .teardown)
  have found : (c.registry.find? Sample.job).any (fun r => r.deleted && !r.tornDown) = true := by
    decide +kernel
  obtain ⟨r, hf, hflags⟩ := (Option.any_eq_true _ _).mp found
  simp only [Bool.and_eq_true, Bool.not_eq_true'] at hflags
  have limited : (t.registry.find? Sample.job).any (fun s => s.timer.any fun timer =>
      c.world.ticket ≤ timer.ticket) = true := by
    decide +kernel
  obtain ⟨s, hs, htimer⟩ := (Option.any_eq_true _ _).mp limited
  obtain ⟨timer, htimer, hle⟩ := (Option.any_eq_true _ _).mp htimer
  exact ⟨reached, ⟨r, hf, hflags.1⟩, askedStage_postRun reached.kept hf hflags.2,
    s, timer, hs, htimer, by simpa using hle⟩

/-- The theorem applies to a job whose workflow is complete in its last stage, after a late
report. -/
theorem deleted_run_teardown :
    let c := Sample.report (Sample.start .teardown)
    let later : List Happening := [.turn (.event (.modified (Sample.workflow .setup)))]
    ∃ r, c.registry.find? Sample.job = some r ∧ r.deleted = true ∧
      Stays Sample.site Sample.job c later ∧
      ∃ s, (c.run Sample.site later).registry.find? Sample.job = some s ∧ s.deleted = true ∧
        ∀ turn,
          (AskedStage Sample.job (c.run Sample.site later)
              ((c.run Sample.site later).take Sample.site turn) ↔
            turn = .request (.postRun Sample.job true) ∧ s.tornDown = false) ∧
          (StartedTimer Sample.job (c.run Sample.site later)
              ((c.run Sample.site later).take Sample.site turn) ↔
            (turn = .request (.postRun Sample.job true) ∧
              Begins Sample.site (c.run Sample.site later).world s) ∨
            ∃ stage, turn = .timeout Sample.job stage ∧
              Prolongs Sample.site (c.run Sample.site later).world s stage) := by
  intro c later
  have reached : Reachable Sample.site c :=
    Sample.reachable_report (Sample.reachable_start .teardown)
  have found : (c.registry.find? Sample.job).any Record.deleted = true := by decide +kernel
  obtain ⟨r, hf, hdeleted⟩ := (Option.any_eq_true _ _).mp found
  have stays : Stays Sample.site Sample.job c later := by decide +kernel
  exact ⟨r, hf, hdeleted, stays, deleted_run reached hf hdeleted stays⟩

end Warren.Controller
