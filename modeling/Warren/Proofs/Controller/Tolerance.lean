import Warren.Proofs.Controller.Cadence
import Warren.Proofs.Controller.Causality

/-!
# Compute nodes that a job can do without

A job that can do without some compute nodes goes on when a stage takes too long on a few of them,
and the nodes that are given up are taken off what it can do without. `balance_run` adds this up
while the record of the job lasts: what was given up and what is left is what the requests to create
the workflow raised the tolerance by. A request that comes once more raises it again, so the sum is
bounded by the tolerance of one request only where nothing is raised twice (`givenUp_le_iff`).
-/

namespace Warren

/-- The compute nodes of a job that a notice gives up. -/
def Notice.givenUp (id : JobId) : Notice → List String
  | .nodeFailure job nodes => if job = id then nodes else []
  | _ => []

namespace Dispatch

/-- The number of compute nodes of a job that are given up in what is sent. -/
def givenUp (id : JobId) (x : Dispatch) : Nat := (x.notices.flatMap (Notice.givenUp id)).length

@[simp] theorem givenUp_empty (id : JobId) : givenUp id .empty = 0 := rfl

@[simp] theorem givenUp_append (id : JobId) (x y : Dispatch) :
    (x.append y).givenUp id = x.givenUp id + y.givenUp id := by
  simp [givenUp, append]

theorem givenUp_eq_zero {id : JobId} {x : Dispatch}
    (h : ∀ notice ∈ x.notices, notice.givenUp id = []) : x.givenUp id = 0 := by
  rw [givenUp, List.flatMap_eq_nil_iff.mpr h, List.length_nil]

end Dispatch

namespace License

variable {site : Site} {id : JobId}

/-- The license to do anything but give compute nodes of a job up. -/
def keepsNodes (id : JobId) : License :=
  ⟨fun _ => True, fun notice => notice.givenUp id = [], fun _ => True⟩

theorem givenUp_of_isPlain {notice : Notice} (h : notice.IsPlain) (id : JobId) :
    notice.givenUp id = [] := by
  cases notice with
  | nodeFailure => exact h.elim
  | _ => rfl

theorem allows_keepsNodes (site : Site) (id job : JobId) : (keepsNodes id).Allows site job where
  asks _ _ := trivial
  tells _ hn _ := givenUp_of_isPlain hn id
  hands _ := trivial

theorem serves_keepsNodes {turn : Turn} (h : ∀ stage, turn ≠ .timeout id stage) (site : Site)
    (c : Controller) : (keepsNodes id).Serves site c turn where
  allows job _ := allows_keepsNodes site id job
  setup _ _ _ _ := trivial
  postRun _ _ _ := trivial
  follows _ _ := ⟨fun _ _ => trivial, fun _ _ _ _ _ => trivial, fun _ _ _ => rfl,
    fun _ _ _ => rfl, fun _ => rfl, fun _ _ => trivial⟩
  spares job stage hturn nodes := by
    have hne : job ≠ id := fun heq => h stage (by rw [hturn, heq])
    exact if_neg hne
  sweeps _ := ⟨allows_keepsNodes site id, fun _ hn _ => givenUp_of_isPlain hn id⟩

end License

/-! ### The end of a time limit -/

namespace Case

/-- The compute nodes that are given up are taken off what the job can do without. -/
structure Charges (c t : Case) : Prop where
  id : t.record.id = c.record.id
  sent : ∃ x, World.Sends x c.world t.world ∧
    x.givenUp c.record.id + t.record.tolerance.toNat = c.record.tolerance.toNat

variable {site : Site} {c t : Case}

instance : Std.Refl Charges := by
  refine ⟨fun c => ⟨rfl, .empty, ?_, Nat.zero_add _⟩⟩
  exact ⟨(List.append_nil _).symm, (List.append_nil _).symm⟩

instance : Trans Charges Charges Charges where
  trans := by
    rintro c t u ⟨hid, x, hx, hsum⟩ ⟨hid', y, hy, hsum'⟩
    rw [hid] at hsum'
    refine ⟨hid'.trans hid, x.append y, hx.trans hy, ?_⟩
    rw [Dispatch.givenUp_append]
    omega

theorem charges_of_calm (did : Did site Deed.Calm c t)
    (within : Within (License.keepsNodes c.record.id) c.record.id c t) : Charges c t := by
  obtain ⟨hid, _, x, hx, htells, _⟩ := within rfl
  refine ⟨hid, x, hx, ?_⟩
  rw [Dispatch.givenUp_eq_zero htells, did.tolerance fun _ h => h, Nat.zero_add]

end Case

namespace Handling

open Case (Charges Did Within)

variable {site : Site} {c : Case}

theorem charges_startTimer (stage : Stage) (c : Case) :
    Leads Charges (startTimer site stage) c := by
  have same : Charges c c := Std.Refl.refl c
  unfold Leads
  rw [state_run_startTimer]
  cases site.config.timeouts.of stage with
  | none => exact same
  | some limit =>
    dsimp only
    split
    · exact same
    · obtain ⟨hid, x, hx, hsum⟩ := same
      exact ⟨hid, x, ⟨hx.notices, hx.cleanups⟩, hsum⟩

theorem charges_dispense {nodes : List String} (stage : Stage)
    (h : isTolerable c.record.tolerance nodes = true) :
    Leads Charges (dispense site stage nodes) c := by
  have hle : nodes.length ≤ c.record.tolerance.toNat := by
    simp only [isTolerable, Bool.and_eq_true, decide_eq_true_eq] at h
    exact h.2
  have hlt : nodes.length < UInt32.size := Nat.lt_of_le_of_lt hle c.record.tolerance.toNat_lt
  have hlength : (UInt32.ofNat nodes.length).toNat = nodes.length :=
    UInt32.toNat_ofNat_of_lt' hlt
  have hleft : (c.record.tolerance - UInt32.ofNat nodes.length).toNat =
      c.record.tolerance.toNat - nodes.length := by
    rw [UInt32.toNat_sub_of_le _ _ (by rw [UInt32.le_iff_toNat_le, hlength]; exact hle), hlength]
  let left : Case := {
    record := { c.record with tolerance := c.record.tolerance - UInt32.ofNat nodes.length }
    world := c.world.tell (.nodeFailure c.record.id nodes) }
  have spent : Charges c left := by
    refine ⟨rfl, ⟨[.nodeFailure c.record.id nodes], []⟩, ⟨rfl, (List.append_nil _).symm⟩, ?_⟩
    have hgiven : Dispatch.givenUp c.record.id ⟨[.nodeFailure c.record.id nodes], []⟩ =
        nodes.length := by
      simp [Dispatch.givenUp, Notice.givenUp]
    rw [hgiven]
    change nodes.length + (c.record.tolerance - UInt32.ofNat nodes.length).toNat = _
    omega
  have started : Leads Charges (startTimer site stage) left := charges_startTimer stage left
  exact (Trans.trans spent (started : Charges left _) : Charges c _)

theorem charges_overrun (stage : Stage) (c : Case) : Leads Charges (overrun site stage) c := by
  have did : Leads (Did site Deed.Calm) (overrun site stage) c := leads_overrun stage c
  refine Case.charges_of_calm did ?_
  have allows := License.allows_keepsNodes site c.record.id c.record.id
  have overran : Leads (Within (License.keepsNodes c.record.id) c.record.id)
      (overrun site stage) c :=
    .bind (within_tell (allows.tells _ trivial rfl)) fun _ t _ => within_tearDownStuck allows _ t
  exact overran

/-- The end of a time limit takes the compute nodes that it costs off what the job can do
without. -/
theorem charges_expire (stage : Stage) (c : Case) : Leads Charges (expire site stage) c := by
  have cancelled : Charges c ⟨c.record.cancelTimer, c.world⟩ := by
    obtain ⟨hid, hsent⟩ := (Std.Refl.refl c : Charges c c)
    exact ⟨hid, hsent⟩
  by_cases hstage : c.record.timerStage = some stage
  · cases htorn : c.record.tornDown with
    | true =>
      have hrun : (expire site stage).run c = (.ok (), ⟨c.record.cancelTimer, c.world⟩) := by
        have hcancel : cancelTimer.run c = (.ok (), ⟨c.record.cancelTimer, c.world⟩) := rfl
        rw [expire, run_bind_ok (run_record c), if_pos hstage, run_bind_ok hcancel,
          run_bind_ok (run_record _)]
        exact congrArg (fun work : Handling Unit => work.run _) (if_pos htorn)
      unfold Leads
      rw [hrun]
      exact cancelled
    | false =>
      unfold Leads
      rw [Controller.run_expire hstage htorn]
      refine Trans.trans cancelled (?_ : Leads Charges _ _)
      have looked : Leads Charges (dispensable stage) ⟨c.record.cancelTimer, c.world⟩ := by
        have did : Leads (Did site Deed.Calm) (dispensable stage) ⟨c.record.cancelTimer, c.world⟩ :=
          leads_dispensable stage _
        refine Case.charges_of_calm did ?_
        exact within_dispensable (License.allows_keepsNodes site _ _) stage _
      obtain ⟨found, world, hrun, htolerable⟩ :=
        exists_run_dispensable stage ⟨c.record.cancelTimer, c.world⟩
      refine looked.bind fun same t ht => ?_
      obtain ⟨hsame, rfl⟩ := Prod.mk.inj (hrun.symm.trans ht)
      obtain rfl := Except.ok.inj hsame
      cases found with
      | none => exact charges_overrun stage _
      | some nodes => exact charges_dispense stage (htolerable nodes rfl)
  · unfold Leads
    rw [Controller.run_expire_of_ne hstage]
    exact Std.Refl.refl c

end Handling

/-! ### Turns -/

namespace Controller

variable {site : Site} {id : JobId} {c t : Controller}

/-- The number of compute nodes that a job can do without. -/
def tolerance (id : JobId) (c : Controller) : Nat := (c.registry.recordOf id).tolerance.toNat

theorem tolerance_of_find? {r : Record} (h : c.registry.find? id = some r) :
    tolerance id c = r.tolerance.toNat := by
  rw [tolerance, Registry.recordOf_of_find? h]

theorem tolerance_of_has (h : c.registry.has id = false) : tolerance id c = 0 := by
  have hnone : c.registry.find? id = none := by simpa [Dict.has] using h
  rw [tolerance, Registry.recordOf_of_find?_none hnone]
  rfl

/-- A request to create the workflow of a job. -/
def isCreation (id : JobId) : Happening → Bool
  | .turn (.request (.create details)) => details.id = id
  | _ => false

/-- The number of compute nodes by which something raises what a job can do without. Only a request
to create the workflow of the job does so. -/
def raise (site : Site) (id : JobId) (c : Controller) (h : Happening) : Nat :=
  if isCreation id h then tolerance id (c.step site h) - tolerance id c else 0

theorem givenUp_take {turn : Turn} (hc : c.Kept) (h : ∀ stage, turn ≠ .timeout id stage) :
    (c.world.since (c.take site turn).world).givenUp id = 0 := by
  obtain ⟨_, x, hx, htells, _⟩ := acts_of_serves hc (License.serves_keepsNodes h site c)
  rw [hx.since]
  exact Dispatch.givenUp_eq_zero htells

theorem balance_timeout (site : Site) (id : JobId) (hc : c.Kept) (stage : Stage) :
    (c.world.since (c.take site (.timeout id stage)).world).givenUp id +
      tolerance id (c.take site (.timeout id stage)) = tolerance id c := by
  cases hf : c.registry.find? id with
  | none =>
    rw [take_timeout_of_none hf, World.since_self, Dispatch.givenUp_empty, Nat.zero_add]
  | some r =>
    have hid : r.id = id := hc.own id r hf
    have charges : Case.Charges ⟨r, c.world⟩ ((Handling.expire site stage).run ⟨r, c.world⟩).2 :=
      Handling.charges_expire stage ⟨r, c.world⟩
    obtain ⟨hsame, x, hx, hsum⟩ := charges
    rw [take_timeout hf, tolerance_of_find? hf, tolerance_of_find? (find?_work (hsame.trans hid)),
      state_work, hx.since, ← hid]
    exact hsum

/-- A request to create the workflow of a job says what the job can do without, if it is not
refused. -/
theorem tolerance_create (site : Site) (details : CreateRequest) (hc : c.Kept) :
    let t := c.take site (.request (.create details))
    tolerance details.id t = tolerance details.id c ∨
      tolerance details.id t = details.tolerance.toNat := by
  rcases registry_create site details c with h | h
  · exact Or.inl (by rw [tolerance, take, onRequest, h, tolerance])
  · refine Or.inr ?_
    have hid : (refill details (c.registry.recordOf details.id)).id = details.id :=
      (hc.recordOf details.id).1
    rw [tolerance, take, onRequest, h, Registry.recordOf_put, if_pos hid]
    rfl

theorem tolerance_ring (hc : c.Kept) (id other : JobId) :
    tolerance id (c.ring other) = tolerance id c := by
  rw [tolerance, recordOf_ring hc, tolerance]
  split <;> rfl

theorem raise_eq_zero {h : Happening} (hnot : isCreation id h = false) : raise site id c h = 0 := by
  rw [raise, hnot]
  rfl

theorem balance_creation {details : CreateRequest} {limit : UInt32} (site : Site) (hc : c.Kept)
    (hlimit : details.tolerance = limit) (hle : tolerance details.id c ≤ limit.toNat) :
    let h : Happening := .turn (.request (.create details))
    (dispatched site c h).givenUp details.id + tolerance details.id (c.step site h) =
        tolerance details.id c + raise site details.id c h ∧
      tolerance details.id (c.step site h) ≤ limit.toNat := by
  intro h
  have hgiven : (dispatched site c h).givenUp details.id = 0 := by
    refine givenUp_take hc fun stage hturn => ?_
    cases hturn
  have hraise : raise site details.id c h =
      tolerance details.id (c.step site h) - tolerance details.id c := if_pos (decide_eq_true rfl)
  have hcreate : tolerance details.id (c.step site h) = tolerance details.id c ∨
      tolerance details.id (c.step site h) = details.tolerance.toNat :=
    tolerance_create site details hc
  rw [hlimit] at hcreate
  rw [hgiven, hraise]
  omega

theorem balance_steady {turn : Turn} (hc : c.Kept) (hturn : ¬Charges id turn)
    (hhas : (c.take site turn).registry.has id = true) :
    (dispatched site c (.turn turn)).givenUp id = 0 ∧
      tolerance id (c.take site turn) = tolerance id c ∧ isCreation id (.turn turn) = false := by
  obtain ⟨s, hs⟩ := Option.isSome_iff_exists.mp hhas
  refine ⟨?_, ?_, ?_⟩
  · refine givenUp_take hc fun stage heq => hturn ?_
    rw [heq]
    exact rfl
  · rw [tolerance_of_find? hs]
    exact congrArg UInt32.toNat (steady_take hc hturn s hs).tolerance
  · cases turn with
    | request asked =>
      cases asked with
      | create details => exact decide_eq_false hturn
      | _ => rfl
    | _ => rfl

/-- What is given up and what is left is what there was and what is added. -/
theorem balance_step {h : Happening} {limit : UInt32} (hc : c.Kept)
    (hlimit : ∀ details, h = .turn (.request (.create details)) → details.id = id →
      details.tolerance = limit)
    (hle : tolerance id c ≤ limit.toNat) (hhas : (c.step site h).registry.has id = true) :
    (dispatched site c h).givenUp id + tolerance id (c.step site h) =
        tolerance id c + raise site id c h ∧
      tolerance id (c.step site h) ≤ limit.toNat := by
  cases h with
  | outside world drawn =>
    rw [raise_eq_zero rfl]
    exact ⟨Nat.zero_add _, hle⟩
  | ring other =>
    have hsame : tolerance id (c.step site (.ring other)) = tolerance id c :=
      tolerance_ring hc id other
    rw [raise_eq_zero rfl, hsame]
    exact ⟨Nat.zero_add _, hle⟩
  | turn turn =>
    by_cases hcharges : Charges id turn
    · cases turn with
      | request asked =>
        cases asked with
        | create details =>
          obtain rfl : details.id = id := hcharges
          exact balance_creation site hc (hlimit details rfl rfl) hle
        | _ => exact hcharges.elim
      | timeout job stage =>
        obtain rfl : job = id := hcharges
        have hsum : (dispatched site c (.turn (.timeout job stage))).givenUp job +
            tolerance job (c.step site (.turn (.timeout job stage))) = tolerance job c :=
          balance_timeout site _ hc stage
        rw [raise_eq_zero rfl]
        omega
      | _ => exact hcharges.elim
    · obtain ⟨hgiven, hsame, hnot⟩ := balance_steady hc hcharges hhas
      rw [hgiven, raise_eq_zero hnot, Nat.zero_add]
      exact ⟨hsame, Nat.le_trans (Nat.le_of_eq hsame) hle⟩

theorem balance_last {h : Happening} (hc : c.Kept)
    (hhas : (c.step site h).registry.has id = false) :
    (dispatched site c h).givenUp id = 0 ∧ raise site id c h = 0 := by
  have hzero : tolerance id (c.step site h) = 0 := tolerance_of_has hhas
  refine ⟨?_, by rw [raise, hzero, Nat.zero_sub, ite_self]⟩
  cases h with
  | outside world drawn => rfl
  | ring other => rfl
  | turn turn =>
    by_cases hturn : ∃ stage, turn = .timeout id stage
    · obtain ⟨stage, rfl⟩ := hturn
      -- the end of a time limit keeps the record, so there was none before
      have hbefore : c.registry.has id = false :=
        (has_revisit hc (Handling.leads_expire stage) id).symm.trans hhas
      have hsum := balance_timeout site id hc stage
      rw [tolerance_of_has hbefore] at hsum
      exact Nat.eq_zero_of_add_eq_zero_right hsum
    · exact givenUp_take hc fun stage h => hturn ⟨stage, h⟩

/-! ### Courses -/

/-- The number of compute nodes of a job that are given up in a course of happenings. -/
def givenUp (site : Site) (id : JobId) : Controller → List Happening → Nat
  | _, [] => 0
  | c, h :: rest => (dispatched site c h).givenUp id + givenUp site id (c.step site h) rest

/-- The number of compute nodes by which requests to create the workflow of a job raise what the job
can do without, in a course of happenings. -/
def raised (site : Site) (id : JobId) : Controller → List Happening → Nat
  | _, [] => 0
  | c, h :: rest => raise site id c h + raised site id (c.step site h) rest

/-- What a job can do without in the end, or when its record goes. -/
def left (site : Site) (id : JobId) : Controller → List Happening → Nat
  | c, [] => tolerance id c
  | c, h :: rest => if (c.step site h).registry.has id then left site id (c.step site h) rest
      else tolerance id c

/-- All requests to create the workflow of a job in a course say that the job can do without the
same number of compute nodes. -/
def Agree (id : JobId) (limit : UInt32) (course : List Happening) : Prop :=
  ∀ details, .turn (.request (.create details)) ∈ course → details.id = id →
    details.tolerance = limit

variable {course : List Happening} {limit : UInt32}

theorem balance_run (hc : c.Kept) (hlasts : Lasts site id c course) (hagree : Agree id limit course)
    (hle : tolerance id c ≤ limit.toNat) :
    givenUp site id c course + left site id c course =
        tolerance id c + raised site id c course ∧
      left site id c course ≤ limit.toNat := by
  -- along the course; each happening starts from the tolerance that the one before left
  induction course generalizing c with
  | nil => exact ⟨Nat.add_comm _ _, hle⟩
  | cons h rest ih =>
    have hfirst (details : CreateRequest) (hh : h = .turn (.request (.create details)))
        (hid : details.id = id) : details.tolerance = limit :=
      hagree details (by rw [hh]; exact List.mem_cons_self ..) hid
    have hrest : Agree id limit rest := fun details hmem =>
      hagree details (List.mem_cons_of_mem _ hmem)
    cases hhas : (c.step site h).registry.has id with
    | true =>
      obtain ⟨hstep, hbelow⟩ := balance_step hc hfirst hle hhas
      obtain ⟨hsum, hleft⟩ := ih (kept_step hc site h) hlasts.2 hrest hbelow
      rw [left, if_pos hhas, givenUp, raised]
      exact ⟨by omega, hleft⟩
    | false =>
      obtain ⟨hgiven, hraise⟩ := balance_last hc hhas
      have hend : rest = [] := hlasts.1.resolve_right (by simp [hhas])
      subst hend
      rw [left, if_neg (by simp [hhas]), givenUp, raised, hgiven, hraise]
      exact ⟨Nat.add_comm _ _, hle⟩

theorem raise_le {h : Happening} (hc : c.Kept)
    (hlimit : ∀ details, h = .turn (.request (.create details)) → details.id = id →
      details.tolerance = limit) :
    raise site id c h ≤ if isCreation id h then limit.toNat else 0 := by
  rw [raise]
  split
  · rename_i hcreation
    cases h with
    | turn turn =>
      cases turn with
      | request asked =>
        cases asked with
        | create details =>
          obtain rfl : details.id = id := of_decide_eq_true hcreation
          have hcreate := tolerance_create site details hc
          rw [hlimit details rfl rfl] at hcreate
          change tolerance details.id (c.take site (.request (.create details))) - _ ≤ _
          dsimp only at hcreate
          omega
        | _ => cases hcreation
      | _ => cases hcreation
    | _ => cases hcreation
  · exact Nat.le_refl 0

theorem raised_le (hc : c.Kept) (hagree : Agree id limit course) :
    raised site id c course ≤ limit.toNat * course.countP (isCreation id) := by
  induction course generalizing c with
  | nil => exact Nat.zero_le _
  | cons h rest ih =>
    have hfirst : raise site id c h ≤ if isCreation id h then limit.toNat else 0 :=
      raise_le hc fun details hh => hagree details (by rw [hh]; exact List.mem_cons_self ..)
    have hrest := ih (kept_step hc site h) fun details hmem =>
      hagree details (List.mem_cons_of_mem _ hmem)
    rw [raised, List.countP_cons]
    split at hfirst
    · rename_i hcreation
      rw [if_pos hcreation, Nat.mul_add, Nat.mul_one]
      omega
    · rename_i hcreation
      rw [if_neg hcreation, Nat.add_zero]
      omega

/-- From when the record of a job is put in to when it goes, with requests to create its workflow
that all say the same: what is given up for the job and what is left is what the requests raised its
tolerance by. So no more is given up than one of them says exactly if they raised the tolerance by
no more than that and what is left, and in any case no more than all of them say together. -/
theorem givenUp_le_iff (hreach : Reachable site c) (hnew : c.registry.has id = false)
    (hlasts : Lasts site id c course) (hagree : Agree id limit course) :
    givenUp site id c course + left site id c course = raised site id c course ∧
      left site id c course ≤ limit.toNat ∧
      givenUp site id c course ≤ limit.toNat * course.countP (isCreation id) ∧
      (givenUp site id c course ≤ limit.toNat ↔
        raised site id c course ≤ limit.toNat + left site id c course) := by
  have hzero : tolerance id c = 0 := tolerance_of_has hnew
  have hbound : raised site id c course ≤ limit.toNat * course.countP (isCreation id) :=
    raised_le hreach.kept hagree
  obtain ⟨hsum, hleft⟩ := balance_run hreach.kept hlasts hagree (by rw [hzero]; exact Nat.zero_le _)
  rw [hzero, Nat.zero_add] at hsum
  refine ⟨hsum, hleft, ?_, ?_⟩
  · omega
  · constructor <;> intro h <;> omega

end Controller

namespace Sample

/-- A controller that starts beside a mount of the job that never goes. -/
def mounted : Controller :=
  let labels : Json := .ofFields [(Api.workflowGroup ++ "/workflow.name", .string job.workflowName),
    (Api.workflowGroup ++ "/workflow.namespace", .string Api.defaultSpace)]
  let mount : Json := .ofFields [("metadata", .ofFields [("labels", labels)]),
    ("spec", .ofFields [("node", .string "node1")])]
  .start (.start (Api.Server.empty.put (Api.Kind.clientMount.key "rabbit1" "mount") mount))

/-- The workflow of the job is created; the job can do without one compute node. -/
def creation : Happening := .turn (.request (.create ⟨job, 0, .array [], [], 1⟩))

/-- The workflow is created, the stage after the run takes too long, the request to create the
workflow comes once more, and the stage takes too long again. -/
def repeated : List Happening :=
  let overrun : Happening := .turn (.timeout job .postRun)
  [creation, .turn (.request (.postRun job true)), overrun, creation, overrun]

theorem lasts_repeated : Controller.Lasts site job mounted repeated := by decide +kernel

theorem agree_repeated : Controller.Agree job 1 repeated := by
  intro details hmem _
  simp only [repeated, creation, List.mem_cons, Happening.turn.injEq, Turn.request.injEq,
    Request.create.injEq, List.not_mem_nil, or_false, reduceCtorEq, false_or] at hmem
  rcases hmem with rfl | rfl <;> rfl

end Sample

namespace Controller

/-- A job that can do without one compute node gives up two, since the request to create its
workflow came twice. -/
theorem givenUp_repeated :
    Reachable Sample.site Sample.mounted ∧ Sample.mounted.registry.has Sample.job = false ∧
      Lasts Sample.site Sample.job Sample.mounted Sample.repeated ∧
      Agree Sample.job 1 Sample.repeated ∧
      givenUp Sample.site Sample.job Sample.mounted Sample.repeated = 2 :=
  ⟨reachable_start _ _, rfl, Sample.lasts_repeated, Sample.agree_repeated, by decide +kernel⟩

/-- The theorem applies to that course, and to the part of it before the request comes again. -/
theorem givenUp_le_iff_repeated :
    let before := Sample.repeated.take 3
    let c := Sample.mounted
    Reachable Sample.site c ∧ c.registry.has Sample.job = false ∧
      (Lasts Sample.site Sample.job c before ∧ Agree Sample.job 1 before ∧
        givenUp Sample.site Sample.job c before + left Sample.site Sample.job c before =
          raised Sample.site Sample.job c before ∧
        givenUp Sample.site Sample.job c before ≤ 1) ∧
      Lasts Sample.site Sample.job c Sample.repeated ∧ Agree Sample.job 1 Sample.repeated ∧
        raised Sample.site Sample.job c Sample.repeated = 2 ∧
        ¬givenUp Sample.site Sample.job c Sample.repeated ≤ 1 := by
  intro before c
  have reached : Reachable Sample.site c := reachable_start _ _
  have unborn : c.registry.has Sample.job = false := rfl
  have lasts : Lasts Sample.site Sample.job c before := by
    have whole := Sample.lasts_repeated
    rw [← List.take_append_drop 3 Sample.repeated] at whole
    exact whole.take
  have agree : Agree Sample.job 1 before := fun details hmem =>
    Sample.agree_repeated details (List.mem_of_mem_take hmem)
  have first := givenUp_le_iff reached unborn lasts agree
  have whole := givenUp_le_iff reached unborn Sample.lasts_repeated Sample.agree_repeated
  have twice : raised Sample.site Sample.job c Sample.repeated = 2 := by decide +kernel
  have spent : left Sample.site Sample.job c Sample.repeated = 0 := by decide +kernel
  have once : before.countP (isCreation Sample.job) = 1 := by decide +kernel
  refine ⟨reached, unborn, ⟨lasts, agree, first.1, ?_⟩, Sample.lasts_repeated,
    Sample.agree_repeated, twice, fun h => ?_⟩
  · have hbound := first.2.2.1
    rw [once] at hbound
    exact hbound
  · have hraised := whole.2.2.2.mp h
    rw [twice, spent] at hraised
    exact absurd hraised (by decide)

end Controller

end Warren
