import Warren.Proofs.Controller.Handling
import Warren.Proofs.JobId

/-!
# What is sent once for a job

The update of the resources and the release of the job, and the two requests for the cleanup, are
errands: each of them leaves a mark in the record, and the mark keeps it from being run again.
`Account` weighs what was sent against the marks, and `Deals` says that all work on a job keeps that
account.
-/

namespace Warren

/-! ### Errands -/

/-- Something that is sent at most once for a job. -/
inductive Errand where
  /-- The resources of the job are handed back. -/
  | update
  /-- The job is told that it may end. -/
  | release
  /-- The workflow is handed to the cleanup, to be moved to its last stage. -/
  | teardown
  /-- The workflow is handed to the cleanup, to be deleted. -/
  | deletion
deriving DecidableEq, Repr

/-- What was sent in some time: notices for the job manager and requests for the cleanup. -/
structure Dispatch where
  notices : List Notice
  cleanups : List Cleanup.Request

namespace Dispatch

def empty : Dispatch := ⟨[], []⟩

def append (x y : Dispatch) : Dispatch := ⟨x.notices ++ y.notices, x.cleanups ++ y.cleanups⟩

end Dispatch

structure World.Sends (x : Dispatch) (w v : World) : Prop where
  notices : v.notices = w.notices ++ x.notices
  cleanups : v.cleanups = w.cleanups ++ x.cleanups

theorem World.Sends.trans {x y : Dispatch} {u v w : World} (h : Sends x u v) (h' : Sends y v w) :
    Sends (x.append y) u w :=
  ⟨by rw [h'.notices, h.notices, List.append_assoc]; rfl,
    by rw [h'.cleanups, h.cleanups, List.append_assoc]; rfl⟩

namespace Errand

/-- Whether a notice runs an errand for a job. -/
def isNotice (id : JobId) : Errand → Notice → Bool
  | .update, .resourceUpdate content => content.id = id
  | .release, .epilogRemove job => job = id
  | _, _ => false

/-- Whether a request for the cleanup runs an errand for a job. -/
def isRequest (id : JobId) : Errand → Cleanup.Request → Bool
  | .teardown, .teardown job _ _ _ => job = id
  | .deletion, .delete name _ => name = id.workflowName
  | _, _ => false

def count (e : Errand) (id : JobId) (x : Dispatch) : Nat :=
  x.notices.countP (e.isNotice id) + x.cleanups.countP (e.isRequest id)

@[simp] theorem count_empty (e : Errand) (id : JobId) : e.count id .empty = 0 := rfl

@[simp] theorem count_append (e : Errand) (id : JobId) (x y : Dispatch) :
    e.count id (x.append y) = e.count id x + e.count id y := by
  simp only [count, Dispatch.append, List.countP_append]
  omega

/-- The mark that an errand leaves in the record of the job. -/
def done (r : Record) : Errand → Bool
  | .update => match r.resources with
    | .consumed => true
    | _ => false
  | .release => r.epilogRemoved
  | .teardown => r.tornDown
  | .deletion => r.deleted

end Errand

/-- How far the resources of a job went. -/
def Resources.rank : Resources → Nat
  | .unknown => 0
  | .pending _ => 1
  | .consumed => 2

/-- No time limit runs for a job that is torn down, and one that is to be deleted was told that it
may end, or is torn down. -/
structure Record.Sane (r : Record) : Prop where
  untimed : r.tornDown = true → r.timer = none
  released : r.deleted = true → r.epilogRemoved = true ∨ r.tornDown = true

/-- What was sent for a job while its record changed: every errand was run at most once, and only
where its mark is new. -/
structure Account (r s : Record) (sent : Errand → Nat) (denied : Prop) : Prop where
  marked : ∀ e, sent e + (e.done r).toNat ≤ (e.done s).toNat
  teardown : sent .teardown + r.tornDown.toNat = s.tornDown.toNat ∨ denied
  rank : r.resources.rank ≤ s.resources.rank
  sane : r.Sane → s.Sane

namespace Account

variable {r s u : Record} {sent more : Errand → Nat} {denied denied' : Prop}

theorem refl (r : Record) (denied : Prop) : Account r r (fun _ => 0) denied :=
  ⟨fun _ => Nat.le_of_eq (Nat.zero_add _), Or.inl (Nat.zero_add _), Nat.le_refl _, fun h => h⟩

theorem trans (h : Account r s sent denied) (h' : Account s u more denied') :
    Account r u (fun e => sent e + more e) (denied ∨ denied') where
  marked e := by
    have first := h.marked e
    have second := h'.marked e
    omega
  teardown := by
    rcases h.teardown with first | first
    · rcases h'.teardown with second | second
      · exact Or.inl (by omega)
      · exact Or.inr (Or.inr second)
    · exact Or.inr (Or.inl first)
  rank := Nat.le_trans h.rank h'.rank
  sane hr := h'.sane (h.sane hr)

theorem mono (h : Account r s sent denied) (hd : denied → denied') : Account r s sent denied' :=
  ⟨h.marked, h.teardown.imp id hd, h.rank, h.sane⟩

theorem done (h : Account r s sent denied) (e : Errand) (he : e.done r = true) :
    e.done s = true := by
  have hmarked := h.marked e
  rw [he] at hmarked
  cases hs : e.done s with
  | true => rfl
  | false => simp [hs] at hmarked

theorem sent_le_one (h : Account r s sent denied) (e : Errand) : sent e ≤ 1 := by
  have hmarked := h.marked e
  have hone : (e.done s).toNat ≤ 1 := Bool.toNat_le _
  omega

end Account

/-! ### Answers that a workflow is gone -/

namespace Api.Server

abbrev Served : Server → Server → Prop := Asked fun _ => True

/-- The server answered that the workflow of a job does not exist. -/
def Denied (id : JobId) (s t : Server) : Prop :=
  ∃ u, Served s u ∧ (∃ fault, ((getWorkflow id.workflowName).run u).1 = .error fault ∧
    fault.isNotFound = true) ∧ Served (u.serve (.get .workflow defaultSpace id.workflowName)) t

theorem Denied.after {id : JobId} {s t u : Server} (h : Denied id t u) (hs : Served s t) :
    Denied id s u := by
  obtain ⟨v, hv, hanswer, hrest⟩ := h
  exact ⟨v, Trans.trans hs hv, hanswer, hrest⟩

theorem Denied.before {id : JobId} {s t u : Server} (h : Denied id s t) (ht : Served t u) :
    Denied id s u := by
  obtain ⟨v, hv, hanswer, hrest⟩ := h
  exact ⟨v, hv, hanswer, Trans.trans hrest ht⟩

end Api.Server

/-! ### Work that keeps the account -/

namespace Case

open Api.Server (Served Denied)

/-- What work on a job sends, and how it changes the record. Errands are run for that job only. -/
structure Dealt (x : Dispatch) (c t : Case) : Prop where
  id : t.record.id = c.record.id
  sends : World.Sends x c.world t.world
  served : Served c.world.api t.world.api
  own : ∀ e job, job ≠ c.record.id → Errand.count e job x = 0
  account : Account c.record t.record (fun e => e.count c.record.id x)
    (Denied c.record.id c.world.api t.world.api)

def Deals (c t : Case) : Prop := ∃ x, Dealt x c t

theorem Dealt.refl (c : Case) : Dealt .empty c c where
  id := rfl
  sends := ⟨(List.append_nil _).symm, (List.append_nil _).symm⟩
  served := Std.Refl.refl c.world.api
  own _ _ _ := rfl
  account := .refl c.record _

theorem Dealt.trans {x y : Dispatch} {c t u : Case} (h : Dealt x c t) (h' : Dealt y t u) :
    Dealt (x.append y) c u where
  id := h'.id.trans h.id
  sends := h.sends.trans h'.sends
  served := Trans.trans h.served h'.served
  own e job hjob := by
    have first := h.own e job hjob
    have second := h'.own e job (h.id ▸ hjob)
    rw [Errand.count_append, first, second]
  account := by
    have second := h'.account
    rw [h.id] at second
    -- an answer in one of the parts is an answer on the whole
    have both := (h.account.trans second).mono fun hd =>
      hd.elim (fun hd => hd.before h'.served) fun hd => hd.after h.served
    simpa only [Errand.count_append] using both

instance : Std.Refl Deals := ⟨fun c => ⟨.empty, .refl c⟩⟩

instance : Trans Deals Deals Deals := ⟨fun ⟨x, h⟩ ⟨y, h'⟩ => ⟨x.append y, h.trans h'⟩⟩

/-! ### Single steps -/

variable {site : Site} {α : Type} {c t : Case}

theorem deals_record {r : Record} (hid : r.id = c.record.id)
    (hdone : ∀ e : Errand, e.done r = e.done c.record)
    (hrank : c.record.resources.rank ≤ r.resources.rank) (hsane : c.record.Sane → r.Sane) :
    Deals c { c with record := r } := by
  have same := Dealt.refl c
  refine ⟨.empty, hid, same.sends, same.served, same.own, ?_⟩
  refine ⟨fun e => ?_, Or.inl ?_, hrank, hsane⟩
  · exact Nat.le_of_eq (by rw [hdone, Errand.count_empty, Nat.zero_add])
  · have htorn : r.tornDown = c.record.tornDown := hdone .teardown
    rw [htorn, Errand.count_empty, Nat.zero_add]

theorem deals_served {api : Api.Server} (served : Served c.world.api api) :
    Deals c { c with world := { c.world with api } } := by
  have same := Dealt.refl c
  exact ⟨.empty, rfl, ⟨same.sends.notices, same.sends.cleanups⟩, served, same.own,
    .refl c.record _⟩

theorem deals_tellAll {notices : List Notice}
    (h : ∀ e job, ∀ n ∈ notices, Errand.isNotice job e n = false) :
    Deals c { c with world := c.world.tellAll notices } := by
  have none (e : Errand) (job : JobId) : e.count job ⟨notices, []⟩ = 0 := by
    simp only [Errand.count, List.countP_nil, Nat.add_zero, List.countP_eq_zero]
    intro n hn
    simp [h e job n hn]
  refine ⟨⟨notices, []⟩, rfl, ⟨rfl, (List.append_nil _).symm⟩, Std.Refl.refl c.world.api,
    fun e job _ => none e job, ?_⟩
  simp only [none]
  exact .refl c.record _

theorem deals_crash (c : Case) : Deals c { c with world := c.world.crash } := by
  have same := Dealt.refl c
  exact ⟨.empty, rfl, ⟨same.sends.notices, same.sends.cleanups⟩, same.served, same.own,
    .refl c.record _⟩

theorem deals_announce {notices : List (Except Crash Notice)}
    (h : ∀ e job, ∀ n ∈ Notice.upToCrash notices, Errand.isNotice job e n = false) :
    Deals c { c with world := c.world.announce notices } := by
  have told : Deals c { c with world := c.world.tellAll (Notice.upToCrash notices) } :=
    deals_tellAll h
  unfold World.announce
  dsimp only
  split
  · exact told
  · have crashed := deals_crash { c with world := c.world.tellAll (Notice.upToCrash notices) }
    exact Trans.trans told crashed

end Case

namespace Handling

open Case (Deals)

variable {site : Site} {α : Type}

theorem deals_call {conversation : Api.Call α} {P : Api.Request → Prop}
    (h : Api.Asks P conversation) (c : Case) : Leads Deals (call conversation) c := by
  unfold Leads
  rw [run_call]
  exact Case.deals_served (Api.Server.Asked.mono (fun _ _ => trivial) (h c.world.api))

theorem deals_tell {notice : JobId → Notice} (c : Case)
    (h : ∀ e job, Errand.isNotice job e (notice c.record.id) = false) :
    Leads Deals (tell notice) c :=
  Case.deals_tellAll fun e job _ hn => List.mem_singleton.mp hn ▸ h e job

theorem deals_cancelTimer (c : Case) : Leads Deals cancelTimer c :=
  Case.deals_record rfl (fun e => by cases e <;> rfl) (Nat.le_refl _) fun hc =>
    ⟨fun _ => rfl, hc.released⟩

theorem deals_startTimer {c : Case} (htorn : c.record.tornDown = false) (stage : Stage) :
    Leads Deals (startTimer site stage) c := by
  unfold Leads
  rw [state_run_startTimer]
  cases site.config.timeouts.of stage with
  | none => exact Std.Refl.refl c
  | some limit =>
    dsimp only
    split
    · exact Std.Refl.refl c
    · let timer : Timer := ⟨stage, c.world.now + limit, c.world.ticket, false⟩
      have started : Deals c { c with record := { c.record with timer := some timer } } :=
        Case.deals_record rfl (fun e => by cases e <;> rfl) (Nat.le_refl _) fun hc =>
          ⟨fun h => by simp [htorn] at h, hc.released⟩
      obtain ⟨x, h⟩ := started
      exact ⟨x, h.id, ⟨h.sends.notices, h.sends.cleanups⟩, h.served, h.own, h.account⟩

theorem deals_saveTiming (object : Json) (c : Case) : Leads Deals (saveTiming object) c := by
  unfold saveTiming
  cases timing? object with
  | none => exact .pure _ c
  | some entry => exact deals_tell c fun e job => by cases e <;> rfl

theorem deals_saveWorkflow (object : Json) (c : Case) : Leads Deals (saveWorkflow object) c :=
  deals_tell c fun e job => by cases e <;> rfl

/-! ### Errands that are run -/

theorem deals_apply_tearDown {c : Case} (htorn : c.record.tornDown = false)
    (finalizers : List String) : Deals c (Deed.apply site (.tearDown finalizers) c) := by
  refine ⟨⟨[], [.teardown c.record.id c.record.name finalizers site.config.savedMovements]⟩, rfl,
    ⟨(List.append_nil _).symm, rfl⟩, Std.Refl.refl c.world.api, ?_, ?_⟩
  · intro e job hjob
    cases e <;> simp [Errand.count, Errand.isRequest, hjob.symm]
  · constructor
    · intro e
      cases e <;> simp [Errand.count, Errand.isRequest, Errand.done, Deed.apply, htorn,
        Record.cancelTimer]
    · exact Or.inl (by simp [Errand.count, Errand.isRequest, Deed.apply, htorn])
    · exact Nat.le_refl _
    · exact fun _ => ⟨fun _ => rfl, fun _ => Or.inr rfl⟩

theorem deals_tearDown {c : Case} (htorn : c.record.tornDown = false) (object : Json) :
    Leads Deals (tearDown site object) c := by
  have saved : Deals c ((saveWorkflow object).run c).2 := deals_saveWorkflow object c
  have handed : Deals ((saveWorkflow object).run c).2
      (Deed.apply site (.tearDown (finalizersIn object)) ((saveWorkflow object).run c).2) :=
    deals_apply_tearDown (c := ((saveWorkflow object).run c).2) htorn (finalizersIn object)
  have both : Deals c _ := Trans.trans saved handed
  exact both

theorem deals_lose {c : Case} {api : Api.Server} (htorn : c.record.tornDown = false)
    (served : Api.Server.Served c.world.api api)
    (denied : Api.Server.Denied c.record.id c.world.api api) :
    Deals c {
      record := { c.record.cancelTimer with tornDown := true, deleted := true }
      world := { c.world with api } } := by
  have same := Case.Dealt.refl c
  refine ⟨.empty, rfl, ⟨same.sends.notices, same.sends.cleanups⟩, served, same.own, ?_⟩
  constructor
  · intro e
    cases e <;> simp [Errand.done, Record.cancelTimer, htorn, Bool.toNat_le]
  · exact Or.inr denied
  · exact Nat.le_refl _
  · exact fun _ => ⟨fun _ => rfl, fun _ => Or.inr rfl⟩

theorem deals_tearDownStored {c : Case} (htorn : c.record.tornDown = false) :
    Leads Deals (tearDownStored site) c := by
  have read : Leads Deals (call (Api.observe (Api.getWorkflow c.record.name))) c :=
    deals_call (P := fun _ => True) (.observe (.get trivial)) c
  have hrun : (call (Api.observe (Api.getWorkflow c.record.name))).run c =
      match (Api.getWorkflow c.record.name).run c.world.api with
      | (found, api) => (.ok found, { c with world := { c.world with api } }) := rfl
  refine leads_record ?_
  unfold Leads at read ⊢
  rw [hrun] at read
  rw [run_bind_apply, hrun]
  have hserve : ((Api.getWorkflow c.record.name).run c.world.api).2 =
    c.world.api.serve (.get .workflow Api.defaultSpace c.record.name) := rfl
  cases hget : (Api.getWorkflow c.record.name).run c.world.api with
  | mk found api =>
    rw [hget] at read hserve
    dsimp only at read hserve ⊢
    cases found with
    | ok object =>
      let reading : Case := { c with world := { c.world with api } }
      have torn : Leads Deals (tearDown site object) reading :=
        deals_tearDown (c := reading) htorn object
      have told : Leads Deals (do tearDown site object; return true) reading :=
        torn.bind fun _ t _ => .pure true t
      exact Trans.trans read told
    | error fault =>
      dsimp only
      split
      · rename_i hfault
        -- reading made one request, and its answer is the one that `Denied` asks for
        have served : Api.Server.Served c.world.api api :=
          hserve ▸ Api.Server.Asked.one trivial c.world.api
        have denied : Api.Server.Denied c.record.id c.world.api api :=
          ⟨c.world.api, Std.Refl.refl _, ⟨fault, congrArg Prod.fst hget, hfault⟩,
            hserve ▸ Std.Refl.refl _⟩
        exact deals_lose htorn served denied
      · exact read

theorem deals_consume (c : Case) :
    Deals c { c with record := { c.record with resources := .consumed } } := by
  have same := Case.Dealt.refl c
  refine ⟨.empty, rfl, same.sends, same.served, same.own, ?_⟩
  constructor
  · intro e
    cases e <;> simp [Errand.done, Bool.toNat_le]
  · exact Or.inl (Nat.zero_add _)
  · cases h : c.record.resources <;> simp [Resources.rank]
  · exact fun hc => ⟨hc.untimed, hc.released⟩

/-- The resources of a job are handed back once, whatever is asked for in between. -/
theorem deals_update {c : Case} {api : Api.Server} (hnot : Errand.done c.record .update = false)
    (served : Api.Server.Served c.world.api api) (content : ResourceUpdate)
    (hid : content.id = c.record.id) :
    Deals c {
      record := { c.record with resources := .consumed }
      world := World.tell { c.world with api } (.resourceUpdate content) } := by
  refine ⟨⟨[.resourceUpdate content], []⟩, rfl, ⟨rfl, (List.append_nil _).symm⟩, served, ?_, ?_⟩
  · intro e job hjob
    cases e <;> simp [Errand.count, Errand.isNotice, hid, hjob.symm]
  · constructor
    · intro e
      cases e with
      | update =>
        change _ + (Errand.done c.record .update).toNat ≤ 1
        simp [Errand.count, Errand.isNotice, hid, hnot]
      | _ => simp [Errand.count, Errand.isNotice, Errand.done]
    · exact Or.inl (by simp [Errand.count, Errand.isNotice])
    · cases h : c.record.resources <;> simp [Resources.rank]
    · exact fun hc => ⟨hc.untimed, hc.released⟩

theorem deals_release {c : Case} (h : c.record.epilogRemoved = false) :
    Deals c {
      record := { c.record with epilogRemoved := true }
      world := c.world.tell (.epilogRemove c.record.id) } := by
  refine ⟨⟨[.epilogRemove c.record.id], []⟩, rfl, ⟨rfl, (List.append_nil _).symm⟩,
    Std.Refl.refl c.world.api, ?_, ?_⟩
  · intro e job hjob
    cases e <;> simp [Errand.count, Errand.isNotice, hjob.symm]
  · constructor
    · intro e
      cases e <;> simp [Errand.count, Errand.isNotice, Errand.done, h]
    · exact Or.inl (by simp [Errand.count, Errand.isNotice])
    · exact Nat.le_refl _
    · exact fun hc => ⟨hc.untimed, fun _ => Or.inl rfl⟩

/-- A workflow is handed over for its deletion once, after the job was told that it may end. -/
theorem deals_dispose {c : Case} (hdeleted : c.record.deleted = false)
    (hreleased : c.record.epilogRemoved = true) (finalizers : List String) :
    Deals c {
      record := { c.record with deleted := true }
      world := c.world.handOver (.delete c.record.name finalizers) } := by
  refine ⟨⟨[], [.delete c.record.name finalizers]⟩, rfl, ⟨(List.append_nil _).symm, rfl⟩,
    Std.Refl.refl c.world.api, ?_, ?_⟩
  · intro e job hjob
    have hname : c.record.name ≠ job.workflowName := fun h => hjob (JobId.workflowName_inj h).symm
    cases e <;> simp [Errand.count, Errand.isRequest, hname]
  · have hname : c.record.name = c.record.id.workflowName := rfl
    constructor
    · intro e
      cases e <;> simp [Errand.count, Errand.isRequest, Errand.done, hdeleted, hname]
    · exact Or.inl (by simp [Errand.count, Errand.isRequest])
    · exact Nat.le_refl _
    · exact fun hc => ⟨hc.untimed, fun _ => Or.inl hreleased⟩

end Handling

end Warren
