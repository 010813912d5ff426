import Warren.Proofs.Controller.Look
import Warren.Proofs.Controller.Resting

/-!
# Records that a refused request leaves behind

A request may make a record up before it asks the server for something, and a request that fails is
to take such a record back. `Spurns` says of work that it does so for a job without a record. The
end of a job that never ran is the exception: see `newcomer_of_refused`.
-/

namespace Warren.Controller

open Api (lookRequest)

variable {site : Site} {id : JobId} {c t : Controller} {α β : Type}

/-- If the work fails, the job has no record. -/
def Spurns (id : JobId) (x : Answering α) (c : Controller) : Prop :=
  ∀ refusal t, x.run c = (.error refusal, t) → t.registry.has id = false

theorem Spurns.bind {x : Answering α} {f : α → Answering β} (hx : Spurns id x c)
    (hf : ∀ a t, x.run c = (.ok a, t) → Spurns id (f a) t) : Spurns id (x >>= f) c := by
  intro refusal u hu
  rw [run_bind_apply] at hu
  cases hr : x.run c with
  | mk out t =>
    rw [hr] at hu
    cases out with
    | ok a => exact hf a t hr refusal u hu
    | error e =>
      obtain ⟨_, rfl⟩ := Prod.mk.inj hu
      exact hx e t hr

theorem spurns_of_ok {x : Answering α} {a : α} (h : (x.run c).1 = .ok a) : Spurns id x c := by
  intro refusal t ht
  rw [ht] at h
  cases h

theorem spurns_of_registry {x : Answering α} (hunknown : c.registry.has id = false)
    (h : (x.run c).2.registry = c.registry) : Spurns id x c := by
  intro refusal t ht
  rw [ht] at h
  rw [h]
  exact hunknown

theorem spurns_throw (hunknown : c.registry.has id = false) (refusal : Refusal) :
    Spurns id (throw refusal : Answering α) c := spurns_of_registry hunknown rfl

theorem spurns_ask (hunknown : c.registry.has id = false) (conversation : Api.Call α) :
    Spurns id (ask conversation) c := spurns_of_registry hunknown rfl

theorem spurns_demand (hunknown : c.registry.has id = false) (refusal : Refusal) (a : Option α) :
    Spurns id (demand refusal a) c := by
  refine spurns_of_registry hunknown ?_
  rw [state_demand]

theorem find?_of_has {g : Registry} (h : g.has id = false) : g.find? id = none := by
  rw [Dict.has, Option.isSome_eq_false_iff, Option.isNone_iff_eq_none] at h
  exact h

/-! ### Requests about a job without a record -/

theorem spurns_create (site : Site) (details : CreateRequest)
    (hunknown : c.registry.has details.id = false) : Spurns details.id (create site details) c := by
  refine (spurns_demand hunknown _ _).bind fun directives t ht => ?_
  have hsame : t = c := by
    rw [← state_demand _ _ c, ht]
  rw [hsame]
  split
  · exact (spurns_throw hunknown _).bind fun _ u hu => by cases hu
  · intro refusal u hu
    rw [run_bind_ok (run_get_apply c), find?_of_has hunknown] at hu
    -- the record is put in after the last request that may fail
    exact ((spurns_ask hunknown _).bind fun _ v _ => spurns_of_ok rfl) refusal u hu

theorem spurns_setup (site : Site) (nodelist : List String)
    (hunknown : c.registry.has id = false) : Spurns id (setup site id nodelist) c := by
  have hstaying : ¬isLeaving c.registry id = true := by
    simp [isLeaving, find?_of_has hunknown]
  have scouts := scouts_place site id nodelist c
  have placed : Spurns id (place site id nodelist) c := by
    intro refusal t ht
    have surveys := scouts.surveys
    unfold Leads at surveys
    rw [ht] at surveys
    have hkept := surveys.has
    simpa [hunknown] using hkept
  intro refusal u hu
  rw [setup, run_bind_ok (run_get_apply c), if_neg hstaying] at hu
  refine (placed.bind fun found t ht => ?_) refusal u hu
  have hsame : t.registry.has id = false := by
    rw [(scouts.glides found t ht).registry]
    exact hunknown
  exact (spurns_ask hsame _).bind fun _ v _ => spurns_of_ok rfl

theorem spurns_postRun (site : Site) (hc : c.Kept) (hunknown : c.registry.has id = false) :
    Spurns id (postRun site id true) c := by
  have hfresh : c.registry.recordOf id = .fresh id .unknown :=
    Registry.recordOf_of_find?_none (find?_of_has hunknown)
  intro refusal t ht
  rw [run_postRun site hc (by rw [hfresh]; rfl), hunknown] at ht
  generalize (Handling.requestStage id.workflowName .postRun).run c.world.api = answer at ht
  obtain ⟨out, api⟩ := answer
  cases out with
  | ok _ => cases ht
  | error fault =>
    obtain ⟨_, rfl⟩ := Prod.mk.inj ht
    simp [has_erase]

/-- The end of a job that never ran keeps the record that was made up for it if its workflow cannot
be read. -/
theorem has_of_refused_postRun {refusal : Refusal} (hc : c.Kept)
    (hunknown : c.registry.has id = false)
    (h : (postRun site id false).run c = (.error refusal, t)) : t.registry.has id = true := by
  have hfresh : c.registry.recordOf id = .fresh id .unknown :=
    Registry.recordOf_of_find?_none (find?_of_has hunknown)
  have hstaying : ¬(c.registry.recordOf id).tornDown = true := by
    rw [hfresh]
    exact Bool.false_ne_true
  obtain ⟨out, u, hrun, _, hlook⟩ := run_moveToTeardown_look (hc.recordOf id).1 site
    { c with registry := c.registry.ensure id }
  rw [postRun, run_bind_ok (run_get_apply c), run_unlessTornDown, if_neg hstaying,
    if_neg Bool.false_ne_true, run_bind_pure, hrun] at h
  obtain ⟨hout, rfl⟩ := Prod.mk.inj h
  -- only a fault that is not about a missing workflow is an error, and it leaves the record
  split at hlook
  · rw [hlook.1] at hout
    cases hout
  · split at hlook
    · rw [hlook.1] at hout
      cases hout
    · exact hlook.2

theorem spurns_teardown (site : Site) (hunknown : c.registry.has id = false) :
    Spurns id (teardown site id) c := by
  intro refusal u hu
  rw [teardown, run_bind_ok (run_get_apply c), hunknown, run_unlessTornDown] at hu
  split at hu
  · cases hu
  · rw [run_bind_pure, run_tryCatch_apply] at hu
    generalize (moveToTeardown site _).run _ = answer at hu
    obtain ⟨out, t⟩ := answer
    cases out with
    | ok _ => cases hu
    | error fault =>
      obtain ⟨_, rfl⟩ := Prod.mk.inj hu
      change Dict.has (t.registry.erase id) id = false
      simp [has_erase]

theorem spurns_abort (site : Site) (hunknown : c.registry.has id = false) :
    Spurns id (abort site id) c := by
  intro refusal u hu
  rw [abort, run_bind_ok (run_get_apply c), hunknown, if_neg Bool.false_ne_true] at hu
  refine ((spurns_ask hunknown _).bind fun found t ht => ?_) refusal u hu
  have hsame : t.registry.has id = false := by
    have hregistry : t.registry = c.registry := congrArg (fun x => x.2.registry) ht.symm
    rw [hregistry]
    exact hunknown
  cases found with
  | ok object => exact spurns_of_ok rfl
  | error fault =>
    dsimp only
    split
    · exact spurns_of_ok rfl
    · exact spurns_throw hsame _

/-! ### Refused requests -/

/-- A refused request leaves a new record behind only at the end of a job that never ran, and there
it always does. -/
theorem newcomer_of_refused {asked : Request} {refusal : Refusal} (hc : c.Kept)
    (hrefused : ((onRequest site asked).run c).1 = .error refusal)
    (hunknown : c.registry.has id = false) :
    (c.take site (.request asked)).registry.has id = true ↔ asked = .postRun id false := by
  have hrun : (onRequest site asked).run c = (.error refusal, c.take site (.request asked)) := by
    rw [← hrefused]
    rfl
  have spurned (h : Spurns id (onRequest site asked) c) (hasked : asked ≠ .postRun id false) :
      (c.take site (.request asked)).registry.has id = true ↔ asked = .postRun id false := by
    rw [h refusal _ hrun]
    exact iff_of_false Bool.false_ne_true hasked
  by_cases hjob : (Turn.request asked).job? = some id
  · cases asked with
    | create details =>
      obtain rfl : details.id = id := Option.some.inj hjob
      exact spurned (spurns_create site details hunknown) nofun
    | setup job nodelist =>
      obtain rfl : job = id := Option.some.inj hjob
      exact spurned (spurns_setup site nodelist hunknown) nofun
    | postRun job started =>
      obtain rfl : job = id := Option.some.inj hjob
      cases started with
      | true => exact spurned (spurns_postRun site hc hunknown) nofun
      | false => exact iff_of_true (has_of_refused_postRun hc hunknown hrun) rfl
    | teardown job =>
      obtain rfl : job = id := Option.some.inj hjob
      exact spurned (spurns_teardown site hunknown) nofun
    | abort job =>
      obtain rfl : job = id := Option.some.inj hjob
      exact spurned (spurns_abort site hunknown) nofun
    | status => cases hjob
  · refine iff_of_false ?_ fun hasked => hjob (by rw [hasked]; rfl)
    -- a turn about another job leaves this one alone, and a turn about none changes nothing
    have hsame : (c.take site (.request asked)).registry.find? id = c.registry.find? id := by
      cases hother : (Turn.request asked).job? with
      | none => rw [take_of_job?_eq_none hother nofun]
      | some other =>
        refine (moves_take hother site c hc).others id fun h => hjob ?_
        rw [hother, h]
    rw [Dict.has, hsame]
    simpa [Dict.has] using hunknown

/-- A controller without records whose next look at a workflow fails. -/
def stranger : Controller := Sample.failing .get Sample.unavailable (Sample.start .preRun)

/-- A job that is not known before has a record after the end of its run was refused. -/
theorem newcomer_unread :
    let asked : Request := .postRun Sample.job false
    let t := stranger.take Sample.site (.request asked)
    Reachable Sample.site stranger ∧
      ((onRequest Sample.site asked).run stranger).1 = .error (.api Sample.unavailable) ∧
      stranger.registry.has Sample.job = false ∧ t.registry.has Sample.job = true :=
  ⟨Sample.reachable_failing (Sample.reachable_start .preRun) _ _, rfl, rfl, by decide +kernel⟩

theorem newcomer_of_refused_stranger :
    let asked : Request := .postRun Sample.job false
    stranger.Kept ∧
      ((onRequest Sample.site asked).run stranger).1 = .error (.api Sample.unavailable) ∧
      stranger.registry.has Sample.job = false ∧
      ((stranger.take Sample.site (.request asked)).registry.has Sample.job = true ↔
        asked = .postRun Sample.job false) := by
  intro asked
  have kept : stranger.Kept :=
    (Sample.reachable_failing (Sample.reachable_start .preRun) _ _).kept
  have refused : ((onRequest Sample.site asked).run stranger).1 =
    .error (.api Sample.unavailable) := rfl
  have unknown : stranger.registry.has Sample.job = false := rfl
  exact ⟨kept, refused, unknown, newcomer_of_refused kept refused unknown⟩

end Warren.Controller
