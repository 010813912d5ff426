import Warren.Proofs.Controller.Ledger

/-!
# The account of a job while its record lasts

The record of a job is put in by some turn, lasts for a course of happenings and goes with the last
of them, if it goes. What is sent for the job in that time is added up turn by turn, since the
surroundings may change in any way between two turns. `errands_of_lifespan` says what it comes to.
-/

namespace Warren

def World.since (w v : World) : Dispatch :=
  ⟨v.notices.drop w.notices.length, v.cleanups.drop w.cleanups.length⟩

theorem World.Sends.since {x : Dispatch} {w v : World} (h : World.Sends x w v) : w.since v = x := by
  rw [World.since, h.notices, h.cleanups, List.drop_left, List.drop_left]

@[simp] theorem World.since_self (w : World) : w.since w = .empty := by
  rw [World.since, List.drop_length, List.drop_length]
  rfl

/-- A later record of the same job: no mark was taken back, and the resources went only on. -/
structure Record.Precedes (r s : Record) : Prop where
  tornDown : r.tornDown = true → s.tornDown = true
  deleted : r.deleted = true → s.deleted = true
  epilogRemoved : r.epilogRemoved = true → s.epilogRemoved = true
  resources : r.resources.rank ≤ s.resources.rank

theorem Account.precedes {r s : Record} {sent : Errand → Nat} {denied : Prop}
    (h : Account r s sent denied) : r.Precedes s :=
  ⟨h.done .teardown, h.done .deletion, h.done .release, h.rank⟩

namespace Controller

open Api.Server (Served Denied)

variable {site : Site} {id : JobId} {r : Record} {c t u : Controller}

/-! ### Turns of all jobs -/

/-- The account of a job over some steps, for that job or for others. -/
structure Tallied (id : JobId) (x : Dispatch) (c t : Controller) (r : Record) : Prop where
  sends : World.Sends x c.world t.world
  served : Served c.world.api t.world.api
  account : Account (c.registry.recordOf id) r (fun e => e.count id x)
    (Denied id c.world.api t.world.api)

/-- The account of a job over some steps after which the controller still has what it is worked on
with. -/
def Tallies (id : JobId) (c t : Controller) : Prop :=
  ∃ x, Tallied id x c t (t.registry.recordOf id)

theorem Tallied.refl (id : JobId) (c : Controller) :
    Tallied id .empty c c (c.registry.recordOf id) :=
  ⟨⟨(List.append_nil _).symm, (List.append_nil _).symm⟩, Std.Refl.refl c.world.api, .refl _ _⟩

theorem Tallied.trans {x y : Dispatch} (h : Tallied id x c t (t.registry.recordOf id))
    (h' : Tallied id y t u r) : Tallied id (x.append y) c u r where
  sends := h.sends.trans h'.sends
  served := Trans.trans h.served h'.served
  account := by
    have both := (h.account.trans h'.account).mono fun hd =>
      hd.elim (fun hd => hd.before h'.served) fun hd => hd.after h.served
    simpa only [Errand.count_append] using both

instance : Std.Refl (Tallies id) := ⟨fun c => ⟨.empty, .refl id c⟩⟩

instance : Trans (Tallies id) (Tallies id) (Tallies id) :=
  ⟨fun ⟨x, h⟩ ⟨y, h'⟩ => ⟨x.append y, h.trans h'⟩⟩

theorem tallied_of_dealt {x : Dispatch} (hc : c.Kept)
    (dealt : Case.Dealt x (caseOf id c) ⟨r, t.world⟩) : Tallied id x c t r := by
  have hid : (caseOf id c).record.id = id := (hc.recordOf id).1
  have account := dealt.account
  rw [hid] at account
  exact ⟨dealt.sends, dealt.served, account⟩

theorem tallied_of_ends (hc : c.Kept) (h : Ends id c t) :
    ∃ x r, Tallied id x c t r ∧ ∀ s, t.registry.find? id = some s → s = r := by
  obtain ⟨r, ⟨x, dealt⟩, hlast⟩ := h (hc.recordOf id).1
  exact ⟨x, r, tallied_of_dealt hc dealt, hlast⟩

theorem tallied_of_others {other : JobId} (hne : other ≠ id) (hc : c.Kept) (h : Ends other c t) :
    ∃ x, Tallied id x c t (c.registry.recordOf id) := by
  obtain ⟨r, ⟨x, dealt⟩, _⟩ := h (hc.recordOf other).1
  have hid : (caseOf other c).record.id = other := (hc.recordOf other).1
  have none (e : Errand) : e.count id x = 0 := dealt.own e id (by rw [hid]; exact hne.symm)
  refine ⟨x, dealt.sends, dealt.served, ?_⟩
  simp only [none]
  exact .refl _ _

theorem tallied_revisit {handling : Handling Unit} {P : Deed → Prop} (hc : c.Kept)
    (hdeals : ∀ case, Leads Case.Deals handling case)
    (hdid : ∀ case, Leads (Case.Did site P) handling case) (other : JobId) :
    Tallies id c (revisit other handling c).2 := by
  have lives := lives_revisit hdeals other c
  by_cases ho : other = id
  · subst ho
    obtain ⟨x, dealt⟩ := lives (hc.recordOf other).1
    exact ⟨x, tallied_of_dealt hc dealt⟩
  · have hfind := (moves_revisit hdid hc).others id fun h => ho h.symm
    have same : (revisit other handling c).2.registry.recordOf id = c.registry.recordOf id := by
      rw [Registry.recordOf, hfind, Registry.recordOf]
    rw [Tallies, same]
    exact tallied_of_others ho hc lives.ends

theorem tallied_sweep (site : Site) (id : JobId) (hc : c.Kept) :
    Tallies id c (c.take site .sweep) :=
  sweep_of_visits hc fun _ ht other =>
    tallied_revisit ht Handling.deals_condemn Handling.leads_condemn other

/-- Every turn keeps the account of every job. -/
theorem tallied_take (site : Site) (id : JobId) (hc : c.Kept) (turn : Turn) :
    ∃ x r, Tallied id x c (c.take site turn) r ∧
      ∀ s, (c.take site turn).registry.find? id = some s → s = r := by
  cases hj : turn.job? with
  | some other =>
    have ends := ends_take hj site c
    by_cases ho : other = id
    · subst ho
      exact tallied_of_ends hc ends
    · obtain ⟨x, tallied⟩ := tallied_of_others ho hc ends
      refine ⟨x, _, tallied, fun s hs => ?_⟩
      rw [(moves_take hj site c hc).others id fun h => ho h.symm] at hs
      exact (Registry.recordOf_of_find? hs).symm
  | none =>
    by_cases hsweep : turn = .sweep
    · obtain ⟨x, tallied⟩ := tallied_sweep site id hc
      rw [hsweep]
      exact ⟨x, _, tallied, fun s hs => (Registry.recordOf_of_find? hs).symm⟩
    · rw [take_of_job?_eq_none hj hsweep]
      exact ⟨.empty, _, .refl id c, fun s hs => (Registry.recordOf_of_find? hs).symm⟩

/-! ### Courses -/

/-- What a happening sends: only turns of the controller send something. -/
def dispatched (site : Site) (c : Controller) : Happening → Dispatch
  | .turn turn => c.world.since (c.take site turn).world
  | .ring _ | .outside .. => .empty

/-- The server answers a turn of the controller that the workflow of a job does not exist. -/
def Denies (site : Site) (id : JobId) (c : Controller) : Happening → Prop
  | .turn turn => Denied id c.world.api (c.take site turn).world.api
  | .ring _ | .outside .. => False

/-- How often an errand is run for a job in a course of happenings. -/
def sent (site : Site) (id : JobId) (e : Errand) : Controller → List Happening → Nat
  | _, [] => 0
  | c, h :: rest => e.count id (dispatched site c h) + sent site id e (c.step site h) rest

/-- In a course of happenings, the server answers that the workflow of a job does not exist. -/
def DeniedIn (site : Site) (id : JobId) : Controller → List Happening → Prop
  | _, [] => False
  | c, h :: rest => Denies site id c h ∨ DeniedIn site id (c.step site h) rest

/-- The record of a job is there after every happening of a course but perhaps the last. -/
def Lasts (site : Site) (id : JobId) : Controller → List Happening → Prop
  | _, [] => True
  | c, h :: rest => (rest = [] ∨ (c.step site h).registry.has id = true) ∧
      Lasts site id (c.step site h) rest

instance decidableLasts (site : Site) (id : JobId) :
    (c : Controller) → (course : List Happening) → Decidable (Lasts site id c course)
  | _, [] => inferInstanceAs (Decidable True)
  | c, h :: rest =>
    have := decidableLasts site id (c.step site h) rest
    have : Decidable (rest = []) := decidable_of_iff (rest.isEmpty = true) List.isEmpty_iff
    inferInstanceAs (Decidable ((rest = [] ∨ (c.step site h).registry.has id = true) ∧
      Lasts site id (c.step site h) rest))

theorem Lasts.take {first later : List Happening} (h : Lasts site id c (first ++ later)) :
    Lasts site id c first := by
  induction first generalizing c with
  | nil => trivial
  | cons _ rest ih =>
    exact ⟨h.1.imp_left fun hnil => (List.append_eq_nil_iff.mp hnil).1, ih h.2⟩

theorem Lasts.drop {first later : List Happening} (h : Lasts site id c (first ++ later)) :
    Lasts site id (c.run site first) later := by
  induction first generalizing c with
  | nil => exact h
  | cons _ rest ih => exact ih h.2

theorem sane_fresh (id : JobId) (resources : Resources) : (Record.fresh id resources).Sane :=
  ⟨fun _ => rfl, fun h => by cases h⟩

theorem account_ring (id other : JobId) (hc : c.Kept) :
    Account (c.registry.recordOf id) ((c.ring other).registry.recordOf id) (fun _ => 0) False := by
  rw [recordOf_ring hc]
  split
  · refine ⟨fun e => ?_, Or.inl (Nat.zero_add _), Nat.le_refl _, fun hr => ?_⟩
    · cases e <;> exact Nat.le_of_eq (Nat.zero_add _)
    · exact ⟨fun htorn => by simp [Record.ring, hr.untimed htorn], hr.released⟩
  · exact .refl _ _

theorem account_step (site : Site) (id : JobId) (hc : c.Kept) (h : Happening) :
    ∃ r, Account (c.registry.recordOf id) r (fun e => e.count id (dispatched site c h))
        (Denies site id c h) ∧
      ∀ s, (c.step site h).registry.find? id = some s → s = r := by
  cases h with
  | turn turn =>
    obtain ⟨x, r, tallied, hlast⟩ := tallied_take site id hc turn
    have hx : dispatched site c (.turn turn) = x := tallied.sends.since
    exact ⟨r, hx ▸ tallied.account, hlast⟩
  | ring other =>
    have account := account_ring id other hc
    exact ⟨_, account, fun s hs => (Registry.recordOf_of_find? hs).symm⟩
  | outside world drawn => exact ⟨_, .refl _ _, fun s hs => (Registry.recordOf_of_find? hs).symm⟩

theorem sane_step (site : Site) (hc : c.Kept) (hsane : (c.registry.recordOf id).Sane)
    (h : Happening) : ((c.step site h).registry.recordOf id).Sane := by
  obtain ⟨r, account, hlast⟩ := account_step site id hc h
  cases hf : (c.step site h).registry.find? id with
  | none =>
    rw [Registry.recordOf_of_find?_none hf]
    exact sane_fresh id .unknown
  | some s =>
    rw [Registry.recordOf_of_find? hf, hlast s hf]
    exact account.sane hsane

/-- A course keeps the account of a job whose record lasts. -/
theorem account_run {course : List Happening} (hc : c.Kept) (hlasts : Lasts site id c course) :
    ∃ r, Account (c.registry.recordOf id) r (fun e => sent site id e c course)
        (DeniedIn site id c course) ∧
      ∀ s, (c.run site course).registry.find? id = some s → s = r := by
  -- along the course; the record after a happening is the one that the next happening starts from
  induction course generalizing c with
  | nil => exact ⟨_, .refl _ _, fun s hs => (Registry.recordOf_of_find? hs).symm⟩
  | cons h rest ih =>
    obtain ⟨r, first, hlast⟩ := account_step site id hc h
    rcases hlasts.1 with rfl | hhas
    · exact ⟨r, first.mono Or.inl, hlast⟩
    · obtain ⟨s, hs⟩ := Option.isSome_iff_exists.mp hhas
      obtain ⟨u, others, hend⟩ := ih (kept_step hc site h) hlasts.2
      have hsame : (c.step site h).registry.recordOf id = r := by
        rw [Registry.recordOf_of_find? hs, hlast s hs]
      rw [hsame] at others
      exact ⟨u, first.trans others, hend⟩

/-- From when the record of a job is put in to when it goes, nothing is sent twice for the job. The
marks in the record stay, and a job that is torn down was handed to the cleanup exactly once, unless
the server said that its workflow does not exist. -/
theorem errands_of_lifespan {first later : List Happening} (hreach : Reachable site c)
    (hnew : c.registry.has id = false) (hlasts : Lasts site id c (first ++ later)) :
    (∀ e, sent site id e c (first ++ later) ≤ 1) ∧
      ∀ s, (c.run site (first ++ later)).registry.find? id = some s →
        s.Sane ∧
        (s.tornDown = true → sent site id .teardown c (first ++ later) = 1 ∨
          DeniedIn site id c (first ++ later)) ∧
        ∀ r, (c.run site first).registry.find? id = some r → r.Precedes s := by
  have hfresh : c.registry.recordOf id = .fresh id .unknown := by
    refine Registry.recordOf_of_find?_none ?_
    simpa [Dict.has] using hnew
  obtain ⟨u, account, hlast⟩ := account_run hreach.kept hlasts
  rw [hfresh] at account
  refine ⟨account.sent_le_one, fun s hs => ?_⟩
  obtain rfl := hlast s hs
  refine ⟨account.sane ⟨fun _ => rfl, fun h => by cases h⟩, fun htorn => ?_, fun r hr => ?_⟩
  · refine account.teardown.imp_left fun h => ?_
    rw [htorn] at h
    exact h
  · have hkept : (c.run site first).Kept := kept_run hreach.kept site first
    obtain ⟨v, since, hend⟩ := account_run hkept hlasts.drop
    rw [run_append] at hs
    rw [hend s hs]
    rw [Registry.recordOf_of_find? hr] at since
    exact since.precedes

def completed (stage : Stage) : Happening :=
  .turn (.event (.modified (Sample.stored (Sample.start stage))))

/-- The job is torn down though it may be already, and its workflow is twice reported complete in
the last stage. -/
def farewell : List Happening :=
  [.turn (.request (.teardown Sample.job)), completed .teardown, completed .teardown]

/-- The theorem applies to a job whose data was staged out; in the end everything but the resources
is dealt with. -/
theorem errands_of_lifespan_farewell :
    let first : List Happening := [completed .dataOut]
    let c := Sample.start .dataOut
    let t := c.run Sample.site (first ++ farewell)
    c.registry.has Sample.job = false ∧ Lasts Sample.site Sample.job c (first ++ farewell) ∧
      (∀ e, sent Sample.site Sample.job e c (first ++ farewell) ≤ 1) ∧
      (∀ s, t.registry.find? Sample.job = some s →
        s.Sane ∧
        (s.tornDown = true → sent Sample.site Sample.job .teardown c (first ++ farewell) = 1 ∨
          DeniedIn Sample.site Sample.job c (first ++ farewell)) ∧
        ∀ r, (c.run Sample.site first).registry.find? Sample.job = some r → r.Precedes s) ∧
      (t.registry.find? Sample.job).any (fun s => s.tornDown && s.deleted && s.epilogRemoved) =
        true := by
  intro first c t
  have unborn : c.registry.has Sample.job = false := rfl
  have lasts : Lasts Sample.site Sample.job c (first ++ farewell) := by decide +kernel
  have kept := errands_of_lifespan (Sample.reachable_start .dataOut) unborn lasts
  exact ⟨unborn, lasts, kept.1, kept.2, by decide +kernel⟩

end Controller

end Warren
