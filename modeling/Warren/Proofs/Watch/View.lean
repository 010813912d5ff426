import Warren.Proofs.Watch.Poll
import Warren.Stage

/-!
# What a watch shows of its collection

Clients change the server and the watch is polled, in any order. For every name, the last event
about it says what the watch shows (`shown`), and the `shown_poll` lemmas say what one answered poll
makes of it.
-/

namespace Warren

theorem getLast?_filter_of_pairwise_lt {α : Type} {measure : α → Nat} {l : List α}
    (h : l.Pairwise fun a b => measure a < measure b) (bound : Nat) :
    (l.filter fun a => bound < measure a).getLast? =
      l.getLast?.filter fun a => bound < measure a := by
  rcases List.eq_nil_or_concat l with rfl | ⟨init, last, rfl⟩
  · rfl
  · have hinit : ∀ a ∈ init, measure a < measure last := by
      rw [List.concat_eq_append] at h
      exact fun a ha => (List.pairwise_append.mp h).2.2 a ha last (List.mem_singleton_self last)
    by_cases hlast : bound < measure last
    · simp [Option.filter_some, hlast]
    · have hnil : init.filter (fun a => bound < measure a) = [] := by
        rw [List.filter_eq_nil_iff]
        intro a ha
        have hlt := hinit a ha
        simp only [decide_eq_true_eq]
        omega
      simp [Option.filter_some, hnil, hlast]

theorem le_of_getLast?_of_pairwise_lt {α : Type} {measure : α → Nat} {l : List α} {last : α}
    (h : l.Pairwise fun a b => measure a < measure b) (hlast : l.getLast? = some last) :
    ∀ a ∈ l, measure a ≤ measure last := by
  obtain ⟨init, rfl⟩ := List.getLast?_eq_some_iff.mp hlast
  intro a ha
  rcases List.mem_append.mp ha with ha | ha
  · exact Nat.le_of_lt ((List.pairwise_append.mp h).2.2 a ha last (List.mem_singleton_self last))
  · exact Nat.le_of_eq (congrArg measure (List.mem_singleton.mp ha))

namespace Api

/-- The last of some events about a name. -/
def lastOf (name : String) (events : List Event) : Option Event :=
  (events.filter fun e => e.name? = some name).getLast?

theorem lastOf_append (name : String) (events more : List Event) :
    lastOf name (events ++ more) = (lastOf name more).or (lastOf name events) := by
  simp only [lastOf, List.filter_append, List.getLast?_append]

namespace Server

variable {s : Server} {kind : Kind} {space : String}

/-- A listing has the stored object of a name, and no other event about it. -/
theorem lastOf_told_zero (hs : s.Logged) (kind : Kind) (space name : String) :
    lastOf name (s.told kind space 0) = (s.object? (kind.key space name)).map .added := by
  have same : ∀ entry ∈ s.objects,
      (decide ((Event.added entry.2).name? = some name) &&
        (decide (entry.1.plural = kind.plural) && (Scope.space space).holds entry.1.space)) =
      decide (entry.1 = kind.key space name) := by
    rintro ⟨key, object⟩ hmem
    obtain ⟨c, _, _, _, hcarries⟩ := hs.exists_latest? ((hs.sorted.mem_iff key object).mp hmem)
    rw [Bool.eq_iff_iff]
    simp only [hcarries.name?, Scope.holds, Bool.and_eq_true, decide_eq_true_eq, Kind.key]
    cases key
    simp only [Key.mk.injEq, Option.some.injEq]
    grind
  have hentries : s.objects.filter (fun entry => decide (entry.1 = kind.key space name)) =
      (s.object? (kind.key space name)).toList.map fun object => (kind.key space name, object) :=
    hs.sorted.filter_key (kind.key space name)
  rw [told_zero_eq_map, lastOf, entriesIn, List.filter_map, List.filter_filter]
  simp only [Function.comp_def]
  rw [List.filter_congr same, hentries]
  cases s.object? (kind.key space name) <;> rfl

/-- After a version, the last event about a name is the one of the latest change of its object. -/
theorem lastOf_told_of_pos (hs : s.Logged) {since : Nat} (hpos : 0 < since) (name : String) :
    lastOf name (s.told kind space since) =
      ((s.latest? (kind.key space name)).filter fun c => since < c.version).map Change.event := by
  have same : ∀ c ∈ s.log,
      (decide (c.event.name? = some name) &&
          (c.key.isIn kind space && decide (since < c.version))) =
        (decide (since < c.version) && decide (c.key = kind.key space name)) := by
    intro c hc
    have hname := (hs.carries c hc).name?
    rw [Bool.eq_iff_iff]
    simp only [hname, Bool.and_eq_true, decide_eq_true_eq, Option.some.injEq]
    constructor
    · rintro ⟨rfl, hin, hlt⟩
      exact ⟨hlt, Key.eq_key_of_isIn hin⟩
    · rintro ⟨hlt, hkey⟩
      rw [hkey]
      exact ⟨rfl, Key.isIn_key kind space name, hlt⟩
  rw [told_of_pos hpos, lastOf, changesSince, List.filter_map, List.filter_filter]
  simp only [Function.comp_def]
  rw [List.filter_congr same, List.getLast?_map, ← List.filter_filter,
    getLast?_filter_of_pairwise_lt (hs.growing.filter _), latest?]

theorem Logged.le_latest? (hs : s.Logged) {key : Key} {c : Change} (hc : s.latest? key = some c) :
    ∀ old ∈ s.log, old.key = key → old.version ≤ c.version := by
  intro old hold hkey
  have hmem : old ∈ s.log.filter (·.key = key) := by simp [hold, hkey]
  exact le_of_getLast?_of_pairwise_lt (hs.growing.filter _) hc old hmem

end Server

end Api

namespace Viewing

open Api

variable {v : Viewing} {now : Span}

/-! ### Runs -/

/-- What happens while a watch is in use. -/
inductive Act where
  | occur (o : Occurrence)
  | poll (now : Span)

def step (v : Viewing) : Act → Viewing
  | .occur o => { v with server := v.server.occur o }
  | .poll now => v.poll now

def run (v : Viewing) (acts : List Act) : Viewing := acts.foldl step v

@[simp] theorem run_nil (v : Viewing) : v.run [] = v := rfl

@[simp] theorem run_cons (v : Viewing) (a : Act) (rest : List Act) :
    v.run (a :: rest) = (v.step a).run rest := rfl

theorem run_append (v : Viewing) (acts rest : List Act) :
    v.run (acts ++ rest) = (v.run acts).run rest := List.foldl_append

theorem sound_occur (hv : v.Sound) (o : Occurrence) : (v.step (.occur o)).Sound := by
  have h := Server.evolves_occur hv.logged hv.scripted o
  refine ⟨h.logged hv.logged, h.scripted.trans hv.scripted, ?_⟩
  exact Nat.le_trans hv.behind h.version_le

theorem sound_step (hv : v.Sound) (a : Act) : (v.step a).Sound := by
  cases a with
  | occur o => exact sound_occur hv o
  | poll now => exact sound_poll hv now

theorem sound_run (hv : v.Sound) (acts : List Act) : (v.run acts).Sound := by
  induction acts generalizing v with
  | nil => exact hv
  | cons a rest ih => exact ih (sound_step hv a)

theorem run_induction {P : Viewing → Prop} (hstep : ∀ v a, v.Sound → P v → P (v.step a))
    (hv : v.Sound) (h : P v) (acts : List Act) : P (v.run acts) := by
  induction acts generalizing v with
  | nil => exact h
  | cons a rest ih => exact ih (sound_step hv a) (hstep v a hv h)

/-! ### The collection as the watch shows it -/

def key (v : Viewing) (name : String) : Key := v.watch.kind.key v.watch.space name

def object? (v : Viewing) (name : String) : Option Json := v.server.object? (v.key name)

def latest? (v : Viewing) (name : String) : Option Change := v.server.latest? (v.key name)

/-- The last event about a name that was handed over. -/
def last? (v : Viewing) (name : String) : Option Event := lastOf name v.seen

/-- The object of the last event about a name, unless that is a deletion. -/
def shown (v : Viewing) (name : String) : Option Json := (v.last? name).bind Event.stored?

theorem shown_eq_some {name : String} {object : Json} :
    v.shown name = some object ↔
      v.last? name = some (.added object) ∨ v.last? name = some (.modified object) := by
  unfold shown
  cases v.last? name with
  | none => simp
  | some e => cases e <;> simp [Event.stored?]

theorem Looks.key {t : Viewing} (h : v.Looks t) (name : String) : t.key name = v.key name := by
  simp only [Viewing.key, h.kind, h.space]

theorem Looks.object? {t : Viewing} (h : v.Looks t) (name : String) :
    t.object? name = v.object? name := by
  rw [Viewing.object?, h.key, h.store.object?, Viewing.object?]

theorem Looks.latest? {t : Viewing} (h : v.Looks t) (name : String) :
    t.latest? name = v.latest? name := by
  simp only [Viewing.latest?, Server.latest?, h.key, h.store.log]

theorem last?_poll (hv : v.Sound) (answered : v.Answered now) (name : String) :
    (v.poll now).last? name = (lastOf name (v.told now)).or (v.last? name) := by
  rw [last?, seen_poll hv answered, lastOf_append, last?]

theorem occur_cases (hv : v.Sound) (o : Occurrence) (name : String) :
    ((v.step (.occur o)).object? name = v.object? name ∧
      (v.step (.occur o)).latest? name = v.latest? name) ∨
    ∃ c, (v.step (.occur o)).latest? name = some c ∧ v.position < c.version := by
  change ((v.server.occur o).object? (v.key name) = v.object? name ∧
      (v.server.occur o).latest? (v.key name) = v.latest? name) ∨
    ∃ c, (v.server.occur o).latest? (v.key name) = some c ∧ v.position < c.version
  rcases Server.evolves_occur hv.logged hv.scripted o with hsame | ⟨c, hrecords⟩
  · refine Or.inl ⟨hsame.object? _, ?_⟩
    rw [Server.latest?, hsame.log]
    rfl
  · rw [hrecords.object?, hrecords.latest?]
    by_cases hkey : c.key = v.key name
    · have hbehind := hv.behind
      have hnumber := hrecords.number
      rw [if_pos hkey, if_pos hkey]
      exact Or.inr ⟨c, rfl, by omega⟩
    · rw [if_neg hkey, if_neg hkey]
      exact Or.inl ⟨rfl, rfl⟩

/-- A listing shows what is stored. What it does not have is shown as before. -/
theorem shown_poll_of_listing (hv : v.Sound) (answered : v.Answered now)
    (horigin : v.origin now = 0) (name : String) :
    (v.poll now).shown name = (v.object? name).or (v.shown name) := by
  rw [shown, last?_poll hv answered, told, horigin, Server.lastOf_told_zero hv.logged]
  change (((v.object? name).map Event.added).or (v.last? name)).bind Event.stored? = _
  cases v.object? name <;> rfl

theorem last?_poll_of_pos (hv : v.Sound) (answered : v.Answered now) (hpos : 0 < v.origin now)
    (name : String) :
    (v.poll now).last? name =
      (((v.latest? name).filter fun c => v.origin now < c.version).map Change.event).or
        (v.last? name) := by
  rw [last?_poll hv answered, told, Server.lastOf_told_of_pos hv.logged hpos]
  rfl

theorem shown_poll_of_change (hv : v.Sound) (answered : v.Answered now) (hpos : 0 < v.origin now)
    {name : String} {c : Change} (hc : v.latest? name = some c) (hlt : v.origin now < c.version) :
    (v.poll now).shown name = v.object? name := by
  have hstored : v.object? name = (v.latest? name).bind fun c => c.event.stored? :=
    hv.logged.stored (v.key name)
  rw [shown, last?_poll_of_pos hv answered hpos, hstored, hc]
  simp [Option.filter_some, hlt]

theorem shown_poll_of_no_change (hv : v.Sound) (answered : v.Answered now)
    (hpos : 0 < v.origin now) {name : String}
    (hold : ∀ c, v.latest? name = some c → c.version ≤ v.origin now) :
    (v.poll now).shown name = v.shown name := by
  have hnone : ((v.latest? name).filter fun c => v.origin now < c.version) = none := by
    rw [Option.filter_eq_none_iff]
    intro c hc
    have hle := hold c hc
    simp only [decide_eq_true_eq]
    omega
  rw [shown, last?_poll_of_pos hv answered hpos, hnone]
  rfl

/-! ### A collection of workflows -/

namespace Sample

def key (name : String) : Key := Kind.workflow.key defaultSpace name

def workflow (stage : Stage) : Json := .ofFields [("status", .ofFields [("state", stage.encode)])]

def put (name : String) (stage : Stage) : Act := .occur (.put (key name) (workflow stage))

def delete (name : String) : Act := .occur (.request (.delete .workflow defaultSpace name))

def backoff : Backoff := .start (.seconds 5) (.seconds 60)

end Sample

end Viewing

end Warren
