import Warren.Proofs.Watch.Unbroken

/-!
# Objects that a watch goes on to show

A listing has what is stored and says nothing of what is gone. So an object stays in view after its
deletion if a listing comes between: that happens when the watch goes back to the start after its
version was forgotten (`stranded_poll`), and only then (`not_stranded_poll`).
-/

namespace Warren.Viewing

open Api

variable {v : Viewing} {now : Span} {a : Act} {acts : List Act} {name : String}

/-- The last event about a name says that its object was added or modified, but nothing is
stored. -/
def Stranded (v : Viewing) (name : String) : Prop :=
  (∃ object, v.last? name = some (.added object) ∨ v.last? name = some (.modified object)) ∧
    v.object? name = none

theorem stranded_iff : v.Stranded name ↔ (v.shown name).isSome = true ∧ v.object? name = none := by
  simp only [Stranded, ← shown_eq_some, Option.isSome_iff_exists]

/-- The deletion of an object is not told by a listing, nor if the watch is already beyond it. -/
theorem stranded_poll (hv : v.Sound) (answered : v.Answered now) :
    (v.poll now).Stranded name ↔ v.Stranded name ∧
      (v.origin now = 0 ∨ ∀ c, v.latest? name = some c → c.version ≤ v.position) := by
  rw [stranded_iff, stranded_iff, (polled hv now).1.object?, and_right_comm]
  refine and_congr_left fun hgone => ?_
  by_cases hlist : v.origin now = 0
  · rw [shown_poll_of_listing hv answered hlist, hgone, Option.none_or]
    simp [hlist]
  · have hpos : 0 < v.origin now := Nat.pos_of_ne_zero hlist
    have hsame := origin_of_pos hpos
    by_cases hold : ∀ c, v.latest? name = some c → c.version ≤ v.position
    · rw [shown_poll_of_no_change hv answered hpos (hsame ▸ hold)]
      exact ⟨fun hshown => ⟨hshown, Or.inr hold⟩, And.left⟩
    · have hchange := hold
      simp only [Classical.not_forall, Nat.not_le] at hchange
      obtain ⟨c, hc, hlt⟩ := hchange
      rw [shown_poll_of_change hv answered hpos hc (hsame ▸ hlt), hgone]
      simp only [hlist, hold]
      simp

/-- The deletion of what a watch still shows is beyond its position. -/
def Notices (v : Viewing) : Prop :=
  ∀ name, v.Stranded name → ∃ c, v.latest? name = some c ∧ v.position < c.version

theorem notices_of_not_stranded (h : ∀ name, ¬v.Stranded name) : v.Notices :=
  fun name hname => absurd hname (h name)

theorem not_stranded_poll (hv : v.Sound) (onward : v.Onward) (steady : ¬v.Restarts now)
    (answered : v.Answered now) (h : v.Notices) (name : String) : ¬(v.poll now).Stranded name := by
  intro hstranded
  obtain ⟨hbefore, hlist | hold⟩ := (stranded_poll hv answered).mp hstranded
  · -- a watch at the start showed nothing yet
    rw [origin_of_not_restarts steady] at hlist
    have hnone : v.shown name = none := by
      simp only [shown, last?, onward hlist]
      rfl
    simp [stranded_iff, hnone] at hbefore
  · obtain ⟨c, hc, hlt⟩ := h name hbefore
    have hle := hold c hc
    omega

theorem notices_occur (hv : v.Sound) (h : v.Notices) (o : Occurrence) :
    (v.step (.occur o)).Notices := by
  intro name hname
  rcases occur_cases hv o name with ⟨hobject, hlatest⟩ | hchange
  · rw [hlatest]
    exact h name ⟨hname.1, hobject ▸ hname.2⟩
  · exact hchange

theorem notices_step (v : Viewing) (a : Act) (hv : v.Sound) (onward : v.Onward)
    (steady : v.Steady a) (h : v.Notices) : (v.step a).Notices := by
  cases a with
  | occur o => exact notices_occur hv h o
  | poll now =>
    obtain ⟨looks, polled⟩ := polled hv now
    cases polled with
    | answered answered _ _ =>
      exact notices_of_not_stranded (not_stranded_poll hv onward steady answered h)
    | unanswered _ hseen hposition =>
      intro name hname
      change (v.poll now).Stranded name at hname
      change ∃ c, (v.poll now).latest? name = some c ∧ (v.poll now).position < c.version
      rw [hposition, origin_of_not_restarts steady, looks.latest?]
      refine h name ⟨?_, looks.object? name ▸ hname.2⟩
      simpa only [last?, hseen] using hname.1

section

variable (kind : Kind) (space : String) (backoff : Backoff)

/-- An answered poll of a watch from the start leaves an object in view after its deletion if and
only if it was so before, and the poll lists from the start or the watch is beyond the deletion.
That never happens as long as no poll has to go back to the start. -/
theorem stranded_of_answered (acts : List Act)
    (answered : ((start kind space backoff).run acts).Answered now) :
    (∀ name, (((start kind space backoff).run acts).poll now).Stranded name ↔
      ((start kind space backoff).run acts).Stranded name ∧
        (((start kind space backoff).run acts).origin now = 0 ∨
          ∀ c, ((start kind space backoff).run acts).latest? name = some c →
            c.version ≤ ((start kind space backoff).run acts).position)) ∧
    ((start kind space backoff).Unbroken (acts ++ [.poll now]) →
      ((start kind space backoff).run acts).server.version < UInt64.size →
      ∀ name, ¬(((start kind space backoff).run acts).poll now).Stranded name) := by
  have hstart := sound_start kind space backoff
  have hrun := sound_run hstart acts
  refine ⟨fun name => stranded_poll hrun answered, fun unbroken small => ?_⟩
  obtain ⟨hunbroken, steady, _⟩ := (unbroken_append _ _ _).mp unbroken
  have onward := onward_start kind space backoff
  have hnotices : (start kind space backoff).Notices :=
    notices_of_not_stranded fun name hname => by
      have hnone : (start kind space backoff).shown name = none := rfl
      simp [stranded_iff, hnone] at hname
  exact not_stranded_poll hrun (onward_run hstart hunbroken small onward) steady answered
    (unbroken_induction notices_step hstart onward hunbroken small hnotices)

end

/-- The theorem applies to a workflow that is deleted between two polls. -/
theorem stranded_of_answered_deleted :
    let acts : List Act :=
      [Sample.put "fluxjob-1" .proposal, .poll .zero, Sample.delete "fluxjob-1"]
    let v := Sample.opening.run acts
    v.Answered .zero ∧
      (∀ name, (v.poll .zero).Stranded name ↔ v.Stranded name ∧
        (v.origin .zero = 0 ∨ ∀ c, v.latest? name = some c → c.version ≤ v.position)) ∧
      ∀ name, ¬(v.poll .zero).Stranded name := by
  intro acts v
  have answered : (Sample.opening.run acts).Answered .zero := by decide +kernel
  have small : (Sample.opening.run acts).server.version < UInt64.size := by decide +kernel
  have plain : ∀ a ∈ acts ++ [.poll .zero], a.Plain := by
    simp [acts, Sample.put, Sample.delete, Act.Plain, Occurrence.Plain]
  have unbroken : Sample.opening.Unbroken (acts ++ [.poll .zero]) :=
    unbroken_of_plain (sound_start _ _ _) Server.remembers_empty plain
  have h := stranded_of_answered .workflow defaultSpace Sample.backoff acts answered
  exact ⟨answered, h.1, h.2 unbroken small⟩

/-- A workflow is deleted and its deletion compacted away between two polls. The second poll goes
back to the start and lists nothing, so the workflow stays in view. -/
theorem stranded_compacted :
    let acts : List Act := [Sample.put "fluxjob-1" .proposal, .poll .zero,
      Sample.delete "fluxjob-1", .occur (.compact false)]
    let v := Sample.opening.run acts
    v.Restarts .zero ∧ v.Answered .zero ∧ (v.poll .zero).Stranded "fluxjob-1" := by
  intro acts v
  have restarts : (Sample.opening.run acts).Restarts .zero := by decide +kernel
  have answered : (Sample.opening.run acts).Answered .zero := by decide +kernel
  have stranded : (((Sample.opening.run acts).poll .zero).shown "fluxjob-1").isSome = true ∧
      ((Sample.opening.run acts).poll .zero).object? "fluxjob-1" = none := by decide +kernel
  exact ⟨restarts, answered, stranded_iff.mpr stranded⟩

end Warren.Viewing
