import Mathlib.Data.List.Induction
import Warren.Allocation.Jobspec
import Warren.Proofs.Allocation.Demands
import Warren.Proofs.Allocation.Shares

/-!
# Reservations by their sums

A reservation is made set by set and checks every sum on the way. `reserve_eq_ok_iff` says what it
comes to: every breakdown can be used, every set can be placed, and the sums of all sets fit their
words. A crash on the way is one of these sums at some set, `Overbooked`.
-/

namespace Warren.Allocation

/-- A reservation of nothing. -/
def Reservation.none : Reservation := ⟨.zero, 0, false⟩

/-- A set whose label is known and which is spread in the way that belongs to the label. -/
def Placeable (set : Breakdown.AllocationSet) : Prop :=
  ∃ label, Label.ofName set.label = .ok label ∧ set.strategy = label.strategy

/-- What some sets ask for under their labels, none of them for less than `floor` GiB. -/
def increments (floor : UInt64) (sets : List Breakdown.AllocationSet) : List (Label × UInt64) :=
  sets.filterMap fun set => (Label.ofName set.label).toOption.map fun label =>
    (label, max (set.capacity / gib) floor)

/-- The GiB that go with each of a number of compute nodes for a set of allocations, none of which
is smaller than `floor` GiB. -/
def nodeShare (nodes floor : Nat) (set : Breakdown.AllocationSet) : Nat :=
  let size := max (set.capacity.toNat / gib.toNat) floor
  if set.label ∈ ["xfs", "gfs2", "raw"] then size else size / max nodes 1

/-- The GiB that go with each of a number of nodes for some sets. -/
def shareOf (nodes floor : Nat) (sets : List Breakdown.AllocationSet) : Nat :=
  (sets.map (nodeShare nodes floor)).sum

/-- A reservation for some sets that can be placed, with their sums. -/
structure Booked (nodes floor : UInt64) (sets : List Breakdown.AllocationSet) (r : Reservation) :
    Prop where
  placeable : ∀ set ∈ sets, Placeable set
  demand : Demand.ofIncrements (increments floor sets) = .ok r.demand
  ssd : r.ssd.toNat = shareOf nodes.toNat floor.toNat sets
  applied : r.applied = !sets.isEmpty

variable {nodes floor : UInt64} {r q : Reservation} {sets : List Breakdown.AllocationSet}
  {set : Breakdown.AllocationSet} {label : Label}

/-! ### Labels -/

theorem name_of_ofName {name : String} (h : Label.ofName name = .ok label) : label.name = name := by
  unfold Label.ofName at h
  split at h
  · rename_i found hfound
    obtain rfl := Except.ok.inj h
    simpa using List.find?_some hfound
  · cases h

theorem isPerCompute_of_ofName {name : String} (h : Label.ofName name = .ok label) :
    label.isPerCompute = decide (name ∈ ["xfs", "gfs2", "raw"]) := by
  rw [← name_of_ofName h]
  cases label <;> decide

theorem increments_concat (hlabel : Label.ofName set.label = .ok label) :
    increments floor (sets ++ [set]) =
      increments floor sets ++ [(label, max (set.capacity / gib) floor)] := by
  simp [increments, List.filterMap_append, hlabel, Except.toOption]

theorem shareOf_concat (nodes floor : Nat) (sets : List Breakdown.AllocationSet)
    (set : Breakdown.AllocationSet) :
    shareOf nodes floor (sets ++ [set]) = shareOf nodes floor sets + nodeShare nodes floor set := by
  simp [shareOf]

/-! ### One more set -/

theorem toNat_share (hlabel : Label.ofName set.label = .ok label) :
    (if label.isPerCompute then max (set.capacity / gib) floor
      else max (set.capacity / gib) floor / max nodes 1).toNat =
      nodeShare nodes.toNat floor.toNat set := by
  rw [isPerCompute_of_ofName hlabel]
  simp only [nodeShare, decide_eq_true_eq]
  rw [apply_ite UInt64.toNat, UInt64.toNat_div, toNat_max, toNat_max, UInt64.toNat_div,
    UInt64.toNat_one]

theorem addSet_eq (hlabel : Label.ofName set.label = .ok label)
    (hstrategy : set.strategy = label.strategy) :
    r.addSet nodes floor set = Failure.ofCrash do
      let demand ← r.demand.add label (max (set.capacity / gib) floor)
      let ssd ← Crash.fit64 (r.ssd.toNat + nodeShare nodes.toNat floor.toNat set)
      return ⟨demand, ssd, true⟩ := by
  rw [← toNat_share hlabel, Reservation.addSet, hlabel, Failure.ofFault_ok, bind_of_ok rfl,
    if_neg (not_not_intro hstrategy)]
  simp only [Failure.ofCrash_bind]
  rfl

theorem placeable_of_addSet (h : r.addSet nodes floor set = .ok q) : Placeable set := by
  obtain ⟨label, hlabel, h⟩ := ok_of_bind h
  dsimp only at h
  split at h
  · obtain ⟨_, hthrow, _⟩ := ok_of_bind h
    cases hthrow
  · rename_i hstrategy
    exact ⟨label, by simpa using hlabel, Decidable.not_not.mp hstrategy⟩

theorem addSet_eq_ok_iff (hlabel : Label.ofName set.label = .ok label)
    (hstrategy : set.strategy = label.strategy) :
    r.addSet nodes floor set = .ok q ↔
      r.demand.add label (max (set.capacity / gib) floor) = .ok q.demand ∧
        q.ssd.toNat = r.ssd.toNat + nodeShare nodes.toNat floor.toNat set ∧ q.applied = true := by
  rw [addSet_eq hlabel hstrategy, Failure.ofCrash_eq_ok_iff]
  constructor
  · intro h
    obtain ⟨demand, hdemand, h⟩ := ok_of_bind h
    obtain ⟨ssd, hssd, h⟩ := ok_of_bind h
    obtain rfl := Except.ok.inj h
    exact ⟨hdemand, Crash.fit64_eq_ok_iff.mp hssd, rfl⟩
  · rintro ⟨hdemand, hssd, happlied⟩
    rw [bind_of_ok hdemand, bind_of_ok (Crash.fit64_eq_ok_iff.mpr hssd), ← happlied]
    rfl

theorem Booked.concat (h : Booked nodes floor sets r) (hset : r.addSet nodes floor set = .ok q) :
    Booked nodes floor (sets ++ [set]) q := by
  obtain ⟨label, hlabel, hstrategy⟩ := placeable_of_addSet hset
  obtain ⟨hdemand, hssd, happlied⟩ := (addSet_eq_ok_iff hlabel hstrategy).mp hset
  refine ⟨?_, ?_, ?_, by simp [happlied]⟩
  · rw [List.forall_mem_append]
    exact ⟨h.placeable, by simpa using ⟨label, hlabel, hstrategy⟩⟩
  · have hbefore := h.demand
    rw [Demand.ofIncrements] at hbefore ⊢
    rw [increments_concat hlabel, List.foldlM_append, bind_of_ok hbefore, List.foldlM_cons, hdemand]
    rfl
  · rw [shareOf_concat, hssd, h.ssd]

theorem Booked.exists_init (h : Booked nodes floor (sets ++ [set]) q) :
    ∃ r, Booked nodes floor sets r ∧ r.addSet nodes floor set = .ok q := by
  obtain ⟨hplaceable, hset⟩ := List.forall_mem_append.mp h.placeable
  obtain ⟨label, hlabel, hstrategy⟩ := hset set (List.mem_singleton_self _)
  have hdemand := h.demand
  rw [Demand.ofIncrements, increments_concat hlabel, List.foldlM_append] at hdemand
  obtain ⟨demand, hbefore, hdemand⟩ := ok_of_bind hdemand
  rw [List.foldlM_cons] at hdemand
  obtain ⟨last, hlast, hdemand⟩ := ok_of_bind hdemand
  obtain rfl := Except.ok.inj hdemand
  have hssd := h.ssd
  rw [shareOf_concat] at hssd
  -- a word holds the sum without the last set too
  have hless : shareOf nodes.toNat floor.toNat sets < UInt64.size := by
    have hword : q.ssd.toNat < UInt64.size := UInt64.toNat_lt _
    omega
  have hword := UInt64.toNat_ofNat_of_lt' hless
  refine ⟨⟨demand, UInt64.ofNat (shareOf nodes.toNat floor.toNat sets), !sets.isEmpty⟩,
    ⟨hplaceable, hbefore, hword, rfl⟩, (addSet_eq_ok_iff hlabel hstrategy).mpr ⟨hlast, ?_, ?_⟩⟩
  · rw [hssd, hword]
  · rw [h.applied]
    simp

theorem booked_none : Booked nodes floor [] .none where
  placeable := by simp
  demand := rfl
  ssd := rfl
  applied := rfl

/-- Sets are added to a reservation of nothing exactly if they can be placed and their sums fit. -/
theorem addSets_eq_ok_iff :
    sets.foldlM (Reservation.addSet nodes floor) .none = .ok q ↔ Booked nodes floor sets q := by
  induction sets using List.reverseRecOn generalizing q with
  | nil =>
    constructor
    · intro h
      obtain rfl := Except.ok.inj h
      exact booked_none
    · intro h
      have hdemand : Demand.zero = q.demand := Except.ok.inj h.demand
      have hssd : q.ssd = 0 := UInt64.toNat_inj.mp h.ssd
      have happlied : q.applied = false := h.applied
      rw [← show Reservation.none = q by
        rw [Reservation.none, hdemand, ← hssd, ← happlied]]
      rfl
  | append_singleton sets set ih =>
    rw [List.foldlM_append]
    constructor
    · intro h
      obtain ⟨r, hr, h⟩ := ok_of_bind h
      rw [List.foldlM_cons] at h
      obtain ⟨last, hlast, h⟩ := ok_of_bind h
      obtain rfl := Except.ok.inj h
      exact (ih.mp hr).concat hlast
    · intro h
      obtain ⟨r, hr, hlast⟩ := h.exists_init
      rw [bind_of_ok (ih.mpr hr), List.foldlM_cons, bind_of_ok hlast]
      rfl

/-! ### Crashes -/

/-- One of the sums of some sets does not fit its word. -/
def Overbooked (nodes floor : UInt64) (sets : List Breakdown.AllocationSet) : Prop :=
  (∃ label, label.isCounted = true ∧ UInt64.size ≤ asked (increments floor sets) label) ∨
    UInt64.size ≤ shareOf nodes.toNat floor.toNat sets

theorem overbooked_of_addSet (h : Booked nodes floor sets r) {crash : Crash}
    (hcrash : r.addSet nodes floor set = .error (.crash crash)) :
    Overbooked nodes floor (sets ++ [set]) := by
  have hset : Placeable set := by
    rw [Reservation.addSet] at hcrash
    obtain hfault | ⟨label, hlabel, hcrash⟩ := error_of_bind hcrash
    · exact absurd hfault (Failure.ofFault_ne_crash _ crash)
    · by_cases hstrategy : set.strategy = label.strategy
      · exact ⟨label, Failure.ofFault_eq_ok_iff.mp hlabel, hstrategy⟩
      · rw [if_pos hstrategy] at hcrash
        cases hcrash
  obtain ⟨label, hlabel, hstrategy⟩ := hset
  rw [addSet_eq hlabel hstrategy] at hcrash
  obtain ⟨demand, hdemand⟩ | ⟨-, hcounted, hlarge⟩ :=
    Demand.add_cases r.demand label (max (set.capacity / gib) floor)
  · rw [bind_of_ok hdemand] at hcrash
    refine .inr ?_
    rw [shareOf_concat, ← h.ssd]
    by_contra hless
    rw [Crash.fit64_of_lt (Nat.lt_of_not_le hless)] at hcrash
    cases hcrash
  · refine .inl ⟨label, hcounted, ?_⟩
    rw [increments_concat hlabel, asked_append, ← Demand.ofIncrements_eq_ok_iff.mp h.demand label
      hcounted, asked_cons, if_pos rfl]
    exact hlarge

theorem Overbooked.mono {first : List Breakdown.AllocationSet} (h : Overbooked nodes floor first)
    (hfirst : first <+: sets) : Overbooked nodes floor sets := by
  obtain ⟨rest, rfl⟩ := hfirst
  obtain ⟨label, hcounted, h⟩ | h := h
  · refine .inl ⟨label, hcounted, ?_⟩
    rw [increments, List.filterMap_append, asked_append]
    exact Nat.le_add_right_of_le h
  · refine .inr ?_
    rw [shareOf, List.map_append, List.sum_append]
    exact Nat.le_add_right_of_le h

theorem overbooked_of_addSets {crash : Crash}
    (h : sets.foldlM (Reservation.addSet nodes floor) .none = .error (.crash crash)) :
    Overbooked nodes floor sets := by
  induction sets using List.reverseRecOn with
  | nil => cases h
  | append_singleton sets set ih =>
    rw [List.foldlM_append] at h
    obtain hfirst | ⟨r, hfirst, h⟩ := error_of_bind h
    · exact (ih hfirst).mono (List.prefix_append ..)
    · rw [List.foldlM_cons] at h
      obtain hlast | ⟨_, _, h⟩ := error_of_bind h
      · exact overbooked_of_addSet (addSets_eq_ok_iff.mp hfirst) hlast
      · cases h

/-! ### Breakdowns -/

/-- A breakdown that storage can be reserved for. -/
structure Usable (b : Breakdown) : Prop where
  kind : b.kind = some breakdownKind
  ready : b.isReady = true
  placeable : ∀ set ∈ b.sets, Placeable set

theorem addBreakdown_cases (nodes floor : UInt64) (r : Reservation) (b : Breakdown) :
    (b.kind = some breakdownKind ∧ b.isReady = true ∧
        r.addBreakdown nodes floor b = b.sets.foldlM (Reservation.addSet nodes floor) r) ∨
      ¬(b.kind = some breakdownKind ∧ b.isReady = true) ∧
        ∃ fault, r.addBreakdown nodes floor b = .error (.fault fault) := by
  rw [Reservation.addBreakdown]
  by_cases hkind : b.kind = some breakdownKind
  · have hsame : ¬b.kind.getD "" ≠ breakdownKind := by simp [hkind]
    cases hready : b.isReady with
    | true => exact .inl ⟨hkind, rfl, by rw [if_neg hsame]; rfl⟩
    | false => exact .inr ⟨by simp, _, by rw [if_neg hsame]; rfl⟩
  · -- a breakdown without a kind is taken to be of the kind with the empty name
    have hother : b.kind.getD "" ≠ breakdownKind := by
      cases hb : b.kind with
      | none => decide
      | some kind => exact fun h => hkind (hb.trans (congrArg some h))
    exact .inr ⟨fun h => hkind h.1, _, by rw [if_pos hother]; rfl⟩

/-- A reservation takes all breakdowns, set by set, or none. -/
theorem addBreakdowns_eq_ok_iff {found : List Breakdown} :
    found.foldlM (Reservation.addBreakdown nodes floor) r = .ok q ↔
      (∀ b ∈ found, b.kind = some breakdownKind ∧ b.isReady = true) ∧
        (found.flatMap Breakdown.sets).foldlM (Reservation.addSet nodes floor) r = .ok q := by
  induction found generalizing r with
  | nil => exact ⟨fun h => ⟨by simp, h⟩, fun h => h.2⟩
  | cons b found ih =>
    rw [List.foldlM_cons, List.flatMap_cons, List.foldlM_append, List.forall_mem_cons]
    obtain ⟨hkind, hready, hsets⟩ | ⟨hunusable, fault, hfault⟩ := addBreakdown_cases nodes floor r b
    · rw [hsets]
      constructor
      · intro h
        obtain ⟨next, hfirst, h⟩ := ok_of_bind h
        obtain ⟨hfound, hrest⟩ := ih.mp h
        exact ⟨⟨⟨hkind, hready⟩, hfound⟩, by rw [bind_of_ok hfirst, hrest]⟩
      · rintro ⟨⟨-, hfound⟩, h⟩
        obtain ⟨next, hfirst, hrest⟩ := ok_of_bind h
        rw [bind_of_ok hfirst]
        exact ih.mpr ⟨hfound, hrest⟩
    · rw [hfault]
      exact iff_of_false nofun fun h => hunusable h.1.1

theorem addSets_of_crash {found : List Breakdown} {crash : Crash}
    (h : found.foldlM (Reservation.addBreakdown nodes floor) r = .error (.crash crash)) :
    (found.flatMap Breakdown.sets).foldlM (Reservation.addSet nodes floor) r =
      .error (.crash crash) := by
  induction found generalizing r with
  | nil => cases h
  | cons b found ih =>
    rw [List.foldlM_cons] at h
    rw [List.flatMap_cons, List.foldlM_append]
    obtain ⟨-, -, hsets⟩ | ⟨-, fault, hfault⟩ := addBreakdown_cases nodes floor r b
    · rw [hsets] at h
      obtain hfirst | ⟨next, hfirst, h⟩ := error_of_bind h
      · rw [hfirst]
        rfl
      · rw [bind_of_ok hfirst]
        exact ih h
    · rw [hfault] at h
      cases h

/-! ### Reservations -/

theorem reserve_eq_ok_iff {found : List Breakdown} :
    reserve nodes floor found = .ok q ↔
      (∀ b ∈ found, Usable b) ∧ Booked nodes floor (found.flatMap Breakdown.sets) q := by
  refine addBreakdowns_eq_ok_iff.trans ((and_congr_right' addSets_eq_ok_iff).trans ?_)
  constructor
  · rintro ⟨hfound, hbooked⟩
    exact ⟨fun b hb => ⟨(hfound b hb).1, (hfound b hb).2, fun set hset =>
      hbooked.placeable set (List.mem_flatMap.mpr ⟨b, hb, hset⟩)⟩, hbooked⟩
  · rintro ⟨husable, hbooked⟩
    exact ⟨fun b hb => ⟨(husable b hb).kind, (husable b hb).ready⟩, hbooked⟩

theorem overbooked_of_reserve {found : List Breakdown} {crash : Crash}
    (h : reserve nodes floor found = .error (.crash crash)) :
    Overbooked nodes floor (found.flatMap Breakdown.sets) :=
  overbooked_of_addSets (addSets_of_crash h)

end Warren.Allocation
