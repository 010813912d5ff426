import Mathlib.Algebra.Order.BigOperators.Group.List
import Warren.Proofs.Allocation.Extension

/-!
# Sums that a word holds

The GiB of a set fit 34 bits, so a word holds the sums of a million sets, label by label and for a
node, and no sum of a reservation is a crash. The number of nodes is the product of two words, that
of the groups and that of the nodes in each of them, and does not always fit: `crash_iff`.
-/

namespace Warren.Allocation

open JobResource (nodesOfAll)

variable {nodes floor : UInt64} {r : Reservation} {sets : List Breakdown.AllocationSet}
  {found : List Breakdown}

/-! ### Bounds -/

/-- The most GiB that a set is counted for, if allocations of this size are allowed for. -/
def mostGib : Nat := 2 ^ 34

theorem size_le (hfloor : floor.toNat ≤ mostGib) (set : Breakdown.AllocationSet) :
    max (set.capacity.toNat / gib.toNat) floor.toNat ≤ mostGib := by
  have hcapacity := set.capacity.toNat_lt
  have hgib : gib.toNat = 2 ^ 30 := rfl
  refine Nat.max_le.mpr ⟨?_, hfloor⟩
  rw [hgib, mostGib]
  omega

theorem nodeShare_le (hfloor : floor.toNat ≤ mostGib) (nodes : Nat)
    (set : Breakdown.AllocationSet) : nodeShare nodes floor.toNat set ≤ mostGib := by
  have hsize := size_le hfloor set
  unfold nodeShare
  dsimp only
  split
  · exact hsize
  · exact Nat.le_trans (Nat.div_le_self ..) hsize

theorem shareOf_le (hfloor : floor.toNat ≤ mostGib) (nodes : Nat)
    (sets : List Breakdown.AllocationSet) :
    shareOf nodes floor.toNat sets ≤ sets.length * mostGib := by
  rw [shareOf, ← List.length_map (nodeShare nodes floor.toNat), ← smul_eq_mul]
  exact List.sum_le_card_nsmul _ _
    (List.forall_mem_map.mpr fun set _ => nodeShare_le hfloor nodes set)

theorem increment_le (hfloor : floor.toNat ≤ mostGib) {i : Label × UInt64}
    (hi : i ∈ increments floor sets) : i.2.toNat ≤ mostGib := by
  obtain ⟨set, -, hset⟩ := List.mem_filterMap.mp hi
  obtain ⟨label, -, rfl⟩ := Option.map_eq_some_iff.mp hset
  rw [toNat_max, UInt64.toNat_div]
  exact size_le hfloor set

theorem asked_le (hfloor : floor.toNat ≤ mostGib) (sets : List Breakdown.AllocationSet)
    (label : Label) : asked (increments floor sets) label ≤ sets.length * mostGib := by
  let counted := (increments floor sets).filter (·.1 = label)
  have hlength : counted.length ≤ sets.length :=
    Nat.le_trans (List.length_filter_le ..) (List.length_filterMap_le ..)
  have hsum : (counted.map (·.2.toNat)).sum ≤ counted.length * mostGib := by
    rw [← List.length_map (fun i : Label × UInt64 => i.2.toNat), ← smul_eq_mul]
    refine List.sum_le_card_nsmul _ _ (List.forall_mem_map.mpr fun i hi => ?_)
    exact increment_le hfloor (List.mem_of_mem_filter hi)
  exact Nat.le_trans hsum (Nat.mul_le_mul_right _ hlength)

/-- Words hold the sums of a million sets. -/
theorem not_overbooked (hfloor : floor.toNat ≤ mostGib) (hlength : sets.length ≤ 2 ^ 20) :
    ¬Overbooked nodes floor sets := by
  have hmost : sets.length * mostGib < UInt64.size :=
    Nat.lt_of_le_of_lt (Nat.mul_le_mul_right _ hlength) (by decide)
  rintro (⟨label, -, hlarge⟩ | hlarge)
  · have := asked_le hfloor sets label
    omega
  · have := shareOf_le hfloor nodes.toNat sets
    omega

/-! ### Reservations on their way -/

/-- The sums of a reservation are those of the sets. -/
structure Exact (nodes floor : UInt64) (sets : List Breakdown.AllocationSet) (r : Reservation) :
    Prop where
  demand : ∀ label, label.isCounted = true →
    (r.demand.under label).toNat = asked (increments floor sets) label
  ssd : r.ssd.toNat = shareOf nodes.toNat floor.toNat sets

/-- A reservation for the first ones of the sets that are asked for, as it is when the next one is
taken or refused. -/
def Reached (nodes floor : UInt64) (found : List Breakdown) (sets : List Breakdown.AllocationSet)
    (r : Reservation) : Prop :=
  sets <+: found.flatMap Breakdown.sets ∧
    sets.foldlM (Reservation.addSet nodes floor) .none = .ok r

theorem Booked.exact (h : Booked nodes floor sets r) : Exact nodes floor sets r :=
  ⟨Demand.ofIncrements_eq_ok_iff.mp h.demand, h.ssd⟩

/-! ### Results -/

theorem augment_crash_iff {resources : List JobResource} {limits : Limits}
    (hreserve : ∀ nodes crash, reserve nodes floor found ≠ .error (.crash crash)) :
    (∃ crash, augment resources found floor limits = .error (.crash crash)) ↔
      (∃ plan, layout resources = .ok (some plan)) ∧ UInt64.size ≤ nodesOfAll resources := by
  rw [augment]
  cases hlayout : layout resources with
  | error fault =>
    rw [Failure.ofFault_error]
    refine iff_of_false ?_ ?_
    · rintro ⟨_, hcrash⟩
      cases hcrash
    · rintro ⟨⟨_, hplan⟩, -⟩
      cases hplan
  | ok outcome =>
    rw [Failure.ofFault_ok, bind_of_ok rfl]
    obtain ⟨rfl, -⟩ | ⟨plan, rfl, hbare⟩ := layout_cases hlayout
    · refine iff_of_false ?_ ?_
      · rintro ⟨_, hcrash⟩
        cases hcrash
      · rintro ⟨⟨_, hplan⟩, -⟩
        cases hplan
    · dsimp only
      rw [hbare.nodes_eq]
      obtain hfits | hlarge := Nat.lt_or_ge (nodesOfAll resources) UInt64.size
      · refine iff_of_false ?_ fun h => Nat.not_le_of_lt hfits h.2
        rw [Crash.fit64_of_lt hfits, Failure.ofCrash_ok, bind_of_ok rfl]
        rintro ⟨crash, hcrash⟩
        obtain hreservation | ⟨reservation, -, hcrash⟩ := error_of_bind hcrash
        · exact hreserve _ crash hreservation
        · obtain hwithin | ⟨_, _, hcrash⟩ := error_of_bind hcrash
          · exact Failure.ofFault_ne_crash _ _ hwithin
          · cases hcrash
      · rw [Crash.fit64_of_le hlarge]
        exact iff_of_true ⟨_, rfl⟩ ⟨⟨plan, rfl⟩, hlarge⟩

/-- No sum is a crash, for a million sets and with a floor of 2 ^ 34 GiB at most, and all sums are
exact on the way to a reservation or to a fault. The number of nodes is a crash if a word does not
hold it, and else exact. -/
theorem crash_iff (resources : List JobResource) (limits : Limits)
    (hlength : (found.flatMap Breakdown.sets).length ≤ 2 ^ 20) (hfloor : floor.toNat ≤ 2 ^ 34) :
    (∀ nodes crash, reserve nodes floor found ≠ .error (.crash crash)) ∧
      (∀ nodes sets r, Reached nodes floor found sets r → Exact nodes floor sets r) ∧
      (∀ plan nodes, layout resources = .ok (some plan) → plan.nodes = .ok nodes →
        nodes.toNat = nodesOfAll resources) ∧
      ((∃ crash, augment resources found floor limits = .error (.crash crash)) ↔
        (∃ plan, layout resources = .ok (some plan)) ∧ UInt64.size ≤ nodesOfAll resources) := by
  have hreserve (nodes : UInt64) (crash : Crash) :
      reserve nodes floor found ≠ .error (.crash crash) :=
    fun h => not_overbooked hfloor hlength (overbooked_of_reserve h)
  refine ⟨hreserve, fun nodes sets r h => (addSets_eq_ok_iff.mp h.2).exact, ?_,
    augment_crash_iff hreserve⟩
  intro plan nodes hlayout hnodes
  obtain ⟨hnone, -⟩ | ⟨bare, hsome, hbare⟩ := layout_cases hlayout
  · cases hnone
  obtain rfl := Option.some.inj hsome
  rwa [hbare.nodes_eq, Crash.fit64_eq_ok_iff] at hnodes

namespace Sample

/-- Ten TiB of lustre. -/
def lustre : Breakdown :=
  ⟨some breakdownKind, .empty, some ⟨true, some ⟨none,
    [⟨"ost", .acrossServers, 0xA0000000000, none⟩]⟩, []⟩⟩

/-- As many racks as a word has values, divided by the number of nodes in each of them. -/
def racks : JobResource :=
  { JobResource.counted "rack" 0x100000000 with children := [.counted "node" 0x100000000] }

end Sample

/-- One node too many for a word. -/
theorem crash_of_racks : augment [Sample.racks] [Sample.lustre] 1 .unlimited =
    .error (.crash .overflow) := rfl

/-- Six nodes in two racks and a file system with some lustre are no crash. -/
theorem crash_iff_rack :
    let resources := [Sample.rackOf Sample.coreNode]
    let found := [Sample.mixed]
    (found.flatMap Breakdown.sets).length ≤ 2 ^ 20 ∧ (1 : UInt64).toNat ≤ 2 ^ 34 ∧
      ¬∃ crash, augment resources found 1 .unlimited = .error (.crash crash) := by
  intro resources found
  have few : (found.flatMap Breakdown.sets).length ≤ 2 ^ 20 := by decide
  have low : (1 : UInt64).toNat ≤ 2 ^ 34 := by decide
  refine ⟨few, low, fun hcrash => ?_⟩
  have large := ((crash_iff resources .unlimited few low).2.2.2.mp hcrash).2
  exact absurd large (by decide)

end Warren.Allocation
