import Warren.Proofs.Allocation.Vetting

/-!
# Whether a reservation covers the allocations

Storage that belongs to single compute nodes is reserved in whole GiB and allocated in bytes. The
GiB are rounded down, set by set, so a reservation covers the allocations of the same sets only if
none of them has a part of a GiB: `covered_iff`.
-/

namespace Warren.Allocation

/-! ### Whole parts -/

theorem sum_whole_le (g : Nat) (ts : List Nat) : (ts.map fun t => t / g).sum * g ≤ ts.sum := by
  induction ts with
  | nil => simp
  | cons t ts ih =>
    rw [List.map_cons, List.sum_cons, List.sum_cons, Nat.add_mul]
    exact Nat.add_le_add (Nat.div_mul_le_self t g) ih

theorem sum_le_whole_iff (g : Nat) (ts : List Nat) :
    ts.sum ≤ (ts.map fun t => t / g).sum * g ↔ ∀ t ∈ ts, g ∣ t := by
  induction ts with
  | nil => simp
  | cons t ts ih =>
    have hfirst := Nat.div_mul_le_self t g
    have hrest := sum_whole_le g ts
    rw [List.map_cons, List.sum_cons, List.sum_cons, Nat.add_mul]
    constructor
    · intro h
      exact List.forall_mem_cons.mpr ⟨Nat.dvd_iff_div_mul_eq t g |>.mpr (by omega),
        ih.mp (by omega)⟩
    · intro h
      obtain ⟨ht, hts⟩ := List.forall_mem_cons.mp h
      have hfirst := Nat.div_mul_cancel ht
      have hrest := ih.mpr hts
      omega

/-! ### What is reserved -/

/-- A set that every compute node has an allocation of its own for. -/
def NodeLocal (set : Breakdown.AllocationSet) : Prop :=
  set.label ∈ ["xfs", "gfs2", "raw"] ∧ set.strategy = .perCompute

/-- The bytes of an allocation of a set on one compute node. -/
def perNode (least : UInt64) (set : Breakdown.AllocationSet) : Nat :=
  max set.capacity.toNat least.toNat

theorem whole_max (capacity least : UInt64) :
    max (capacity.toNat / gib.toNat) (least / gib).toNat =
      max capacity.toNat least.toNat / gib.toNat := by
  rw [UInt64.toNat_div]
  have hmono : Monotone (· / gib.toNat) := fun _ _ h => Nat.div_le_div_right h
  exact (hmono.map_max).symm

variable {least : UInt64}

theorem nodeShare_of_nodeLocal (nodes : Nat) {set : Breakdown.AllocationSet}
    (hlocal : NodeLocal set) :
    nodeShare nodes (least / gib).toNat set = perNode least set / gib.toNat := by
  have hshare : nodeShare nodes (least / gib).toNat set =
      max (set.capacity.toNat / gib.toNat) (least / gib).toNat := if_pos hlocal.1
  rw [hshare, whole_max, perNode]

/-- The GiB of storage in a slot for a compute node. -/
def slotStorage? (slot : JobResource) : Option UInt64 :=
  match slot.children with
  | [_, storage] => if slot.kind = "slot" ∧ storage.kind = "ssd" then storage.count else none
  | _ => none

/-- The GiB of storage that are paired with each compute node: the slots are at the top, or all that
is in a group. -/
def pairedStorage? : List JobResource → Option UInt64
  | [top] => match top.children with
    | [slot] => slotStorage? slot
    | _ => slotStorage? top
  | _ => none

theorem pairedStorage?_withStorage (found : Layout) (ssd : UInt64) :
    pairedStorage? [found.withStorage ssd] = some ssd := by
  cases found <;> rfl

/-- What is paired with the compute nodes of a job is the storage of all sets, in whole GiB. -/
theorem pairedStorage?_of_augment {resources extended : List JobResource} {found : List Breakdown}
    {limits : Limits} (hlocal : ∀ set ∈ found.flatMap Breakdown.sets, NodeLocal set)
    (h : augment resources found (least / gib) limits = .ok (.extended extended)) :
    ∃ ssd, pairedStorage? extended = some ssd ∧ ssd.toNat =
      ((found.flatMap Breakdown.sets).map fun set => perNode least set / gib.toNat).sum := by
  obtain ⟨plan, nodes, reservation, -, -, hreserve, -, -, rfl⟩ := augment_extended_iff.mp h
  refine ⟨_, pairedStorage?_withStorage plan _, ?_⟩
  rw [(reserve_eq_ok_iff.mp hreserve).2.ssd, shareOf, List.map_congr_left fun set hset =>
    nodeShare_of_nodeLocal nodes.toNat (hlocal set hset)]

/-! ### What is allocated -/

theorem planSet_nodeLocal (least : UInt64) {counts : ServerCounts} (hne : counts ≠ [])
    {set : Breakdown.AllocationSet} (hlocal : NodeLocal set) :
    ∃ plan, planSet counts least set = .ok plan ∧ plan.size.toNat = perNode least set := by
  rw [planSet_of_ne_nil hne]
  simp only [arrange, hlocal.2]
  exact ⟨_, rfl, toNat_max ..⟩

theorem planSets_nodeLocal (least : UInt64) {counts : ServerCounts} (hne : counts ≠ [])
    {sets : List Breakdown.AllocationSet} (hlocal : ∀ set ∈ sets, NodeLocal set) :
    ∃ plans, planSets sets counts least = .ok plans ∧
      plans.map (fun plan => plan.size.toNat) = sets.map (perNode least) := by
  induction sets with
  | nil => exact ⟨[], rfl, rfl⟩
  | cons set sets ih =>
    obtain ⟨hset, hsets⟩ := List.forall_mem_cons.mp hlocal
    obtain ⟨plan, hplan, hsize⟩ := planSet_nodeLocal least hne hset
    obtain ⟨plans, hplans, hsizes⟩ := ih hsets
    rw [planSets] at hplans ⊢
    refine ⟨plan :: plans, ?_, by rw [List.map_cons, List.map_cons, hsize, hsizes]⟩
    rw [List.mapM_cons, hplan, hplans]
    rfl

/-! ### Coverage -/

/-- The storage that is reserved for a compute node covers its allocations exactly if each of them
is a whole number of GiB. -/
theorem covered_iff {resources extended : List JobResource} {found : List Breakdown}
    {limits : Limits} {counts : ServerCounts} (hne : counts ≠ [])
    (hlocal : ∀ set ∈ found.flatMap Breakdown.sets, NodeLocal set)
    (h : augment resources found (least / gib) limits = .ok (.extended extended)) :
    ∃ ssd plans, pairedStorage? extended = some ssd ∧
      planSets (found.flatMap Breakdown.sets) counts least = .ok plans ∧
      ((plans.map fun plan => plan.size.toNat).sum ≤ ssd.toNat * gib.toNat ↔
        ∀ set ∈ found.flatMap Breakdown.sets, gib.toNat ∣ perNode least set) := by
  obtain ⟨ssd, hpaired, hssd⟩ := pairedStorage?_of_augment hlocal h
  obtain ⟨plans, hplans, hsizes⟩ := planSets_nodeLocal least hne hlocal
  refine ⟨ssd, plans, hpaired, hplans, ?_⟩
  have hiff := sum_le_whole_iff gib.toNat ((found.flatMap Breakdown.sets).map (perNode least))
  rw [List.map_map, List.forall_mem_map] at hiff
  rw [hsizes, hssd]
  exact hiff

namespace Sample

/-- A breakdown with a file system for every compute node. -/
def fileSystem (capacity : UInt64) : Breakdown :=
  ⟨some breakdownKind, .empty, some ⟨true, some ⟨none, [⟨"xfs", .perCompute, capacity, none⟩]⟩, []⟩⟩

/-- A compute node. -/
def node : JobResource := .counted "node" 1

/-- The least size of an allocation: four GiB. -/
def leastSize : UInt64 := 0x100000000

end Sample

/-- Four GiB are reserved for a file system that is allocated with four and a half. -/
theorem uncovered_half :
    let found := [Sample.fileSystem 0x120000000]
    ∃ extended ssd plans, (∀ set ∈ found.flatMap Breakdown.sets, NodeLocal set) ∧
      augment [Sample.node] found (Sample.leastSize / gib) .unlimited = .ok (.extended extended) ∧
      pairedStorage? extended = some ssd ∧
      planSets (found.flatMap Breakdown.sets) [("rabbit1", 1)] Sample.leastSize = .ok plans ∧
      ssd.toNat * gib.toNat < (plans.map fun plan => plan.size.toNat).sum := by
  refine ⟨[storageSlot Sample.node 1 4], 4, [⟨0x120000000, "xfs", [⟨1, "rabbit1"⟩]⟩], ?_, rfl, rfl,
    rfl, by decide⟩
  simp [Sample.fileSystem, Breakdown.sets, Breakdown.storage?, NodeLocal]

theorem covered_iff_half :
    let counts : ServerCounts := [("rabbit1", 1)]
    let found := [Sample.fileSystem 0x120000000]
    let extended := [storageSlot Sample.node 1 4]
    counts ≠ [] ∧ (∀ set ∈ found.flatMap Breakdown.sets, NodeLocal set) ∧
      augment [Sample.node] found (Sample.leastSize / gib) .unlimited = .ok (.extended extended) ∧
      ∃ ssd plans, pairedStorage? extended = some ssd ∧
        planSets (found.flatMap Breakdown.sets) counts Sample.leastSize = .ok plans ∧
        ((plans.map fun plan => plan.size.toNat).sum ≤ ssd.toNat * gib.toNat ↔
          ∀ set ∈ found.flatMap Breakdown.sets, gib.toNat ∣ perNode Sample.leastSize set) := by
  intro counts found extended
  have nonempty : counts ≠ [] := by decide
  have localSets : ∀ set ∈ found.flatMap Breakdown.sets, NodeLocal set := by
    simp [found, Sample.fileSystem, Breakdown.sets, Breakdown.storage?, NodeLocal]
  have augmented : augment [Sample.node] found (Sample.leastSize / gib) .unlimited =
    .ok (.extended extended) := rfl
  exact ⟨nonempty, localSets, augmented, covered_iff nonempty localSets augmented⟩

end Warren.Allocation
