import Warren.Proofs.Allocation.Vetting

/-!
# Resources with their storage

Storage is added to the resources of a job by putting each of its nodes into a slot, together with
the storage that the breakdowns ask for. `extended_of_augment` says that this changes nothing else,
that the job gets as many nodes as it asked for, how much storage goes with each of them, and that
the order of the breakdowns and of their sets does not matter.
-/

namespace Warren

namespace Allocation

open JobResource (nodesOfAll nodes_eq nodesOfAll_singleton)

/-! ### Slots -/

/-- A slot for every one of a number of nodes, with the storage that goes with the node. -/
structure Pairing (node : JobResource) (ssd : UInt64) (slot : JobResource) : Prop where
  kind : slot.kind = "slot"
  count : slot.count = some node.total
  label : slot.label = some "rabbit"
  contents : slot.children =
    [{ node with count := some 1 }, ⟨"ssd", some ssd, none, some true, [], []⟩]
  plain : slot.exclusive = none ∧ slot.extra = []

/-- Resources before and after storage is added. -/
inductive Extended (ssd : UInt64) : List JobResource → List JobResource → Prop
  | flat {node slot : JobResource} (kind : node.kind = "node") (pairing : Pairing node ssd slot) :
    Extended ssd [node] [slot]
  | grouped {group node slot : JobResource} (kind : group.kind = "chassis" ∨ group.kind = "rack")
    (only : group.children = [node]) (nodes : node.kind = "node")
    (pairing : Pairing node ssd slot) :
    Extended ssd [group] [{ group with children := [slot] }]

theorem pairing_storageSlot (node : JobResource) (ssd : UInt64) :
    Pairing node ssd (storageSlot node node.total ssd) :=
  ⟨rfl, rfl, rfl, rfl, rfl, rfl⟩

theorem Bare.extended {resources : List JobResource} {found : Layout} (h : Bare resources found)
    (ssd : UInt64) : Extended ssd resources [found.withStorage ssd] := by
  cases h with
  | flat kind => exact .flat kind (pairing_storageSlot ..)
  | grouped kind only nodes =>
    exact .grouped (by simpa [groupKinds] using kind) only nodes (pairing_storageSlot ..)

theorem Pairing.nodes_eq {node slot : JobResource} {ssd : UInt64} (h : Pairing node ssd slot)
    (hnode : node.kind = "node") : slot.nodes = node.nodes := by
  have hone : JobResource.nodes { node with count := some 1 } = 1 := by
    rw [JobResource.nodes_eq, if_pos hnode]
    rfl
  have hssd : JobResource.nodes ⟨"ssd", some ssd, none, some true, [], []⟩ = 0 := by
    simp [JobResource.nodes, JobResource.nodesOfAll]
  have htotal : slot.total = node.total := by
    rw [JobResource.total, h.count]
    rfl
  have hslot : slot.kind ≠ "node" := by
    rw [h.kind]
    decide
  rw [JobResource.nodes_eq, JobResource.nodes_eq, if_neg hslot, if_pos hnode, htotal, h.contents]
  simp only [nodesOfAll, hone, hssd]

theorem Extended.nodes_eq {ssd : UInt64} {resources extended : List JobResource}
    (h : Extended ssd resources extended) : nodesOfAll extended = nodesOfAll resources := by
  cases h with
  | flat kind pairing =>
    rw [nodesOfAll_singleton, nodesOfAll_singleton, pairing.nodes_eq kind]
  | @grouped group node slot kind only nodes pairing =>
    have hgroup : group.kind ≠ "node" := by
      obtain h | h := kind <;> rw [h] <;> decide
    rw [nodesOfAll_singleton, nodesOfAll_singleton, JobResource.nodes_eq, JobResource.nodes_eq,
      if_neg hgroup, if_neg hgroup, only, nodesOfAll_singleton, nodesOfAll_singleton,
      pairing.nodes_eq nodes]
    rfl

/-! ### Order -/

variable {nodes floor : UInt64} {r : Reservation}

theorem Booked.of_perm {sets others : List Breakdown.AllocationSet}
    (h : Booked nodes floor sets r) (hperm : others.Perm sets) : Booked nodes floor others r where
  placeable set hset := h.placeable set (hperm.mem_iff.mp hset)
  demand := by
    have hincrements : (increments floor others).Perm (increments floor sets) :=
      hperm.filterMap _
    have hsum := Demand.ofIncrements_eq_ok_iff.mp h.demand
    refine Demand.ofIncrements_eq_ok_iff.mpr fun label hlabel => ?_
    rw [hsum label hlabel, asked_of_perm hincrements]
  ssd := h.ssd.trans (hperm.symm.map _).sum_eq
  applied := by rw [h.applied, hperm.isEmpty_eq]

/-- The same breakdown but for the order of its sets. -/
structure SameSets (b other : Breakdown) : Prop where
  kind : other.kind = b.kind
  ready : other.isReady = b.isReady
  sets : other.sets.Perm b.sets

/-- Breakdowns in any order, each of them with its sets in any order. -/
def Reordered (found others : List Breakdown) : Prop :=
  ∃ between, found.Perm between ∧ List.Forall₂ SameSets between others

theorem SameSets.usable {b other : Breakdown} (h : SameSets b other) (hb : Usable b) :
    Usable other where
  kind := h.kind.trans hb.kind
  ready := h.ready.trans hb.ready
  placeable set hset := hb.placeable set (h.sets.mem_iff.mp hset)

theorem Reordered.usable {found others : List Breakdown} (h : Reordered found others)
    (hfound : ∀ b ∈ found, Usable b) : ∀ b ∈ others, Usable b := by
  obtain ⟨between, hperm, hsame⟩ := h
  have hbetween : ∀ b ∈ between, Usable b := fun b hb => hfound b (hperm.mem_iff.mpr hb)
  clear hperm hfound
  induction hsame with
  | nil => simp
  | cons hfirst _ ih =>
    obtain ⟨hb, hrest⟩ := List.forall_mem_cons.mp hbetween
    exact List.forall_mem_cons.mpr ⟨hfirst.usable hb, ih hrest⟩

theorem Reordered.sets {found others : List Breakdown} (h : Reordered found others) :
    (others.flatMap Breakdown.sets).Perm (found.flatMap Breakdown.sets) := by
  obtain ⟨between, hperm, hsame⟩ := h
  refine List.Perm.trans ?_ (hperm.symm.flatMap_right _)
  clear hperm
  induction hsame with
  | nil => exact .nil
  | cons hfirst _ ih =>
    rw [List.flatMap_cons, List.flatMap_cons]
    exact hfirst.sets.append ih

theorem reserve_of_reordered {found others : List Breakdown} (h : Reordered found others)
    (hreserve : reserve nodes floor found = .ok r) : reserve nodes floor others = .ok r := by
  obtain ⟨husable, hbooked⟩ := reserve_eq_ok_iff.mp hreserve
  exact reserve_eq_ok_iff.mpr ⟨h.usable husable, hbooked.of_perm h.sets⟩

/-! ### Results -/

/-- Where storage is added to the resources of a job, nothing else about them changes. A node goes
with the sum of its shares of all sets, and the order of the sets does not matter. -/
theorem extended_of_augment {resources extended : List JobResource} {found : List Breakdown}
    {limits : Limits} (h : augment resources found floor limits = .ok (.extended extended)) :
    (∃ ssd, Extended ssd resources extended ∧
        ssd.toNat = ((found.flatMap Breakdown.sets).map
          (nodeShare (nodesOfAll resources) floor.toNat)).sum) ∧
      nodesOfAll extended = nodesOfAll resources ∧
      ∀ others, Reordered found others →
        augment resources others floor limits = .ok (.extended extended) := by
  obtain ⟨plan, nodes, reservation, hlayout, hnodes, hreserve, hwithin, happlied, rfl⟩ :=
    augment_extended_iff.mp h
  obtain ⟨hnone, -⟩ | ⟨bare, hsome, hbare⟩ := layout_cases hlayout
  · cases hnone
  obtain rfl := Option.some.inj hsome
  have hextended := hbare.extended reservation.ssd
  refine ⟨⟨reservation.ssd, hextended, ?_⟩, hextended.nodes_eq, fun others hothers => ?_⟩
  · have hexact := hnodes
    rw [hbare.nodes_eq, Crash.fit64_eq_ok_iff] at hexact
    rw [← hexact]
    exact (reserve_eq_ok_iff.mp hreserve).2.ssd
  · exact augment_extended_iff.mpr ⟨plan, nodes, reservation, hlayout, hnodes,
      reserve_of_reordered hothers hreserve, hwithin, happlied, rfl⟩

namespace Sample

/-- Nodes that are asked for with cores and a field of their own. -/
def coreNode : JobResource :=
  { JobResource.counted "node" 3 with
    children := [.counted "core" 8]
    extra := [("unit", .string "all")] }

def rackOf (content : JobResource) : JobResource :=
  { JobResource.counted "rack" 2 with children := [content] }

/-- A file system of half a GiB for each node, and ten TiB of lustre. -/
def mixed : Breakdown :=
  ⟨some breakdownKind, .empty, some ⟨true, some ⟨none, [⟨"xfs", .perCompute, 0x20000000, none⟩,
    ⟨"ost", .acrossServers, 0xA0000000000, none⟩]⟩, []⟩⟩

end Sample

/-- Six nodes in two racks: the file system counts as one GiB, and the lustre is shared by six. -/
theorem extended_of_augment_rack :
    let resources := [Sample.rackOf Sample.coreNode]
    let found := [Sample.mixed]
    let extended := [Sample.rackOf (storageSlot Sample.coreNode 3 1707)]
    augment resources found 1 .unlimited = .ok (.extended extended) ∧
      (∃ ssd, Extended ssd resources extended ∧ ssd.toNat = ((found.flatMap Breakdown.sets).map
        (nodeShare (nodesOfAll resources) (1 : UInt64).toNat)).sum) ∧
      nodesOfAll extended = nodesOfAll resources ∧
      ∀ others, Reordered found others →
        augment resources others 1 .unlimited = .ok (.extended extended) := by
  intro resources found extended
  have augmented : augment resources found 1 .unlimited = .ok (.extended extended) := rfl
  exact ⟨augmented, extended_of_augment augmented⟩

end Allocation

end Warren
