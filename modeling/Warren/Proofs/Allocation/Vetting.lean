import Warren.Proofs.Allocation.Reservations

/-!
# What a job may reserve

Resources that are paired with storage already are kept as they are, whatever the breakdowns say.
All others get their storage only if every breakdown can be used and the demand of all sets together
stays within the limits: `vetted_of_augment`.
-/

namespace Warren

namespace JobResource

mutual

/-- The number of compute nodes of a resource: what a node holds is part of the node. -/
def nodes : JobResource → Nat
  | ⟨kind, count, _, _, children, _⟩ =>
    (count.getD 1).toNat * if kind = "node" then 1 else nodesOfAll children

def nodesOfAll : List JobResource → Nat
  | [] => 0
  | r :: rest => nodes r + nodesOfAll rest

end

theorem nodes_eq (r : JobResource) :
    r.nodes = r.total.toNat * if r.kind = "node" then 1 else nodesOfAll r.children := by
  cases r
  rw [nodes]
  rfl

theorem nodesOfAll_singleton (r : JobResource) : nodesOfAll [r] = r.nodes := by
  simp [nodesOfAll]

end JobResource

namespace Allocation

open JobResource (nodesOfAll nodes_eq nodesOfAll_singleton)

/-! ### Shapes of resources -/

/-- Resources that are taken to be paired with storage already: slots for a node and storage at the
top, or slots with storage in a group. -/
inductive Paired : List JobResource → Prop
  | slots {first : JobResource} {rest : List JobResource} (kind : first.kind = "slot")
    (two : first.children.length = 2)
    (contents : ∀ child ∈ first.children, child.kind = "ssd" ∨ child.kind = "node") :
    Paired (first :: rest)
  | grouped {group slots storage : JobResource} (kind : group.kind ∈ groupKinds)
    (only : group.children = [slots]) (slot : slots.kind = "slot")
    (part : storage ∈ slots.children) (ssd : storage.kind = "ssd") : Paired [group]

theorem groupLayout?_cases {group : JobResource} {outcome : Option Layout}
    (h : groupLayout? group = some outcome) :
    (outcome = none ∧ Paired [group]) ∨
      ∃ child, groupKinds.contains group.kind = true ∧ group.children = [child] ∧
        child.kind = "node" ∧ outcome = some (.grouped group child) := by
  unfold groupLayout? at h
  split at h
  · rename_i child hgroup hchildren
    split at h
    · rename_i hslot
      obtain ⟨storage, hpart, hssd⟩ := List.any_eq_true.mp hslot.2
      exact Or.inl ⟨(Option.some.inj h).symm,
        .grouped (List.contains_iff_mem.mp hgroup) hchildren hslot.1 hpart
          (of_decide_eq_true hssd)⟩
    · split at h
      · rename_i hnode
        exact Or.inr ⟨child, hgroup, hchildren, hnode, (Option.some.inj h).symm⟩
      · cases h
  · cases h

/-- Resources that storage can be added to: a node, or a group that holds a node and nothing
else. -/
inductive Bare : List JobResource → Layout → Prop
  | flat {node : JobResource} (kind : node.kind = "node") : Bare [node] (.flat node)
  | grouped {group node : JobResource} (kind : group.kind ∈ groupKinds)
    (only : group.children = [node]) (nodes : node.kind = "node") :
    Bare [group] (.grouped group node)

theorem Bare.nodes_eq {resources : List JobResource} {found : Layout}
    (h : Bare resources found) : found.nodes = Crash.fit64 (nodesOfAll resources) := by
  cases h with
  | flat kind =>
    rw [nodesOfAll_singleton, JobResource.nodes_eq, if_pos kind, Nat.mul_one]
    exact (Crash.fit64_eq_ok_iff.mpr rfl).symm
  | @grouped group node kind only nodes =>
    have hgroup : group.kind ≠ "node" := fun h => absurd (h ▸ kind) (by decide)
    rw [nodesOfAll_singleton, JobResource.nodes_eq, if_neg hgroup, only, nodesOfAll_singleton,
      JobResource.nodes_eq, if_pos nodes, Nat.mul_one]
    rfl

theorem layout_cases {resources : List JobResource} {outcome : Option Layout}
    (h : layout resources = .ok outcome) :
    (outcome = none ∧ Paired resources) ∨
      ∃ found, outcome = some found ∧ Bare resources found := by
  cases resources with
  | nil => cases h
  | cons first rest =>
    simp only [layout] at h
    split at h
    · rename_i hslot
      split at h
      · cases h
      · rename_i hcontents
        refine Or.inl ⟨(Except.ok.inj h).symm, .slots hslot.1 hslot.2 fun child hchild => ?_⟩
        have hkind := List.find?_eq_none.mp hcontents child hchild
        by_cases hssd : child.kind = "ssd"
        · exact Or.inl hssd
        · exact Or.inr (by simpa [hssd] using hkind)
    · split at h
      · cases h
      · rename_i hrest
        obtain rfl : rest = [] := by simpa using hrest
        split at h
        · rename_i hnode
          exact Or.inr ⟨_, (Except.ok.inj h).symm, .flat hnode⟩
        · split at h
          · rename_i found hgroup
            obtain rfl := Except.ok.inj h
            obtain hpaired | ⟨child, hkind, hchildren, hchild, rfl⟩ := groupLayout?_cases hgroup
            · exact Or.inl hpaired
            · exact Or.inr ⟨_, rfl, .grouped (List.contains_iff_mem.mp hkind) hchildren hchild⟩
          · cases h

/-! ### Demands -/

/-- What a number of sets asks for together, as long as words hold the sums. -/
def requested (floor : UInt64) (sets : List Breakdown.AllocationSet) : Except Crash Demand :=
  Demand.ofIncrements (increments floor sets)

theorem Demand.le_of_validate {d : Demand} {limits : Limits} {nodes : UInt64}
    (h : d.validate limits nodes = .ok ()) {b : Bucket} (hb : b ∈ d.buckets limits nodes)
    {limit : UInt64} (hlimit : b.limit = some limit) : b.requested ≤ limit := by
  unfold Demand.validate at h
  split at h
  · cases h
  · rename_i hnone
    have hfault : b.fault? = none := List.findSome?_eq_none_iff.mp hnone b hb
    rw [Bucket.fault?, hlimit] at hfault
    dsimp only at hfault
    split at hfault
    · cases hfault
    · rename_i hle
      exact UInt64.not_lt.mp hle

/-- Breakdowns that can be used and ask for no more than the limits allow. -/
structure Vetted (limits : Limits) (floor nodes : UInt64) (found : List Breakdown) : Prop where
  kinds : ∀ b ∈ found, b.kind = some breakdownKind
  ready : ∀ b ∈ found, b.isReady = true
  placeable : ∀ b ∈ found, ∀ set ∈ b.sets, Placeable set
  within : ∃ demand, requested floor (found.flatMap Breakdown.sets) = .ok demand ∧
    demand.validate limits nodes = .ok ()

/-! ### Results -/

variable {floor : UInt64} {resources : List JobResource} {found : List Breakdown}
  {limits : Limits}

/-- Storage is added to resources by a reservation that is within the limits. -/
theorem augment_extended_iff {extended : List JobResource} :
    augment resources found floor limits = .ok (.extended extended) ↔
      ∃ plan nodes reservation, layout resources = .ok (some plan) ∧ plan.nodes = .ok nodes ∧
        reserve nodes floor found = .ok reservation ∧
        reservation.demand.validate limits nodes = .ok () ∧ reservation.applied = true ∧
        extended = [plan.withStorage reservation.ssd] := by
  constructor
  · intro h
    obtain ⟨plan, hlayout, h⟩ := ok_of_bind h
    rw [Failure.ofFault_eq_ok_iff] at hlayout
    cases plan with
    | none => cases h
    | some plan =>
      obtain ⟨nodes, hnodes, h⟩ := ok_of_bind h
      obtain ⟨reservation, hreserve, h⟩ := ok_of_bind h
      obtain ⟨⟨⟩, hwithin, h⟩ := ok_of_bind h
      split at h
      · rename_i happlied
        exact ⟨plan, nodes, reservation, hlayout, Failure.ofCrash_eq_ok_iff.mp hnodes, hreserve,
          Failure.ofFault_eq_ok_iff.mp hwithin, happlied,
          (Augmentation.extended.inj (Except.ok.inj h)).symm⟩
      · cases h
  · rintro ⟨plan, nodes, reservation, hlayout, hnodes, hreserve, hwithin, happlied, rfl⟩
    rw [augment, hlayout, Failure.ofFault_ok, bind_of_ok rfl]
    dsimp only
    rw [hnodes, Failure.ofCrash_ok, bind_of_ok rfl, bind_of_ok hreserve, hwithin,
      Failure.ofFault_ok, bind_of_ok rfl, if_pos happlied]
    rfl

/-- The resources of a job are either taken to have their storage, or they get it only within the
limits. -/
theorem vetted_of_augment {outcome : Augmentation}
    (h : augment resources found floor limits = .ok outcome) :
    (Paired resources ∧ outcome = .alreadyApplied) ∨
      ∃ nodes : UInt64, nodes.toNat = nodesOfAll resources ∧ Vetted limits floor nodes found := by
  obtain ⟨plan, hlayout, h⟩ := ok_of_bind h
  rw [Failure.ofFault_eq_ok_iff] at hlayout
  obtain ⟨rfl, hpaired⟩ | ⟨plan, rfl, hbare⟩ := layout_cases hlayout
  · exact .inl ⟨hpaired, (Except.ok.inj h).symm⟩
  · obtain ⟨nodes, hnodes, h⟩ := ok_of_bind h
    obtain ⟨reservation, hreserve, h⟩ := ok_of_bind h
    obtain ⟨⟨⟩, hwithin, -⟩ := ok_of_bind h
    rw [Failure.ofCrash_eq_ok_iff, hbare.nodes_eq, Crash.fit64_eq_ok_iff] at hnodes
    obtain ⟨husable, hbooked⟩ := reserve_eq_ok_iff.mp hreserve
    exact .inr ⟨nodes, hnodes, fun b hb => (husable b hb).kind, fun b hb => (husable b hb).ready,
      fun b hb => (husable b hb).placeable, reservation.demand, hbooked.demand,
      Failure.ofFault_eq_ok_iff.mp hwithin⟩

end Allocation

end Warren
