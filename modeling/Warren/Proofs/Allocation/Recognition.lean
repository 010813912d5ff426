import Warren.Proofs.Allocation.Extension

/-!
# Resources that are taken to have their storage

Whether storage was added to the resources of a job is told from their shape. Every shape in which
storage is added is told, so that nothing is added twice: `alreadyApplied_of_extended`. The converse
fails, as a slot with two nodes is taken for one with a node and its storage; `applied_without_iff`
says which resources are taken to have storage and have none.
-/

namespace Warren

namespace JobResource

/-! ### Resources at any depth -/

/-- A resource that is among some resources or, at any depth, below one of them. -/
inductive Within (r : JobResource) : List JobResource → Prop
  | here {rs : List JobResource} (mem : r ∈ rs) : Within r rs
  | deeper {rs : List JobResource} {parent : JobResource} (mem : parent ∈ rs)
    (inside : Within r parent.children) : Within r rs

theorem not_within_nil (r : JobResource) : ¬Within r [] := by
  intro h
  cases h with
  | here mem => cases mem
  | deeper mem _ => cases mem

theorem within_cons {r first : JobResource} {rest : List JobResource} :
    Within r (first :: rest) ↔ r = first ∨ Within r first.children ∨ Within r rest := by
  constructor
  · intro h
    cases h with
    | here mem =>
      obtain rfl | mem := List.mem_cons.mp mem
      · exact .inl rfl
      · exact .inr (.inr (.here mem))
    | deeper mem inside =>
      obtain rfl | mem := List.mem_cons.mp mem
      · exact .inr (.inl inside)
      · exact .inr (.inr (.deeper mem inside))
  · rintro (rfl | h | h)
    · exact .here (List.mem_cons_self ..)
    · exact .deeper (List.mem_cons_self ..) h
    · cases h with
      | here mem => exact .here (List.mem_cons_of_mem _ mem)
      | deeper mem inside => exact .deeper (List.mem_cons_of_mem _ mem) inside

theorem Within.child {parent r : JobResource} {rs : List JobResource} (h : Within parent rs)
    (hr : r ∈ parent.children) : Within r rs := by
  induction h with
  | here mem => exact .deeper mem (.here hr)
  | deeper mem _ ih => exact .deeper mem ih

/-! ### Storage -/

/-- A slot with storage next to a node. -/
structure Stocked (slot : JobResource) : Prop where
  kind : slot.kind = "slot"
  storage : ∃ r ∈ slot.children, r.kind = "ssd"
  node : ∃ r ∈ slot.children, r.kind = "node"

/-- Somewhere among some resources there is a slot with storage next to a node. -/
def HasStorage (rs : List JobResource) : Prop := ∃ slot, Within slot rs ∧ Stocked slot

theorem not_hasStorage_nil : ¬HasStorage [] := fun ⟨slot, h, _⟩ => not_within_nil slot h

theorem hasStorage_cons {first : JobResource} {rest : List JobResource} :
    HasStorage (first :: rest) ↔
      Stocked first ∨ HasStorage first.children ∨ HasStorage rest := by
  simp only [HasStorage, within_cons, or_and_right, exists_or, exists_eq_left]

theorem HasStorage.exists_ssd {rs : List JobResource} (h : HasStorage rs) :
    ∃ r, Within r rs ∧ r.kind = "ssd" := by
  obtain ⟨slot, hslot, stocked⟩ := h
  obtain ⟨r, hr, hssd⟩ := stocked.storage
  exact ⟨r, hslot.child hr, hssd⟩

theorem stocked_of_ne {slot a b : JobResource} (kind : slot.kind = "slot")
    (hchildren : slot.children = [a, b]) (ha : a.kind = "ssd" ∨ a.kind = "node")
    (hb : b.kind = "ssd" ∨ b.kind = "node") (hne : a.kind ≠ b.kind) : Stocked slot := by
  have hleft : a ∈ slot.children := by simp [hchildren]
  have hright : b ∈ slot.children := by simp [hchildren]
  obtain ha | ha := ha
  · have hb : b.kind = "node" := hb.resolve_left fun hb => hne (ha.trans hb.symm)
    exact ⟨kind, ⟨a, hleft, ha⟩, b, hright, hb⟩
  · have hb : b.kind = "ssd" := hb.resolve_right fun hb => hne (ha.trans hb.symm)
    exact ⟨kind, ⟨b, hright, hb⟩, a, hleft, ha⟩

end JobResource

namespace Allocation

open JobResource (Within Stocked HasStorage hasStorage_cons not_hasStorage_nil stocked_of_ne)

variable {resources extended : List JobResource} {found : List Breakdown} {floor : UInt64}
  {limits : Limits}

/-! ### Shapes that are told -/

theorem Paired.layout_eq (h : Paired resources) : layout resources = .ok none := by
  cases h with
  | @slots first rest kind two contents =>
    have hfind : (first.children.find? fun child => child.kind ≠ "ssd" ∧ child.kind ≠ "node") =
        none := by
      refine List.find?_eq_none.mpr fun child hchild => ?_
      obtain h | h := contents child hchild <;> simp [h]
    simp only [layout]
    rw [if_pos ⟨kind, two⟩, hfind]
  | @grouped group slots storage kind only slot part ssd =>
    have hslot : group.kind ≠ "slot" := fun h => absurd (h ▸ kind) (by decide)
    have hnode : group.kind ≠ "node" := fun h => absurd (h ▸ kind) (by decide)
    have hany : slots.children.any (·.kind = "ssd") = true :=
      List.any_eq_true.mpr ⟨storage, part, decide_eq_true ssd⟩
    have hgroup : groupLayout? group = some none := by
      rw [groupLayout?, List.contains_iff_mem.mpr kind, only]
      exact if_pos ⟨slot, hany⟩
    simp only [layout]
    rw [if_neg fun h => hslot h.1, if_neg (by simp), if_neg hnode, hgroup]

theorem layout_eq_none_iff : layout resources = .ok none ↔ Paired resources := by
  refine ⟨fun h => ?_, Paired.layout_eq⟩
  obtain ⟨-, hpaired⟩ | ⟨found, hfound, -⟩ := layout_cases h
  · exact hpaired
  · cases hfound

/-- Resources are handed back as they are only for their shape, whatever is asked for. -/
theorem augment_alreadyApplied_iff :
    augment resources found floor limits = .ok .alreadyApplied ↔ Paired resources := by
  rw [← layout_eq_none_iff]
  constructor
  · intro h
    obtain ⟨plan, hlayout, h⟩ := ok_of_bind h
    rw [Failure.ofFault_eq_ok_iff] at hlayout
    cases plan with
    | none => exact hlayout
    | some plan =>
      obtain ⟨nodes, -, h⟩ := ok_of_bind h
      obtain ⟨reservation, -, h⟩ := ok_of_bind h
      obtain ⟨-, -, h⟩ := ok_of_bind h
      split at h <;> cases h
  · intro h
    rw [augment, h]
    rfl

/-! ### Storage is added once -/

theorem Pairing.contents_kind {node slot : JobResource} {ssd : UInt64} (h : Pairing node ssd slot)
    (hnode : node.kind = "node") : ∀ child ∈ slot.children,
      child.kind = "ssd" ∨ child.kind = "node" := by
  rw [h.contents]
  simp [hnode]

/-- The shapes in which storage is added are among those that are told. -/
theorem Extended.paired {ssd : UInt64} (h : Extended ssd resources extended) : Paired extended := by
  cases h with
  | flat kind pairing =>
    exact .slots pairing.kind (by rw [pairing.contents]; rfl) (pairing.contents_kind kind)
  | @grouped group node slot kind only nodes pairing =>
    have hgroup : group.kind ∈ groupKinds := by simpa [groupKinds] using kind
    have hpart : ⟨"ssd", some ssd, none, some true, [], []⟩ ∈ slot.children := by
      rw [pairing.contents]
      simp
    exact .grouped hgroup rfl pairing.kind hpart rfl

/-- Resources to which storage was added are told from then on, whatever is asked for later. -/
theorem alreadyApplied_of_extended
    (h : augment resources found floor limits = .ok (.extended extended))
    (others : List Breakdown) (least : UInt64) (ceilings : Limits) :
    augment extended others least ceilings = .ok .alreadyApplied := by
  obtain ⟨plan, nodes, reservation, hlayout, -, -, -, -, rfl⟩ := augment_extended_iff.mp h
  obtain ⟨hnone, -⟩ | ⟨bare, hsome, hbare⟩ := layout_cases hlayout
  · cases hnone
  obtain rfl := Option.some.inj hsome
  exact augment_alreadyApplied_iff.mpr (hbare.extended reservation.ssd).paired

/-- Nodes in racks with their storage are told where lustre would be refused, and for a breakdown
of no kind. -/
theorem alreadyApplied_of_extended_rack :
    let extended := [Sample.rackOf (storageSlot Sample.coreNode 3 1707)]
    let ceilings : Limits := { Limits.unlimited with lustre := some 0 }
    augment [Sample.rackOf Sample.coreNode] [Sample.mixed] 1 .unlimited = .ok (.extended extended) ∧
      augment extended [Sample.mixed, { Sample.mixed with kind := none }] 4 ceilings =
        .ok .alreadyApplied := by
  intro extended ceilings
  have added : augment [Sample.rackOf Sample.coreNode] [Sample.mixed] 1 .unlimited =
      .ok (.extended extended) := rfl
  exact ⟨added, alreadyApplied_of_extended added _ 4 ceilings⟩

/-! ### Shapes that are told and have no storage -/

/-- A slot for two resources of a kind and nothing else. -/
structure Twins (part : String) (slot : JobResource) : Prop where
  kind : slot.kind = "slot"
  contents : ∃ a b, slot.children = [a, b] ∧ a.kind = part ∧ b.kind = part

/-- A group of slots with storage that hold no node. -/
structure Nodeless (group : JobResource) : Prop where
  kind : group.kind ∈ groupKinds
  contents : ∃ slots, group.children = [slots] ∧ slots.kind = "slot" ∧
    (∃ r ∈ slots.children, r.kind = "ssd") ∧ ∀ r ∈ slots.children, r.kind ≠ "node"

/-- Resources whose slots have storage next to a node, in the place that is looked at. -/
inductive Equipped : List JobResource → Prop
  | slots {slot : JobResource} {rest : List JobResource} (stocked : Stocked slot)
    (two : slot.children.length = 2) : Equipped (slot :: rest)
  | grouped {group slots : JobResource} (kind : group.kind ∈ groupKinds)
    (only : group.children = [slots]) (stocked : Stocked slots) : Equipped [group]

/-- Resources whose shape is told although the slots that are looked at do not have storage next to
a node. -/
inductive Misread : List JobResource → Prop
  | twins {part : String} {slot : JobResource} {rest : List JobResource}
    (either : part = "ssd" ∨ part = "node") (twins : Twins part slot) : Misread (slot :: rest)
  | nodeless {group : JobResource} (nodeless : Nodeless group) : Misread [group]

/-- Resources whose shape is told although it is not one of storage next to a node, and that do not
have that in another place. -/
inductive Mistaken : List JobResource → Prop
  | twins {part : String} {slot : JobResource} {rest : List JobResource}
    (either : part = "ssd" ∨ part = "node") (twins : Twins part slot)
    (elsewhere : ¬HasStorage slot.children ∧ ¬HasStorage rest) : Mistaken (slot :: rest)
  | nodeless {group : JobResource} (nodeless : Nodeless group)
    (elsewhere : ∀ slots ∈ group.children, ¬HasStorage slots.children) : Mistaken [group]

/-- A slot for two nodes comes first. -/
def TwinNodes (resources : List JobResource) : Prop :=
  ∃ slot rest, resources = slot :: rest ∧ Twins "node" slot

theorem Twins.kind_of_mem {part : String} {slot r : JobResource} (h : Twins part slot)
    (hr : r ∈ slot.children) : r.kind = part := by
  obtain ⟨a, b, hchildren, ha, hb⟩ := h.contents
  rw [hchildren, List.mem_cons, List.mem_singleton] at hr
  obtain rfl | rfl := hr
  · exact ha
  · exact hb

theorem Twins.not_stocked {part : String} {slot : JobResource} (h : Twins part slot) :
    ¬Stocked slot := by
  rintro ⟨-, ⟨storage, hstorage, hssd⟩, node, hnode, hkind⟩
  have hsame := (h.kind_of_mem hstorage).trans (h.kind_of_mem hnode).symm
  rw [hssd, hkind] at hsame
  exact absurd hsame (by decide)

theorem Twins.paired {part : String} {slot : JobResource} (h : Twins part slot)
    (either : part = "ssd" ∨ part = "node") (rest : List JobResource) : Paired (slot :: rest) := by
  obtain ⟨a, b, hchildren, -⟩ := h.contents
  refine .slots h.kind (by rw [hchildren]; rfl) fun child hchild => ?_
  rwa [h.kind_of_mem hchild]

theorem Mistaken.paired (h : Mistaken resources) : Paired resources := by
  cases h with
  | twins either twins _ => exact twins.paired either _
  | nodeless nodeless _ =>
    obtain ⟨slots, honly, hslot, ⟨storage, hstorage, hssd⟩, -⟩ := nodeless.contents
    exact .grouped nodeless.kind honly hslot hstorage hssd

theorem Mistaken.not_hasStorage (h : Mistaken resources) : ¬HasStorage resources := by
  cases h with
  | twins either twins elsewhere =>
    rw [hasStorage_cons]
    rintro (h | h | h)
    · exact twins.not_stocked h
    · exact elsewhere.1 h
    · exact elsewhere.2 h
  | @nodeless group nodeless elsewhere =>
    obtain ⟨slots, honly, -, -, hnone⟩ := nodeless.contents
    have hslots := elsewhere slots (by simp [honly])
    rw [hasStorage_cons, honly, hasStorage_cons]
    rintro (h | (h | h | h) | h)
    · exact absurd (h.kind ▸ nodeless.kind) (by decide)
    · obtain ⟨node, hnode, hkind⟩ := h.node
      exact hnone node hnode hkind
    · exact hslots h
    · exact not_hasStorage_nil h
    · exact not_hasStorage_nil h

theorem Paired.mistaken (h : Paired resources) (hnone : ¬HasStorage resources) :
    Mistaken resources := by
  cases h with
  | @slots first rest kind two contents =>
    rw [hasStorage_cons, not_or, not_or] at hnone
    obtain ⟨a, b, hchildren⟩ := List.length_eq_two.mp two
    have ha := contents a (by simp [hchildren])
    have hb := contents b (by simp [hchildren])
    have hsame : b.kind = a.kind := by
      by_contra hne
      exact hnone.1 (stocked_of_ne kind hchildren ha hb (Ne.symm hne))
    exact .twins ha ⟨kind, a, b, hchildren, rfl, hsame⟩ hnone.2
  | @grouped group slots storage kind only slot part ssd =>
    rw [hasStorage_cons, only, hasStorage_cons, not_or, not_or, not_or, not_or] at hnone
    obtain ⟨-, ⟨hslots, hinside, -⟩, -⟩ := hnone
    refine .nodeless ⟨kind, slots, only, slot, ⟨storage, part, ssd⟩, fun r hr hnode => ?_⟩ ?_
    · exact hslots ⟨slot, ⟨storage, part, ssd⟩, r, hr, hnode⟩
    · simpa [only] using hinside

/-- A shape that is told is that of slots with storage next to a node, or it is misread. -/
theorem Paired.equipped_or_misread (h : Paired resources) :
    Equipped resources ∨ Misread resources := by
  cases h with
  | @slots first rest kind two contents =>
    obtain ⟨a, b, hchildren⟩ := List.length_eq_two.mp two
    have ha := contents a (by simp [hchildren])
    have hb := contents b (by simp [hchildren])
    by_cases hsame : b.kind = a.kind
    · exact .inr (.twins ha ⟨kind, a, b, hchildren, rfl, hsame⟩)
    · exact .inl (.slots (stocked_of_ne kind hchildren ha hb (Ne.symm hsame)) two)
  | @grouped group slots storage kind only slot part ssd =>
    by_cases hnode : ∃ r ∈ slots.children, r.kind = "node"
    · exact .inl (.grouped kind only ⟨slot, ⟨storage, part, ssd⟩, hnode⟩)
    · refine .inr (.nodeless ⟨kind, slots, only, slot, ⟨storage, part, ssd⟩, fun r hr hkind => ?_⟩)
      exact hnode ⟨r, hr, hkind⟩

theorem TwinNodes.paired (h : TwinNodes resources) : Paired resources := by
  obtain ⟨slot, rest, rfl, twins⟩ := h
  exact twins.paired (.inr rfl) rest

theorem Paired.twinNodes (h : Paired resources)
    (hnone : ∀ r, Within r resources → r.kind ≠ "ssd") : TwinNodes resources := by
  cases h with
  | @slots first rest kind two contents =>
    obtain ⟨a, b, hchildren⟩ := List.length_eq_two.mp two
    have hnode : ∀ child ∈ first.children, child.kind = "node" := fun child hchild =>
      (contents child hchild).resolve_left
        (hnone child (.deeper (List.mem_cons_self ..) (.here hchild)))
    exact ⟨first, rest, rfl, kind, a, b, hchildren, hnode a (by simp [hchildren]),
      hnode b (by simp [hchildren])⟩
  | @grouped group slots storage kind only slot part ssd =>
    have hslots : slots ∈ group.children := by simp [only]
    have hwithin : Within storage group.children := .deeper hslots (.here part)
    exact absurd ssd (hnone storage (.deeper (List.mem_cons_self ..) hwithin))

/-- Resources are taken to have storage and have none exactly if they are mistaken for others. Of
those without any storage, these are the ones with a slot for two nodes in front. -/
theorem applied_without_iff (resources : List JobResource) (found : List Breakdown)
    (floor : UInt64) (limits : Limits) :
    (augment resources found floor limits = .ok .alreadyApplied ∧ ¬HasStorage resources ↔
        Mistaken resources) ∧
      ((∀ r, Within r resources → r.kind ≠ "ssd") →
        (augment resources found floor limits = .ok .alreadyApplied ↔ TwinNodes resources)) := by
  rw [augment_alreadyApplied_iff]
  constructor
  · exact ⟨fun h => h.1.mistaken h.2, fun h => ⟨h.paired, h.not_hasStorage⟩⟩
  · exact fun hnone => ⟨fun h => h.twinNodes hnone, TwinNodes.paired⟩

namespace Sample

def slotOf (contents : List JobResource) : JobResource :=
  { JobResource.counted "slot" 1 with children := contents }

end Sample

/-- Two nodes in a slot are handed back as they are, without the storage that is asked for. -/
theorem twin_nodes_applied :
    let resources := [Sample.slotOf [.counted "node" 1, .counted "node" 1]]
    augment resources [Sample.mixed] 1 .unlimited = .ok .alreadyApplied ∧
      (∀ r, Within r resources → r.kind ≠ "ssd") ∧ ¬HasStorage resources := by
  intro resources
  have hnone : ∀ r, Within r resources → r.kind ≠ "ssd" := by
    simp [resources, Sample.slotOf, JobResource.counted, JobResource.within_cons,
      JobResource.not_within_nil]
  refine ⟨rfl, hnone, fun h => ?_⟩
  obtain ⟨r, hr, hssd⟩ := h.exists_ssd
  exact hnone r hr hssd

/-- So are they where further nodes follow the slot. -/
theorem applied_without_iff_followed :
    let resources := [Sample.slotOf [.counted "node" 1, .counted "node" 1], .counted "node" 2]
    (∀ r, Within r resources → r.kind ≠ "ssd") ∧
      augment resources [Sample.mixed] 1 .unlimited = .ok .alreadyApplied := by
  intro resources
  have hnone : ∀ r, Within r resources → r.kind ≠ "ssd" := by
    simp [resources, Sample.slotOf, JobResource.counted, JobResource.within_cons,
      JobResource.not_within_nil]
  have htwins : TwinNodes resources := ⟨_, _, rfl, rfl, _, _, rfl, rfl, rfl⟩
  exact ⟨hnone, ((applied_without_iff resources [Sample.mixed] 1 .unlimited).2 hnone).mpr htwins⟩

end Allocation

end Warren
