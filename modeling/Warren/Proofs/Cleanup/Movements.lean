import Warren.Cleanup.Basic
import Warren.Proofs.Api.Selection

/-!
# Data movements that are kept

At the end of a job some of its data movements are kept, up to a number of them, and those that
failed should be among them. No more are asked for than are kept, so what is found are the first
ones in the order of their keys, and only these are rearranged (`run_dataMovements`). A failed one
is left out as soon as enough others come before it: `representative_iff` says when this is so.
-/

namespace Warren.Cleanup

/-! ### Draws -/

/-- Some data movements out of a list: up to a number of them, the failed ones before the others. -/
structure Drawn (source : List Json) (count : Nat) (found : List Json) : Prop where
  length : found.length = min count source.length
  distinct : found.Nodup
  own : ∀ m ∈ found, m ∈ source
  ordered : found.Pairwise fun a b => dataMovementFailed b = true → dataMovementFailed a = true

/-- Data movements of which no other one is kept in place of one that failed. -/
structure Representative (source : List Json) (count : Nat) (found : List Json) : Prop
    extends Drawn source count found where
  complete : (∃ m ∈ found, dataMovementFailed m = false) →
    ∀ m ∈ source, dataMovementFailed m = true → m ∈ found

/-- A data movement that failed stands behind the first ones, and one of these did not fail. -/
def CrowdedOut (source : List Json) (count : Nat) : Prop :=
  (∃ m ∈ source.take count, dataMovementFailed m = false) ∧
    ∃ m ∈ source.drop count, dataMovementFailed m = true

instance (source : List Json) (count : Nat) : Decidable (CrowdedOut source count) :=
  inferInstanceAs (Decidable (_ ∧ _))

def failedFirst (items : List Json) : List Json :=
  items.filter dataMovementFailed ++ items.filter (!dataMovementFailed ·)

theorem failedFirst_perm (items : List Json) : (failedFirst items).Perm items :=
  List.filter_append_perm dataMovementFailed items

theorem ordered_failedFirst (items : List Json) : (failedFirst items).Pairwise fun a b =>
    dataMovementFailed b = true → dataMovementFailed a = true := by
  have hfront : ∀ m ∈ items.filter dataMovementFailed, dataMovementFailed m = true := by simp
  have hback : ∀ m ∈ items.filter (!dataMovementFailed ·), dataMovementFailed m = false := by simp
  refine List.pairwise_append.mpr ⟨?_, ?_, fun a ha _ _ _ => hfront a ha⟩
  · exact List.pairwise_iff_forall_sublist.mpr fun h _ => hfront _ (h.subset (by simp))
  · refine List.pairwise_iff_forall_sublist.mpr fun h hb => ?_
    rw [hback _ (h.subset (by simp))] at hb
    cases hb

variable {source : List Json} {count : Nat}

theorem drawn_failedFirst (h : source.Nodup) (count : Nat) :
    Drawn source count (failedFirst (source.take count)) where
  length := by rw [(failedFirst_perm _).length_eq, List.length_take]
  distinct := (failedFirst_perm _).nodup_iff.mpr (h.sublist (List.take_sublist ..))
  own m hm := List.mem_of_mem_take ((failedFirst_perm _).mem_iff.mp hm)
  ordered := ordered_failedFirst _

theorem representative_failedFirst_iff (h : source.Nodup) (count : Nat) :
    Representative source count (failedFirst (source.take count)) ↔ ¬CrowdedOut source count := by
  have hmem (m : Json) : m ∈ failedFirst (source.take count) ↔ m ∈ source.take count :=
    (failedFirst_perm _).mem_iff
  have hsplit : source.take count ++ source.drop count = source := List.take_append_drop ..
  constructor
  · rintro hrep ⟨⟨other, hother, hkept⟩, m, hm, hfailed⟩
    have hin : m ∈ source.take count := (hmem m).mp
      (hrep.complete ⟨other, (hmem other).mpr hother, hkept⟩ m (List.mem_of_mem_drop hm) hfailed)
    -- it would be found twice, in front and behind
    rw [← hsplit] at h
    exact (List.nodup_append.mp h).2.2 m hin m hm rfl
  · intro hcrowded
    refine ⟨drawn_failedFirst h count, ?_⟩
    rintro ⟨other, hother, hkept⟩ m hm hfailed
    rw [← hsplit] at hm
    obtain hm | hm := List.mem_append.mp hm
    · exact (hmem m).mpr hm
    · exact absurd ⟨⟨other, (hmem other).mp hother, hkept⟩, m, hm, hfailed⟩ hcrowded

/-! ### Requests -/

variable {s : Api.Server} {name : String}

/-- The data movements that carry the labels of a workflow, in the order of their keys. -/
def movementsOf (s : Api.Server) (name : String) : List Json :=
  (s.objectsIn .dataMovement .cluster).filter (Api.BelongsTo name)

/-- The data movements that the request for those of a workflow finds. -/
def selected (s : Api.Server) (name : String) : List Json :=
  (s.objectsIn .dataMovement .cluster).filter
    (Api.matchesSelector · (some (Api.workflowSelector name)))

theorem selected_eq_movementsOf (h : ',' ∉ name.toList) (s : Api.Server) :
    selected s name = movementsOf s name :=
  List.filter_congr fun object _ => by
    rw [Bool.eq_iff_iff, Api.matchesSelector_iff h, decide_eq_true_eq]

/-- The most data movements that are asked for at once. -/
def limitOf (count : Nat) : Nat := min count (UInt32.size - 1)

theorem run_dataMovements (h : s.grants .list = true) (hcount : count ≠ 0) (name : String) :
    (dataMovements name count).run s =
      (.ok (failedFirst ((selected s name).take (limitOf count))),
        s.noted (.list .dataMovement .cluster (some (Api.workflowSelector name))
          (some (limitOf count)))) := by
  have hlength : (failedFirst ((selected s name).take (limitOf count))).length ≤ count := by
    rw [(failedFirst_perm _).length_eq, List.length_take]
    exact Nat.le_trans (Nat.min_le_left ..) (Nat.min_le_left ..)
  have hlist := Api.Server.run_list_of_grants h .dataMovement .cluster
    (some (Api.workflowSelector name)) (limitOf count)
  have htake := List.take_of_length_le hlength
  unfold dataMovements
  rw [if_neg hcount]
  refine (run_bind_ok hlist _).trans ?_
  simp only [List.partition_eq_filter_filter]
  exact congrArg (fun found => (Except.ok found, _)) htake

/-- Only a name with a comma is not asked for as it is. What is found belongs to another workflow
then, so there has to be nothing on either side. -/
theorem selected_eq_of_drawn {found : List Json} (hcount : count ≠ 0)
    (hselected : Drawn (selected s name) (limitOf count) found)
    (hown : Drawn (movementsOf s name) count found) : selected s name = movementsOf s name := by
  by_cases hcomma : ',' ∈ name.toList
  · have hnone : found = [] := by
      refine List.eq_nil_iff_forall_not_mem.mpr fun m hm => ?_
      have hmatches := (List.mem_filter.mp (hselected.own m hm)).2
      have hbelongs := (List.mem_filter.mp (hown.own m hm)).2
      exact Api.not_belongsTo_of_matchesSelector hcomma hmatches (of_decide_eq_true hbelongs)
    have hlimit : limitOf count ≠ 0 := by
      have hsize : UInt32.size - 1 ≠ 0 := by decide
      unfold limitOf
      omega
    have hfirst := hselected.length
    have hsecond := hown.length
    rw [hnone, List.length_nil] at hfirst hsecond
    rw [List.length_eq_zero_iff.mp (by omega : (selected s name).length = 0),
      List.length_eq_zero_iff.mp (by omega : (movementsOf s name).length = 0)]
  · exact selected_eq_movementsOf hcomma s

theorem take_limitOf (h : count < UInt32.size ∨ source.length < UInt32.size) :
    source.take (limitOf count) = source.take count := by
  obtain h | h := h
  · rw [limitOf, Nat.min_eq_left (Nat.le_sub_one_of_lt h)]
  · rw [limitOf, ← List.take_take, List.take_of_length_le (Nat.le_sub_one_of_lt h)]

theorem lt_size_of_drawn {found : List Json} (hlimit : Drawn source (limitOf count) found)
    (h : Drawn source count found) : count < UInt32.size ∨ source.length < UInt32.size := by
  have hlength := hlimit.length.symm.trans h.length
  have hsize : 0 < UInt32.size := by decide
  unfold limitOf at hlength
  omega

theorem nodup_selected (hs : s.Logged) (name : String) : (selected s name).Nodup :=
  (hs.nodup_objectsIn .dataMovement .cluster).filter _

/-- What is found has to be what belongs to the workflow, and nothing may be crowded out of it. -/
theorem representative_drawn_iff (hs : s.Logged) (hcount : count ≠ 0) (name : String) :
    Representative (movementsOf s name) count
        (failedFirst ((selected s name).take (limitOf count))) ↔
      selected s name = movementsOf s name ∧
        (count < UInt32.size ∨ (movementsOf s name).length < UInt32.size) ∧
        ¬CrowdedOut (movementsOf s name) count := by
  have hdistinct := nodup_selected hs name
  have hdrawn := drawn_failedFirst hdistinct (limitOf count)
  constructor
  · intro hrep
    have hsame := selected_eq_of_drawn hcount hdrawn hrep.toDrawn
    rw [hsame] at hdistinct hdrawn hrep
    have hsize := lt_size_of_drawn hdrawn hrep.toDrawn
    rw [take_limitOf hsize, representative_failedFirst_iff hdistinct] at hrep
    exact ⟨hsame, hsize, hrep⟩
  · rintro ⟨hsame, hsize, hcrowded⟩
    rw [hsame] at hdistinct
    rw [hsame, take_limitOf hsize]
    exact (representative_failedFirst_iff hdistinct count).mpr hcrowded

/-- Whatever happened to the server, a request that is let through gets the data movements that its
limit leaves, the failed ones of these first. They represent all of the workflow exactly if no
failed one is crowded out, and if the labels and the limit can be asked for as they are. -/
theorem representative_iff (past : List Api.Occurrence) (name : String) (count : Nat)
    (h : (Api.Server.empty.after past).grants .list = true) :
    let s := Api.Server.empty.after past
    ∃ found t, (dataMovements name count).run s = (.ok found, t) ∧
      Drawn (selected s name) (limitOf count) found ∧
      (Representative (movementsOf s name) count found ↔
        count = 0 ∨ selected s name = movementsOf s name ∧
          (count < UInt32.size ∨ (movementsOf s name).length < UInt32.size) ∧
          ¬CrowdedOut (movementsOf s name) count) ∧
      (',' ∉ name.toList → selected s name = movementsOf s name) := by
  intro s
  have hs : s.Logged := (Api.Server.logged_after Api.Server.logged_empty rfl past).1
  by_cases hcount : count = 0
  · subst hcount
    have hdrawn (source : List Json) : Drawn source 0 [] :=
      ⟨(Nat.zero_min _).symm, List.nodup_nil, by simp, List.Pairwise.nil⟩
    have hrep : Representative (movementsOf s name) 0 [] := ⟨hdrawn _, by simp⟩
    exact ⟨[], s, rfl, hdrawn _, iff_of_true hrep (.inl rfl), (selected_eq_movementsOf · s)⟩
  · refine ⟨_, _, run_dataMovements h hcount name, drawn_failedFirst (nodup_selected hs name) _, ?_,
      (selected_eq_movementsOf · s)⟩
    rw [representative_drawn_iff hs hcount, or_iff_right hcount]

namespace Sample

def movement (status : String) : Json :=
  .ofFields [("metadata", .ofFields [("labels", .ofFields
      [(Api.nameLabel, .string "fluxjob-1"), (Api.spaceLabel, .string Api.defaultSpace)])]),
    ("status", .ofFields [("status", .string status)])]

def movementKey (name : String) : Api.Key := Api.Kind.dataMovement.key "nnf-system" name

/-- Two data movements of a workflow, of which the second one failed. -/
def movements : List Api.Occurrence :=
  [.put (movementKey "dm-a") (movement "Success"), .put (movementKey "dm-b") (movement "Failed")]

end Sample

/-- Of two data movements one is kept, which is not the one that failed. -/
theorem failed_left_out :
    let s := Api.Server.empty.after Sample.movements
    ∃ found t, (dataMovements "fluxjob-1" 1).run s = (.ok found, t) ∧
      (∃ m ∈ found, dataMovementFailed m = false) ∧
      (∃ m ∈ movementsOf s "fluxjob-1", dataMovementFailed m = true) ∧
      ¬Representative (movementsOf s "fluxjob-1") 1 found := by
  intro s
  have hs : s.Logged :=
    (Api.Server.logged_after Api.Server.logged_empty rfl Sample.movements).1
  refine ⟨_, _, run_dataMovements (by decide) Nat.one_ne_zero "fluxjob-1", by decide +kernel,
    by decide +kernel, fun hrep => ?_⟩
  obtain ⟨-, -, hroom⟩ := (representative_drawn_iff hs Nat.one_ne_zero "fluxjob-1").mp hrep
  exact hroom (by decide +kernel)

/-- Two of them are kept as they should be. -/
theorem representative_iff_two :
    let s := Api.Server.empty.after Sample.movements
    s.grants .list = true ∧
      ∃ found t, (dataMovements "fluxjob-1" 2).run s = (.ok found, t) ∧
        Representative (movementsOf s "fluxjob-1") 2 found := by
  intro s
  have hgrants : s.grants .list = true := by decide
  obtain ⟨found, t, hrun, -, hrep, hsame⟩ :=
    representative_iff Sample.movements "fluxjob-1" 2 hgrants
  refine ⟨hgrants, found, t, hrun, hrep.mpr (.inr ⟨hsame (by decide), .inl (by decide), ?_⟩)⟩
  decide +kernel

end Warren.Cleanup
