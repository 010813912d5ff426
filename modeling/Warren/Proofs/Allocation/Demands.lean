import Mathlib.Algebra.BigOperators.Group.List.Basic
import Mathlib.Algebra.Ring.Nat
import Warren.Allocation.Limits
import Warren.Proofs.Fallible

/-!
# Sums of demands

What a job asks for is added up label by label in words. `ofIncrements_eq_ok_iff` says that there is
a demand exactly if words hold the sums, and that it is made of them.
-/

namespace Warren.Allocation

/-- Whether what is asked for under a label is counted. -/
def Label.isCounted : Label → Bool
  | .xfs | .gfs2 | .raw | .ost => true
  | .mdt | .mgt | .mgtmdt => false

/-- The sum of all increments under a label. -/
def asked (increments : List (Label × UInt64)) (label : Label) : Nat :=
  ((increments.filter (·.1 = label)).map (·.2.toNat)).sum

theorem asked_cons (i : Label × UInt64) (increments : List (Label × UInt64)) (label : Label) :
    asked (i :: increments) label =
      (if i.1 = label then i.2.toNat else 0) + asked increments label := by
  by_cases h : i.1 = label <;> simp [asked, h]

theorem asked_append (increments others : List (Label × UInt64)) (label : Label) :
    asked (increments ++ others) label = asked increments label + asked others label := by
  simp [asked, List.filter_append]

theorem asked_of_perm {increments others : List (Label × UInt64)} (h : increments.Perm others)
    (label : Label) : asked increments label = asked others label :=
  ((h.filter _).map _).sum_eq

namespace Demand

/-- The GiB that are counted under a label. -/
def under (d : Demand) : Label → UInt64
  | .xfs => d.xfs
  | .gfs2 => d.gfs2
  | .raw => d.raw
  | .ost => d.lustre
  | .mdt | .mgt | .mgtmdt => 0

/-- What is asked for by one demand after the other, each for a number of GiB under a label. -/
def ofIncrements (increments : List (Label × UInt64)) : Except Crash Demand :=
  increments.foldlM (fun d i => d.add i.1 i.2) .zero

theorem under_zero (label : Label) : zero.under label = 0 := by cases label <;> rfl

variable {d e : Demand} {label : Label} {gib : UInt64} {increments : List (Label × UInt64)}

theorem ext_under (h : ∀ label, label.isCounted = true → d.under label = e.under label) :
    d = e := by
  have hxfs : d.xfs = e.xfs := h .xfs rfl
  have hgfs2 : d.gfs2 = e.gfs2 := h .gfs2 rfl
  have hlustre : d.lustre = e.lustre := h .ost rfl
  have hraw : d.raw = e.raw := h .raw rfl
  cases d
  cases e
  simp_all

theorem toNat_under_add (h : d.add label gib = .ok e) {counted : Label}
    (hcounted : counted.isCounted = true) :
    (e.under counted).toNat =
      (d.under counted).toNat + if label = counted then gib.toNat else 0 := by
  cases label with
  | mdt | mgt | mgtmdt =>
    obtain rfl := Except.ok.inj h
    cases counted with
    | mdt | mgt | mgtmdt => cases hcounted
    | xfs | gfs2 | raw | ost => rfl
  | xfs | gfs2 | raw | ost =>
    obtain ⟨sum, hsum, h⟩ := ok_of_bind h
    obtain rfl := Except.ok.inj h
    have hsum := Crash.fit64_eq_ok_iff.mp hsum
    cases counted with
    | mdt | mgt | mgtmdt => cases hcounted
    | xfs | gfs2 | raw | ost => first | exact hsum | rfl

theorem fit64_cases {α : Type} (n : Nat) (make : UInt64 → α) :
    (∃ a, (Crash.fit64 n >>= fun w => pure (make w)) = .ok a) ∨
      (Crash.fit64 n >>= fun w => pure (make w)) = .error .overflow ∧ UInt64.size ≤ n := by
  obtain hfits | hlarge := Nat.lt_or_ge n UInt64.size
  · rw [Crash.fit64_of_lt hfits]
    exact .inl ⟨_, rfl⟩
  · rw [Crash.fit64_of_le hlarge]
    exact .inr ⟨rfl, hlarge⟩

/-- A counted sum that grows beyond its word is a crash, and nothing else is. -/
theorem add_cases (d : Demand) (label : Label) (gib : UInt64) :
    (∃ e, d.add label gib = .ok e) ∨
      d.add label gib = .error .overflow ∧ label.isCounted = true ∧
        UInt64.size ≤ (d.under label).toNat + gib.toNat := by
  cases label with
  | mdt | mgt | mgtmdt => exact .inl ⟨d, rfl⟩
  | xfs | gfs2 | raw | ost =>
    rw [add]
    exact (fit64_cases _ _).imp_right fun ⟨hcrash, hlarge⟩ => ⟨hcrash, rfl, hlarge⟩

theorem foldlM_add_eq_ok_iff : increments.foldlM (fun d i => add d i.1 i.2) d = .ok e ↔
    ∀ label, label.isCounted = true →
      (e.under label).toNat = (d.under label).toNat + asked increments label := by
  induction increments generalizing d with
  | nil =>
    constructor
    · intro h label _
      rw [Except.ok.inj h]
      rfl
    · intro h
      have same (label : Label) (hlabel : label.isCounted = true) :
          d.under label = e.under label := UInt64.toNat_inj.mp (h label hlabel).symm
      exact congrArg Except.ok (ext_under same)
  | cons i increments ih =>
    rw [List.foldlM_cons]
    constructor
    · intro h label hlabel
      obtain ⟨next, hnext, h⟩ := ok_of_bind h
      rw [ih.mp h label hlabel, toNat_under_add hnext hlabel, asked_cons, Nat.add_assoc]
    · intro h
      obtain ⟨next, hnext⟩ | ⟨-, hcounted, hlarge⟩ := add_cases d i.1 i.2
      · rw [bind_of_ok hnext]
        refine ih.mpr fun label hlabel => ?_
        rw [h label hlabel, toNat_under_add hnext hlabel, asked_cons, Nat.add_assoc]
      · -- a word holds the sum under this label with all that follows
        have hword : (e.under i.1).toNat < UInt64.size := UInt64.toNat_lt _
        rw [h i.1 hcounted, asked_cons, if_pos rfl] at hword
        omega

theorem ofIncrements_eq_ok_iff : ofIncrements increments = .ok d ↔
    ∀ label, label.isCounted = true → (d.under label).toNat = asked increments label := by
  rw [ofIncrements, foldlM_add_eq_ok_iff]
  simp only [under_zero, UInt64.toNat_zero, Nat.zero_add]

theorem exists_ofIncrements
    (h : ∀ label, label.isCounted = true → asked increments label < UInt64.size) :
    ∃ d, ofIncrements increments = .ok d := by
  let sum (label : Label) : UInt64 := UInt64.ofNat (asked increments label)
  refine ⟨⟨sum .xfs, sum .gfs2, sum .ost, sum .raw⟩,
    ofIncrements_eq_ok_iff.mpr fun label hlabel => ?_⟩
  have hsum : (sum label).toNat = asked increments label :=
    UInt64.toNat_ofNat_of_lt' (h label hlabel)
  cases label with
  | mdt | mgt | mgtmdt => cases hlabel
  | xfs | gfs2 | raw | ost => exact hsum

end Demand

end Warren.Allocation
