import Mathlib.Data.List.ReduceOption
import Warren.Proofs.Allocation.Demands
import Warren.Proofs.Allocation.Shares

/-!
# What limits let through

A demand is added up label by label and compared with the limits, kind by kind. What is asked for on
storage of compute nodes is compared as it is. What is asked for on lustre is shared by the compute
nodes, and its share is rounded down before it is compared, so that an excess of less than one GiB
per node goes unnoticed: `validate_exact_iff`.
-/

namespace Warren.Allocation

variable {increments : List (Label × UInt64)} {label : Label}

/-! ### Ceilings -/

/-- The most GiB per compute node that may be asked for under a label, where what is asked for is
shared by a number of compute nodes. -/
structure Ceiling where
  bucket : String
  label : Label
  sharers : Nat
  most : UInt64
deriving DecidableEq, Repr

namespace Ceiling

/-- More is asked for than all the nodes may have together: the exact share of one is too much. -/
def Exceeded (increments : List (Label × UInt64)) (c : Ceiling) : Prop :=
  c.most.toNat * c.sharers < asked increments c.label

/-- There is a whole GiB too much for each of the nodes. -/
def WhollyExceeded (increments : List (Label × UInt64)) (c : Ceiling) : Prop :=
  (c.most.toNat + 1) * c.sharers ≤ asked increments c.label

instance (c : Ceiling) : Decidable (c.Exceeded increments) := inferInstanceAs (Decidable (_ < _))

instance (c : Ceiling) : Decidable (c.WhollyExceeded increments) :=
  inferInstanceAs (Decidable (_ ≤ _))

theorem WhollyExceeded.exceeded {c : Ceiling} (h : c.WhollyExceeded increments)
    (hsharers : 0 < c.sharers) : c.Exceeded increments :=
  Nat.lt_of_lt_of_le (Nat.mul_lt_mul_of_pos_right (Nat.lt_succ_self _) hsharers) h

theorem exceeded_iff_wholly {c : Ceiling} (hsharers : c.sharers = 1) :
    c.Exceeded increments ↔ c.WhollyExceeded increments := by
  rw [Exceeded, WhollyExceeded, hsharers, Nat.mul_one, Nat.mul_one, Nat.succ_le_iff]

/-- The fault of what is above a ceiling, which reports whole GiB. -/
def fault (increments : List (Label × UInt64)) (c : Ceiling) : Fault :=
  .limitExceeded (UInt64.ofNat (asked increments c.label / c.sharers)) c.bucket c.most

end Ceiling

def ceiling? (bucket : String) (label : Label) (sharers : Nat) (limit : Option UInt64) :
    Option Ceiling :=
  limit.map fun most => ⟨bucket, label, sharers, most⟩

/-- The ceilings for storage of single compute nodes. -/
def localCeilings (limits : Limits) : List Ceiling :=
  [ceiling? "xfs" .xfs 1 limits.xfs, ceiling? "gfs2" .gfs2 1 limits.gfs2,
    ceiling? "raw" .raw 1 limits.raw].reduceOption

/-- All ceilings, in the order in which they are looked at. -/
def ceilings (limits : Limits) (nodes : Nat) : List Ceiling :=
  localCeilings limits ++ (ceiling? "lustre" .ost nodes limits.lustre).toList

/-- What is answered if some ceiling is the first one that is exceeded, or none is. -/
def verdict (increments : List (Label × UInt64)) (first : Option Ceiling) : Except Fault Unit :=
  match first with
  | some c => .error (c.fault increments)
  | none => .ok ()

/-! ### Comparisons -/

theorem fault?_eq {b : Demand.Bucket} {sharers : Nat} (hsharers : 0 < sharers)
    (hrequested : b.requested.toNat = asked increments label / sharers) :
    b.fault? = ((ceiling? b.name label sharers b.limit).filter
      (Ceiling.WhollyExceeded increments)).map (Ceiling.fault increments) := by
  obtain ⟨name, requested, limit⟩ := b
  cases limit with
  | none => rfl
  | some limit =>
    have hlt : limit < requested ↔
        Ceiling.WhollyExceeded increments ⟨name, label, sharers, limit⟩ := by
      rw [UInt64.lt_iff_toNat_lt, hrequested, ← Nat.succ_le_iff, Nat.le_div_iff_mul_le hsharers]
      rfl
    have hword : UInt64.ofNat (asked increments label / sharers) = requested := by
      rw [← hrequested, UInt64.ofNat_toNat]
    simp only [Demand.Bucket.fault?, ceiling?, Option.map_some, Option.filter_some, hlt,
      decide_eq_true_eq]
    split
    · rw [Option.map_some, Ceiling.fault, hword]
    · rfl

theorem findSome?_fault {buckets : List Demand.Bucket} {cs : List (Option Ceiling)}
    (h : List.Forall₂ (fun b c => b.fault? = (c.filter
      (Ceiling.WhollyExceeded increments)).map (Ceiling.fault increments)) buckets cs) :
    buckets.findSome? Demand.Bucket.fault? =
      (cs.reduceOption.find? (Ceiling.WhollyExceeded increments)).map
        (Ceiling.fault increments) := by
  induction h with
  | nil => rfl
  | @cons b c buckets cs hfirst _ ih =>
    rw [List.findSome?_cons, hfirst]
    cases c with
    | none => simpa using ih
    | some c => by_cases hc : c.WhollyExceeded increments <;> simp [Option.filter_some, hc, ih]

theorem validate_ofIncrements {demand : Demand} (h : Demand.ofIncrements increments = .ok demand)
    (limits : Limits) {nodes : UInt64} (hnodes : 1 ≤ nodes) :
    demand.validate limits nodes = verdict increments
      ((ceilings limits nodes.toNat).find? (Ceiling.WhollyExceeded increments)) := by
  have hsum := Demand.ofIncrements_eq_ok_iff.mp h
  have hpos : 0 < nodes.toNat := UInt64.le_iff_toNat_le.mp hnodes
  have hlocal (label : Label) (hlabel : label.isCounted = true) :
      (demand.under label).toNat = asked increments label / 1 := by
    rw [Nat.div_one, hsum label hlabel]
  have hshared : (demand.lustre / max nodes 1).toNat = asked increments .ost / nodes.toNat := by
    rw [UInt64.toNat_div, toNat_max, UInt64.toNat_one, Nat.max_eq_left hpos]
    exact congrArg (· / nodes.toNat) (hsum .ost rfl)
  have hfind : (demand.buckets limits nodes).findSome? Demand.Bucket.fault? =
      ((ceilings limits nodes.toNat).find? (Ceiling.WhollyExceeded increments)).map
        (Ceiling.fault increments) := by
    rw [ceilings, localCeilings, ← List.reduceOption_concat]
    exact findSome?_fault (.cons (fault?_eq Nat.one_pos (hlocal .xfs rfl))
      (.cons (fault?_eq Nat.one_pos (hlocal .gfs2 rfl))
        (.cons (fault?_eq Nat.one_pos (hlocal .raw rfl)) (.cons (fault?_eq hpos hshared) .nil))))
  rw [Demand.validate, hfind]
  cases (ceilings limits nodes.toNat).find? (Ceiling.WhollyExceeded increments) <;> rfl

/-! ### Exactness -/

/-- Too much lustre is asked for, by less than one GiB per compute node, and nothing else. -/
def Unnoticed (increments : List (Label × UInt64)) (limits : Limits) (nodes : Nat) : Prop :=
  (∀ c ∈ localCeilings limits, ¬c.Exceeded increments) ∧
    ∃ most, limits.lustre = some most ∧ most.toNat * nodes < asked increments .ost ∧
      asked increments .ost < (most.toNat + 1) * nodes

theorem sharers_localCeilings {limits : Limits} {c : Ceiling} (h : c ∈ localCeilings limits) :
    c.sharers = 1 := by
  rw [localCeilings, List.reduceOption_mem_iff] at h
  have hceiling {bucket : String} {label : Label} {limit : Option UInt64}
      (hc : some c = ceiling? bucket label 1 limit) : c.sharers = 1 := by
    obtain ⟨most, -, rfl⟩ := Option.map_eq_some_iff.mp hc.symm
    rfl
  simp only [List.mem_cons, List.not_mem_nil, or_false] at h
  obtain h | h | h := h <;> exact hceiling h

theorem unnoticed_iff {limits : Limits} {nodes : Nat} {most : UInt64}
    (hlocal : ∀ c ∈ localCeilings limits, ¬c.Exceeded increments)
    (hlustre : limits.lustre = some most) :
    Unnoticed increments limits nodes ↔
      Ceiling.Exceeded increments ⟨"lustre", .ost, nodes, most⟩ ∧
        ¬Ceiling.WhollyExceeded increments ⟨"lustre", .ost, nodes, most⟩ := by
  constructor
  · rintro ⟨-, most', hmost, hexceeded, hless⟩
    obtain rfl := Option.some.inj (hlustre.symm.trans hmost)
    exact ⟨hexceeded, Nat.not_le.mpr hless⟩
  · intro ⟨hexceeded, hless⟩
    exact ⟨hlocal, most, hlustre, hexceeded, Nat.not_le.mp hless⟩

/-- The first ceiling that is exceeded is the first one that is wholly exceeded, unless it is the
one for lustre. -/
theorem verdict_eq_iff (increments : List (Label × UInt64)) (limits : Limits) {nodes : Nat}
    (hnodes : 0 < nodes) :
    verdict increments ((ceilings limits nodes).find? (Ceiling.WhollyExceeded increments)) =
        verdict increments ((ceilings limits nodes).find? (Ceiling.Exceeded increments)) ↔
      ¬Unnoticed increments limits nodes := by
  have hsame : (localCeilings limits).find? (Ceiling.WhollyExceeded increments) =
      (localCeilings limits).find? (Ceiling.Exceeded increments) := by
    refine List.find?_congr fun c hc => ?_
    exact decide_eq_decide.mpr (Ceiling.exceeded_iff_wholly (sharers_localCeilings hc)).symm
  rw [ceilings, List.find?_append, List.find?_append, hsame]
  cases hfirst : (localCeilings limits).find? (Ceiling.Exceeded increments) with
  | some c =>
    have hexceeded : c.Exceeded increments := by simpa using List.find?_some hfirst
    exact iff_of_true rfl fun h => h.1 c (List.mem_of_find?_eq_some hfirst) hexceeded
  | none =>
    have hlocal : ∀ c ∈ localCeilings limits, ¬c.Exceeded increments := by
      simpa using List.find?_eq_none.mp hfirst
    cases hlustre : limits.lustre with
    | none =>
      refine iff_of_true rfl fun h => ?_
      obtain ⟨most, hmost, -⟩ := h.2
      cases hlustre.symm.trans hmost
    | some most =>
      rw [unnoticed_iff hlocal hlustre]
      by_cases hwholly : Ceiling.WhollyExceeded increments ⟨"lustre", .ost, nodes, most⟩
      · have hexceeded := hwholly.exceeded hnodes
        simp [ceiling?, hwholly, hexceeded]
      · by_cases hexceeded : Ceiling.Exceeded increments ⟨"lustre", .ost, nodes, most⟩
        · simp [ceiling?, hwholly, hexceeded, verdict]
        · simp [ceiling?, hwholly, hexceeded]

/-- Increments whose sums fit are a demand. It is compared with every limit in turn, in whole GiB
per compute node, which is as good as an exact comparison except if an excess of lustre goes
unnoticed. -/
theorem validate_exact_iff (limits : Limits) {nodes : UInt64} (hnodes : 1 ≤ nodes)
    (hexact : ∀ label, label.isCounted = true → asked increments label < UInt64.size) :
    ∃ demand, Demand.ofIncrements increments = .ok demand ∧
      demand.validate limits nodes = verdict increments
        ((ceilings limits nodes.toNat).find? (Ceiling.WhollyExceeded increments)) ∧
      (demand.validate limits nodes = verdict increments
          ((ceilings limits nodes.toNat).find? (Ceiling.Exceeded increments)) ↔
        ¬Unnoticed increments limits nodes.toNat) := by
  obtain ⟨demand, hdemand⟩ := Demand.exists_ofIncrements hexact
  have hvalidate := validate_ofIncrements hdemand limits hnodes
  refine ⟨demand, hdemand, hvalidate, ?_⟩
  rw [hvalidate]
  exact verdict_eq_iff increments limits (UInt64.le_iff_toNat_le.mp hnodes)

/-- Two nodes may have one GiB of lustre each, and pass with three together. -/
theorem unnoticed_half :
    let increments : List (Label × UInt64) := [(.ost, 3)]
    let limits : Limits := { Limits.unlimited with lustre := some 1 }
    (∀ label, label.isCounted = true → asked increments label < UInt64.size) ∧
      (∃ c ∈ ceilings limits 2, c.Exceeded increments) ∧
      ∃ demand, Demand.ofIncrements increments = .ok demand ∧
        demand.validate limits 2 = .ok () := by
  refine ⟨fun label _ => ?_, by decide, ⟨0, 0, 3, 0⟩, rfl, rfl⟩
  cases label <;> decide

/-- Three nodes may have a hundred GiB each, and five more are noticed. -/
theorem validate_exact_iff_noticed :
    let increments : List (Label × UInt64) := [(.ost, 200), (.mdt, 1), (.xfs, 7), (.ost, 105)]
    let limits : Limits := { Limits.unlimited with xfs := some 7, lustre := some 100 }
    (1 : UInt64) ≤ 3 ∧
      (∀ label, label.isCounted = true → asked increments label < UInt64.size) ∧
      ∃ demand, Demand.ofIncrements increments = .ok demand ∧
        demand.validate limits 3 = verdict increments
          ((ceilings limits 3).find? (Ceiling.WhollyExceeded increments)) ∧
        (demand.validate limits 3 = verdict increments
            ((ceilings limits 3).find? (Ceiling.Exceeded increments)) ↔
          ¬Unnoticed increments limits 3) := by
  intro increments limits
  have exact : ∀ label, label.isCounted = true → asked increments label < UInt64.size :=
    fun label _ => by cases label <;> decide
  exact ⟨by decide, exact, validate_exact_iff limits (by decide) exact⟩

end Warren.Allocation
