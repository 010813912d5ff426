import Warren.Proofs.Allocation.Shares

/-!
# Allocations in proportion to the compute nodes

Where a set asks for no fixed number of allocations, every server gets allocations in proportion to
its compute nodes. There are many numbers in the same proportions, all of them multiples of the
smallest ones, and `coarsest_of_planSet` says that the plan has these.
-/

namespace Warren.Allocation

/-! ### Proportions -/

/-- Numbers in the proportions of other ones. -/
structure Proportional (xs ys : List Nat) : Prop where
  length_eq : xs.length = ys.length
  cross : ∀ p ∈ xs.zip ys, ∀ q ∈ xs.zip ys, p.1 * q.2 = q.1 * p.2

theorem map_eq_map_of_zip {xs ys : List Nat} {f g : Nat → Nat} (hlength : xs.length = ys.length)
    (h : ∀ p ∈ xs.zip ys, f p.1 = g p.2) : xs.map f = ys.map g := by
  have hxs : (xs.zip ys).map Prod.fst = xs := List.map_fst_zip (Nat.le_of_eq hlength)
  have hys : (xs.zip ys).map Prod.snd = ys := List.map_snd_zip (Nat.le_of_eq hlength.symm)
  calc
    xs.map f = (xs.zip ys).map fun p => f p.1 := by
      rw [← hxs, List.map_map, hxs]
      rfl
    _ = (xs.zip ys).map fun p => g p.2 := List.map_congr_left h
    _ = ys.map g := by
      rw [← hys, List.map_map, hys]
      rfl

theorem proportional_map_div {ns : List Nat} {d : Nat} (hd : ∀ n ∈ ns, d ∣ n) :
    Proportional (ns.map fun n => n / d) ns where
  length_eq := List.length_map _
  cross := by
    rw [← List.map_prod_right_eq_zip]
    intro p hp q hq
    obtain ⟨n, hn, rfl⟩ := List.mem_map.mp hp
    obtain ⟨m, hm, rfl⟩ := List.mem_map.mp hq
    rw [← Nat.mul_div_right_comm (hd n hn), ← Nat.mul_div_right_comm (hd m hm), Nat.mul_comm]

theorem eq_map_div_of_proportional {xs ns : List Nat} (h : Proportional xs ns)
    (hpos : 0 < Multiset.gcd (ns : Multiset Nat)) :
    xs = (ns.map fun n => n / Multiset.gcd (ns : Multiset Nat)).map
      (Multiset.gcd (xs : Multiset Nat) * ·) := by
  rw [List.map_map, ← List.map_id xs]
  refine map_eq_map_of_zip h.length_eq fun p hp => ?_
  rw [List.map_id]
  have hdvd : Multiset.gcd (ns : Multiset Nat) ∣ p.2 :=
    Multiset.gcd_dvd (Multiset.mem_coe.mpr (List.of_mem_zip hp).2)
  have hscaled : xs.map (p.2 * ·) = ns.map (p.1 * ·) :=
    map_eq_map_of_zip h.length_eq fun q hq => by rw [Nat.mul_comm, h.cross p hp q hq]
  -- a number is taken out of the divisor of its multiples, on both sides
  have hgcd : p.2 * Multiset.gcd (xs : Multiset Nat) = p.1 * Multiset.gcd (ns : Multiset Nat) := by
    have hxs := Multiset.gcd_map_mul p.2 (xs : Multiset Nat)
    have hns := Multiset.gcd_map_mul p.1 (ns : Multiset Nat)
    rw [Multiset.map_coe, normalize_eq] at hxs hns
    rw [← hxs, ← hns, hscaled]
  rw [Function.comp_apply, ← Nat.mul_div_assoc _ hdvd, Nat.mul_comm, hgcd,
    Nat.mul_div_cancel _ hpos]
  rfl

/-! ### Plans -/

variable {set : Breakdown.AllocationSet} {counts : ServerCounts}

/-- Every server in its place, with the smallest number of allocations that keeps the proportions:
whatever else is in the same proportions is a multiple of all of them. -/
structure Coarsest (counts : ServerCounts) (storage : List Placement) : Prop where
  servers : (tally storage).servers = counts.servers
  positive : ∀ c ∈ (tally storage).nodes, 0 < c
  proportional : Proportional (tally storage).nodes counts.nodes
  least : ∀ others, Proportional others counts.nodes →
    ∃ times, others = (tally storage).nodes.map (times * ·)

theorem coarsest_inProportion (hne : counts ≠ []) (hattached : ∀ n ∈ counts.nodes, 0 < n) :
    Coarsest counts (inProportion (divisor counts) counts) := by
  have hdvd : ∀ n ∈ counts.nodes, divisor counts ∣ n := fun _ hn => divisor_dvd hn
  have hpos := divisor_pos hattached hne
  have hnodes := nodes_inProportion (divisor counts) counts
  refine ⟨servers_inProportion .., ?_, ?_, fun others hothers => ?_⟩
  · rw [hnodes]
    intro c hc
    obtain ⟨n, hn, rfl⟩ := List.mem_map.mp hc
    exact Nat.div_pos (Nat.le_of_dvd (hattached n hn) (hdvd n hn)) hpos
  · rw [hnodes]
    exact proportional_map_div hdvd
  · rw [hnodes]
    rw [divisor_eq_gcd] at hpos ⊢
    exact ⟨_, eq_map_div_of_proportional hothers hpos⟩

theorem planSet_inProportion (hstrategy : set.strategy = .acrossServers)
    (hcount : set.count = none) (hne : counts ≠ []) (hattached : ∀ n ∈ counts.nodes, 0 < n)
    (hbound : counts.nodes.sum < UInt32.size) (least : UInt64) :
    ∃ size, planSet counts least set =
      .ok ⟨size, set.label, inProportion (divisor counts) counts⟩ := by
  have hsum : 0 < counts.nodes.sum := by
    obtain ⟨n, hn, hpos⟩ := exists_attached hattached hne
    exact Nat.lt_of_lt_of_le hpos (List.le_sum_of_mem hn)
  obtain ⟨s, hs, -⟩ := isLeast_ceilDiv (divisor counts * set.capacity.toNat) hsum
  rw [planSet_of_ne_nil hne, arrange_inProportion hstrategy hcount hbound hs]
  exact ⟨_, rfl⟩

theorem planSet_of_large (hstrategy : set.strategy = .acrossServers)
    (hcount : set.count = none) (hne : counts ≠ []) (hlarge : UInt32.size ≤ counts.nodes.sum)
    (least : UInt64) : planSet counts least set = .error (.crash .overflow) := by
  rw [planSet_of_ne_nil hne]
  simp only [arrange, hstrategy, hcount]
  rw [total_eq, Crash.fit32_of_le hlarge]
  rfl

example : planSet [("rabbit1", 12), ("rabbit2", 20), ("rabbit3", 30)] 0
    ⟨"ost", .acrossServers, 62, none⟩ =
      .ok ⟨2, "ost", [⟨6, "rabbit1"⟩, ⟨10, "rabbit2"⟩, ⟨15, "rabbit3"⟩]⟩ := by
  rfl

example : planSet [("rabbit1", 0x80000000), ("rabbit2", 0x80000000)] 0
    ⟨"ost", .acrossServers, 62, none⟩ = .error (.crash .overflow) := by
  rfl

end Warren.Allocation
