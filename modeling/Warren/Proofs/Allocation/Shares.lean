import Mathlib.Algebra.GCDMonoid.Multiset
import Mathlib.Algebra.GCDMonoid.Nat
import Mathlib.Algebra.BigOperators.Ring.List
import Mathlib.Algebra.Order.BigOperators.Group.List
import Mathlib.Algebra.Order.Floor.Div
import Mathlib.Data.Nat.ModEq
import Mathlib.Order.Bounds.Basic
import Warren.Allocation.Placement
import Warren.Proofs.Fallible

/-!
# The shares of the servers

The allocations of a set are counted by server in the same way as the compute nodes of a job are:
one more allocation on a server is one more `add`. So what holds of counts of compute nodes holds of
the plan for a set, and `fitting_of_proper` says how many allocations there are, where they are
placed and how large they have to be.
-/

namespace Warren.Allocation

namespace ServerCounts

/-- The numbers of compute nodes, server by server. -/
def nodes (counts : ServerCounts) : List Nat := counts.map fun e => e.2.toNat

/-- Counts as they come about: no server is listed twice or without a compute node, and a word holds
the number of all compute nodes. -/
structure Proper (counts : ServerCounts) : Prop where
  distinct : counts.servers.Nodup
  attached : ∀ n ∈ counts.nodes, 0 < n
  bounded : counts.nodes.sum < UInt32.size

/-- Counts of `n` things on some of a number of servers. -/
structure Among (servers : List String) (n : Nat) (counts : ServerCounts) : Prop where
  proper : counts.Proper
  within : ∀ s ∈ counts.servers, s ∈ servers
  total : counts.nodes.sum = n

variable {counts : ServerCounts} {servers : List String} {n : Nat}

theorem among_nil (servers : List String) : Among servers 0 [] where
  proper := ⟨List.nodup_nil, by simp [nodes], by decide⟩
  within := by simp [ServerCounts.servers]
  total := rfl

theorem servers_add {server : String} {more : ServerCounts} (h : counts.add server = .ok more) :
    more.servers =
      if server ∈ counts.servers then counts.servers else counts.servers ++ [server] := by
  induction counts generalizing more with
  | nil =>
    obtain rfl := Except.ok.inj h
    rfl
  | cons first rest ih =>
    obtain ⟨s, k⟩ := first
    rw [add] at h
    split at h
    · rename_i hs
      obtain ⟨_, -, h⟩ := ok_of_bind h
      obtain rfl := Except.ok.inj h
      simp [hs, ServerCounts.servers]
    · rename_i hs
      obtain ⟨rest', hrest', h⟩ := ok_of_bind h
      obtain rfl := Except.ok.inj h
      have ih := ih hrest'
      simp only [ServerCounts.servers] at ih
      by_cases hrest : server ∈ rest.map Prod.fst
      · simp [ServerCounts.servers, ih, hrest]
      · simp [Ne.symm hs, ServerCounts.servers, ih, hrest]

theorem exists_add (server : String) (room : counts.nodes.sum + 1 < UInt32.size) :
    ∃ more, counts.add server = .ok more ∧ more.nodes.sum = counts.nodes.sum + 1 ∧
      ((∀ k ∈ counts.nodes, 0 < k) → ∀ k ∈ more.nodes, 0 < k) := by
  induction counts with
  | nil => exact ⟨[(server, 1)], rfl, by simp [nodes]⟩
  | cons first rest ih =>
    obtain ⟨s, k⟩ := first
    simp only [nodes, List.map_cons, List.sum_cons] at room ih ⊢
    simp only [add]
    by_cases hs : s = server
    · have hfits : k.toNat + 1 < UInt32.size := by omega
      have hk : (UInt32.ofNat (k.toNat + 1)).toNat = k.toNat + 1 := UInt32.toNat_ofNat_of_lt' hfits
      refine ⟨(s, UInt32.ofNat (k.toNat + 1)) :: rest, ?_, ?_⟩
      · rw [if_pos hs, Crash.fit32_of_lt hfits]
        rfl
      · simp only [List.map_cons, List.sum_cons, hk, List.forall_mem_cons]
        exact ⟨by omega, fun hpositive => ⟨by omega, hpositive.2⟩⟩
    · obtain ⟨more, hmore, hsum, hpositive⟩ := ih (by omega)
      refine ⟨(s, k) :: more, ?_, ?_⟩
      · rw [if_neg hs, hmore]
        rfl
      · simp only [List.map_cons, List.sum_cons, hsum, List.forall_mem_cons]
        exact ⟨by omega, fun h => ⟨h.1, hpositive h.2⟩⟩

theorem Among.add (h : Among servers n counts) {server : String} (hserver : server ∈ servers)
    (room : n + 1 < UInt32.size) :
    ∃ more, counts.add server = .ok more ∧ Among servers (n + 1) more := by
  have hroom : counts.nodes.sum + 1 < UInt32.size := by rwa [h.total]
  obtain ⟨more, hmore, hsum, hpositive⟩ := exists_add server hroom
  rw [h.total] at hsum
  have hservers := servers_add hmore
  refine ⟨more, hmore, ⟨?_, hpositive h.proper.attached, by omega⟩, ?_, hsum⟩
  · rw [hservers]
    split
    · exact h.proper.distinct
    · rename_i hnew
      exact List.nodup_append.mpr ⟨h.proper.distinct, List.nodup_singleton _, by
        intro a ha b hb
        rw [List.mem_singleton.mp hb]
        exact fun heq => hnew (heq ▸ ha)⟩
  · intro s hs
    rw [hservers] at hs
    split at hs
    · exact h.within s hs
    · rcases List.mem_append.mp hs with hs | hs
      · exact h.within s hs
      · rw [List.mem_singleton.mp hs]
        exact hserver

theorem Among.addAll {round : List String} (h : Among servers n counts)
    (hround : ∀ s ∈ round, s ∈ servers) (room : n + round.length < UInt32.size) :
    ∃ more, round.foldlM ServerCounts.add counts = .ok more ∧
      Among servers (n + round.length) more := by
  induction round generalizing n counts with
  | nil => exact ⟨counts, rfl, h⟩
  | cons server round ih =>
    obtain ⟨hserver, hround⟩ := List.forall_mem_cons.mp hround
    rw [List.length_cons] at room ⊢
    obtain ⟨more, hmore, hamong⟩ := h.add hserver (by omega)
    obtain ⟨all, hall, hrest⟩ := ih hamong hround (by omega)
    refine ⟨all, ?_, ?_⟩
    · rw [List.foldlM_cons, bind_of_ok hmore, hall]
    · rwa [Nat.add_right_comm, Nat.add_assoc] at hrest

end ServerCounts

open ServerCounts (Among Proper among_nil)

/-! ### Allocations by server -/

/-- The numbers of allocations, by server. -/
def tally (placed : List Placement) : ServerCounts := placed.map fun p => (p.server, p.count)

theorem servers_tally (placed : List Placement) :
    (tally placed).servers = placed.map Placement.server := by
  simp [tally, ServerCounts.servers]

theorem tally_place {placed : List Placement} {server : String} {more : ServerCounts}
    (h : (tally placed).add server = .ok more) : tally (place placed server) = more := by
  induction placed generalizing more with
  | nil => exact Except.ok.inj h
  | cons p rest ih =>
    simp only [tally, List.map_cons, ServerCounts.add] at h ih
    split at h
    · rename_i hp
      obtain ⟨count, hcount, h⟩ := ok_of_bind h
      obtain rfl := Except.ok.inj h
      have hnext : p.count + 1 = count := by
        rw [← UInt32.toNat_inj, UInt32.toNat_add, Crash.fit32_eq_ok_iff.mp hcount]
        exact Nat.mod_eq_of_lt (Crash.fit32_eq_ok_iff.mp hcount ▸ count.toNat_lt)
      simp [place, tally, hp, hnext]
    · rename_i hp
      obtain ⟨rest', hrest, h⟩ := ok_of_bind h
      obtain rfl := Except.ok.inj h
      simp [place, tally, hp, ← ih hrest]

theorem tally_round {round : List String} {placed : List Placement} {more : ServerCounts}
    (h : round.foldlM ServerCounts.add (tally placed) = .ok more) :
    tally (round.foldl place placed) = more := by
  induction round generalizing placed with
  | nil => exact Except.ok.inj h
  | cons server round ih =>
    rw [List.foldlM_cons] at h
    obtain ⟨one, hone, h⟩ := ok_of_bind h
    rw [← tally_place hone] at h
    exact ih h

theorem among_deal {servers : List String} (hservers : servers ≠ []) {fuel count n : Nat}
    {placed : List Placement} (h : Among servers n (tally placed)) (hfuel : count ≤ fuel)
    (room : n + count < UInt32.size) :
    Among servers (n + count) (tally (deal servers fuel count placed)) := by
  induction fuel generalizing count n placed with
  | zero =>
    obtain rfl : count = 0 := by omega
    exact h
  | succ fuel ih =>
    simp only [deal]
    split
    · rename_i hcount
      rw [hcount]
      exact h
    · rename_i hcount
      have hlength : (servers.take count).length = min count servers.length := List.length_take
      -- a round deals something out, since there is a server and an allocation is left
      have hround : 0 < servers.length := List.length_pos_iff.mpr hservers
      have hround' : ∀ s ∈ servers.take count, s ∈ servers := fun s hs => List.mem_of_mem_take hs
      have hmore : Among servers (n + (servers.take count).length)
          (tally ((servers.take count).foldl place placed)) := by
        obtain ⟨more, hmore, hamong⟩ := h.addAll hround' (by omega)
        rwa [tally_round hmore]
      have hfuel' : count - (servers.take count).length ≤ fuel := by omega
      have hrest := ih hmore hfuel' (by omega)
      rwa [Nat.add_assoc, Nat.add_sub_cancel' (by omega)] at hrest

theorem mem_ranked {counts : ServerCounts} {server : String} :
    server ∈ counts.ranked ↔ server ∈ counts.servers :=
  ((List.mergeSort_perm counts _).map Prod.fst).mem_iff

theorem among_spread {counts : ServerCounts} (hne : counts ≠ []) (count : UInt32) :
    Among counts.servers count.toNat (tally (spread counts count)) := by
  have hranked : counts.ranked ≠ [] := by
    obtain ⟨e, he⟩ := List.exists_mem_of_ne_nil counts hne
    exact List.ne_nil_of_mem (mem_ranked.mpr (List.mem_map_of_mem he))
  have hnone : Among counts.ranked 0 (tally []) := among_nil counts.ranked
  have h := among_deal hranked hnone (Nat.le_refl count.toNat)
    (by rw [Nat.zero_add]; exact count.toNat_lt)
  rw [Nat.zero_add] at h
  exact ⟨h.proper, fun s hs => mem_ranked.mp (h.within s hs), h.total⟩

/-! ### Shares in proportion to the compute nodes -/

theorem foldl_gcd (counts : ServerCounts) (d : Nat) :
    counts.foldl (fun d (_, n) => Nat.gcd d n.toNat) d =
      Nat.gcd d (Multiset.gcd (counts.nodes : Multiset Nat)) := by
  induction counts generalizing d with
  | nil => simp [ServerCounts.nodes]
  | cons e rest ih =>
    obtain ⟨s, n⟩ := e
    simp only [ServerCounts.nodes] at ih
    simp [ih, ServerCounts.nodes, ← Multiset.cons_coe, Multiset.gcd_cons, Nat.gcd_assoc,
      GCDMonoid.gcd]

theorem divisor_eq_gcd (counts : ServerCounts) :
    divisor counts = Multiset.gcd (counts.nodes : Multiset Nat) :=
  (foldl_gcd counts 0).trans (Nat.gcd_zero_left _)

theorem foldlM_fit32 (counts : ServerCounts) (sum : UInt32) :
    counts.foldlM (fun sum (_, n) => Crash.fit32 (sum.toNat + n.toNat)) sum =
      Crash.fit32 (sum.toNat + counts.nodes.sum) := by
  induction counts generalizing sum with
  | nil => exact (Crash.fit32_eq_ok_iff.mpr rfl).symm
  | cons e rest ih =>
    obtain ⟨s, n⟩ := e
    simp only [ServerCounts.nodes, List.map_cons, List.sum_cons] at ih ⊢
    rw [List.foldlM_cons]
    obtain hfits | hlarge := Nat.lt_or_ge (sum.toNat + n.toNat) UInt32.size
    · rw [bind_of_ok (Crash.fit32_of_lt hfits), ih, UInt32.toNat_ofNat_of_lt' hfits,
        Nat.add_assoc]
    · -- a sum that is too large does not get smaller
      rw [Crash.fit32_of_le hlarge, Crash.fit32_of_le (by omega)]
      rfl

/-- The total is the sum of all numbers, or there is none. -/
theorem total_eq (counts : ServerCounts) : total counts = Crash.fit32 counts.nodes.sum := by
  rw [total, foldlM_fit32, UInt32.toNat_zero, Nat.zero_add]

theorem sum_div {ns : List Nat} {d : Nat} (h : ∀ n ∈ ns, d ∣ n) :
    (ns.map fun n => n / d).sum = ns.sum / d := by
  induction ns with
  | nil => simp
  | cons n ns ih =>
    obtain ⟨hn, hns⟩ := List.forall_mem_cons.mp h
    rw [List.map_cons, List.sum_cons, List.sum_cons, ih hns, Nat.add_div_of_dvd_right hn]

/-- The servers with one share for each `d` compute nodes. -/
def inProportion (d : Nat) (counts : ServerCounts) : List Placement :=
  counts.map fun (server, n) => ⟨UInt32.ofNat (n.toNat / d), server⟩

theorem nodes_inProportion (d : Nat) (counts : ServerCounts) :
    (tally (inProportion d counts)).nodes = counts.nodes.map fun n => n / d := by
  simp only [tally, inProportion, ServerCounts.nodes, List.map_map]
  refine List.map_congr_left fun e _ => ?_
  exact UInt32.toNat_ofNat_of_lt' (Nat.lt_of_le_of_lt (Nat.div_le_self ..) e.2.toNat_lt)

theorem servers_inProportion (d : Nat) (counts : ServerCounts) :
    (tally (inProportion d counts)).servers = counts.servers := by
  simp [tally, inProportion, ServerCounts.servers]

section

variable {counts : ServerCounts}

theorem divisor_dvd {n : Nat} (hn : n ∈ counts.nodes) : divisor counts ∣ n := by
  rw [divisor_eq_gcd]
  exact Multiset.gcd_dvd (Multiset.mem_coe.mpr hn)

theorem exists_attached (hattached : ∀ n ∈ counts.nodes, 0 < n) (hne : counts ≠ []) :
    ∃ n ∈ counts.nodes, 0 < n := by
  obtain ⟨e, he⟩ := List.exists_mem_of_ne_nil counts hne
  have hmem : e.2.toNat ∈ counts.nodes := List.mem_map_of_mem he
  exact ⟨e.2.toNat, hmem, hattached _ hmem⟩

theorem divisor_pos (hattached : ∀ n ∈ counts.nodes, 0 < n) (hne : counts ≠ []) :
    0 < divisor counts := by
  obtain ⟨n, hn, hpos⟩ := exists_attached hattached hne
  exact Nat.pos_of_dvd_of_pos (divisor_dvd hn) hpos

/-- The divisor is a divisor of all compute nodes together, which it does not exceed. -/
theorem divisor_dvd_sum (counts : ServerCounts) : divisor counts ∣ counts.nodes.sum :=
  List.dvd_sum fun _ hn => divisor_dvd hn

theorem among_inProportion (h : counts.Proper) (hne : counts ≠ []) :
    Among counts.servers (counts.nodes.sum / divisor counts)
      (tally (inProportion (divisor counts) counts)) := by
  have hservers := servers_inProportion (divisor counts) counts
  have hnodes := nodes_inProportion (divisor counts) counts
  have hsum : (tally (inProportion (divisor counts) counts)).nodes.sum =
      counts.nodes.sum / divisor counts := by
    rw [hnodes, sum_div fun _ hn => divisor_dvd hn]
  refine ⟨⟨?_, ?_, ?_⟩, fun s hs => by rwa [hservers] at hs, hsum⟩
  · rw [hservers]
    exact h.distinct
  · rw [hnodes]
    intro share hshare
    obtain ⟨n, hn, rfl⟩ := List.mem_map.mp hshare
    have hle : divisor counts ≤ n := Nat.le_of_dvd (h.attached n hn) (divisor_dvd hn)
    exact Nat.div_pos hle (divisor_pos h.attached hne)
  · rw [hsum]
    exact Nat.lt_of_le_of_lt (Nat.div_le_self ..) h.bounded

end

/-! ### Sizes -/

theorem isLeast_ceilDiv (n : Nat) {d : Nat} (hd : 0 < d) :
    ∃ s, ceilDiv n d = .ok s ∧ IsLeast {s | n ≤ s * d} s := by
  have hle (s : Nat) : (n + d - 1) / d ≤ s ↔ n ≤ s * d := by
    rw [← Nat.ceilDiv_eq_add_pred_div, ceilDiv_le_iff_le_mul hd, Nat.mul_comm]
  exact ⟨_, if_neg (Nat.ne_of_gt hd), (hle _).mp (Nat.le_refl _), fun s hs => (hle s).mpr hs⟩

theorem toNat_clampSize {n : Nat} (h : n < UInt64.size) : (clampSize n).toNat = n := by
  rw [clampSize, Nat.min_eq_left (by omega)]
  exact UInt64.toNat_ofNat_of_lt' h

theorem toNat_max (a b : UInt64) : (max a b).toNat = max a.toNat b.toNat := by
  change (if a ≤ b then b else a).toNat = _
  rw [apply_ite UInt64.toNat, Nat.max_def]
  rfl

/-- The least size of which a number of shares make up a capacity fits a word. -/
theorem toNat_clampSize_of_isLeast {capacity : UInt64} {shares s : Nat} (hshares : 0 < shares)
    (h : IsLeast {s | capacity.toNat ≤ s * shares} s) : (clampSize s).toNat = s := by
  have hle : s ≤ capacity.toNat := h.2 (Nat.le_mul_of_pos_right _ hshares)
  exact toNat_clampSize (Nat.lt_of_le_of_lt hle capacity.toNat_lt)

/-! ### Plans -/

/-- The number of allocations of a set: one for each compute node, as many as are asked for, or as
few as are in proportion to the compute nodes of the servers. -/
def shares (set : Breakdown.AllocationSet) (counts : ServerCounts) : Nat :=
  match set.strategy, set.count with
  | .perCompute, _ => counts.nodes.sum
  | .singleServer, count => (count.getD 1).toNat
  | .acrossServers, some count => count.toNat
  | .acrossServers, none => counts.nodes.sum / Multiset.gcd (counts.nodes : Multiset Nat)

/-- A set of which no allocation is asked for. -/
def AsksForNone (set : Breakdown.AllocationSet) : Prop :=
  set.strategy ≠ .perCompute ∧ set.count = some 0

/-- A plan that is in keeping with its set: the allocations are on servers of the job, they are as
many as they should be, and as small as their capacity and the least size allow. -/
structure Fitting (set : Breakdown.AllocationSet) (counts : ServerCounts) (least : UInt64)
    (plan : Plan) : Prop where
  label : plan.label = set.label
  within : ∀ p ∈ plan.storage, p.server ∈ counts.servers
  distinct : (plan.storage.map Placement.server).Nodup
  positive : ∀ p ∈ plan.storage, 0 < p.count.toNat
  perCompute : set.strategy = .perCompute →
    tally plan.storage = counts ∧ plan.size.toNat = max least.toNat set.capacity.toNat
  shared : set.strategy ≠ .perCompute → (tally plan.storage).nodes.sum = shares set counts ∧
    ∃ s, IsLeast {s | set.capacity.toNat ≤ s * shares set counts} s ∧
      plan.size.toNat = max least.toNat s

variable {set : Breakdown.AllocationSet} {counts : ServerCounts}

theorem isLeast_fixed (set : Breakdown.AllocationSet) {count : UInt32} (hcount : count ≠ 0) :
    0 < count.toNat ∧ ∃ s, ceilDiv set.capacity.toNat count.toNat = .ok s ∧
      IsLeast {s | set.capacity.toNat ≤ s * count.toNat} s := by
  have hpos : 0 < count.toNat := by
    rw [Nat.pos_iff_ne_zero]
    exact fun h => hcount (UInt32.toNat_inj.mp (h.trans UInt32.toNat_zero.symm))
  exact ⟨hpos, isLeast_ceilDiv _ hpos⟩

/-- Allocations in proportion to the compute nodes that together have the capacity of the set. -/
theorem isLeast_inProportion (set : Breakdown.AllocationSet) (h : counts.Proper)
    (hne : counts ≠ []) :
    0 < counts.nodes.sum / divisor counts ∧
      ∃ s, ceilDiv (divisor counts * set.capacity.toNat) counts.nodes.sum = .ok s ∧
        IsLeast {s | set.capacity.toNat ≤ s * (counts.nodes.sum / divisor counts)} s := by
  have hd := divisor_pos h.attached hne
  obtain ⟨k, hk⟩ := divisor_dvd_sum counts
  have hsum : 0 < counts.nodes.sum := by
    obtain ⟨n, hn, hpos⟩ := exists_attached h.attached hne
    exact Nat.lt_of_lt_of_le hpos (List.le_sum_of_mem hn)
  obtain ⟨s, hs, hleast⟩ := isLeast_ceilDiv (divisor counts * set.capacity.toNat) hsum
  rw [hk, Nat.mul_div_cancel_left k hd]
  rw [hk] at hs hleast hsum
  refine ⟨Nat.pos_of_mul_pos_left hsum, s, hs, ?_⟩
  -- the divisor on both sides of a bound makes no difference
  have hset : {s | divisor counts * set.capacity.toNat ≤ s * (divisor counts * k)} =
      {s | set.capacity.toNat ≤ s * k} := by
    ext s
    rw [Set.mem_ofPred_eq, Set.mem_ofPred_eq, Nat.mul_left_comm, Nat.mul_le_mul_left_iff hd]
  rwa [hset] at hleast

theorem arrange_inProportion (hstrategy : set.strategy = .acrossServers)
    (hcount : set.count = none) (hbound : counts.nodes.sum < UInt32.size) {s : Nat}
    (hs : ceilDiv (divisor counts * set.capacity.toNat) counts.nodes.sum = .ok s) :
    arrange set counts = .ok (clampSize s, inProportion (divisor counts) counts) := by
  simp only [arrange, hstrategy, hcount]
  rw [total_eq, Crash.fit32_of_lt hbound, Failure.ofCrash_ok, bind_of_ok rfl,
    UInt32.toNat_ofNat_of_lt' hbound, hs]
  rfl

/-- A set of which allocations are asked for gets as many as it should, each of the least size. -/
theorem arrange_shared (h : counts.Proper) (hne : counts ≠ [])
    (hset : set.strategy ≠ .perCompute) (hasked : ¬AsksForNone set) :
    ∃ s storage, arrange set counts = .ok (clampSize s, storage) ∧
      IsLeast {s | set.capacity.toNat ≤ s * shares set counts} s ∧ 0 < shares set counts ∧
      Among counts.servers (shares set counts) (tally storage) := by
  have fixed (count : UInt32) (hcount : count ≠ 0)
      (harrange : ∀ s, ceilDiv set.capacity.toNat count.toNat = .ok s →
        arrange set counts = .ok (clampSize s, spread counts count))
      (hshares : shares set counts = count.toNat) :
      ∃ s storage, arrange set counts = .ok (clampSize s, storage) ∧
        IsLeast {s | set.capacity.toNat ≤ s * shares set counts} s ∧ 0 < shares set counts ∧
        Among counts.servers (shares set counts) (tally storage) := by
    obtain ⟨hpos, s, hs, hleast⟩ := isLeast_fixed set hcount
    rw [hshares]
    exact ⟨s, _, harrange s hs, hleast, hpos, among_spread hne count⟩
  have hnonzero {count : UInt32} (hcount : set.count = some count) : count ≠ 0 := fun h =>
    hasked ⟨hset, hcount.trans (congrArg some h)⟩
  cases hstrategy : set.strategy with
  | perCompute => exact absurd hstrategy hset
  | singleServer =>
    have hcount : set.count.getD 1 ≠ 0 := by
      cases hcount : set.count with
      | none => decide
      | some count => exact hnonzero hcount
    exact fixed (set.count.getD 1) hcount
      (fun s hs => by simp [arrange, hstrategy, hcount, hs])
      (by simp [shares, hstrategy])
  | acrossServers =>
    cases hcount : set.count with
    | some count =>
      exact fixed count (hnonzero hcount)
        (fun s hs => by simp [arrange, hstrategy, hcount, hnonzero hcount, hs])
        (by simp [shares, hstrategy, hcount])
    | none =>
      have hshares : shares set counts = counts.nodes.sum / divisor counts := by
        simp [shares, hstrategy, hcount, divisor_eq_gcd]
      obtain ⟨hpos, s, hs, hleast⟩ := isLeast_inProportion set h hne
      rw [hshares]
      exact ⟨s, _, arrange_inProportion hstrategy hcount h.bounded hs, hleast, hpos,
        among_inProportion h hne⟩

theorem arrange_of_asksForNone (h : AsksForNone set) :
    arrange set counts = .error (.fault (.invalidCount set.label)) := by
  obtain ⟨hset, hcount⟩ := h
  cases hstrategy : set.strategy with
  | perCompute => exact absurd hstrategy hset
  | singleServer =>
    simp only [arrange, hstrategy, hcount]
    rfl
  | acrossServers =>
    simp only [arrange, hstrategy, hcount]
    rfl

theorem planSet_of_ne_nil (hne : counts ≠ []) (set : Breakdown.AllocationSet) (least : UInt64) :
    planSet counts least set =
      (arrange set counts).map fun out => ⟨max out.1 least, set.label, out.2⟩ := by
  have hcounts : counts.isEmpty = false := by simpa using hne
  rw [planSet, hcounts]
  cases arrange set counts <;> rfl

theorem mem_of_among {n : Nat} {storage : List Placement}
    (h : Among counts.servers n (tally storage)) {p : Placement} (hp : p ∈ storage) :
    p.server ∈ counts.servers ∧ 0 < p.count.toNat := by
  have htally : (p.server, p.count) ∈ tally storage := List.mem_map.mpr ⟨p, hp, rfl⟩
  exact ⟨h.within _ (List.mem_map_of_mem htally), h.proper.attached _ (List.mem_map_of_mem htally)⟩

theorem nodup_of_among {n : Nat} {storage : List Placement}
    (h : Among counts.servers n (tally storage)) : (storage.map Placement.server).Nodup := by
  rw [← servers_tally]
  exact h.proper.distinct

theorem fitting_perCompute (h : counts.Proper) (hne : counts ≠ [])
    (hset : set.strategy = .perCompute) (least : UInt64) :
    ∃ plan, planSet counts least set = .ok plan ∧ Fitting set counts least plan := by
  let storage : List Placement := counts.map fun (server, n) => ⟨n, server⟩
  have htally : tally storage = counts := by simp [storage, tally, Function.comp_def]
  have harrange : arrange set counts = .ok (set.capacity, storage) := by
    simp [arrange, hset, storage]
  have hamong : Among counts.servers counts.nodes.sum (tally storage) := by
    rw [htally]
    exact ⟨h, fun _ hs => hs, rfl⟩
  refine ⟨⟨max set.capacity least, set.label, storage⟩, ?_, ?_⟩
  · rw [planSet_of_ne_nil hne, harrange]
    rfl
  · exact {
      label := rfl
      within := fun p hp => (mem_of_among hamong hp).1
      distinct := nodup_of_among hamong
      positive := fun p hp => (mem_of_among hamong hp).2
      perCompute := fun _ => ⟨htally, by rw [toNat_max, Nat.max_comm]⟩
      shared := fun hother => absurd hset hother }

theorem fitting_shared (h : counts.Proper) (hne : counts ≠ [])
    (hset : set.strategy ≠ .perCompute) (hasked : ¬AsksForNone set) (least : UInt64) :
    ∃ plan, planSet counts least set = .ok plan ∧ Fitting set counts least plan := by
  obtain ⟨s, storage, harrange, hleast, hpos, hamong⟩ := arrange_shared h hne hset hasked
  refine ⟨⟨max (clampSize s) least, set.label, storage⟩, ?_, ?_⟩
  · rw [planSet_of_ne_nil hne, harrange]
    rfl
  · exact {
      label := rfl
      within := fun p hp => (mem_of_among hamong hp).1
      distinct := nodup_of_among hamong
      positive := fun p hp => (mem_of_among hamong hp).2
      perCompute := fun hper => absurd hper hset
      shared := fun _ => ⟨hamong.total, s, hleast, by
        rw [toNat_max, toNat_clampSize_of_isLeast hpos hleast, Nat.max_comm]⟩ }

/-- The sum and the product that sizes are computed from fit into 32 and 128 bits. -/
theorem exact_of_proper (set : Breakdown.AllocationSet) (h : counts.Proper) (hne : counts ≠ []) :
    (∃ all, total counts = .ok all ∧ all.toNat = counts.nodes.sum) ∧
      divisor counts * set.capacity.toNat < UInt64.size * UInt64.size := by
  obtain ⟨n, hn, hpos⟩ := exists_attached h.attached hne
  have hdivisor : divisor counts < UInt64.size := calc
    divisor counts ≤ n := Nat.le_of_dvd hpos (divisor_dvd hn)
    _ ≤ counts.nodes.sum := List.le_sum_of_mem hn
    _ < UInt32.size := h.bounded
    _ < UInt64.size := by decide
  refine ⟨⟨UInt32.ofNat counts.nodes.sum, ?_, UInt32.toNat_ofNat_of_lt' h.bounded⟩,
    Nat.mul_lt_mul'' hdivisor set.capacity.toNat_lt⟩
  rw [total_eq, Crash.fit32_of_lt h.bounded]

/-- Planning fails only for a set of which no allocation is asked for, and else has a plan that is
in keeping with the set. No number on the way is too large. -/
theorem fitting_of_proper (set : Breakdown.AllocationSet) {counts : ServerCounts}
    (h : counts.Proper) (hne : counts ≠ []) (least : UInt64) :
    (planSet counts least set = .error (.fault (.invalidCount set.label)) ↔ AsksForNone set) ∧
      (¬AsksForNone set → ∃ plan, planSet counts least set = .ok plan ∧
        Fitting set counts least plan ∧
        (∃ all, total counts = .ok all ∧ all.toNat = counts.nodes.sum) ∧
        divisor counts * set.capacity.toNat < UInt64.size * UInt64.size) := by
  have planned (hasked : ¬AsksForNone set) :
      ∃ plan, planSet counts least set = .ok plan ∧ Fitting set counts least plan := by
    by_cases hset : set.strategy = .perCompute
    · exact fitting_perCompute h hne hset least
    · exact fitting_shared h hne hset hasked least
  refine ⟨⟨fun hfault => ?_, fun hnone => ?_⟩, fun hasked => ?_⟩
  · by_contra hasked
    obtain ⟨plan, hplan, -⟩ := planned hasked
    rw [hplan] at hfault
    cases hfault
  · rw [planSet_of_ne_nil hne, arrange_of_asksForNone hnone]
    rfl
  · obtain ⟨plan, hplan, hfitting⟩ := planned hasked
    exact ⟨plan, hplan, hfitting, exact_of_proper set h hne⟩

/-- Ten TiB over a server with two compute nodes and one with a single node: no size divides them
evenly. -/
theorem fitting_of_proper_uneven :
    let set : Breakdown.AllocationSet := ⟨"ost", .acrossServers, 0xA0000000000, none⟩
    let counts : ServerCounts := [("rabbit1", 2), ("rabbit2", 1)]
    ServerCounts.ofServers ["rabbit1", "rabbit2", "rabbit1"] = .ok counts ∧
      counts.Proper ∧ counts ≠ [] ∧
      (planSet counts 0 set = .error (.fault (.invalidCount set.label)) ↔ AsksForNone set) ∧
      (¬AsksForNone set → ∃ plan, planSet counts 0 set = .ok plan ∧ Fitting set counts 0 plan ∧
        (∃ all, total counts = .ok all ∧ all.toNat = counts.nodes.sum) ∧
        divisor counts * set.capacity.toNat < UInt64.size * UInt64.size) := by
  intro set counts
  have proper : counts.Proper := ⟨by decide, by decide, by decide⟩
  have nonempty : counts ≠ [] := by decide
  exact ⟨rfl, proper, nonempty, fitting_of_proper set proper nonempty 0⟩

example : planSet [("rabbit1", 2), ("rabbit2", 1)] 0
    ⟨"ost", .acrossServers, 0xA0000000000, none⟩ =
      .ok ⟨3665038759254, "ost", [⟨2, "rabbit1"⟩, ⟨1, "rabbit2"⟩]⟩ := by
  rfl

end Warren.Allocation
