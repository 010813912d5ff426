import Warren.Proofs.Allocation.Shares

/-!
# Allocations that are dealt out in rounds

A fixed number of allocations is dealt out over the servers of a job, one for each server in a
round, until none is left. The servers with the most compute nodes come first in every round, so the
last round, which may not reach all servers, is theirs. `evenly_spread` says how many allocations
each server has in the end, by its rank.
-/

namespace Warren.Allocation

/-! ### Ranks -/

namespace ServerCounts

/-- A server of a job, with the number of servers that were seen before it. -/
structure Entry where
  server : String
  nodes : UInt32
  place : Nat
deriving DecidableEq, Repr

def Entry.ofPair (e : (String × UInt32) × Nat) : Entry := ⟨e.1.1, e.1.2, e.2⟩

def entries (counts : ServerCounts) : List Entry := counts.zipIdx.map Entry.ofPair

/-- More compute nodes come first, and of servers with as many the one that was seen first. -/
def Entry.Ahead (a b : Entry) : Prop := b.nodes < a.nodes ∨ (a.nodes = b.nodes ∧ a.place < b.place)

/-- All servers, by rank. -/
structure ByRank (counts : ServerCounts) (order : List Entry) : Prop where
  complete : order.Perm counts.entries
  sorted : order.Pairwise Entry.Ahead

/-- Whether a server may come before another one, if places do not count. -/
def noFewer (a b : String × UInt32) : Bool := b.2 ≤ a.2

theorem ahead_of_zipIdxLE {a b : (String × UInt32) × Nat}
    (h : List.zipIdxLE noFewer a b = true) (hplace : a.2 ≠ b.2) :
    (Entry.ofPair a).Ahead (Entry.ofPair b) := by
  simp only [List.zipIdxLE, noFewer, decide_eq_true_eq] at h
  split at h
  · rename_i hba
    split at h
    · rename_i hab
      have hle : a.2 ≤ b.2 := of_decide_eq_true h
      exact Or.inr ⟨UInt32.le_antisymm hab hba, Nat.lt_of_le_of_ne hle hplace⟩
    · rename_i hab
      exact Or.inl (UInt32.not_le.mp hab)
  · cases h

/-- The servers by rank, with their places. -/
def ranking (counts : ServerCounts) : List Entry :=
  (counts.zipIdx.mergeSort (List.zipIdxLE noFewer)).map Entry.ofPair

theorem byRank_ranking (counts : ServerCounts) : counts.ByRank counts.ranking where
  complete := (List.mergeSort_perm ..).map _
  sorted := by
    have htrans : ∀ a b c, noFewer a b = true → noFewer b c = true → noFewer a c = true := by
      intro a b c hab hbc
      exact decide_eq_true (UInt32.le_trans (of_decide_eq_true hbc) (of_decide_eq_true hab))
    have htotal : ∀ a b, (noFewer a b || noFewer b a) = true := by
      intro a b
      simpa [noFewer] using UInt32.le_total b.2 a.2
    have hsorted := List.pairwise_mergeSort (List.zipIdxLE_trans htrans)
      (List.zipIdxLE_total htotal) counts.zipIdx
    -- no two servers have the same place, so there are no ties left
    have hplaces : (counts.zipIdx.mergeSort (List.zipIdxLE noFewer)).Pairwise
        fun a b => a.2 ≠ b.2 := by
      have hperm := (List.mergeSort_perm counts.zipIdx (List.zipIdxLE noFewer)).map Prod.snd
      exact List.pairwise_map.mp (hperm.nodup_iff.mpr (by simp [List.nodup_range']))
    exact List.pairwise_map.mpr ((hsorted.and hplaces).imp fun h => ahead_of_zipIdxLE h.1 h.2)

theorem servers_ranking (counts : ServerCounts) :
    counts.ranking.map Entry.server = counts.ranked := by
  have hranked : counts.ranked = (counts.mergeSort noFewer).map Prod.fst := rfl
  rw [hranked, ← List.mergeSort_zipIdx, List.map_map, ranking, List.map_map]
  rfl

theorem length_ranked (counts : ServerCounts) : counts.ranked.length = counts.length := by
  rw [ranked, servers, List.length_map, List.length_mergeSort]

theorem nodup_ranked {counts : ServerCounts} (h : counts.servers.Nodup) : counts.ranked.Nodup :=
  ((List.mergeSort_perm counts _).map Prod.fst).nodup_iff.mpr h

end ServerCounts

/-! ### Rounds -/

/-- Rounds that deal out all of a number of allocations, from those that are placed before them to
those that are placed after them. -/
inductive Dealt (servers : List String) : Nat → List Placement → List Placement → Prop
  | done {placed : List Placement} : Dealt servers 0 placed placed
  | round {count : Nat} {placed final : List Placement} (left : count ≠ 0)
    (rest : Dealt servers (count - (servers.take count).length)
      ((servers.take count).foldl place placed) final) : Dealt servers count placed final

theorem deal_zero (servers : List String) (fuel : Nat) (placed : List Placement) :
    deal servers fuel 0 placed = placed := by
  cases fuel <;> simp [deal]

/-- There is an end to the rounds, since each of them deals something out. -/
theorem dealt_deal {servers : List String} (hservers : servers ≠ []) {fuel count : Nat}
    (placed : List Placement) (hfuel : count ≤ fuel) :
    Dealt servers count placed (deal servers fuel count placed) := by
  induction fuel generalizing count placed with
  | zero =>
    obtain rfl : count = 0 := by omega
    exact .done
  | succ fuel ih =>
    simp only [deal]
    split
    · rename_i hcount
      rw [hcount]
      exact .done
    · rename_i hcount
      have hround : 0 < (servers.take count).length := by
        rw [List.length_take]
        have hpos := List.length_pos_iff.mpr hservers
        omega
      exact .round hcount (ih _ (by omega))

/-- The same number of allocations on each of some servers. -/
def level (count : Nat) (servers : List String) : List Placement :=
  if count = 0 then [] else servers.map fun server => ⟨UInt32.ofNat count, server⟩

theorem level_zero (servers : List String) : level 0 servers = [] := rfl

theorem level_nil (count : Nat) : level count [] = [] := by
  unfold level
  split <;> rfl

theorem level_succ (count : Nat) (servers : List String) : level (count + 1) servers =
    servers.map fun server => ⟨UInt32.ofNat (count + 1), server⟩ := rfl

theorem place_of_notMem {server : String} {done : List Placement}
    (hnew : server ∉ done.map Placement.server) (rest : List Placement) :
    place (done ++ rest) server = done ++ place rest server := by
  induction done with
  | nil => rfl
  | cons p done ih =>
    rw [List.map_cons, List.mem_cons, not_or] at hnew
    obtain ⟨hp, hdone⟩ := hnew
    rw [List.cons_append, place, if_neg (Ne.symm hp), ih hdone, List.cons_append]

theorem place_level (count : Nat) (server : String) (rest : List String) :
    place (level count (server :: rest)) server =
      ⟨UInt32.ofNat (count + 1), server⟩ :: level count rest := by
  cases count with
  | zero => rfl
  | succ count =>
    rw [level_succ, level_succ, List.map_cons, place, if_pos rfl, UInt32.ofNat_add (count + 1)]
    rfl

theorem foldl_place_level (count : Nat) {done : List Placement} {round : List String}
    (hdistinct : (done.map Placement.server ++ round).Nodup) (rest : List String) :
    round.foldl place (done ++ level count (round ++ rest)) =
      done ++ level (count + 1) round ++ level count rest := by
  induction round generalizing done with
  | nil => rw [List.nil_append, List.foldl_nil, level_nil, List.append_nil]
  | cons server round ih =>
    have hnew : server ∉ done.map Placement.server := fun hmem =>
      (List.nodup_append.mp hdistinct).2.2 server hmem server List.mem_cons_self rfl
    let p : Placement := ⟨UInt32.ofNat (count + 1), server⟩
    have hdistinct' : ((done ++ [p]).map Placement.server ++ round).Nodup := by
      simpa [p] using hdistinct
    have hplace : place (done ++ level count (server :: round ++ rest)) server =
        done ++ [p] ++ level count (round ++ rest) := by
      rw [List.cons_append, place_of_notMem hnew, place_level, List.append_assoc]
      rfl
    rw [List.foldl_cons, hplace, ih hdistinct', level_succ, level_succ, List.map_cons,
      List.append_assoc done]
    rfl

/-- What the rounds come to: one after the other they are full, and the last one goes as far as
there are allocations left. -/
theorem deal_level {servers : List String} (hservers : servers ≠ []) (hdistinct : servers.Nodup)
    {fuel count : Nat} (hfuel : count ≤ fuel) (full : Nat) :
    deal servers fuel count (level full servers) =
      level (full + count / servers.length + 1) (servers.take (count % servers.length)) ++
        level (full + count / servers.length) (servers.drop (count % servers.length)) := by
  have hpos := List.length_pos_iff.mpr hservers
  induction fuel generalizing count full with
  | zero =>
    obtain rfl : count = 0 := by omega
    simp [deal, level_nil]
  | succ fuel ih =>
    have hround : (servers.take count).foldl place (level full servers) =
        level (full + 1) (servers.take count) ++ level full (servers.drop count) := by
      have hnew : (([] : List Placement).map Placement.server ++ servers.take count).Nodup :=
        (List.take_sublist ..).nodup hdistinct
      have hplaced := foldl_place_level full hnew (servers.drop count)
      rwa [List.take_append_drop] at hplaced
    simp only [deal]
    split
    · rename_i hcount
      rw [hcount]
      simp [level_nil]
    · rename_i hcount
      rw [hround, List.length_take]
      obtain hlt | hle := Nat.lt_or_ge count servers.length
      · rw [Nat.min_eq_left (Nat.le_of_lt hlt), Nat.sub_self, deal_zero, Nat.mod_eq_of_lt hlt,
          Nat.div_eq_of_lt hlt]
        rfl
      · have hfull : level (full + 1) (servers.take count) ++ level full (servers.drop count) =
            level (full + 1) servers := by
          rw [List.take_of_length_le hle, List.drop_of_length_le hle, level_nil, List.append_nil]
        have hdiv : full + 1 + (count - servers.length) / servers.length =
            full + count / servers.length := by
          rw [Nat.div_eq_sub_div hpos hle, Nat.add_assoc, Nat.add_comm 1]
        rw [Nat.min_eq_right hle, hfull, ih (by omega), hdiv, ← Nat.mod_eq_sub_mod hle]

/-- The number of allocations on the server of a rank, out of `count` over `servers` servers. -/
def portion (count servers rank : Nat) : Nat :=
  count / servers + if rank < count % servers then 1 else 0

/-- A server and the number of allocations on it. -/
def Placement.amount (p : Placement) : String × Nat := (p.server, p.count.toNat)

theorem map_amount_level {count : Nat} (hcount : count < UInt32.size) (servers : List String) :
    (level count servers).map Placement.amount =
      (servers.map fun server => (server, count)).filter fun a => 0 < a.2 := by
  have hall : ((servers.map fun server => (server, count)).filter fun a => 0 < a.2) =
      if count = 0 then [] else servers.map fun server => (server, count) := by
    split
    · rename_i hzero
      simp [hzero]
    · rename_i hpos
      simp [Nat.pos_of_ne_zero hpos]
  rw [hall, level, apply_ite (List.map Placement.amount), List.map_map, List.map_nil]
  simp only [Function.comp_def, Placement.amount, UInt32.toNat_ofNat_of_lt' hcount]

/-- The first ranks get one allocation more. -/
theorem mapIdx_portion (servers : List String) (count : Nat) :
    (servers.mapIdx fun rank server => (server, portion count servers.length rank)) =
      (servers.take (count % servers.length)).map
          (fun server => (server, count / servers.length + 1)) ++
        (servers.drop (count % servers.length)).map
          (fun server => (server, count / servers.length)) := by
  refine List.ext_getElem (by simp; omega) fun rank hrank _ => ?_
  rw [List.length_mapIdx] at hrank
  rw [List.getElem_mapIdx, portion]
  have hmod : min (count % servers.length) servers.length = count % servers.length :=
    Nat.min_eq_left (Nat.le_of_lt (Nat.mod_lt _ (by omega)))
  by_cases hfirst : rank < count % servers.length
  · rw [if_pos hfirst, List.getElem_append_left (by simp; omega), List.getElem_map,
      List.getElem_take]
  · have hrest : count % servers.length + (rank - count % servers.length) = rank := by omega
    rw [if_neg hfirst, List.getElem_append_right (by simp; omega), List.getElem_map,
      List.getElem_drop]
    simp only [List.length_map, List.length_take, hmod, hrest, Nat.add_zero]

/-! ### Even shares -/

/-- A number of allocations that is spread evenly over the servers of a job, which are given by
rank. -/
structure EvenlyPlaced (order : List String) (count : Nat) (storage : List Placement) : Prop where
  /-- Servers without an allocation are left out. -/
  portions : storage.map Placement.amount =
    (order.mapIdx fun rank server => (server, portion count order.length rank)).filter
      fun a => 0 < a.2
  total : (storage.map fun p => p.count.toNat).sum = count
  balanced : ∀ p ∈ storage, ∀ q ∈ storage, p.count.toNat ≤ q.count.toNat + 1
  best : storage.map Placement.server = order.take (min count order.length)

variable {counts : ServerCounts}

theorem ranked_ne_nil (hne : counts ≠ []) : counts.ranked ≠ [] := by
  rw [← List.length_pos_iff, ServerCounts.length_ranked]
  exact List.length_pos_iff.mpr hne

theorem spread_eq (hne : counts ≠ []) (hdistinct : counts.servers.Nodup) (count : UInt32) :
    spread counts count =
      level (count.toNat / counts.ranked.length + 1)
          (counts.ranked.take (count.toNat % counts.ranked.length)) ++
        level (count.toNat / counts.ranked.length)
          (counts.ranked.drop (count.toNat % counts.ranked.length)) := by
  have h := deal_level (ranked_ne_nil hne) (ServerCounts.nodup_ranked hdistinct)
    (Nat.le_refl count.toNat) 0
  rwa [level_zero, Nat.zero_add] at h

theorem amounts_spread (hne : counts ≠ []) (hdistinct : counts.servers.Nodup) (count : UInt32) :
    (spread counts count).map Placement.amount =
      (counts.ranked.mapIdx fun rank server =>
        (server, portion count.toNat counts.ranked.length rank)).filter fun a => 0 < a.2 := by
  have hsize : count.toNat < UInt32.size := count.toNat_lt
  have hmore : (level (count.toNat / counts.ranked.length + 1)
      (counts.ranked.take (count.toNat % counts.ranked.length))).map Placement.amount =
      ((counts.ranked.take (count.toNat % counts.ranked.length)).map fun server =>
        (server, count.toNat / counts.ranked.length + 1)).filter fun a => 0 < a.2 := by
    obtain hzero | hpos := Nat.eq_zero_or_pos (count.toNat % counts.ranked.length)
    · rw [hzero, List.take_zero, level_nil]
      rfl
    · refine map_amount_level ?_ _
      have hdiv := Nat.div_add_mod count.toNat counts.ranked.length
      have hle : count.toNat / counts.ranked.length ≤
          counts.ranked.length * (count.toNat / counts.ranked.length) :=
        Nat.le_mul_of_pos_left _ (List.length_pos_iff.mpr (ranked_ne_nil hne))
      omega
  have hless := map_amount_level (Nat.lt_of_le_of_lt
    (Nat.div_le_self count.toNat counts.ranked.length) hsize)
    (counts.ranked.drop (count.toNat % counts.ranked.length))
  rw [spread_eq hne hdistinct, List.map_append, hmore, hless, mapIdx_portion, List.filter_append]

theorem servers_spread (hne : counts ≠ []) (hdistinct : counts.servers.Nodup) (count : UInt32) :
    (spread counts count).map Placement.server =
      counts.ranked.take (min count.toNat counts.ranked.length) := by
  have hmap (n : Nat) (servers : List String) : (level n servers).map Placement.server =
      if n = 0 then [] else servers := by
    unfold level
    split <;> simp [Function.comp_def]
  rw [spread_eq hne hdistinct, List.map_append, hmap, hmap, if_neg (Nat.succ_ne_zero _)]
  have hpos := List.length_pos_iff.mpr (ranked_ne_nil hne)
  split
  · rename_i hzero
    have hlt : count.toNat < counts.ranked.length :=
      (Nat.div_eq_zero_iff.mp hzero).resolve_left (Nat.ne_of_gt hpos)
    rw [List.append_nil, Nat.mod_eq_of_lt hlt, Nat.min_eq_left (Nat.le_of_lt hlt)]
  · rename_i hfull
    have hle : counts.ranked.length ≤ count.toNat := by
      by_contra hlt
      exact hfull (Nat.div_eq_of_lt (Nat.lt_of_not_le hlt))
    rw [List.take_append_drop, Nat.min_eq_right hle, List.take_length]

theorem evenlyPlaced_spread (hne : counts ≠ []) (hdistinct : counts.servers.Nodup)
    (count : UInt32) : EvenlyPlaced counts.ranked count.toNat (spread counts count) where
  portions := amounts_spread hne hdistinct count
  total := by
    have htotal := (among_spread hne count).total
    rwa [ServerCounts.nodes, tally, List.map_map] at htotal
  balanced := by
    have hportion (p : Placement) (hp : p ∈ spread counts count) :
        ∃ rank, p.count.toNat = portion count.toNat counts.ranked.length rank := by
      have hmem : p.amount ∈ (spread counts count).map Placement.amount :=
        List.mem_map_of_mem hp
      rw [amounts_spread hne hdistinct] at hmem
      obtain ⟨rank, _, hrank⟩ := List.mem_mapIdx.mp (List.mem_of_mem_filter hmem)
      exact ⟨rank, (congrArg Prod.snd hrank).symm⟩
    intro p hp q hq
    obtain ⟨i, hi⟩ := hportion p hp
    obtain ⟨j, hj⟩ := hportion q hq
    rw [hi, hj, portion, portion]
    split <;> split <;> omega
  best := servers_spread hne hdistinct count

/-- Dealing comes to an end, and then every server has the portion that belongs to its rank. -/
theorem evenly_spread (hne : counts ≠ []) (hdistinct : counts.servers.Nodup) (count : UInt32) :
    ∃ order, counts.ByRank order ∧
      Dealt (order.map ServerCounts.Entry.server) count.toNat [] (spread counts count) ∧
      EvenlyPlaced (order.map ServerCounts.Entry.server) count.toNat (spread counts count) := by
  refine ⟨counts.ranking, counts.byRank_ranking, ?_⟩
  rw [ServerCounts.servers_ranking]
  exact ⟨dealt_deal (ranked_ne_nil hne) [] (Nat.le_refl _),
    evenlyPlaced_spread hne hdistinct count⟩

/-- Five allocations on three servers, of which the first one has the fewest compute nodes. -/
theorem evenly_spread_five :
    let counts : ServerCounts := [("rabbit1", 1), ("rabbit2", 3), ("rabbit3", 3)]
    counts ≠ [] ∧ counts.servers.Nodup ∧ ∃ order, counts.ByRank order ∧
      Dealt (order.map ServerCounts.Entry.server) 5 [] (spread counts 5) ∧
      EvenlyPlaced (order.map ServerCounts.Entry.server) 5 (spread counts 5) := by
  intro counts
  have nonempty : counts ≠ [] := by decide
  have distinct : counts.servers.Nodup := by decide
  exact ⟨nonempty, distinct, evenly_spread nonempty distinct 5⟩

example : spread [("rabbit1", 1), ("rabbit2", 3), ("rabbit3", 3)] 5 =
    [⟨2, "rabbit2"⟩, ⟨2, "rabbit3"⟩, ⟨1, "rabbit1"⟩] := by
  cbv

end Warren.Allocation
