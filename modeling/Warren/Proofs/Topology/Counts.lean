import Mathlib.Algebra.BigOperators.Group.List.Lemmas
import Warren.Proofs.Allocation.Shares
import Warren.Proofs.Topology.Attachment

/-!
# Compute nodes by storage node

The compute nodes of a job are counted by the storage node to which each is attached.
`ofServers_of_room` says what the counts are, and `ofServers_of_crowded` when they do not fit their
words. `attachment` puts them together with the topology that is built of an inventory.
-/

namespace Warren

namespace Allocation.ServerCounts

theorem add_map {servers : List String} (count : String → Nat) (hnodup : servers.Nodup)
    (hcount : ∀ s, count s < UInt32.size) (server : String) :
    add (servers.map fun s => (s, UInt32.ofNat (count s))) server =
      if server ∈ servers then
        if count server + 1 < UInt32.size then
          .ok (servers.map fun s => (s, UInt32.ofNat (if s = server then count s + 1 else count s)))
        else .error .overflow
      else .ok ((servers.map fun s => (s, UInt32.ofNat (count s))) ++ [(server, 1)]) := by
  induction servers with
  | nil => rfl
  | cons s servers ih =>
    obtain ⟨hs, hservers⟩ := List.nodup_cons.mp hnodup
    rw [List.map_cons, add]
    by_cases heq : s = server
    · subst heq
      have hrest : (servers.map fun other =>
            (other, UInt32.ofNat (if other = s then count other + 1 else count other))) =
          servers.map fun other => (other, UInt32.ofNat (count other)) := by
        refine List.map_congr_left fun other hother => ?_
        rw [if_neg (ne_of_mem_of_not_mem hother hs)]
      rw [if_pos rfl, if_pos List.mem_cons_self, UInt32.toNat_ofNat_of_lt' (hcount s)]
      split
      · rename_i hfits
        rw [Crash.fit32_of_lt hfits, List.map_cons, if_pos rfl, hrest]
        rfl
      · rename_i hlarge
        rw [Crash.fit32_of_le (Nat.le_of_not_lt hlarge)]
        rfl
    · rw [if_neg heq, ih hservers]
      by_cases hmem : server ∈ servers
      · rw [if_pos hmem, if_pos (List.mem_cons_of_mem s hmem)]
        split
        · rw [List.map_cons, if_neg heq]
          rfl
        · rfl
      · have hnew : server ∉ s :: servers := by simp [hmem, Ne.symm heq]
        rw [if_neg hmem, if_neg hnew]
        rfl

theorem count_concat (servers : List String) (server s : String) :
    (servers ++ [server]).count s =
      if s = server then servers.count s + 1 else servers.count s := by
  rw [List.count_append, List.count_singleton]
  by_cases heq : s = server
  · simp [heq]
  · simp [heq, Ne.symm heq]

/-- Every server comes once, where it is seen first, with the number of its places in the list. -/
theorem ofServers_of_room {servers : List String}
    (room : ∀ s, servers.count s < UInt32.size) :
    ofServers servers =
      .ok (servers.eraseDups.map fun s => (s, UInt32.ofNat (servers.count s))) := by
  induction servers using List.reverseRecOn with
  | nil => rfl
  | append_singleton servers server ih =>
    simp only [count_concat] at room
    have hroom (s : String) : servers.count s < UInt32.size := by
      have hs := room s
      split at hs <;> omega
    have hadd := add_map (servers.count ·) (Topology.nodup_eraseDups servers) hroom server
    have hserver := room server
    rw [if_pos rfl] at hserver
    rw [if_pos hserver] at hadd
    rw [ofServers, List.foldlM_append, ← ofServers, bind_of_ok (ih hroom), List.foldlM_cons, hadd,
      Topology.eraseDups_concat]
    simp only [List.mem_eraseDups, count_concat]
    split
    · rfl
    · rename_i hnew
      have hold : (servers.eraseDups.map fun s => (s, UInt32.ofNat (servers.count s))) =
          servers.eraseDups.map fun s => (s, UInt32.ofNat
            (if s = server then servers.count s + 1 else servers.count s)) := by
        refine List.map_congr_left fun s hs => ?_
        rw [if_neg (ne_of_mem_of_not_mem (List.mem_eraseDups.mp hs) hnew)]
      rw [hold, List.map_append, List.map_singleton, if_pos rfl, List.count_eq_zero.mpr hnew]
      rfl

theorem ofServers_of_crowded {servers : List String}
    (crowded : ∃ s, UInt32.size ≤ servers.count s) : ofServers servers = .error .overflow := by
  induction servers using List.reverseRecOn with
  | nil =>
    obtain ⟨s, hs⟩ := crowded
    simp at hs
  | append_singleton servers server ih =>
    rw [ofServers, List.foldlM_append, ← ofServers]
    by_cases hbefore : ∃ s, UInt32.size ≤ servers.count s
    · rw [ih hbefore]
      rfl
    · -- the last place is the one too many
      have hroom (s : String) : servers.count s < UInt32.size :=
        Nat.lt_of_not_le fun hs => hbefore ⟨s, hs⟩
      have hfull : ¬servers.count server + 1 < UInt32.size := by
        obtain ⟨s, hs⟩ := crowded
        have := hroom s
        rw [count_concat] at hs
        split at hs
        · rename_i heq
          rw [heq] at hs
          omega
        · omega
      have hmem : server ∈ servers.eraseDups := by
        rw [List.mem_eraseDups, ← List.count_pos_iff]
        have hsize : 1 < UInt32.size := by decide
        omega
      have hadd := add_map (servers.count ·) (Topology.nodup_eraseDups servers) hroom server
      rw [if_pos hmem, if_neg hfull] at hadd
      rw [bind_of_ok (ofServers_of_room hroom), List.foldlM_cons, hadd]
      rfl

theorem sum_count_eraseDups (servers : List String) :
    (servers.eraseDups.map fun s => servers.count s).sum = servers.length := by
  have hperm : servers.eraseDups.Perm servers.dedup :=
    (List.perm_ext_iff_of_nodup (Topology.nodup_eraseDups servers) servers.nodup_dedup).mpr
      fun s => by rw [List.mem_eraseDups, List.mem_dedup]
  rw [(hperm.map fun s => servers.count s).sum_eq]
  exact List.sum_map_count_dedup_eq_length servers

end Allocation.ServerCounts

namespace Topology

open Allocation (ServerCounts)

variable {t : Topology} {hosts : List String}

/-- How many of some compute nodes are attached to a storage node. -/
def attachedTo (t : Topology) (storage : String) (hosts : List String) : Nat :=
  hosts.countP fun host => t.storageOf host = some storage

theorem unknown_eq_nil_iff : (hosts.filter fun host => (t.storageOf host).isNone) = [] ↔
    ∀ host ∈ hosts, t.storageOf host ≠ none := by
  simp [List.filter_eq_nil_iff]

theorem count_filterMap_storageOf (t : Topology) (storage : String) (hosts : List String) :
    (hosts.filterMap t.storageOf).count storage = t.attachedTo storage hosts := by
  rw [List.count_filterMap, attachedTo]
  exact List.countP_congr fun host _ => by simp

theorem sum_attachedTo (h : ∀ host ∈ hosts, t.storageOf host ≠ none) :
    ((hosts.filterMap t.storageOf).eraseDups.map fun storage => t.attachedTo storage hosts).sum =
      hosts.length := by
  have hsum := ServerCounts.sum_count_eraseDups (hosts.filterMap t.storageOf)
  simp only [count_filterMap_storageOf] at hsum
  rw [hsum, List.length_filterMap_eq_countP, List.countP_eq_length]
  exact fun host hhost => Option.isSome_iff_ne_none.mpr (h host hhost)

/-- No storage node has more of some compute nodes than a word can count. -/
def HasRoom (t : Topology) (hosts : List String) : Prop :=
  ∀ storage, t.attachedTo storage hosts < UInt32.size

theorem hasRoom_of_length (h : hosts.length < UInt32.size) : t.HasRoom hosts :=
  fun _ => Nat.lt_of_le_of_lt List.countP_le_length h

theorem serverCounts_of_crowded (h : ¬t.HasRoom hosts) :
    t.serverCounts hosts = .error (.crash .overflow) := by
  have crowded : ∃ s, UInt32.size ≤ (hosts.filterMap t.storageOf).count s := by
    simp only [count_filterMap_storageOf]
    simpa [HasRoom] using h
  rw [serverCounts, ServerCounts.ofServers_of_crowded crowded]
  rfl

/-- With room, the compute nodes are counted, and only then it is seen that one is unknown. -/
theorem serverCounts_of_room (room : t.HasRoom hosts) :
    ((∃ host ∈ hosts, t.storageOf host = none) ∧
        ∃ unknown, t.serverCounts hosts = .error (.fault unknown)) ∨
      ((∀ host ∈ hosts, t.storageOf host ≠ none) ∧
        t.serverCounts hosts = .ok ((hosts.filterMap t.storageOf).eraseDups.map fun storage =>
          (storage, UInt32.ofNat (t.attachedTo storage hosts)))) := by
  have hcounts : ServerCounts.ofServers (hosts.filterMap t.storageOf) =
      .ok ((hosts.filterMap t.storageOf).eraseDups.map fun storage =>
        (storage, UInt32.ofNat (t.attachedTo storage hosts))) := by
    rw [ServerCounts.ofServers_of_room]
    · simp only [count_filterMap_storageOf]
    · intro storage
      rw [count_filterMap_storageOf]
      exact room storage
  rw [serverCounts, hcounts, Failure.ofCrash_ok, bind_of_ok rfl]
  by_cases hknown : ∀ host ∈ hosts, t.storageOf host ≠ none
  · rw [unknown_eq_nil_iff.mpr hknown]
    exact .inr ⟨hknown, rfl⟩
  · refine .inl ⟨by simpa using hknown, ?_⟩
    split
    · rename_i hnil
      exact absurd (unknown_eq_nil_iff.mp hnil) hknown
    · exact ⟨_, rfl⟩

theorem serverCounts_crash_iff : (∃ crash, t.serverCounts hosts = .error (.crash crash)) ↔
    ¬t.HasRoom hosts := by
  constructor
  · rintro ⟨crash, hcrash⟩ room
    obtain ⟨-, unknown, h⟩ | ⟨-, h⟩ := serverCounts_of_room room <;>
      rw [h] at hcrash <;> cases hcrash
  · exact fun h => ⟨_, serverCounts_of_crowded h⟩

theorem serverCounts_fault_iff : (∃ unknown, t.serverCounts hosts = .error (.fault unknown)) ↔
    t.HasRoom hosts ∧ ∃ host ∈ hosts, t.storageOf host = none := by
  constructor
  · rintro ⟨unknown, hfault⟩
    by_cases room : t.HasRoom hosts
    · obtain ⟨hunknown, -⟩ | ⟨-, h⟩ := serverCounts_of_room room
      · exact ⟨room, hunknown⟩
      · rw [h] at hfault
        cases hfault
    · rw [serverCounts_of_crowded room] at hfault
      cases hfault
  · rintro ⟨room, host, hhost, hnone⟩
    obtain ⟨-, h⟩ | ⟨hknown, -⟩ := serverCounts_of_room room
    · exact h
    · exact absurd hnone (hknown host hhost)

theorem serverCounts_ok_iff : (∃ counts, t.serverCounts hosts = .ok counts) ↔
    t.HasRoom hosts ∧ ∀ host ∈ hosts, t.storageOf host ≠ none := by
  constructor
  · rintro ⟨counts, hok⟩
    have room : t.HasRoom hosts := by
      by_contra hcrowded
      rw [serverCounts_of_crowded hcrowded] at hok
      cases hok
    obtain ⟨-, unknown, h⟩ | ⟨hknown, -⟩ := serverCounts_of_room room
    · rw [h] at hok
      cases hok
    · exact ⟨room, hknown⟩
  · rintro ⟨room, hknown⟩
    obtain ⟨⟨host, hhost, hnone⟩, -⟩ | ⟨-, h⟩ := serverCounts_of_room room
    · exact absurd hnone (hknown host hhost)
    · exact ⟨_, h⟩

/-- Counts that come about are the numbers of compute nodes, and no compute node is missing from
them. -/
theorem counted_of_serverCounts {counts : ServerCounts} (h : t.serverCounts hosts = .ok counts) :
    counts.servers = (hosts.filterMap t.storageOf).eraseDups ∧
      (∀ e ∈ counts, e.2.toNat = t.attachedTo e.1 hosts) ∧ counts.nodes.sum = hosts.length := by
  obtain ⟨room, hknown⟩ := serverCounts_ok_iff.mp ⟨counts, h⟩
  have hword (storage : String) : (UInt32.ofNat (t.attachedTo storage hosts)).toNat =
      t.attachedTo storage hosts := UInt32.toNat_ofNat_of_lt' (room storage)
  obtain ⟨⟨host, hhost, hnone⟩, -⟩ | ⟨-, hok⟩ := serverCounts_of_room room
  · exact absurd hnone (hknown host hhost)
  · obtain rfl := Except.ok.inj (hok.symm.trans h)
    refine ⟨by simp [ServerCounts.servers, Function.comp_def], ?_, ?_⟩
    · intro e he
      obtain ⟨storage, -, rfl⟩ := List.mem_map.mp he
      exact hword storage
    · rw [ServerCounts.nodes, List.map_map]
      simp only [Function.comp_def, hword]
      exact sum_attachedTo hknown

/-! ### The topology and the counts -/

theorem build_warn (inventory : Inventory) : ∃ t, build .warn inventory = .ok t := by
  have houtcome := outcome_build .warn inventory
  cases hbuild : build .warn inventory with
  | ok t => exact ⟨t, rfl⟩
  | error c =>
    rw [hbuild] at houtcome
    cases houtcome.1

theorem build_fail_iff (inventory : Inventory) : (∃ c, build .fail inventory = .error c) ↔
    ∃ host s s', s ≠ s' ∧ inventory.Claims s host ∧ inventory.Claims s' host := by
  have houtcome := outcome_build .fail inventory
  constructor
  · rintro ⟨c, hbuild⟩
    rw [hbuild] at houtcome
    have hdisputed := houtcome.2
    exact ⟨c.host, c.owner, c.storage, hdisputed.other,
      Inventory.mem_claims_iff.mp (Dict.mem_of_find? hdisputed.first),
      Inventory.mem_claims_iff.mp hdisputed.claimed⟩
  · rintro ⟨host, s, s', hne, hclaim, hclaim'⟩
    cases hbuild : build .fail inventory with
    | error c => exact ⟨c, rfl⟩
    | ok t =>
      rw [hbuild] at houtcome
      have hs := houtcome.2 rfl host s (Inventory.mem_claims_iff.mpr hclaim)
      have hs' := houtcome.2 rfl host s' (Inventory.mem_claims_iff.mpr hclaim')
      exact absurd (Option.some.inj (hs.symm.trans hs')) hne

theorem represents_build {policy : ClaimPolicy} {inventory : Inventory}
    (h : build policy inventory = .ok t) : t.Represents inventory := by
  have houtcome := outcome_build policy inventory
  rw [h] at houtcome
  exact houtcome.1.represents

example : (build .warn [⟨"rabbit1", ["node1", "node2"]⟩, ⟨"rabbit2", ["node3", "node1"]⟩]).map
    attached = .ok [("rabbit1", ["node1", "node2"]), ("rabbit2", ["node3"])] := by decide +kernel

end Topology

end Warren
