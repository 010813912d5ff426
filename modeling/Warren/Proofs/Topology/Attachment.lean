import Mathlib.Data.List.Induction
import Mathlib.Data.List.Nodup
import Warren.Proofs.Dict
import Warren.Topology

/-!
# Who is attached to whom

The topology reads the claims of the inventory one after the other. `Holds` is what the claims that
have been read leave in the two dictionaries: the first claim on a compute node counts, and a
storage node has the compute nodes on which it has the first claim, in the order in which they came
up.
`outcome_build` says what comes of an inventory under either policy.
-/

namespace Warren

/-! ### Claims of the inventory -/

namespace Inventory

/-- Every compute node with the storage node that claims it, in order. -/
def claims (inventory : Inventory) : List (String × String) :=
  inventory.flatMap fun entry => entry.hosts.map fun host => (host, entry.storage)

/-- The storage node whose entry is the first one that lists a compute node. -/
def firstClaim (inventory : Inventory) (host : String) : Option String :=
  (inventory.find? fun entry => host ∈ entry.hosts).map InventoryEntry.storage

def Claims (inventory : Inventory) (storage host : String) : Prop :=
  ∃ entry ∈ inventory, entry.storage = storage ∧ host ∈ entry.hosts

/-- All compute nodes, in the order in which they are listed, repeated ones included. -/
def hosts (inventory : Inventory) : List String := inventory.flatMap InventoryEntry.hosts

variable {inventory : Inventory} {storage host : String}

theorem mem_claims_iff : (host, storage) ∈ inventory.claims ↔ inventory.Claims storage host := by
  simp only [claims, Claims, List.mem_flatMap, List.mem_map, Prod.mk.injEq]
  constructor
  · rintro ⟨entry, hentry, host, hhost, rfl, rfl⟩
    exact ⟨entry, hentry, rfl, hhost⟩
  · rintro ⟨entry, hentry, rfl, hhost⟩
    exact ⟨entry, hentry, host, hhost, rfl, rfl⟩

theorem map_fst_claims (inventory : Inventory) :
    inventory.claims.map Prod.fst = inventory.hosts := by
  simp [claims, hosts, List.map_flatMap, Function.comp_def]

theorem find?_claims (inventory : Inventory) (host : String) :
    Dict.find? inventory.claims host = inventory.firstClaim host := by
  have hentry (storage : String) (hosts : List String) :
      Dict.find? (hosts.map fun h => (h, storage)) host =
        if host ∈ hosts then some storage else none := by
    induction hosts with
    | nil => rfl
    | cons h hosts ih =>
      rw [List.map_cons, Dict.find?_cons, ih]
      by_cases heq : h = host
      · simp [heq]
      · simp [heq, Ne.symm heq]
  induction inventory with
  | nil => rfl
  | cons entry rest ih =>
    rw [claims, firstClaim, List.flatMap_cons, Dict.find?_append, hentry, List.find?_cons]
    by_cases hmem : host ∈ entry.hosts
    · simp [hmem]
    · rw [claims, firstClaim] at ih
      simp [hmem, ih]

end Inventory

namespace Topology

/-! ### One claim after the other -/

theorem eraseDups_concat (names : List String) (name : String) :
    (names ++ [name]).eraseDups =
      if name ∈ names then names.eraseDups else names.eraseDups ++ [name] := by
  rw [List.eraseDups_append]
  by_cases h : name ∈ names <;> simp [List.removeAll, List.eraseDups_cons, h]

theorem nodup_eraseDups (names : List String) : names.eraseDups.Nodup := by
  induction names using List.reverseRecOn with
  | nil => simp
  | append_singleton names name ih =>
    rw [eraseDups_concat]
    split
    · exact ih
    · rename_i hnew
      have hnot : name ∉ names.eraseDups := fun h => hnew (List.mem_eraseDups.mp h)
      rw [← List.concat_eq_append]
      exact ih.concat hnot

/-- What the claims that have been read say of the two dictionaries. -/
structure Holds (claims : List (String × String)) (t : Topology) : Prop where
  sorted : t.attached.Sorted
  storageOf_eq : ∀ host, t.storageOf host = Dict.find? claims host
  computesOf_eq : ∀ storage, t.computesOf storage =
    (claims.map Prod.fst).eraseDups.filter fun host => Dict.find? claims host = some storage

/-- The claim of another storage node than the one that was the first to claim the node. -/
structure Disputed (claims : List (String × String)) (c : ClaimConflict) : Prop where
  claimed : (c.host, c.storage) ∈ claims
  first : Dict.find? claims c.host = some c.owner
  other : c.owner ≠ c.storage

/-- No compute node is claimed twice. -/
def Undisputed (claims : List (String × String)) : Prop :=
  ∀ host storage, (host, storage) ∈ claims → Dict.find? claims host = some storage

/-- What has come of the claims so far under a policy. -/
def Outcome (policy : ClaimPolicy) (claims : List (String × String)) :
    Except ClaimConflict Topology → Prop
  | .ok t => Holds claims t ∧ (policy = .fail → Undisputed claims)
  | .error c => policy = .fail ∧ Disputed claims c

variable {policy : ClaimPolicy} {claims more : List (String × String)} {t : Topology}
  {storage host : String}

theorem holds_empty : Holds [] empty where
  sorted := Dict.sorted_nil
  storageOf_eq _ := rfl
  computesOf_eq _ := rfl

theorem Disputed.append {c : ClaimConflict} (h : Disputed claims c) :
    Disputed (claims ++ more) c where
  claimed := List.mem_append_left _ h.claimed
  first := by rw [Dict.find?_append, h.first, Option.some_or]
  other := h.other

theorem computesOf_insert (t : Topology) (owners : Dict String String) (storage s : String)
    (hosts : List String) :
    computesOf ⟨owners, t.attached.insert storage hosts⟩ s =
      if storage = s then hosts else t.computesOf s := by
  rw [computesOf, Dict.find?_insert]
  split <;> rfl

theorem Holds.listed (h : Holds claims t) (storage : String) :
    Holds claims { t with attached := t.attached.insert storage (t.computesOf storage) } where
  sorted := h.sorted.insert _ _
  storageOf_eq := h.storageOf_eq
  computesOf_eq s := by
    rw [computesOf_insert, ← h.computesOf_eq]
    split
    · rename_i heq
      rw [heq]
    · rfl

theorem find?_concat (claims : List (String × String)) (host storage other : String) :
    Dict.find? (claims ++ [(host, storage)]) other =
      (Dict.find? claims other).or (if host = other then some storage else none) := by
  rw [Dict.find?_append, Dict.find?_cons, Dict.find?_nil]

theorem Holds.claimed (h : Holds claims t) {owner : String}
    (howner : t.storageOf host = some owner) : Holds (claims ++ [(host, storage)]) t := by
  rw [h.storageOf_eq] at howner
  have hfind (other : String) :
      Dict.find? (claims ++ [(host, storage)]) other = Dict.find? claims other := by
    rw [find?_concat]
    by_cases heq : host = other
    · rw [← heq, howner, Option.some_or]
    · rw [if_neg heq, Option.or_none]
  have hmem : host ∈ claims.map Prod.fst :=
    List.mem_map.mpr ⟨_, Dict.mem_of_find? howner, rfl⟩
  refine ⟨h.sorted, fun other => (hfind other).symm ▸ h.storageOf_eq other, fun s => ?_⟩
  simp only [hfind, h.computesOf_eq, List.map_append, List.map_singleton, eraseDups_concat,
    if_pos hmem]

theorem Holds.attach (h : Holds claims t) (hnew : t.storageOf host = none) :
    Holds (claims ++ [(host, storage)]) {
      owners := t.owners.insert host storage
      attached := t.attached.insert storage (t.computesOf storage ++ [host]) } := by
  rw [h.storageOf_eq] at hnew
  have hfind (other : String) : Dict.find? (claims ++ [(host, storage)]) other =
      if host = other then some storage else Dict.find? claims other := by
    rw [find?_concat]
    by_cases heq : host = other
    · rw [← heq, hnew, Option.none_or, if_pos rfl]
    · rw [if_neg heq, if_neg heq, Option.or_none]
  have hmem : host ∉ claims.map Prod.fst := Dict.find?_eq_none_iff.mp hnew
  refine ⟨h.sorted.insert _ _, fun other => ?_, fun s => ?_⟩
  · rw [hfind, ← h.storageOf_eq]
    exact Dict.find?_insert ..
  · -- the claims of before are on other nodes, so their storage nodes stay the same
    have hbefore : (claims.map Prod.fst).eraseDups.filter
          (fun other => Dict.find? (claims ++ [(host, storage)]) other = some s) =
        t.computesOf s := by
      rw [h.computesOf_eq]
      refine List.filter_congr fun other hother => ?_
      have hne : host ≠ other := fun heq => hmem (heq ▸ List.mem_eraseDups.mp hother)
      rw [hfind, if_neg hne]
    have hhost : Dict.find? (claims ++ [(host, storage)]) host = some storage := by
      rw [hfind, if_pos rfl]
    have hlast : [host].filter
          (fun other => Dict.find? (claims ++ [(host, storage)]) other = some s) =
        if storage = s then [host] else [] := by
      simp only [List.filter_cons, hhost, Option.some.injEq, List.filter_nil, decide_eq_true_eq]
    rw [computesOf_insert, List.map_append, List.map_singleton, eraseDups_concat, if_neg hmem,
      List.filter_append, hbefore, hlast]
    split
    · rename_i heq
      rw [heq]
    · rw [List.append_nil]

theorem Undisputed.concat (h : Undisputed claims)
    (hclaim : Dict.find? (claims ++ [(host, storage)]) host = some storage) :
    Undisputed (claims ++ [(host, storage)]) := by
  intro other s hother
  rcases List.mem_append.mp hother with hother | hother
  · rw [find?_concat, h other s hother, Option.some_or]
  · obtain ⟨rfl, rfl⟩ := Prod.mk.inj (List.mem_singleton.mp hother)
    exact hclaim

theorem Outcome.concat {r : Except ClaimConflict Topology} (h : Outcome policy claims r)
    (storage host : String) :
    Outcome policy (claims ++ [(host, storage)]) (r >>= fun t => claim policy storage t host) := by
  cases r with
  | error c => exact ⟨h.1, h.2.append⟩
  | ok t =>
    obtain ⟨holds, undisputed⟩ := h
    change Outcome policy _ (claim policy storage t host)
    rw [claim]
    split
    · rename_i hnew
      refine ⟨holds.attach hnew, fun hpolicy => (undisputed hpolicy).concat ?_⟩
      rw [find?_concat, ← holds.storageOf_eq, hnew, if_pos rfl, Option.none_or]
    · rename_i owner howner
      have hfirst : Dict.find? (claims ++ [(host, storage)]) host = some owner := by
        rw [find?_concat, ← holds.storageOf_eq, howner, Option.some_or]
      split
      · rename_i hkeeps
        refine ⟨holds.claimed howner, fun hpolicy => (undisputed hpolicy).concat ?_⟩
        rcases hkeeps with rfl | hwarn
        · exact hfirst
        · rw [hpolicy] at hwarn
          cases hwarn
      · rename_i hnot
        obtain ⟨hother, hpolicy⟩ := not_or.mp hnot
        refine ⟨?_, by simp, hfirst, hother⟩
        cases policy with
        | warn => exact absurd rfl hpolicy
        | fail => rfl

theorem Outcome.hosts {r : Except ClaimConflict Topology} (h : Outcome policy claims r)
    (storage : String) (hosts : List String) :
    Outcome policy (claims ++ hosts.map fun host => (host, storage))
      (r >>= fun t => hosts.foldlM (Topology.claim policy storage) t) := by
  induction hosts generalizing claims r with
  | nil => simpa using h
  | cons host hosts ih =>
    have hrest := ih (h.concat storage host)
    rw [List.append_assoc, List.singleton_append, bind_assoc] at hrest
    simpa only [List.map_cons, List.foldlM_cons] using hrest

theorem Outcome.listed {r : Except ClaimConflict Topology} (h : Outcome policy claims r)
    (storage : String) : Outcome policy claims (r >>= fun t =>
      .ok { t with attached := t.attached.insert storage (t.computesOf storage) }) := by
  cases r with
  | error c => exact h
  | ok t => exact ⟨h.1.listed storage, h.2⟩

theorem Outcome.entries {r : Except ClaimConflict Topology} (h : Outcome policy claims r)
    (inventory : Inventory) :
    Outcome policy (claims ++ inventory.claims)
      (r >>= fun t => inventory.foldlM (addEntry policy) t) := by
  induction inventory generalizing claims r with
  | nil => simpa [Inventory.claims] using h
  | cons entry rest ih =>
    have hrest := ih ((h.listed entry.storage).hosts entry.storage entry.hosts)
    rw [List.append_assoc, bind_assoc, bind_assoc] at hrest
    exact hrest

theorem outcome_build (policy : ClaimPolicy) (inventory : Inventory) :
    Outcome policy inventory.claims (build policy inventory) := by
  have hempty : Outcome policy [] (.ok empty) := ⟨holds_empty, fun _ _ _ h => absurd h (by simp)⟩
  exact hempty.entries inventory

/-! ### The topology of an inventory -/

/-- The topology says who is attached to whom, as the first claims have it. -/
structure Represents (t : Topology) (inventory : Inventory) : Prop where
  /-- A compute node belongs to the first storage node that claims it. -/
  owner : ∀ host, t.storageOf host = inventory.firstClaim host
  /-- The two dictionaries say the same. -/
  inverse : ∀ host storage, t.storageOf host = some storage ↔ host ∈ t.computesOf storage
  /-- The lists of all storage nodes together have every compute node once. -/
  once : ∀ host, t.attached.values.flatten.count host = if host ∈ inventory.hosts then 1 else 0
  /-- The compute nodes of a storage node are in the order of the inventory. -/
  ordered : ∀ storage, t.computesOf storage =
    inventory.hosts.eraseDups.filter fun host => inventory.firstClaim host = some storage

theorem Holds.mem_computesOf_iff (h : Holds claims t) :
    host ∈ t.computesOf storage ↔ t.storageOf host = some storage := by
  rw [h.computesOf_eq, h.storageOf_eq, List.mem_filter, List.mem_eraseDups, decide_eq_true_eq]
  refine and_iff_right_of_imp fun hfind => ?_
  exact List.mem_map.mpr ⟨_, Dict.mem_of_find? hfind, rfl⟩

theorem Holds.computesOf_of_mem (h : Holds claims t) {e : String × List String}
    (he : e ∈ t.attached) : e.2 = t.computesOf e.1 := by
  rw [computesOf, (h.sorted.mem_iff e.1 e.2).mp he, Option.getD_some]

theorem Holds.nodup_attached (h : Holds claims t) : t.attached.values.flatten.Nodup := by
  rw [Dict.values, List.nodup_flatten, List.forall_mem_map, List.pairwise_map]
  constructor
  · intro e he
    rw [h.computesOf_of_mem he, h.computesOf_eq]
    exact (nodup_eraseDups _).filter _
  · refine List.Pairwise.imp_of_mem ?_ h.sorted
    intro e f he hf hlt host hhost hhost'
    rw [h.computesOf_of_mem he, h.mem_computesOf_iff] at hhost
    rw [h.computesOf_of_mem hf, h.mem_computesOf_iff] at hhost'
    have heq : e.1 = f.1 := Option.some.inj (hhost.symm.trans hhost')
    rw [heq] at hlt
    exact Std.Irrefl.irrefl _ hlt

theorem Holds.mem_attached_iff (h : Holds claims t) :
    host ∈ t.attached.values.flatten ↔ host ∈ claims.map Prod.fst := by
  have howned : host ∈ claims.map Prod.fst ↔ ∃ storage, t.storageOf host = some storage := by
    rw [← Option.isSome_iff_exists, h.storageOf_eq, Option.isSome_iff_ne_none, ne_eq,
      Dict.find?_eq_none_iff, not_not]
    rfl
  rw [howned, List.mem_flatten]
  constructor
  · rintro ⟨hosts, hhosts, hhost⟩
    obtain ⟨e, he, rfl⟩ := List.mem_map.mp hhosts
    rw [h.computesOf_of_mem he, h.mem_computesOf_iff] at hhost
    exact ⟨e.1, hhost⟩
  · rintro ⟨storage, hstorage⟩
    have hhost : host ∈ t.computesOf storage := h.mem_computesOf_iff.mpr hstorage
    cases hfind : t.attached.find? storage with
    | none => simp [computesOf, hfind] at hhost
    | some hosts =>
      rw [computesOf, hfind, Option.getD_some] at hhost
      exact ⟨hosts, List.mem_map.mpr ⟨_, Dict.mem_of_find? hfind, rfl⟩, hhost⟩

theorem Holds.represents {inventory : Inventory} (h : Holds inventory.claims t) :
    t.Represents inventory where
  owner host := by rw [h.storageOf_eq, Inventory.find?_claims]
  inverse host storage := h.mem_computesOf_iff.symm
  once host := by
    rw [h.nodup_attached.count]
    simp only [h.mem_attached_iff, Inventory.map_fst_claims]
  ordered storage := by
    simp only [h.computesOf_eq, Inventory.find?_claims, Inventory.map_fst_claims]

end Topology

end Warren
