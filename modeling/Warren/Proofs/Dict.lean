import Warren.Dict

/-!
# Dictionaries in order

A dictionary that is built by `insert` and `erase` has its keys in order, each of them once, so its
entries are exactly what a look-up finds. Of two writes under one key the later one counts, and
writes under different keys may be exchanged, whatever the order of the list is.
-/

namespace Warren.Dict

variable {κ : Type u} {ν : Type v} [LT κ]

/-- The keys are in order, and each of them occurs once. -/
def Sorted (d : Dict κ ν) : Prop := d.Pairwise fun a b => a.1 < b.1

theorem sorted_nil : Sorted ([] : Dict κ ν) := List.Pairwise.nil

theorem Sorted.erase [DecidableEq κ] {d : Dict κ ν} (h : d.Sorted) (k : κ) : (d.erase k).Sorted :=
  h.filter _

section

variable [DecidableEq κ] [DecidableLT κ]

theorem eq_or_mem_of_mem_insert {d : Dict κ ν} {k : κ} {v : ν} {e : κ × ν}
    (h : e ∈ d.insert k v) : e = (k, v) ∨ e ∈ d := by
  induction d with
  | nil => simpa [insert] using h
  | cons first rest ih =>
    obtain ⟨k', v'⟩ := first
    simp only [insert] at h
    split at h
    · rcases List.mem_cons.mp h with h | h
      · exact Or.inl h
      · exact Or.inr (List.mem_cons_of_mem _ h)
    · split at h
      · exact List.mem_cons.mp h
      · rcases List.mem_cons.mp h with h | h
        · exact Or.inr (h ▸ List.mem_cons_self ..)
        · rcases ih h with h | h
          · exact Or.inl h
          · exact Or.inr (List.mem_cons_of_mem _ h)

theorem Sorted.insert [Trans (α := κ) (· < ·) (· < ·) (· < ·)]
    [Std.Trichotomous (α := κ) (· < ·)] {d : Dict κ ν} (h : d.Sorted) (k : κ) (v : ν) :
    (d.insert k v).Sorted := by
  induction d with
  | nil => simp [Dict.insert, Sorted]
  | cons first rest ih =>
    obtain ⟨k', v'⟩ := first
    obtain ⟨hfirst, hrest⟩ := List.pairwise_cons.mp h
    simp only [Dict.insert]
    split
    · rename_i heq
      subst heq
      exact List.pairwise_cons.mpr ⟨hfirst, hrest⟩
    · rename_i hne
      split
      · rename_i hlt
        refine List.pairwise_cons.mpr ⟨fun e he => ?_, h⟩
        rcases List.mem_cons.mp he with rfl | he
        · exact hlt
        · exact Trans.trans hlt (hfirst e he)
      · rename_i hnot
        -- neither equal nor before, so the new key belongs behind the first one
        have hlt : k' < k := by
          by_cases hk : k' < k
          · exact hk
          · exact absurd (Std.Trichotomous.trichotomous (r := (· < ·)) _ _ hk hnot) hne
        refine List.pairwise_cons.mpr ⟨fun e he => ?_, ih hrest⟩
        rcases eq_or_mem_of_mem_insert he with rfl | he
        · exact hlt
        · exact hfirst e he

end

omit [LT κ] in
theorem find?_eq_none_of_forall_ne [DecidableEq κ] {d : Dict κ ν} {k : κ}
    (h : ∀ e ∈ d, e.1 ≠ k) : d.find? k = none := by
  induction d with
  | nil => rfl
  | cons first rest ih =>
    have hne : first.1 ≠ k := h first (List.mem_cons_self ..)
    rw [find?_cons, if_neg hne]
    exact ih fun e he => h e (List.mem_cons_of_mem _ he)

section

variable [DecidableEq κ] [Std.Irrefl (α := κ) (· < ·)] {d : Dict κ ν}

theorem Sorted.find?_tail {first : κ × ν} (h : Sorted (first :: d)) : d.find? first.1 = none := by
  refine find?_eq_none_of_forall_ne fun e he heq => ?_
  have hlt : first.1 < e.1 := (List.pairwise_cons.mp h).1 e he
  rw [heq] at hlt
  exact Std.Irrefl.irrefl _ hlt

theorem Sorted.filter_key (h : d.Sorted) (k : κ) :
    d.filter (fun e => e.1 = k) = (d.find? k).toList.map fun v => (k, v) := by
  induction d with
  | nil => rfl
  | cons first rest ih =>
    obtain ⟨k', v'⟩ := first
    have hrest : Sorted rest := (List.pairwise_cons.mp h).2
    rw [find?_cons]
    by_cases hk : k' = k
    · subst hk
      have hfilter := ih hrest
      rw [h.find?_tail] at hfilter
      simp only [List.filter_cons, decide_true, if_true, hfilter, Option.toList_some,
        Option.toList_none, List.map_nil, List.map_cons]
    · simp only [List.filter_cons, hk, decide_false, Bool.false_eq_true, if_false]
      exact ih hrest

theorem Sorted.mem_iff (h : d.Sorted) (k : κ) (v : ν) : (k, v) ∈ d ↔ d.find? k = some v := by
  have hmem : (k, v) ∈ d.filter (fun e => e.1 = k) ↔ (k, v) ∈ d := by simp
  rw [← hmem, h.filter_key]
  simp

end

/-! ### Two writes -/

section

variable [DecidableEq κ] [DecidableLT κ]

theorem insert_insert (d : Dict κ ν) (k : κ) (v w : ν) :
    (d.insert k v).insert k w = d.insert k w := by
  induction d with
  | nil => simp [insert]
  | cons first rest ih =>
    obtain ⟨k', v'⟩ := first
    simp only [insert]
    by_cases hk : k' = k
    · simp [hk, insert]
    · by_cases hlt : k < k'
      · simp [hk, hlt, insert]
      · simp [hk, hlt, insert, ih]

theorem erase_insert (d : Dict κ ν) (k : κ) (v : ν) : (d.insert k v).erase k = d.erase k := by
  induction d with
  | nil => simp [insert, erase]
  | cons first rest ih =>
    obtain ⟨k', v'⟩ := first
    simp only [erase] at ih ⊢
    simp only [insert]
    by_cases hk : k' = k
    · simp [hk]
    · by_cases hlt : k < k'
      · simp [hk, hlt]
      · simpa [hk, hlt] using ih

theorem insert_comm [Trans (α := κ) (· < ·) (· < ·) (· < ·)] [Std.Irrefl (α := κ) (· < ·)]
    [Std.Trichotomous (α := κ) (· < ·)] (d : Dict κ ν) {a b : κ} (h : a ≠ b) (v w : ν) :
    (d.insert a v).insert b w = (d.insert b w).insert a v := by
  have asymm {x y : κ} (hxy : x < y) : ¬y < x := fun hyx =>
    Std.Irrefl.irrefl x (Trans.trans hxy hyx : x < x)
  have total {x y : κ} (hne : x ≠ y) (hnot : ¬x < y) : y < x := by
    by_cases hyx : y < x
    · exact hyx
    · exact absurd (Std.Trichotomous.trichotomous (r := (· < ·)) _ _ hnot hyx) hne
  induction d with
  | nil =>
    by_cases hab : a < b
    · simp [insert, h, h.symm, hab, asymm hab]
    · simp [insert, h, h.symm, hab, total h hab]
  | cons first rest ih =>
    obtain ⟨k, u⟩ := first
    by_cases hka : k = a
    · subst hka
      by_cases hlt : b < k
      · simp [insert, h, h.symm, hlt, asymm hlt]
      · simp [insert, h, hlt]
    · by_cases hkb : k = b
      · subst hkb
        by_cases hlt : a < k
        · simp [insert, h, h.symm, hlt, asymm hlt]
        · simp [insert, hka, hlt]
      · by_cases hak : a < k
        · by_cases hbk : b < k
          · by_cases hab : a < b
            · simp [insert, hka, hkb, h, h.symm, hak, hbk, hab, asymm hab]
            · simp [insert, hka, hkb, h, h.symm, hak, hbk, hab, total h hab]
          · have hba : ¬b < a := fun hba => hbk (Trans.trans hba hak : b < k)
            simp [insert, hka, hkb, h, hak, hbk, hba]
        · by_cases hbk : b < k
          · have hab : ¬a < b := fun hab => hak (Trans.trans hab hbk : a < k)
            simp [insert, hka, hkb, h.symm, hak, hbk, hab]
          · simp [insert, hka, hkb, hak, hbk, ih]

end

omit [LT κ] in
theorem erase_of_find?_eq_none [DecidableEq κ] {d : Dict κ ν} {k : κ} (h : d.find? k = none) :
    d.erase k = d := by
  induction d with
  | nil => rfl
  | cons first rest ih =>
    rw [find?_cons] at h
    split at h
    · cases h
    · rename_i hk
      have hrest : rest.filter (fun e => e.1 ≠ k) = rest := ih h
      rw [erase, List.filter_cons, if_pos (by simpa using hk), hrest]

omit [LT κ] in
theorem erase_erase [DecidableEq κ] (d : Dict κ ν) (k : κ) : (d.erase k).erase k = d.erase k :=
  erase_of_find?_eq_none (by rw [find?_erase, if_pos rfl])

/-! ### Look-ups in lists of entries -/

section

variable [DecidableEq κ]

omit [LT κ] in
@[simp] theorem find?_append (d e : Dict κ ν) (k : κ) :
    Dict.find? (d ++ e) k = (d.find? k).or (e.find? k) := by
  induction d with
  | nil => rfl
  | cons first rest ih =>
    rw [List.cons_append, find?_cons, find?_cons, ih]
    split <;> rfl

omit [LT κ] in
theorem find?_filter (p : κ → Bool) (d : Dict κ ν) (k : κ) :
    Dict.find? (d.filter fun e => p e.1) k = if p k then d.find? k else none := by
  induction d with
  | nil => simp
  | cons first rest ih =>
    by_cases hk : first.1 = k
    · subst hk
      by_cases hp : p first.1
      · simp [hp, find?_cons]
      · simp [hp, ih]
    · by_cases hp : p first.1
      · simp [hp, find?_cons, hk, ih]
      · simp [hp, find?_cons, hk, ih]

omit [LT κ] in
theorem mem_of_find? {d : Dict κ ν} {k : κ} {v : ν} (h : d.find? k = some v) : (k, v) ∈ d := by
  induction d with
  | nil => cases h
  | cons first rest ih =>
    rw [find?_cons] at h
    split at h
    · rename_i hk
      obtain rfl := Option.some.inj h
      exact hk ▸ List.mem_cons_self
    · exact List.mem_cons_of_mem _ (ih h)

omit [LT κ] in
theorem find?_eq_none_iff {d : Dict κ ν} {k : κ} : d.find? k = none ↔ k ∉ d.keys := by
  constructor
  · intro h hk
    induction d with
    | nil => simp [keys] at hk
    | cons first rest ih =>
      rw [find?_cons] at h
      split at h
      · cases h
      · rename_i hne
        rcases List.mem_cons.mp hk with heq | hk
        · exact hne heq.symm
        · exact ih h hk
  · intro hk
    exact find?_eq_none_of_forall_ne fun e he heq => hk (heq ▸ List.mem_map.mpr ⟨e, he, rfl⟩)

variable [DecidableLT κ]

/-- Of the entries of a key the last one counts. -/
theorem find?_foldl_insert (entries d : Dict κ ν) (k : κ) :
    Dict.find? (entries.foldl (fun d e => d.insert e.1 e.2) d) k =
      (Dict.find? entries.reverse k).or (d.find? k) := by
  induction entries generalizing d with
  | nil => rfl
  | cons first rest ih =>
    rw [List.foldl_cons, ih, find?_insert, List.reverse_cons, find?_append, Option.or_assoc,
      find?_cons, find?_nil]
    split <;> rfl

@[simp] theorem find?_ofEntries (entries : Dict κ ν) (k : κ) :
    (ofEntries entries).find? k = Dict.find? entries.reverse k := by
  rw [ofEntries, find?_foldl_insert, find?_nil, Option.or_none]

theorem mem_of_mem_ofEntries {entries : Dict κ ν} {e : κ × ν} (h : e ∈ ofEntries entries) :
    e ∈ entries := by
  have hfold (d : Dict κ ν) (he : e ∈ entries.foldl (fun d e => d.insert e.1 e.2) d) :
      e ∈ d ∨ e ∈ entries := by
    clear h
    induction entries generalizing d with
    | nil => exact .inl he
    | cons first rest ih =>
      rcases ih _ he with hd | hrest
      · rcases eq_or_mem_of_mem_insert hd with rfl | hd
        · exact .inr (List.mem_cons_self ..)
        · exact .inl hd
      · exact .inr (List.mem_cons_of_mem _ hrest)
  exact (hfold [] h).resolve_left List.not_mem_nil

theorem sorted_ofEntries [Trans (α := κ) (· < ·) (· < ·) (· < ·)]
    [Std.Trichotomous (α := κ) (· < ·)] (entries : Dict κ ν) : (ofEntries entries).Sorted := by
  have hfold (d : Dict κ ν) (h : d.Sorted) :
      Sorted (entries.foldl (fun d e => d.insert e.1 e.2) d) := by
    induction entries generalizing d with
    | nil => exact h
    | cons first rest ih => exact ih _ (h.insert _ _)
  exact hfold [] sorted_nil

end

section

variable [DecidableEq κ] [Std.Irrefl (α := κ) (· < ·)] {d e : Dict κ ν}

theorem Sorted.ext [Trans (α := κ) (· < ·) (· < ·) (· < ·)] (hd : d.Sorted) (he : e.Sorted)
    (h : ∀ k, d.find? k = e.find? k) : d = e := by
  have irrefl (a : κ) : ¬a < a := Std.Irrefl.irrefl a
  have nodup {c : Dict κ ν} (hc : c.Sorted) : c.Nodup := by
    refine List.Pairwise.imp ?_ hc
    intro a b hlt heq
    exact irrefl b.1 (heq ▸ hlt)
  have perm : d.Perm e := (List.perm_ext_iff_of_nodup (nodup hd) (nodup he)).mpr fun x => by
    rw [hd.mem_iff x.1 x.2, he.mem_iff x.1 x.2, h]
  have antisymm (a b : κ × ν) (hab : a.1 < b.1) (hba : b.1 < a.1) : a = b :=
    absurd (Trans.trans hab hba) (irrefl a.1)
  exact perm.eq_of_pairwise (fun a b _ _ => antisymm a b) hd he

theorem Sorted.find?_reverse (h : d.Sorted) (k : κ) : Dict.find? d.reverse k = d.find? k := by
  induction d with
  | nil => rfl
  | cons first rest ih =>
    have hrest : Sorted rest := (List.pairwise_cons.mp h).2
    rw [List.reverse_cons, find?_append, ih hrest, find?_cons, find?_cons, find?_nil]
    split
    · rename_i hk
      rw [← hk, h.find?_tail, Option.none_or]
    · exact Option.or_none

end

end Warren.Dict
