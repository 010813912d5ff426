/-!
# Dictionaries

A dictionary is a list of entries kept in the order of their keys. `find?` reads an entry,
`insert` and `erase` write one; the lemmas say what each of them does to every look-up, whatever
the order of the list is.
-/

namespace Warren

abbrev Dict (κ : Type u) (ν : Type v) := List (κ × ν)

namespace Dict

variable {κ : Type u} {ν : Type v}

def find? [DecidableEq κ] (d : Dict κ ν) (k : κ) : Option ν :=
  match d with
  | [] => none
  | (k', v) :: rest => if k' = k then some v else find? rest k

def has [DecidableEq κ] (d : Dict κ ν) (k : κ) : Bool := (d.find? k).isSome

/-- Stores a value under a key, at the place of the key in the order. -/
def insert [DecidableEq κ] [LT κ] [DecidableLT κ] (d : Dict κ ν) (k : κ) (v : ν) : Dict κ ν :=
  match d with
  | [] => [(k, v)]
  | (k', v') :: rest =>
    if k' = k then (k, v) :: rest
    else if k < k' then (k, v) :: (k', v') :: rest
    else (k', v') :: insert rest k v

def erase [DecidableEq κ] (d : Dict κ ν) (k : κ) : Dict κ ν := d.filter (fun e => e.1 ≠ k)

/-- The dictionary of a list of entries, of which the last one of a key counts. -/
def ofEntries [DecidableEq κ] [LT κ] [DecidableLT κ] (entries : List (κ × ν)) : Dict κ ν :=
  entries.foldl (fun d e => d.insert e.1 e.2) []

/-- The keys, in order. -/
def keys (d : Dict κ ν) : List κ := d.map Prod.fst

/-- The values, in the order of their keys. -/
def values (d : Dict κ ν) : List ν := d.map Prod.snd

section Lookup

variable [DecidableEq κ]

@[simp] theorem find?_nil (k : κ) : Dict.find? ([] : Dict κ ν) k = none := rfl

theorem find?_cons (e : κ × ν) (d : Dict κ ν) (k : κ) :
    Dict.find? (e :: d) k = if e.1 = k then some e.2 else d.find? k := rfl

theorem find?_insert [LT κ] [DecidableLT κ] (d : Dict κ ν) (k j : κ) (v : ν) :
    (d.insert k v).find? j = if k = j then some v else d.find? j := by
  induction d with
  | nil => simp only [insert, find?_cons, find?_nil]
  | cons e rest ih =>
    obtain ⟨k', v'⟩ := e
    simp only [insert]
    by_cases hk : k' = k
    · subst hk
      simp only [if_true, find?_cons]
      by_cases hj : k' = j <;> simp [hj]
    · simp only [if_neg hk]
      by_cases hlt : k < k'
      · simp only [if_pos hlt, find?_cons]
      · simp only [if_neg hlt, find?_cons, ih]
        by_cases hj : k' = j
        · subst hj
          simp [Ne.symm hk]
        · simp [hj]

theorem find?_erase (d : Dict κ ν) (k j : κ) :
    (d.erase k).find? j = if k = j then none else d.find? j := by
  induction d with
  | nil => simp [erase]
  | cons e rest ih =>
    obtain ⟨k', v'⟩ := e
    by_cases hk : k' = k
    · subst hk
      have : Dict.erase ((k', v') :: rest) k' = Dict.erase rest k' := by
        simp [erase]
      rw [this, ih]
      by_cases hj : k' = j <;> simp [find?_cons, hj]
    · have : Dict.erase ((k', v') :: rest) k = (k', v') :: Dict.erase rest k := by
        simp [erase, hk]
      rw [this]
      simp only [find?_cons, ih]
      by_cases hj : k' = j
      · subst hj
        simp [Ne.symm hk]
      · simp [hj]

end Lookup

end Dict

end Warren
