import Warren.Dict

/-!
# Sets of names

A set of names is kept in order and without repetition.
-/

namespace Warren

abbrev NameSet := Dict String Unit

namespace NameSet

def ofList (names : List String) : NameSet := Dict.ofEntries (names.map fun name => (name, ()))

def contains (s : NameSet) (name : String) : Bool := s.has name

def add (s : NameSet) (name : String) : NameSet := s.insert name ()

def toList (s : NameSet) : List String := s.keys

theorem contains_add (s : NameSet) (name other : String) :
    (s.add name).contains other = (name = other || s.contains other) := by
  simp only [contains, add, Dict.has, Dict.find?_insert]
  by_cases h : name = other <;> simp [h]

theorem contains_ofList (names : List String) (name : String) :
    (ofList names).contains name = names.contains name := by
  have added (s : NameSet) : (names.foldl add s).contains name =
      (names.contains name || s.contains name) := by
    induction names generalizing s with
    | nil => rfl
    | cons first rest ih =>
      rw [List.foldl_cons, ih, contains_add, List.contains_cons]
      by_cases h : first = name
      · simp [h]
      · have hne : (name == first) = false := by simpa using Ne.symm h
        simp [h, hne]
  have hlist : ofList names = names.foldl add [] := by
    rw [ofList, Dict.ofEntries, List.foldl_map]
    rfl
  rw [hlist, added]
  simp [contains, Dict.has]

theorem mem_toList (s : NameSet) (name : String) : name ∈ s.toList ↔ s.contains name = true := by
  induction s with
  | nil => simp [toList, Dict.keys, contains, Dict.has]
  | cons first rest ih =>
    simp only [toList, Dict.keys, contains, Dict.has, List.map_cons, List.mem_cons,
      Dict.find?_cons] at ih ⊢
    by_cases h : first.1 = name
    · simp [h]
    · simp [h, Ne.symm h, ih]

end NameSet

end Warren
