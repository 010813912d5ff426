/-!
# Splitting text

Text is cut at every occurrence of a separator, or at the first one only. The first cut is at the
first separator: what comes before it has none.
-/

namespace Warren.Text

/-- The pieces of a text between the occurrences of a separator; there is at least one. -/
def pieces (separator : Char) : List Char → List (List Char)
  | [] => [[]]
  | c :: rest =>
    if c = separator then [] :: pieces separator rest
    else match pieces separator rest with
      | [] => [[c]]
      | first :: others => (c :: first) :: others

def cut? (separator : Char) : List Char → Option (List Char × List Char)
  | [] => none
  | c :: rest =>
    if c = separator then some ([], rest)
    else (cut? separator rest).map fun (before, after) => (c :: before, after)

section

variable {separator : Char} {cs : List Char}

theorem pieces_of_not_mem (h : separator ∉ cs) : pieces separator cs = [cs] := by
  induction cs with
  | nil => rfl
  | cons c cs ih =>
    obtain ⟨hc, hcs⟩ := List.ne_and_not_mem_of_not_mem_cons h
    rw [pieces, if_neg hc.symm, ih hcs]

theorem pieces_append_cons (h : separator ∉ cs) (rest : List Char) :
    pieces separator (cs ++ separator :: rest) = cs :: pieces separator rest := by
  induction cs with
  | nil => rw [List.nil_append, pieces, if_pos rfl]
  | cons c cs ih =>
    obtain ⟨hc, hcs⟩ := List.ne_and_not_mem_of_not_mem_cons h
    rw [List.cons_append, pieces, if_neg hc.symm, ih hcs]

theorem cut?_append_cons (h : separator ∉ cs) (rest : List Char) :
    cut? separator (cs ++ separator :: rest) = some (cs, rest) := by
  induction cs with
  | nil => rw [List.nil_append, cut?, if_pos rfl]
  | cons c cs ih =>
    obtain ⟨hc, hcs⟩ := List.ne_and_not_mem_of_not_mem_cons h
    rw [List.cons_append, cut?, if_neg hc.symm, ih hcs, Option.map_some]

end

end Warren.Text
