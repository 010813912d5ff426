/-!
# Occurrences of a text in a text

Whether one text occurs in another, and the pieces between its occurrences, which are taken from
the left and do not overlap.
-/

namespace Warren.Text

def occurs (pattern : List Char) : List Char → Bool
  | [] => pattern.isEmpty
  | c :: rest => pattern.isPrefixOf (c :: rest) || occurs pattern rest

/-- The pieces between the occurrences of a pattern. The first `skip` characters belong to an
occurrence that was found already. -/
def piecesFrom (pattern : List Char) : (skip : Nat) → List Char → List (List Char)
  | _, [] => [[]]
  | skip + 1, _ :: rest => piecesFrom pattern skip rest
  | 0, c :: rest =>
    if pattern.isPrefixOf (c :: rest) then [] :: piecesFrom pattern (pattern.length - 1) rest
    else match piecesFrom pattern 0 rest with
      | [] => [[c]]
      | first :: others => (c :: first) :: others

/-- The pieces between the occurrences of a pattern, which is not empty; there is at least one. -/
def piecesBetween (pattern cs : List Char) : List (List Char) := piecesFrom pattern 0 cs

end Warren.Text
