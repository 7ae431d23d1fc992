/-!
# Edit distance

The distance between two texts is the least number of characters to insert, delete or replace to
turn one into the other. It is computed row by row: the row of a text holds its distances to all
starts of the other text.
-/

namespace Synopsis.Text

/-- The rest of the next row, given the entry before it, the entries above and the characters of the
other text. -/
def nextEntries (c : Char) : Nat → List Nat → List Char → List Nat
  | before, corner :: above :: row, d :: t =>
    let entry := min (min (above + 1) (before + 1)) (corner + if c = d then 0 else 1)
    entry :: nextEntries c entry (above :: row) t
  | _, _, _ => []

/-- The row of a text with one more character. -/
def nextRow (t : List Char) (row : List Nat) (c : Char) : List Nat :=
  let first := row.headD 0 + 1
  first :: nextEntries c first row t

def firstRow (t : List Char) : List Nat :=
  List.range (t.length + 1)

def editDistance (s t : List Char) : Nat :=
  (s.foldl (nextRow t) (firstRow t)).getLastD 0

/-- How much alike two texts are: one if they are equal, zero if nothing agrees. -/
def similarity (s t : String) : Float :=
  let longest := max s.length t.length
  if longest = 0 then 1
  else 1 - (editDistance s.toList t.toList).toFloat / longest.toFloat

end Synopsis.Text
