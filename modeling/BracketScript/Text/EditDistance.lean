/-!
# Edit distance

The number of characters that have to be inserted, deleted or replaced to turn
one text into another, computed row by row: the row of a prefix of the first
text holds its distances to all prefixes of the second.  Two rows are kept, and
the next row is written over the older one.
-/

namespace BracketScript
namespace Text

/-- Two rows of distances: the last one that is finished, and one to write over. -/
structure Rows where
  finished : Array Nat
  spare : Array Nat

/-- Writes the entries of a row behind the given place, below a finished row. -/
def fillRow (c : Char) (above row : Array Nat) (j : Nat) : List Char → Array Nat
  | [] => row
  | d :: ds =>
    let cost := if c = d then 0 else 1
    let entry := min (min (above.getD (j + 1) 0 + 1) (row.getD j 0 + 1)) (above.getD j 0 + cost)
    fillRow c above (row.setIfInBounds (j + 1) entry) (j + 1) ds

namespace Rows

/-- The row of the empty prefix. -/
def first (target : List Char) : Rows :=
  ⟨(List.range (target.length + 1)).toArray, Array.replicate (target.length + 1) 0⟩

/-- Writes the row of the prefix that ends with the character at the given place;
then the rows change places. -/
def advance (target : List Char) (rows : Rows) (i : Nat) (c : Char) : Rows :=
  ⟨fillRow c rows.finished (rows.spare.setIfInBounds 0 (i + 1)) 0 target, rows.finished⟩

/-- Writes the rows of the prefixes from the given place on. -/
def advanceAll (target : List Char) (rows : Rows) (i : Nat) : List Char → Rows
  | [] => rows
  | c :: cs => (rows.advance target i c).advanceAll target (i + 1) cs

end Rows

/-- The edit distance of two texts. -/
def editDistance (source target : List Char) : Nat :=
  if source = target then 0
  else ((Rows.first target).advanceAll target 0 source).finished.getD target.length 0

end Text
end BracketScript
