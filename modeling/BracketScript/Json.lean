import BracketScript.Decimal.Layout
import BracketScript.Text.Quoted

/-!
# JSON trees and their texts

Objects keep their fields in the order in which they were given.  There are two
texts of a tree: `compact`, on one line without blanks, and `pretty`, with one
item a line and two spaces a level.
-/

namespace BracketScript

/-- A JSON value.  Whole counts and doubles are kept apart because they are
written differently. -/
inductive Json where
  | null
  | bool (b : Bool)
  | nat (n : Nat)
  | float (x : Float)
  | str (s : String)
  | arr (items : List Json)
  | obj (fields : List (String × Json))

namespace Json

/-- Doubles stand positionally from `10 ^ (-5)` up to `10 ^ 16`, always with a
decimal, and beyond that with a signed exponent; a tie goes to the even digit. -/
def number : Decimal.Layout :=
  { positional := some (-5, 15), point := true, plus := true, tie := .toEven }

/-- The text of a value that holds no other values.  A number that is not
finite has no JSON text and is written as `null`. -/
def scalar? : Json → Option String
  | .null => some "null"
  | .bool b => some (if b then "true" else "false")
  | .nat n => some (Nat.repr n)
  | .float x => some (if x.isFinite then number.text x else "null")
  | .str s => some (Text.jsonQuoted s)
  | .arr [] => some "[]"
  | .obj [] => some "\x7b\x7d"
  | .arr _ => none
  | .obj _ => none

/-- A new line at the given level. -/
def lineAt (level : Nat) : String :=
  "\n".pushn ' ' (2 * level)

mutual

/-- The indented text of a value whose own level is `level`. -/
def prettyAt (level : Nat) : Json → String
  | .arr (x :: xs) =>
    "[" ++ lineAt (level + 1) ++ prettyAt (level + 1) x ++ prettyItems (level + 1) xs ++
      lineAt level ++ "]"
  | .obj ((key, x) :: xs) =>
    "\x7b" ++ lineAt (level + 1) ++ Text.jsonQuoted key ++ ": " ++ prettyAt (level + 1) x ++
      prettyFields (level + 1) xs ++ lineAt level ++ "\x7d"
  | j => (scalar? j).getD ""

/-- The items of a list after the first. -/
def prettyItems (level : Nat) : List Json → String
  | [] => ""
  | x :: xs => "," ++ lineAt level ++ prettyAt level x ++ prettyItems level xs

/-- The fields of an object after the first. -/
def prettyFields (level : Nat) : List (String × Json) → String
  | [] => ""
  | (key, x) :: xs =>
    "," ++ lineAt level ++ Text.jsonQuoted key ++ ": " ++ prettyAt level x ++
      prettyFields level xs

end

/-- The indented text of a value. -/
def pretty (j : Json) : String :=
  prettyAt 0 j

mutual

/-- The text of a value on one line. -/
def compact : Json → String
  | .arr (x :: xs) => "[" ++ compact x ++ compactItems xs ++ "]"
  | .obj ((key, x) :: xs) =>
    "\x7b" ++ Text.jsonQuoted key ++ ":" ++ compact x ++ compactFields xs ++ "\x7d"
  | j => (scalar? j).getD ""

/-- The items of a list after the first. -/
def compactItems : List Json → String
  | [] => ""
  | x :: xs => "," ++ compact x ++ compactItems xs

/-- The fields of an object after the first. -/
def compactFields : List (String × Json) → String
  | [] => ""
  | (key, x) :: xs => "," ++ Text.jsonQuoted key ++ ":" ++ compact x ++ compactFields xs

end

end Json
end BracketScript
