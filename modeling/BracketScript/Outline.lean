import BracketScript.Decimal.Layout
import BracketScript.Text.Quoted

/-!
# Outlines

An outline is the readable dump of a structured value: records with named
fields, wrappers around positional parts, lists, and plain words.  Every part
stands on a line of its own, four spaces deeper than what holds it, and ends in
a comma.
-/

namespace BracketScript

/-- The shape of a readable dump. -/
inductive Outline where
  | word (text : String)
  | wrap (name : String) (part : Outline)
  | list (parts : List Outline)
  | record (name : String) (fields : List (String × Outline))

namespace Outline

/-- Doubles stand positionally from `10 ^ (-4)` up to `10 ^ 16`, always with a
decimal, and beyond that with an exponent that shows no plus sign; a tie goes
up. -/
def number : Decimal.Layout :=
  { positional := some (-4, 15), point := true, plus := false, tie := .up }

/-- A text in quotes. -/
def text (s : String) : Outline :=
  .word (Text.quoted s)

/-- A count. -/
def count (n : Nat) : Outline :=
  .word (Nat.repr n)

/-- An optional part, wrapped if it is there. -/
def option : Option Outline → Outline
  | none => .word "None"
  | some o => .wrap "Some" o

/-- A new line at the given level. -/
def lineAt (level : Nat) : String :=
  "\n".pushn ' ' (4 * level)

mutual

/-- The text of an outline whose own level is `level`. -/
def renderAt (level : Nat) : Outline → String
  | .word text => text
  | .wrap name part =>
    name ++ "(" ++ lineAt (level + 1) ++ renderAt (level + 1) part ++ "," ++ lineAt level ++ ")"
  | .list [] => "[]"
  | .list (x :: xs) => "[" ++ renderParts (level + 1) (x :: xs) ++ lineAt level ++ "]"
  | .record name fields =>
    name ++ " \x7b" ++ renderFields (level + 1) fields ++ lineAt level ++ "\x7d"

/-- Parts of a list, one a line. -/
def renderParts (level : Nat) : List Outline → String
  | [] => ""
  | x :: xs => lineAt level ++ renderAt level x ++ "," ++ renderParts level xs

/-- Fields of a record, one a line. -/
def renderFields (level : Nat) : List (String × Outline) → String
  | [] => ""
  | (name, x) :: xs =>
    lineAt level ++ name ++ ": " ++ renderAt level x ++ "," ++ renderFields level xs

end

/-- The text of an outline. -/
def render (o : Outline) : String :=
  renderAt 0 o

end Outline
end BracketScript
