/-!
# Lines and occurrences
-/

namespace BracketScript
namespace Text

/-- The pieces of a text between occurrences of a character. -/
def pieces (separator : Char) (cs : List Char) : List (List Char) :=
  cs.foldr
    (fun c pieces =>
      if c = separator then [] :: pieces
      else
        match pieces with
        | [] => [[c]]
        | piece :: rest => (c :: piece) :: rest)
    [[]]

/-- A line that ended in a line feed, without the carriage return before it. -/
def withoutReturn (line : List Char) : List Char :=
  match line.getLast? with
  | some '\r' => line.dropLast
  | _ => line

/-- The lines of a text.  A line end is a line feed, with or without a carriage
return before it; what follows the last one is a line if it is not empty. -/
def lines (cs : List Char) : List (List Char) :=
  match (pieces '\n' cs).reverse with
  | [] => []
  | last :: rest =>
    let complete := (rest.map withoutReturn).reverse
    if last.isEmpty then complete else complete ++ [last]

/-- Whether one text occurs in another. -/
def occursIn (needle : List Char) : List Char → Bool
  | [] => needle.isEmpty
  | c :: cs => needle.isPrefixOf (c :: cs) || occursIn needle cs

end Text
end BracketScript
