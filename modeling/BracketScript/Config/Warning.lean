import BracketScript.Text.EditDistance
import BracketScript.Text.Search

/-!
# Warnings about unknown keys

An unknown key does no harm, but it may be a slip: the warning names the line
and, if there is a known key that is at most two edits away, that key.
-/

namespace BracketScript

/-- An unknown key in a configuration file. -/
structure ConfigWarning where
  key : String
  file : String
  line : Option Nat
  suggestion : Option String
deriving DecidableEq, Repr

namespace ConfigWarning

/-- The keys that mean something. -/
def knownKeys : List String :=
  ["repl", "prompt", "interpreter", "max_call_depth", "stdlib", "modules"]

/-- The farthest known key that is still suggested. -/
def maxDistance : Nat := 2

/-- The nearest of several candidates to a key, the first of them if there are
several, and how far away it is. -/
def nearest? (key : String) : List String → Option (String × Nat)
  | [] => none
  | candidate :: rest =>
    let distance := Text.editDistance key.toList candidate.toList
    match nearest? key rest with
    | some (other, least) =>
      if least < distance then some (other, least) else some (candidate, distance)
    | none => some (candidate, distance)

/-- The known key that an unknown one may be a slip for. -/
def suggest? (key : String) : Option String :=
  match nearest? key knownKeys with
  | some (candidate, distance) => if distance ≤ maxDistance then some candidate else none
  | none => none

/-- The number of the first line that holds the text of a key. -/
def lineOf? (content key : String) : Option Nat :=
  ((Text.lines content.toList).findIdx? (Text.occursIn key.toList)).map (· + 1)

/-- The last name in a dotted path. -/
def lastName (path : String) : String :=
  String.ofList ((Text.pieces '.' path.toList).getLastD [])

/-- The warning about the key at the given path. -/
def ofPath (file content path : String) : ConfigWarning :=
  let key := lastName path
  { key := key, file := file, line := lineOf? content key, suggestion := suggest? key }

/-- The text of a warning. -/
def display (w : ConfigWarning) : String :=
  "unknown config key '" ++ w.key ++ "' in " ++ w.file ++
    (match w.line with
      | some line => ":" ++ Nat.repr line
      | none => "") ++
    (match w.suggestion with
      | some key => " (did you mean '" ++ key ++ "'?)"
      | none => "")

end ConfigWarning
end BracketScript
