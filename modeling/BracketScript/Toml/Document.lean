import BracketScript.Toml.Quoted
import BracketScript.Toml.Scalar

/-!
# TOML documents

A document is a list of lines, each a pair, a header or nothing.  Arrays may
run over several lines and hold comments, inline tables may not.  Arrays and
inline tables nest less than eighty deep, and so many names at most make a
key.
-/

namespace BracketScript
namespace Toml

/-- One more than the greatest depth of values, and of names in a key. -/
def depthLimit : Nat := 80

/-- What follows spaces and tabs. -/
def skipSpaces (cs : List Char) : List Char :=
  cs.dropWhile isSpace

/-- What follows a comment, which may be missing. -/
def skipComment (cs : List Char) : List Char :=
  match cs with
  | '#' :: rest => rest.dropWhile isPlain
  | cs => cs

/-- What follows blanks, line ends and comments, in at most `n` lines. -/
def skipFiller : Nat → List Char → List Char
  | 0, cs => cs
  | n + 1, cs =>
    let cs := skipComment (skipSpaces cs)
    match afterNewline? cs with
    | some rest => skipFiller n rest
    | none => cs

/-- Characters of names that need no quotes. -/
def inName (c : Char) : Bool :=
  c.isAlphanum || c = '_' || c = '-'

/-- A name, quoted or not. -/
def name? (cs : List Char) : Option (String × List Char) :=
  match cs with
  | '"' :: rest => line? '"' (rest.length + 1) [] rest
  | '\'' :: rest => line? '\'' (rest.length + 1) [] rest
  | cs =>
    match cs.span inName with
    | ([], _) => none
    | (name, rest) => some (String.ofList name, rest)

/-- Names separated by points, at most `n` of them, with blanks around each. -/
def keyWithin : Nat → List Char → Option (List String × List Char)
  | 0, _ => none
  | n + 1, cs =>
    match name? (skipSpaces cs) with
    | none => none
    | some (name, rest) =>
      match skipSpaces rest with
      | '.' :: rest => (keyWithin n rest).map fun (names, rest) => (name :: names, rest)
      | rest => some ([name], rest)

/-- A key path. -/
def key? (cs : List Char) : Option (List String × List Char) :=
  keyWithin (depthLimit - 1) cs

/-- Reads something off the front of a text. -/
abbrev Take (α : Type) := List Char → Option (α × List Char)

/-- A key path, an equals sign and a value. -/
def pair? (value : Take Value) : Take (List String × Value) := fun cs => do
  let (path, cs) ← key? cs
  let cs ← after? '=' cs
  let (v, cs) ← value (skipSpaces cs)
  pure ((path, v), cs)

/-- The items of an array after its opening bracket, at most `n`. -/
def items? (value : Take Value) : Nat → List Value → Take Value
  | 0, _, _ => none
  | n + 1, seen, cs =>
    match skipFiller cs.length cs with
    | ']' :: rest => some (.array seen.reverse, rest)
    | cs =>
      match value cs with
      | none => none
      | some (v, rest) =>
        match skipFiller rest.length rest with
        | ',' :: rest => items? value n (v :: seen) rest
        | ']' :: rest => some (.array (v :: seen).reverse, rest)
        | _ => none

/-- The pairs of an inline table up to its closing brace, at most `n`. -/
def pairs? (value : Take Value) : Nat → Table → Take Value
  | 0, _, _ => none
  | n + 1, t, cs =>
    match pair? value cs with
    | none => none
    | some ((path, v), rest) =>
      match t.insert v path with
      | none => none
      | some t =>
        match skipSpaces rest with
        | ',' :: rest => pairs? value n t rest
        | '\x7d' :: rest => some (t.toValue, rest)
        | _ => none

/-- An inline table after its opening brace. -/
def inlineTable? (value : Take Value) : Take Value := fun cs =>
  match skipSpaces cs with
  | '\x7d' :: rest => some (.table [], rest)
  | cs => pairs? value cs.length Table.explicit cs

/-- A value with arrays and inline tables nested at most `n` deep. -/
def value? : Nat → Take Value
  | n, cs =>
    match cs with
    | '"' :: rest => (readQuoted '"' rest).map fun (s, rest) => (.string s, rest)
    | '\'' :: rest => (readQuoted '\'' rest).map fun (s, rest) => (.string s, rest)
    | '[' :: rest =>
      match n with
      | 0 => none
      | n + 1 => items? (value? n) (rest.length + 1) [] rest
    | '\x7b' :: rest =>
      match n with
      | 0 => none
      | n + 1 => inlineTable? (value? n) rest
    | cs => readWord cs

/-- What follows the rest of a line that has said what it says. -/
def endLine? (cs : List Char) : Option (List Char) :=
  match skipComment (skipSpaces cs) with
  | [] => some []
  | cs => afterNewline? cs

/-- A line that is not empty. -/
def line : Take Line := fun cs =>
  match cs with
  | '[' :: '[' :: rest => do
    let (path, rest) ← key? rest
    let rest ← after? ']' rest
    let rest ← after? ']' rest
    pure (.doubleHeader path, rest)
  | '[' :: rest => do
    let (path, rest) ← key? rest
    let rest ← after? ']' rest
    pure (.header path, rest)
  | cs => do
    let ((path, v), rest) ← pair? (value? (depthLimit - 1)) cs
    pure (.pair path v, rest)

/-- The lines of a document, at most `n`, onto those already read. -/
def linesWithin (seen : List Line) : Nat → List Char → Option (List Line)
  | n, cs =>
    match skipFiller cs.length cs with
    | [] => some seen.reverse
    | cs =>
      match n with
      | 0 => none
      | n + 1 =>
        match line cs with
        | none => none
        | some (l, rest) =>
          match endLine? rest with
          | none => none
          | some rest => linesWithin (l :: seen) n rest

/-- The entries of a document, in order.  A byte-order mark at its start is
skipped. -/
def entries? (source : String) : Option (List (String × Value)) :=
  let cs := match source.toList with
    | '\ufeff' :: cs => cs
    | cs => cs
  ((linesWithin [] cs.length cs).bind Table.ofLines).map fun t => entryValues t.entries

end Toml
end BracketScript
