import BracketScript.Diagnostic

/-!
# Reading tokens

A `Cursor` stands somewhere in a list of tokens and remembers the faults noted
so far.  A `Reader` consumes tokens and either yields a value or gives up; in
both cases the cursor stays where reading stopped, so that reading can resume
from there.  What the reader never does is move past the end marker: the
cursor does not hold it among the tokens to be read.
-/

namespace BracketScript

/-- A place in a list of tokens. -/
structure Cursor where
  /-- The tokens not read yet, without the end marker. -/
  rest : List Token
  /-- The end marker, where faults at the end of the source are noted. -/
  finish : Token
  /-- The faults noted so far. -/
  errors : Array SyntaxError
  /-- The lines of the `for` loops read so far. -/
  loops : Array Nat

namespace Cursor

/-- The beginning of a list of tokens.  The first end marker closes the list;
a list without one is closed on the line of its last token. -/
def ofTokens (tokens : List Token) : Cursor :=
  { rest := tokens.takeWhile fun t => t.kind ≠ .eof
    finish := (tokens.find? fun t => t.kind = .eof).getD
      (Token.eof ((tokens.getLast?.map Token.line).getD 1))
    errors := #[]
    loops := #[] }

/-- The token at the cursor. -/
def peek (c : Cursor) : Token :=
  c.rest.head?.getD c.finish

/-- Notes a fault at a token. -/
def note (c : Cursor) (t : Token) (fault : SyntaxFault) : Cursor :=
  { c with errors := c.errors.push (SyntaxError.atToken t fault) }

end Cursor

/-- Reads a value, or gives up after noting why. -/
def Reader (α : Type) : Type :=
  Cursor → Option α × Cursor

namespace Reader

variable {α : Type}

instance : Monad Reader where
  pure a := fun c => (some a, c)
  bind p f := fun c =>
    match p c with
    | (some a, c) => f a c
    | (none, c) => (none, c)

/-- The token at the cursor. -/
def peek : Reader Token :=
  fun c => (some c.peek, c)

/-- Whether all tokens are read. -/
def atEnd : Reader Bool :=
  fun c => (some c.rest.isEmpty, c)

/-- Whether the next token is of the given kind. -/
def nextIs (kind : Kind) : Reader Bool :=
  fun c => (some (c.rest.head?.any fun t => t.kind = kind), c)

/-- Notes a fault and goes on. -/
def report (t : Token) (fault : SyntaxFault) : Reader Unit :=
  fun c => (some (), c.note t fault)

/-- Notes a fault at the cursor and gives up. -/
def fail (fault : SyntaxFault) : Reader α :=
  fun c => (none, c.note c.peek fault)

/-- The next token if it is of one of the given kinds. -/
def accept? (kinds : List Kind) : Reader (Option Token) :=
  fun c =>
    match c.rest with
    | [] => (some none, c)
    | t :: rest => if t.kind ∈ kinds then (some (some t), { c with rest := rest }) else (some none, c)

/-- The next token, which must be of the given kind. -/
def expect (kind : Kind) (fault : SyntaxFault) : Reader Token := do
  match ← accept? [kind] with
  | some t => pure t
  | none => fail fault

/-- Remembers that a `for` loop was read. -/
def noteLoop (line : Nat) : Reader Unit :=
  fun c => (some (), { c with loops := c.loops.push line })

/-- Repeats a step at most `n` times, until it declines. -/
def loopWithin (step : α → Reader (Option α)) : Nat → α → Reader α
  | 0, a => pure a
  | n + 1, a => fun c =>
    match step a c with
    | (some (some a), c) => loopWithin step n a c
    | (some none, c) => (some a, c)
    | (none, c) => (none, c)

/-- Repeats a step until it declines.  A step that does not decline consumes a
token, so the tokens left bound the number of rounds. -/
def loop (step : α → Reader (Option α)) (a : α) : Reader α :=
  fun c => loopWithin step c.rest.length a c

/-- Items up to a closing bracket, which is left unread. -/
def untilBracket (item : Reader α) : Reader (List α) := do
  let items ← loop (fun (items : Array α) => do
    if ← nextIs .rightBracket then pure none
    else if ← atEnd then pure none
    else pure (some (items.push (← item)))) #[]
  pure items.toList

/-- The greatest number of entries in one list. -/
def maxEntries : Nat := 127

/-- One more entry of a list that has `count` entries. -/
def entry (list : ListKind) (item : Reader α) (count : Nat) : Reader α := do
  if maxEntries ≤ count then
    report (← peek) (.listTooLong list)
  item

/-- Entries separated by commas, and the bracket that closes them. -/
def entries (list : ListKind) (item : Reader α) : Reader (List α × Token) := do
  let items ←
    if ← nextIs .rightBracket then pure #[]
    else do
      let first ← entry list item 0
      loop (fun (items : Array α) => do
        match ← accept? [.comma] with
        | some _ => pure (some (items.push (← entry list item items.size)))
        | none => pure none) #[first]
  let bracket ← expect .rightBracket (.listUnclosed list)
  pure (items.toList, bracket)

end Reader
end BracketScript
