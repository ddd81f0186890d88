import BracketScript.Diagnostic
import BracketScript.Text.Digits

/-!
# Segments of a source text

`segments` cuts a source into consecutive pieces, leaving out no character.
Each piece is blank (white space or a comment), a token, or a fault.  What a
piece is depends on its own characters alone; lines play no part here.
-/

namespace BracketScript

/-- What a piece of source text amounts to. -/
inductive Reading where
  | blank
  | token (kind : Kind) (literal : Option Literal)
  | fault (fault : SyntaxFault)
deriving DecidableEq

/-- A piece of source text. -/
structure Segment where
  text : List Char
  reading : Reading
deriving DecidableEq

namespace Segment

/-- Letters of the Latin alphabet and the underscore start a word. -/
def startsWord (c : Char) : Bool :=
  c.isAlpha || c = '_'

/-- A word goes on with letters, underscores and digits. -/
def inWord (c : Char) : Bool :=
  startsWord c || c.isDigit

/-- A number without a radix mark: the double nearest to the decimal. -/
def decimal (whole fraction : List Char) : Float :=
  match fraction with
  | [] => Float.ofNat (Text.positional 10 whole)
  | _ => Float.ofScientific (Text.positional 10 (whole ++ fraction)) true fraction.length

/-- Characters that are a token whatever follows them. -/
def single? : Char → Option Kind
  | '(' => some .leftParen
  | ')' => some .rightParen
  | '[' => some .leftBracket
  | ']' => some .rightBracket
  | '\x7b' => some .leftBrace
  | '\x7d' => some .rightBrace
  | '+' => some .plus
  | '*' => some .star
  | '/' => some .slash
  | ',' => some .comma
  | '!' => some .bang
  | '=' => some .equal
  | '&' => some .bitAnd
  | '|' => some .bitOr
  | '~' => some .bitNeg
  | ';' => some .semicolon
  | 'λ' => some .funcKw
  | '-' => some .minus
  | ':' => some .colon
  | '<' => some .lesser
  | '>' => some .greater
  | _ => none

/-- Characters that are one token together. -/
def pair? : Char → Char → Option Kind
  | '-', '>' => some .arrow
  | ':', '=' => some .walrus
  | '<', '=' => some .lesserEqual
  | '<', '>' => some .unequal
  | '>', '=' => some .greaterEqual
  | _, _ => none

/-- A string from its opening delimiter on.  Without a closing delimiter the
rest of the source is lost. -/
def string (delimiter : Char) (cs : List Char) : Segment × List Char :=
  let (content, rest) := cs.span (· ≠ delimiter)
  match rest with
  | [] => (⟨delimiter :: content, .fault .unterminatedString⟩, [])
  | close :: rest =>
    (⟨delimiter :: content ++ [close], .token .str (some (.str (String.ofList content)))⟩, rest)

/-- A number after its radix mark `0b` or `0x`.  It must have a digit and fit
in 64 bits. -/
def radixNumber (mark : List Char) (radix : Nat) (cs : List Char) : Segment × List Char :=
  let (digits, rest) := cs.span (Text.isDigitOf radix)
  let value := Text.positional radix digits
  let reading : Reading :=
    if digits = [] ∨ Nat.pow 2 64 ≤ value then .fault .invalidNumber
    else .token .num (some (.num (Float.ofNat value)))
  (⟨mark ++ digits, reading⟩, rest)

/-- A decimal number that starts with the digit `c`.  A point must be followed
by a digit; one that is not is lost together with the number before it. -/
def decimalNumber (c : Char) (cs : List Char) : Segment × List Char :=
  let (digits, rest) := cs.span Char.isDigit
  let whole := c :: digits
  match rest with
  | '.' :: after =>
    let (fraction, rest) := after.span Char.isDigit
    match fraction with
    | [] => (⟨whole ++ ['.'], .fault .unexpectedCharacter⟩, after)
    | _ =>
      (⟨whole ++ '.' :: fraction, .token .num (some (.num (decimal whole fraction)))⟩, rest)
  | rest => (⟨whole, .token .num (some (.num (decimal whole [])))⟩, rest)

/-- A number that starts with the digit `c`. -/
def number (c : Char) (cs : List Char) : Segment × List Char :=
  match c, cs with
  | '0', 'b' :: cs => radixNumber ['0', 'b'] 2 cs
  | '0', 'x' :: cs => radixNumber ['0', 'x'] 16 cs
  | c, cs => decimalNumber c cs

/-- The kind of a word: a lone underscore, a reserved word, or a name. -/
def wordKind (word : List Char) : Kind :=
  if word = ['_'] then .underscore
  else (Kind.keyword? (String.ofList word)).getD .identifier

/-- A token made of signs, the longer of two if both fit. -/
def sign (c : Char) (cs : List Char) : Segment × List Char :=
  let alone : Segment × List Char :=
    match single? c with
    | some kind => (⟨[c], .token kind none⟩, cs)
    | none => (⟨[c], .fault .unexpectedCharacter⟩, cs)
  match cs with
  | d :: rest =>
    match pair? c d with
    | some kind => (⟨[c, d], .token kind none⟩, rest)
    | none => alone
  | [] => alone

/-- The piece at the front of the source `c :: cs`, and what follows it. -/
def cut (c : Char) (cs : List Char) : Segment × List Char :=
  if c = ' ' ∨ c = '\r' ∨ c = '\t' ∨ c = '\n' then
    (⟨[c], .blank⟩, cs)
  else if c = '#' then
    let (comment, rest) := cs.span (· ≠ '\n')
    (⟨c :: comment, .blank⟩, rest)
  else if c = '"' ∨ c = '\'' then
    string c cs
  else if c.isDigit then
    number c cs
  else if startsWord c then
    let (tail, rest) := cs.span inWord
    (⟨c :: tail, .token (wordKind (c :: tail)) none⟩, rest)
  else
    sign c cs

end Segment

/-- Cuts at most `n` pieces off a source, onto the pieces already cut. -/
def segmentsFrom (done : List Segment) : Nat → List Char → List Segment
  | n + 1, c :: cs =>
    let (piece, rest) := Segment.cut c cs
    segmentsFrom (piece :: done) n rest
  | _, _ => done.reverse

/-- The pieces of a source.  Each takes at least one character, so there are at
most as many pieces as characters. -/
def segments (source : List Char) : List Segment :=
  segmentsFrom [] source.length source

end BracketScript
