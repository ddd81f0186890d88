import BracketScript.Text.Digits

/-!
# Quoted TOML texts

Basic texts stand in double quotes and know escapes; literal texts stand in
single quotes and know none.  With three quotes at either end a text may run
over several lines: a line end right after the opening quotes is dropped, and
every other line end counts as a line feed.
-/

namespace BracketScript
namespace Toml

/-- Characters that may stand for themselves: no control characters except the
tab. -/
def isPlain (c : Char) : Bool :=
  c = '\t' || (0x20 ≤ c.toNat && c.toNat ≠ 0x7f)

/-- What follows a line end. -/
def afterNewline? : List Char → Option (List Char)
  | '\n' :: rest => some rest
  | '\r' :: '\n' :: rest => some rest
  | _ => none

/-- A space or a tab. -/
def isSpace (c : Char) : Bool :=
  c = ' ' || c = '\t'

/-- What follows spaces, tabs and line ends. -/
def skipLines : List Char → List Char
  | ' ' :: rest => skipLines rest
  | '\t' :: rest => skipLines rest
  | '\n' :: rest => skipLines rest
  | '\r' :: '\n' :: rest => skipLines rest
  | rest => rest

/-- The character with the given hexadecimal code point. -/
def codePoint? (digits : List Char) : Option Char :=
  if digits.all (Text.isDigitOf 16) then
    let n := Text.positional 16 digits
    if n.isValidChar then some (Char.ofNat n) else none
  else none

/-- The character that an escape stands for, given what follows the
backslash. -/
def escape? : List Char → Option (Char × List Char)
  | 'b' :: rest => some ('\x08', rest)
  | 't' :: rest => some ('\t', rest)
  | 'n' :: rest => some ('\n', rest)
  | 'f' :: rest => some ('\x0c', rest)
  | 'r' :: rest => some ('\r', rest)
  | '"' :: rest => some ('"', rest)
  | '\\' :: rest => some ('\\', rest)
  | 'u' :: a :: b :: c :: d :: rest => (codePoint? [a, b, c, d]).map (·, rest)
  | 'U' :: a :: b :: c :: d :: e :: f :: g :: h :: rest =>
    (codePoint? [a, b, c, d, e, f, g, h]).map (·, rest)
  | _ => none

/-- A text of one line after its opening quote, in at most `n` steps; `seen`
holds its characters in reverse. -/
def line? (quote : Char) : Nat → List Char → List Char → Option (String × List Char)
  | 0, _, _ => none
  | _, _, [] => none
  | n + 1, seen, c :: rest =>
    if c = quote then some (String.ofList seen.reverse, rest)
    else if quote = '"' && c = '\\' then
      match escape? rest with
      | some (c, rest) => line? quote n (c :: seen) rest
      | none => none
    else if isPlain c then line? quote n (c :: seen) rest
    else none

/-- A text of several lines after its opening quotes, in at most `n` steps.  Up
to two quotes in a row belong to the text, also right before the closing ones.
In a basic text a backslash at the end of a line takes the line end and all
blanks after it away. -/
def paragraph? (quote : Char) : Nat → List Char → List Char → Option (String × List Char)
  | 0, _, _ => none
  | _, _, [] => none
  | n + 1, seen, c :: rest =>
    if c = quote then
      let run := 1 + (rest.takeWhile (· = quote)).length
      let after := rest.drop (run - 1)
      if run < 3 then paragraph? quote n (List.replicate run quote ++ seen) after
      else if run < 6 then
        some (String.ofList (List.replicate (run - 3) quote ++ seen).reverse, after)
      else none
    else
      match afterNewline? (c :: rest) with
      | some after => paragraph? quote n ('\n' :: seen) after
      | none =>
        if quote = '"' && c = '\\' then
          match afterNewline? (rest.dropWhile isSpace) with
          | some after => paragraph? quote n seen (skipLines after)
          | none =>
            match escape? rest with
            | some (c, rest) => paragraph? quote n (c :: seen) rest
            | none => none
        else if isPlain c then paragraph? quote n (c :: seen) rest
        else none

/-- A quoted text, given its quote and what follows it. -/
def readQuoted (quote : Char) (cs : List Char) : Option (String × List Char) :=
  match cs with
  | a :: b :: rest =>
    if a = quote && b = quote then
      paragraph? quote (rest.length + 1) [] ((afterNewline? rest).getD rest)
    else line? quote (cs.length + 1) [] cs
  | cs => line? quote (cs.length + 1) [] cs

end Toml
end BracketScript
