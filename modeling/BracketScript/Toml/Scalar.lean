import BracketScript.Text.Digits
import BracketScript.Toml.Basic

/-!
# Unquoted TOML values

Numbers, truth values and times are written with letters, digits and a few
signs.  Such a word is read as a whole and then told what it is.
-/

namespace BracketScript
namespace Toml

/-- The characters of unquoted values. -/
def inWord (c : Char) : Bool :=
  c.isAlphanum || c = '+' || c = '-' || c = '.' || c = ':' || c = '_'

/-- The digits of a digit string in which single underscores may stand between
digits. -/
def ungroup (isDigit : Char → Bool) : List Char → Option (List Char)
  | [] => none
  | [c] => if isDigit c then some [c] else none
  | c :: '_' :: cs => if isDigit c then (ungroup isDigit cs).map (c :: ·) else none
  | c :: d :: cs => if isDigit c then (ungroup isDigit (d :: cs)).map (c :: ·) else none

/-- The digits of a decimal, which does not start with a zero unless it is
one. -/
def decimalDigits? (cs : List Char) : Option (List Char) :=
  match ungroup Char.isDigit cs with
  | some ('0' :: _ :: _) => none
  | digits => digits

/-- A sign and what follows it. -/
def signed : List Char → Bool × List Char
  | '-' :: cs => (true, cs)
  | '+' :: cs => (false, cs)
  | cs => (false, cs)

/-- Integers have 64 bits. -/
def bounded (n : Int) : Option Int :=
  if -(Nat.pow 2 63 : Int) ≤ n ∧ n < (Nat.pow 2 63 : Int) then some n else none

/-- An integer after its radix mark. -/
def radixInteger? (radix : Nat) (cs : List Char) : Option Int :=
  (ungroup (Text.isDigitOf radix) cs).bind fun digits =>
    bounded (Text.positional radix digits : Int)

/-- A word as an integer. -/
def integer? (cs : List Char) : Option Int :=
  match cs with
  | '0' :: 'x' :: digits => radixInteger? 16 digits
  | '0' :: 'o' :: digits => radixInteger? 8 digits
  | '0' :: 'b' :: digits => radixInteger? 2 digits
  | cs =>
    let (negative, digits) := signed cs
    (decimalDigits? digits).bind fun digits =>
      let n : Int := Text.positional 10 digits
      bounded (if negative then -n else n)

/-- The double nearest to `mantissa · 10 ^ exponent`. -/
def nearest (mantissa : Nat) (exponent : Int) : Float :=
  let magnitude := exponent + ((Nat.repr mantissa).length : Int)
  if mantissa = 0 ∨ magnitude < -330 then 0
  else if 310 < magnitude then 1 / 0
  else Float.ofScientific mantissa (exponent < 0) exponent.natAbs

/-- The exponent at the end of a number; without one it is zero. -/
def exponent? : List Char → Option Int
  | [] => some 0
  | c :: cs =>
    if c = 'e' ∨ c = 'E' then
      let (negative, digits) := signed cs
      (ungroup Char.isDigit digits).map fun digits =>
        let n : Int := Text.positional 10 digits
        if negative then -n else n
    else none

/-- A number with a fraction or an exponent.  It may be too small for a double,
and if it is negative too large, but not too large and positive. -/
def fractional? (cs : List Char) : Option Float :=
  let (negative, cs) := signed cs
  let inNumber := fun c : Char => c.isDigit || c = '_'
  let (whole, rest) := cs.span inNumber
  (decimalDigits? whole).bind fun whole =>
    let parts : Option (List Char × Int) :=
      match rest with
      | [] => none
      | '.' :: rest =>
        let (fraction, rest) := rest.span inNumber
        (ungroup Char.isDigit fraction).bind fun fraction =>
          (exponent? rest).map fun e => (fraction, e)
      | rest => (exponent? rest).map fun e => ([], e)
    parts.bind fun (fraction, e) =>
      let x := nearest (Text.positional 10 (whole ++ fraction)) (e - (fraction.length : Int))
      if negative then some (-x)
      else if x.isInf then none
      else some x

/-- A word as a floating-point number. -/
def float? (cs : List Char) : Option Float :=
  match signed cs with
  | (negative, ['i', 'n', 'f']) => some (if negative then -1 / 0 else 1 / 0)
  | (_, ['n', 'a', 'n']) => some (0 / 0)
  | _ => fractional? cs

/-- A number of two digits that lies between two bounds, and what follows it. -/
def twoDigits? (low high : Nat) : List Char → Option (Nat × List Char)
  | a :: b :: rest =>
    if a.isDigit && b.isDigit then
      let n := Text.positional 10 [a, b]
      if low ≤ n && n ≤ high then some (n, rest) else none
    else none
  | _ => none

/-- What follows a given character. -/
def after? (c : Char) : List Char → Option (List Char)
  | d :: rest => if c = d then some rest else none
  | [] => none

/-- The number of days in a month. -/
def daysIn (year month : Nat) : Nat :=
  if month = 2 then
    if year % 4 = 0 && (year % 100 ≠ 0 || year % 400 = 0) then 29 else 28
  else if month = 4 ∨ month = 6 ∨ month = 9 ∨ month = 11 then 30
  else 31

/-- What follows a date. -/
def afterDate? (cs : List Char) : Option (List Char) := do
  let (century, cs) ← twoDigits? 0 99 cs
  let (year, cs) ← twoDigits? 0 99 cs
  let cs ← after? '-' cs
  let (month, cs) ← twoDigits? 1 12 cs
  let cs ← after? '-' cs
  let (_, cs) ← twoDigits? 1 (daysIn (100 * century + year) month) cs
  pure cs

/-- What follows a time of day. -/
def afterTime? (cs : List Char) : Option (List Char) := do
  let (_, cs) ← twoDigits? 0 23 cs
  let cs ← after? ':' cs
  let (_, cs) ← twoDigits? 0 59 cs
  let cs ← after? ':' cs
  let (_, cs) ← twoDigits? 0 60 cs
  match cs with
  | '.' :: d :: rest => if d.isDigit then pure (rest.dropWhile Char.isDigit) else pure cs
  | cs => pure cs

/-- What follows an offset from universal time, which may be missing. -/
def afterOffset? (cs : List Char) : Option (List Char) := do
  match cs with
  | 'Z' :: rest => pure rest
  | 'z' :: rest => pure rest
  | sign :: rest =>
    if sign = '+' ∨ sign = '-' then
      let (_, rest) ← twoDigits? 0 23 rest
      let rest ← after? ':' rest
      let (_, rest) ← twoDigits? 0 59 rest
      pure rest
    else pure cs
  | [] => pure []

/-- Whether a word is a date, a time of day, or both. -/
def isDatetime (cs : List Char) : Bool :=
  match afterDate? cs with
  | some [] => true
  | some (c :: rest) =>
    (c = 'T' || c = 't') && ((afterTime? rest).bind afterOffset?).any List.isEmpty
  | none => (afterTime? cs).any List.isEmpty

/-- The value of a word. -/
def word? (cs : List Char) : Option Value :=
  if cs = ['t', 'r', 'u', 'e'] then some (.boolean true)
  else if cs = ['f', 'a', 'l', 's', 'e'] then some (.boolean false)
  else if isDatetime cs then some .datetime
  else
    match integer? cs with
    | some n => some (.integer n)
    | none => (float? cs).map .float

/-- A word and its value.  A date may be followed by a space and a time of
day. -/
def readWord (cs : List Char) : Option (Value × List Char) :=
  let (word, rest) := cs.span inWord
  match afterDate? word, rest with
  | some [], ' ' :: time =>
    match (afterTime? time).bind afterOffset? with
    | some rest => some (.datetime, rest)
    | none => some (.datetime, rest)
  | _, _ => (word? word).map fun v => (v, rest)

end Toml
end BracketScript
