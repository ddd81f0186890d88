import BracketScript.Decimal.Shortest

/-!
# Number texts

A `Layout` holds the decisions that turn the shortest decimal of a double into
text: which magnitudes are written positionally, whether a whole number keeps
`.0`, how an exponent is written and which way ties go.  Each output format of
the library has one layout, kept in the module that writes the format.
-/

namespace BracketScript
namespace Decimal

/-- The choices a number format makes. -/
structure Layout where
  /-- Least and greatest exponent of the leading digit that is written
  positionally; without bounds every number is. -/
  positional : Option (Int × Int)
  /-- Whether a positional whole number ends in `.0`. -/
  point : Bool
  /-- Whether a positive exponent carries a plus sign. -/
  plus : Bool
  tie : Tie
deriving DecidableEq, Repr

/-- `n` zeros. -/
def zeros (n : Nat) : String :=
  String.ofList (List.replicate n '0')

/-- The exponent of the leading digit. -/
def leading (d : Decimal) : Int :=
  d.exponent + ((Nat.repr d.digits).length : Int) - 1

/-- Digits with a decimal point and no exponent. -/
def positionalText (point : Bool) (d : Decimal) : String :=
  let digits := Nat.repr d.digits
  let size := digits.length
  if 0 ≤ d.exponent then
    digits ++ zeros d.exponent.toNat ++ (if point then ".0" else "")
  else
    let places := (-d.exponent).toNat
    if places < size then
      String.ofList (digits.toList.take (size - places)) ++ "." ++
        String.ofList (digits.toList.drop (size - places))
    else
      "0." ++ zeros (places - size) ++ digits

/-- One digit before the point, and the exponent after the mark `e`. -/
def exponentText (plus : Bool) (d : Decimal) : String :=
  let e := leading d
  let sign := if e < 0 then "-" else if plus then "+" else ""
  let power := "e" ++ sign ++ Nat.repr e.natAbs
  match (Nat.repr d.digits).toList with
  | [] => power
  | [c] => String.singleton c ++ power
  | c :: rest => String.singleton c ++ "." ++ String.ofList rest ++ power

/-- The text of a decimal without its sign. -/
def Layout.magnitude (l : Layout) (d : Decimal) : String :=
  let inWindow := match l.positional with
    | none => true
    | some (low, high) => d.digits = 0 || (low ≤ leading d && leading d ≤ high)
  if inWindow then positionalText l.point d else exponentText l.plus d

/-- The text of a double.  A zero keeps its sign and a not-a-number has none. -/
def Layout.text (l : Layout) (x : Float) : String :=
  let sign := if x.toBits >>> 63 = 1 then "-" else ""
  if x.isNaN then "NaN"
  else if x.isInf then sign ++ "inf"
  else sign ++ l.magnitude (shortest l.tie x)

end Decimal
end BracketScript
