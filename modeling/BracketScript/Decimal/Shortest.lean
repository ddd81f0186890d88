/-!
# Shortest decimals of doubles

A finite double is `mantissa · 2 ^ exponent`, and a whole interval of reals
rounds to it.  `Decimal.shortest` picks the decimal with the fewest digits in
that interval, and among those with the same number of digits the nearest one.
All comparisons are made on natural numbers, so nothing is rounded on the way.

Nothing here writes text: where the point goes, or whether there is an
exponent, is the business of `BracketScript.Decimal.Layout`.
-/

namespace BracketScript

/-- The decimal number `digits · 10 ^ exponent`. -/
structure Decimal where
  digits : Nat
  exponent : Int
deriving DecidableEq, Repr

/-- The magnitude `mantissa · 2 ^ exponent` of a finite double.
`atBinade` holds when the mantissa is the least one of its binary exponent, so
that the double below is only half as far away as the double above. -/
structure Dyadic where
  mantissa : Nat
  exponent : Int
  atBinade : Bool
deriving DecidableEq, Repr

/-- Reads magnitude and spacing off the bit pattern of a finite double. -/
def Dyadic.ofFloat (x : Float) : Dyadic :=
  let bits : Nat := x.toBits.toNat % Nat.pow 2 63
  let biased : Nat := bits / Nat.pow 2 52
  let fraction : Nat := bits % Nat.pow 2 52
  if biased = 0 then
    ⟨fraction, -1074, false⟩
  else
    ⟨fraction + Nat.pow 2 52, (biased : Int) - 1075, fraction = 0 && 1 < biased⟩

namespace Decimal

/-- What to do when a value lies exactly half way between two decimals of
equal length. -/
inductive Tie where
  | up
  | toEven
deriving DecidableEq, Repr

/-- A dyadic number together with its rounding interval on the decimal grid
`10 ^ exponent`.  All four numbers are multiples of the same unit, `cell` being
the distance of two neighbours on the grid. -/
structure Grid where
  low : Nat
  value : Nat
  high : Nat
  cell : Nat
  closed : Bool

/-- The rounding interval of `x` seen on the grid of multiples of `10 ^ e`. -/
def Grid.of (x : Dyadic) (e : Int) : Grid :=
  let quarter := x.exponent - 2
  let scale := Nat.pow 2 quarter.toNat * Nat.pow 10 (-e).toNat
  let below := if x.atBinade then 1 else 2
  { low := (4 * x.mantissa - below) * scale
    value := 4 * x.mantissa * scale
    high := (4 * x.mantissa + 2) * scale
    cell := Nat.pow 2 (-quarter).toNat * Nat.pow 10 e.toNat
    closed := x.mantissa % 2 = 0 }

/-- Whether the grid point `d` rounds back to the value of the grid. -/
def Grid.holds (g : Grid) (d : Nat) : Bool :=
  if g.closed then g.low ≤ d * g.cell && d * g.cell ≤ g.high
  else g.low < d * g.cell && d * g.cell < g.high

/-- The grid point that stands for the value: a neighbour inside the interval,
the nearer one if both are. -/
def Grid.pick? (g : Grid) (tie : Tie) : Option Nat :=
  let d := g.value / g.cell
  match g.holds d && 0 < d, g.holds (d + 1) with
  | false, false => none
  | true, false => some d
  | false, true => some (d + 1)
  | true, true =>
    let toFloor := g.value - d * g.cell
    let toCeiling := (d + 1) * g.cell - g.value
    if toFloor < toCeiling then some d
    else if toCeiling < toFloor then some (d + 1)
    else match tie with
      | .up => some (d + 1)
      | .toEven => some (if d % 2 = 0 then d else d + 1)

/-- Walks from the coarse grid `10 ^ e` to finer ones; the first grid with a
point in the interval wins. -/
def refine (x : Dyadic) (tie : Tie) : Nat → Int → Decimal
  | 0, e => let g := Grid.of x e; ⟨g.value / g.cell, e⟩
  | steps + 1, e =>
    match (Grid.of x e).pick? tie with
    | some d => ⟨d, e⟩
    | none => refine x tie steps (e - 1)

/-- An exponent of ten at least as large as that of the leading digit of `x`. -/
def leadingBound (x : Dyadic) : Int :=
  let g := Grid.of x 0
  if g.cell ≤ g.value then ((Nat.repr (g.value / g.cell)).length : Int)
  else 2 - ((Nat.repr (g.cell / g.value)).length : Int)

/-- The decimal with the fewest digits that reads back as the magnitude of `x`,
which must be finite.  Seventeen digits always suffice; the walk starts on a
grid at most two places coarser than the leading digit. -/
def shortest (tie : Tie) (x : Float) : Decimal :=
  let d := Dyadic.ofFloat x
  if d.mantissa = 0 then ⟨0, 0⟩
  else refine d tie 20 (leadingBound d)

end Decimal

end BracketScript
