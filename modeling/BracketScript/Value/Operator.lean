import BracketScript.Machine

/-!
# Operators

The values of unary and binary operators.  Bitwise operators work on 64-bit
integers: an operand loses its fraction, is brought to the nearest such integer
if it is too large, and counts as zero if it is not a number.
-/

namespace BracketScript
namespace Operator

/-- The value of a unary operator. -/
def unary (op : Token) (right : Value) : Except RuntimeFault Value :=
  match op.kind, right with
  | .bang, v => .ok (.bool !v.isTruthy)
  | .minus, .num x => .ok (.num (-x))
  | .bitNeg, .num x => .ok (.num (~~~x.toInt64).toFloat)
  | .minus, _ => .error .notNumber
  | .bitNeg, _ => .error .notNumber
  | _, _ => .error .unknownUnary

/-- An operator that takes two numbers. -/
def onNumbers (f : Float → Float → Value) : Value → Value → Except RuntimeFault Value
  | .num a, .num b => .ok (f a b)
  | _, _ => .error .notNumbers

/-- Whether a value is an instance of a struct, or else equal to the other
value. -/
def isKind : Value → Value → Bool
  | .inst _ definition, .struct other => definition.id = other.id
  | _, .struct _ => false
  | left, right => left.isEqual right

/-- The sum of two numbers, or two strings one after the other. -/
def add : Value → Value → Except RuntimeFault Value
  | .num a, .num b => .ok (.num (a + b))
  | .str a, .str b => .ok (.str (a ++ b))
  | _, _ => .error .notAddable

/-- The value of a binary operator. -/
def binary (left : Value) (op : Token) (right : Value) : Except RuntimeFault Value :=
  match op.kind with
  | .plus => add left right
  | .minus => onNumbers (fun a b => .num (a - b)) left right
  | .star => onNumbers (fun a b => .num (a * b)) left right
  | .slash => onNumbers (fun a b => .num (a / b)) left right
  | .bitAnd => onNumbers (fun a b => .num (a.toInt64 &&& b.toInt64).toFloat) left right
  | .bitOr => onNumbers (fun a b => .num (a.toInt64 ||| b.toInt64).toFloat) left right
  | .lesser => onNumbers (fun a b => .bool (a < b)) left right
  | .lesserEqual => onNumbers (fun a b => .bool (a ≤ b)) left right
  | .greater => onNumbers (fun a b => .bool (b < a)) left right
  | .greaterEqual => onNumbers (fun a b => .bool (b ≤ a)) left right
  | .equal => .ok (.bool (left.isEqual right))
  | .unequal => .ok (.bool !left.isEqual right)
  | .isKw => .ok (.bool (isKind left right))
  | _ => .error .unknownBinary

end Operator
end BracketScript
