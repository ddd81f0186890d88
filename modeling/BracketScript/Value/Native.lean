import BracketScript.Machine

/-!
# Built-in functions

What a built-in function does when it is called with as many arguments as it
takes.
-/

namespace BracketScript
namespace Native

/-- The greater of two numbers, the second if they are equal, and the other one
if one is not a number. -/
def greater (a b : Float) : Float :=
  if a.isNaN then b else if b.isNaN then a else if b < a then a else b

/-- The lesser of two numbers, the second if they are equal, and the other one
if one is not a number. -/
def lesser (a b : Float) : Float :=
  if a.isNaN then b else if b.isNaN then a else if a < b then a else b

/-- A function of one number. -/
def onNumber (name : String) (f : Float → Float) (place : Token) : Value → Run Stop Value
  | .num x => pure (.num (f x))
  | _ => Run.raise place (.argumentNotNumber name)

/-- A function of two numbers. -/
def onNumbers (name : String) (f : Float → Float → Float) (place : Token) :
    Value → Value → Run Stop Value
  | .num x, .num y => pure (.num (f x y))
  | _, _ => Run.raise place (.argumentNotNumber name)

/-- A reading of the clock. -/
def readClock (setup : Setup) : Run Stop Moment :=
  fun m => (.ok (setup.clock m.readings), { m with readings := m.readings + 1 })

/-- Seconds since the epoch. -/
def seconds (setup : Setup) : Run Stop Value := do
  let moment ← readClock setup
  pure (.num (Float.ofInt moment.millis / 1000))

/-- Writes the text of a value on a line of its own. -/
def printLine (place : Token) (value : Value) : Run Stop Value :=
  fun m =>
    match m.console.writeLine value.display with
    | (.ok (), console) => (.ok .null, { m with console := console })
    | (.error e, console) =>
      (.error (.error ⟨.writeFailed e, place.line⟩), { m with console := console })

/-- A line of input, `null` at its end. -/
def inputLine (place : Token) : Run Stop Value :=
  fun m =>
    match m.console.readLine with
    | (.ok (some line), console) => (.ok (.str line), { m with console := console })
    | (.ok none, console) => (.ok .null, { m with console := console })
    | (.error e, console) =>
      (.error (.error ⟨.readFailed e, place.line⟩), { m with console := console })

/-- Calls a built-in function; faults are reported at the given token. -/
def apply (setup : Setup) (function : Native) (args : List Value) (place : Token) :
    Run Stop Value :=
  match function, args with
  | .clock, _ | .timeClock, _ => seconds setup
  | .date, _ => do pure (.str (← readClock setup).date)
  | .input, _ => inputLine place
  | .print, v :: _ | .ioPrint, v :: _ => printLine place v
  | .sqrt, v :: _ => onNumber "sqrt" Float.sqrt place v
  | .abs, v :: _ => onNumber "abs" Float.abs place v
  | .floor, v :: _ => onNumber "floor" Float.floor place v
  | .ceil, v :: _ => onNumber "ceil" Float.ceil place v
  | .pow, v :: w :: _ => onNumbers "pow" Float.pow place v w
  | .max, v :: w :: _ => onNumbers "max" greater place v w
  | .min, v :: w :: _ => onNumbers "min" lesser place v w
  | _, _ => Run.stop .broken

end Native
end BracketScript
