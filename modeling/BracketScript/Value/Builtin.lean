import BracketScript.Value.Basic

/-!
# Built-in names

What is bound before any source is run, and what the modules hold.
-/

namespace BracketScript

/-- The bindings that need no import. -/
def builtinGlobals : List (String × Value) :=
  [("clock", .native .clock), ("print", .native .print)]

namespace Module

/-- The names a module holds and their values. -/
def members : Module → List (String × Value)
  | .math =>
    [("pi", .num 3.141592653589793),
     ("sqrt", .native .sqrt),
     ("pow", .native .pow),
     ("abs", .native .abs),
     ("floor", .native .floor),
     ("ceil", .native .ceil),
     ("max", .native .max),
     ("min", .native .min)]
  | .time => [("clock", .native .timeClock), ("date", .native .date)]
  | .io => [("print", .native .ioPrint), ("input", .native .input)]

/-- The member of the given name. -/
def member? (m : Module) (name : String) : Option Value :=
  m.members.lookup name

end Module
end BracketScript
