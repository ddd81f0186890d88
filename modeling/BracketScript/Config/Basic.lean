import BracketScript.Value.Basic

/-!
# Configuration

The settings a user can make, their defaults and their limits.
-/

namespace BracketScript

/-- The settings of a session. -/
structure Config where
  /-- What an interactive session shows before each line. -/
  prompt : String
  /-- The greatest depth of calls. -/
  maxCallDepth : Nat
  /-- The names of the modules that can be imported. -/
  modules : List String
deriving DecidableEq, Repr

namespace Config

/-- The settings of a user who makes none. -/
def default : Config :=
  { prompt := "> ", maxCallDepth := 255, modules := Module.all.map Module.name }

/-- The greatest depth of calls that can be set. -/
def depthLimit : Nat := 4096

/-- Whether a depth of calls can be set. -/
def allowsDepth (depth : Nat) : Bool :=
  1 ≤ depth && depth ≤ depthLimit

/-- What is wrong with the settings, if anything. -/
def problem? (config : Config) : Option String :=
  if allowsDepth config.maxCallDepth then none
  else some ("interpreter.max_call_depth must be between 1 and " ++ Nat.repr depthLimit ++
    ", got " ++ Nat.repr config.maxCallDepth)

end Config
end BracketScript
