import BracketScript.Diagnostic
import BracketScript.Machine

/-!
# Failures

Everything that can end a unit of work, how it is reported, and the exit code
it stands for.
-/

namespace BracketScript

/-- Why a unit of work failed. -/
inductive Failure where
  /-- The source has faults and was not run. -/
  | source (errors : List SyntaxError)
  | runtime (error : RuntimeError)
  /-- A script could not be read. -/
  | script (path : String) (error : IoError)
  | config (file message : String)
  | io (error : IoError)
  /-- The bound on the number of steps was reached. -/
  | exhausted
  /-- The machine was in a state that no program leads to. -/
  | broken
deriving DecidableEq, Repr

namespace Failure

/-- The failure that a stopped evaluation is. -/
def ofStop : Stop → Failure
  | .error e => .runtime e
  | .exhausted => .exhausted
  | .broken => .broken

/-- The text of a failure. -/
def display : Failure → String
  | .source errors => "\n".intercalate (errors.map SyntaxError.display)
  | .runtime e => e.display
  | .script path e => "could not read " ++ path ++ ": " ++ e.message
  | .config file message => "invalid config in " ++ file ++ ": " ++ message
  | .io e => "IO error: " ++ e.message
  | .exhausted => "step limit reached"
  | .broken => "internal error"

/-- Process exit codes follow the usual convention for their causes. -/
def exitCode : Failure → Nat
  | .source _ => 65
  | .runtime _ | .exhausted | .broken => 70
  | .script _ _ | .io _ => 74
  | .config _ _ => 78

/-- The JSON object of a failure, with its fields in alphabetical order. -/
def json : Failure → Json
  | .source errors => .obj [("error", .str "syntax"), ("errors", .arr (errors.map SyntaxError.json))]
  | .runtime e =>
    .obj [("error", .str "runtime"), ("line", .nat e.line), ("message", .str e.fault.message)]
  | .config file message =>
    .obj [("error", .str "config"), ("file", .str file), ("message", .str message)]
  | f => .obj [("error", .str "io"), ("message", .str f.display)]

/-- The report of a failure: its text, or its JSON object on one line. -/
def report (asJson : Bool) (f : Failure) : String :=
  if asJson then f.json.compact else f.display

end Failure
end BracketScript
