import BracketScript.Session

/-!
# Command-line arguments

Arguments are read from left to right.  The first one that makes no sense ends
the reading, and so does a request for help or for the version; that the flags
fit together is looked at last.
-/

namespace BracketScript
namespace Command

/-- What the command line asks to run, and how. -/
structure Invocation where
  script : Option String
  emit : Option Emit
  json : Bool
  verbose : Nat
  quiet : Bool
  config : Option String
deriving DecidableEq, Repr

/-- What the command line asks for. -/
inductive Request where
  | run (invocation : Invocation)
  | version
  | help
deriving DecidableEq, Repr

/-- Why a command line makes no sense. -/
inductive UsageFault where
  | unexpected (argument : String)
  | valueMissing (option : String)
  | valueInvalid (option value : String)
  | valueUnwanted (option value : String)
  | repeated (option : String)
  | conflict
deriving DecidableEq, Repr

/-- The wording of a usage fault. -/
def UsageFault.message : UsageFault → String
  | .unexpected argument => "error: unexpected argument '" ++ argument ++ "' found"
  | .valueMissing option => "error: a value is required for '" ++ option ++ "' but none was supplied"
  | .valueInvalid option value => "error: invalid value '" ++ value ++ "' for '" ++ option ++ "'"
  | .valueUnwanted option value =>
    "error: unexpected value '" ++ value ++ "' for '" ++ option ++ "' found; no more were expected"
  | .repeated option => "error: the argument '" ++ option ++ "' cannot be used multiple times"
  | .conflict => "error: the argument '--verbose' cannot be used with '--quiet'"

namespace Invocation

/-- A command line without arguments. -/
def empty : Invocation :=
  { script := none, emit := none, json := false, verbose := 0, quiet := false, config := none }

/-- Takes in the script. -/
def withScript (i : Invocation) (path : String) : Except UsageFault Invocation :=
  match i.script with
  | some _ => .error (.unexpected path)
  | none => if path = "" then .error (.valueMissing "[SCRIPT]") else .ok { i with script := some path }

/-- Takes in the value of `--emit`. -/
def withEmit (i : Invocation) (value : String) : Except UsageFault Invocation :=
  match i.emit with
  | some _ => .error (.repeated "--emit")
  | none =>
    match value with
    | "tokens" => .ok { i with emit := some .tokens }
    | "ast" => .ok { i with emit := some .tree }
    | _ => .error (.valueInvalid "--emit" value)

/-- Takes in the value of `--config`. -/
def withConfig (i : Invocation) (value : String) : Except UsageFault Invocation :=
  match i.config with
  | some _ => .error (.repeated "--config")
  | none =>
    if value = "" then .error (.valueMissing "--config") else .ok { i with config := some value }

/-- Takes in `--json`. -/
def withJson (i : Invocation) : Except UsageFault Invocation :=
  if i.json then .error (.repeated "--json") else .ok { i with json := true }

/-- Takes in `--quiet`. -/
def withQuiet (i : Invocation) : Except UsageFault Invocation :=
  if i.quiet then .error (.repeated "--quiet") else .ok { i with quiet := true }

/-- Takes in one more `--verbose`; more than 255 make no difference. -/
def withVerbose (i : Invocation) : Invocation :=
  { i with verbose := min (i.verbose + 1) 255 }

/-- The request once all arguments are read. -/
def finish (i : Invocation) : Except UsageFault Request :=
  if 0 < i.verbose && i.quiet then .error .conflict else .ok (.run i)

end Invocation

/-- Takes in flags of one letter that stand together; help and version end the
reading. -/
def readLetters (i : Invocation) : List Char → Except UsageFault (Invocation ⊕ Request)
  | [] => .ok (.inl i)
  | 'v' :: rest => readLetters i.withVerbose rest
  | 'q' :: rest => do readLetters (← i.withQuiet) rest
  | 'V' :: _ => .ok (.inr .version)
  | 'h' :: _ => .ok (.inr .help)
  | c :: _ => .error (.unexpected (String.ofList ['-', c]))

/-- Whether an argument is written like an option. -/
def looksLikeOption (argument : String) : Bool :=
  match argument.toList with
  | '-' :: _ :: _ => true
  | _ => false

/-- Splits a long option at its equals sign. -/
def splitOption (body : List Char) : String × Option String :=
  match body.span (· ≠ '=') with
  | (name, []) => (String.ofList name, none)
  | (name, _ :: value) => (String.ofList name, some (String.ofList value))

/-- A flag, which takes no value. -/
def flag (name : String) (value? : Option String) (i : Except UsageFault Invocation) :
    Except UsageFault Invocation :=
  match value? with
  | some value => .error (.valueUnwanted name value)
  | none => i

/-- The options that take a value. -/
inductive ValueOption where
  | emit
  | config
deriving DecidableEq, Repr

namespace ValueOption

/-- How an option is written. -/
def name : ValueOption → String
  | .emit => "--emit"
  | .config => "--config"

/-- Takes in the value of an option. -/
def give (option : ValueOption) (i : Invocation) (value : String) : Except UsageFault Invocation :=
  match option with
  | .emit => i.withEmit value
  | .config => i.withConfig value

end ValueOption

/-- What is to be done after an argument. -/
inductive Next where
  /-- Read on. -/
  | more (i : Invocation)
  /-- Read the value of an option. -/
  | value (option : ValueOption) (i : Invocation)
  /-- All that follows is scripts. -/
  | scripts (i : Invocation)
  | done (request : Request)

/-- An option that takes a value, with its value or before it. -/
def valueOption (option : ValueOption) (i : Invocation) (value? : Option String) :
    Except UsageFault Next :=
  match value? with
  | some value => (option.give i value).map .more
  | none => .ok (.value option i)

/-- Takes in a long option. -/
def readOption (i : Invocation) (argument : String) (body : List Char) : Except UsageFault Next :=
  let (name, value?) := splitOption body
  match name with
  | "emit" => valueOption .emit i value?
  | "config" => valueOption .config i value?
  | "json" => (flag argument value? i.withJson).map .more
  | "quiet" => (flag argument value? i.withQuiet).map .more
  | "verbose" => (flag argument value? (.ok i.withVerbose)).map .more
  | "version" => (flag argument value? (.ok i)).map fun _ => .done .version
  | "help" => (flag argument value? (.ok i)).map fun _ => .done .help
  | _ => .error (.unexpected argument)

/-- Takes in one argument. -/
def readArgument (i : Invocation) (argument : String) : Except UsageFault Next :=
  match argument.toList with
  | ['-', '-'] => .ok (.scripts i)
  | '-' :: '-' :: body => readOption i argument body
  | '-' :: c :: cs =>
    (readLetters i (c :: cs)).map fun
      | .inl i => .more i
      | .inr request => .done request
  | _ => (i.withScript argument).map .more

/-- Reads arguments after one that left something to be done. -/
def read : Next → List String → Except UsageFault Request
  | .done request, _ => .ok request
  | .more i, [] => i.finish
  | .scripts i, [] => i.finish
  | .value option _, [] => .error (.valueMissing option.name)
  | .more i, argument :: rest => do read (← readArgument i argument) rest
  | .scripts i, path :: rest => do read (.scripts (← i.withScript path)) rest
  | .value option i, value :: rest =>
    if looksLikeOption value then .error (.valueMissing option.name)
    else do read (.more (← option.give i value)) rest

/-- What a command line asks for. -/
def Request.ofArguments (arguments : List String) : Except UsageFault Request :=
  read (.more .empty) arguments

end Command
end BracketScript
