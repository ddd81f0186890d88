import BracketScript.Value.Basic

/-!
# Log events

Everything worth a log line while a program is loaded and run, with its level,
the part of the program it comes from, its message and its fields.  Failures
reported to the user are kept among the events, because the two share one
stream and their order counts.
-/

namespace BracketScript

/-- How important an event is. -/
inductive Level where
  | error
  | warn
  | info
  | debug
  | trace
deriving DecidableEq, Repr

namespace Level

/-- The name of a level in log lines. -/
def name : Level → String
  | .error => "ERROR"
  | .warn => "WARN"
  | .info => "INFO"
  | .debug => "DEBUG"
  | .trace => "TRACE"

/-- Levels in order of growing detail. -/
def rank : Level → Nat
  | .error => 1
  | .warn => 2
  | .info => 3
  | .debug => 4
  | .trace => 5

/-- The level asked for by the command line: quiet wins over verbose. -/
def ofFlags (verbose : Nat) (quiet : Bool) : Level :=
  if quiet then .error
  else if 2 ≤ verbose then .trace
  else if verbose = 1 then .debug
  else .warn

end Level

/-- What happened. -/
inductive Event where
  | scanned (tokens : Nat)
  | loopRead (line : Nat)
  | parsed (statements : Nat)
  | executing (statements : Nat)
  | runningScript (path : String) (bytes : Nat)
  | endOfInput
  | caseSelected (line : Nat)
  | imported (module : String) (names : Nat)
  | called (callee : Value) (depth : Nat)
  | unknownModule (name : String)
  | noConfig
  | configLoaded (path : String)
  | overrideIgnored (value : String)
  | configWarning (text : String)
  /-- A failure reported to the user. -/
  | reported (text : String)

namespace Event

/-- How important an event is. -/
def level : Event → Level
  | .loopRead _ | .executing _ | .caseSelected _ | .called _ _ => .trace
  | .unknownModule _ | .overrideIgnored _ | .configWarning _ => .warn
  | .reported _ => .error
  | _ => .debug

/-- The part of the program an event belongs to, as log filters name it. -/
def target : Event → String
  | .scanned _ => "canterbury::tokenizer"
  | .loopRead _ | .parsed _ => "canterbury::parser"
  | .executing _ | .runningScript _ _ | .endOfInput => "canterbury::runner"
  | .caseSelected _ | .imported _ _ | .called _ _ | .unknownModule _ => "canterbury::interpreter"
  | .noConfig | .configLoaded _ | .overrideIgnored _ => "canterbury::config::loader"
  | .configWarning _ | .reported _ => "canterbury"

/-- What an event says. -/
def message : Event → String
  | .scanned _ => "tokenized source"
  | .loopRead _ => "desugared for loop"
  | .parsed _ => "parsed program"
  | .executing _ => "executing"
  | .runningScript _ _ => "running script"
  | .endOfInput => "end of input, leaving session"
  | .caseSelected _ => "match case selected"
  | .imported _ _ => "imported module members"
  | .called _ _ => "call"
  | .unknownModule _ => "ignoring unknown module in config"
  | .noConfig => "no config file found, using defaults"
  | .configLoaded _ => "loaded config"
  | .overrideIgnored _ => "ignoring invalid CANTERBURY_MAX_CALL_DEPTH"
  | .configWarning text | .reported text => text

/-- The particulars of an event. -/
def fields : Event → List (String × Json)
  | .scanned tokens => [("tokens", .nat tokens)]
  | .loopRead line => [("line", .nat line)]
  | .parsed statements => [("statements", .nat statements)]
  | .executing statements => [("statements", .nat statements)]
  | .runningScript path bytes => [("path", .str path), ("bytes", .nat bytes)]
  | .caseSelected line => [("line", .nat line)]
  | .imported module names => [("module", .str module), ("names", .nat names)]
  | .called callee depth => [("callee", .str callee.display), ("depth", .nat depth)]
  | .unknownModule name => [("module", .str name)]
  | .configLoaded path => [("path", .str path)]
  | .overrideIgnored value => [("value", .str value)]
  | .endOfInput | .noConfig | .configWarning _ | .reported _ => []

/-- A field value in a plain log line. -/
def fieldText : Json → String
  | .str s => s
  | j => j.compact

/-- The log line of an event: plain, or a JSON object.  A reported failure is
its own line. -/
def line (asJson : Bool) : Event → String
  | .reported text => text
  | e =>
    if asJson then
      (Json.obj ([("level", .str e.level.name), ("message", .str e.message)] ++ e.fields)).compact
    else
      "[" ++ e.level.name ++ "] " ++ e.message ++
        String.join (e.fields.map fun (key, value) => " " ++ key ++ "=" ++ fieldText value)

/-- The failure an event reports. -/
def reported? : Event → Option String
  | .reported text => some text
  | _ => none

end Event
end BracketScript
