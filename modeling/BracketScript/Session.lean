import BracketScript.Eval
import BracketScript.Failure
import BracketScript.Text.Blank
import BracketScript.Token.Scan
import BracketScript.Tree.Dump
import BracketScript.Tree.Grammar

/-!
# Sessions

A session runs units of source text one after the other on the same machine.
It can also show the tokens or the tree of a unit instead of running it.  A
unit that fails leaves the session usable: what it did before it failed stays
done.
-/

namespace BracketScript

/-- What to show instead of running. -/
inductive Emit where
  | tokens
  | tree
deriving DecidableEq, Repr

/-- How a session treats its units. -/
structure SessionOptions where
  setup : Setup
  emit : Option Emit
  /-- Whether shown tokens and trees, and reports, are JSON. -/
  json : Bool

namespace Session

/-- The modules with the given names, leaving out unknown ones. -/
def enabledModules (names : List String) : List Module :=
  names.filterMap Module.ofName?

/-- The machine of a new session, with a warning for each unknown module. -/
def start (console : Console) (modules : List String) : Machine :=
  let unknown := modules.filter fun name => (Module.ofName? name).isNone
  { Machine.start console with log := (unknown.map Event.unknownModule).toArray }

/-- Writes a line to the output. -/
def writeLine (text : String) : Run Failure Unit :=
  fun m =>
    match m.console.writeLine text with
    | (.ok (), console) => (.ok (), { m with console := console })
    | (.error e, console) => (.error (.io e), { m with console := console })

/-- Writes a text to the output. -/
def write (text : String) : Run Failure Unit :=
  fun m =>
    match m.console.write text with
    | (.ok (), console) => (.ok (), { m with console := console })
    | (.error e, console) => (.error (.io e), { m with console := console })

/-- Reads a line of the input. -/
def readLine : Run Failure (Option String) :=
  fun m =>
    match m.console.readLine with
    | (.ok line, console) => (.ok line, { m with console := console })
    | (.error e, console) => (.error (.io e), { m with console := console })

/-- The listing of tokens. -/
def tokensText (asJson : Bool) (tokens : List Token) : String :=
  if asJson then (Json.arr (tokens.map Token.json)).pretty
  else "\n".intercalate (tokens.map Token.display)

/-- The dump of a tree. -/
def treeText (asJson : Bool) (stmts : List Stmt) : String :=
  if asJson then (Json.arr (stmtsJson stmts)).pretty
  else (Outline.list (stmtsOutline stmts)).render

variable (options : SessionOptions) (fuel : Nat)

/-- Runs a parsed program. -/
def runProgram (program : List Stmt) : Run Failure Value :=
  fun m =>
    match interpret options.setup fuel program m with
    | (.ok v, m) => (.ok v, m)
    | (.error e, m) => (.error (.ofStop e), m)

/-- Reads tokens as statements and runs or shows them. -/
def runTokens (tokens : List Token) : Run Failure Value := do
  let parse := Parse.ofTokens tokens
  Run.update fun m => { m with log := m.log ++ (parse.loops.map Event.loopRead) }
  match parse.outcome with
  | .error errors => Run.stop (.source errors)
  | .ok stmts =>
    Run.note (.parsed stmts.length)
    if options.emit = some .tree then
      writeLine (treeText options.json stmts)
      pure .null
    else
      Run.note (.executing stmts.length)
      runProgram options fuel stmts

/-- Runs or shows one unit of source text. -/
def runSource (source : String) : Run Failure Value := do
  match Token.scan source with
  | .error errors => Run.stop (.source errors)
  | .ok tokens =>
    Run.note (.scanned tokens.length)
    if options.emit = some .tokens then
      writeLine (tokensText options.json tokens)
      pure .null
    else
      runTokens options fuel tokens

/-- Runs the unit that a script holds, given what reading the script gave. -/
def runScript (path : String) (content : Except IoError ByteArray) : Run Failure Value := do
  match content with
  | .error e => Run.stop (.script path e)
  | .ok bytes =>
    match String.fromUTF8? bytes with
    | none => Run.stop (.script path .invalidText)
    | some source =>
      Run.note (.runningScript path bytes.size)
      runSource options fuel source

/-- Runs one line of an interactive session.  A failure is reported and the
session goes on. -/
def runLine (line : String) : Run Failure Unit :=
  fun m =>
    match runSource options fuel line { m with interrupted := false } with
    | (.ok _, m) => (.ok (), m)
    | (.error .exhausted, m) => (.error .exhausted, m)
    | (.error .broken, m) => (.error .broken, m)
    | (.error failure, m) =>
      (.ok (), { m with log := m.log.push (.reported (failure.report options.json)) })

/-- Reads and runs at most `n` lines. -/
def interactWithin (prompt : Option String) : Nat → Run Failure Unit
  | 0 => pure ()
  | n + 1 => do
    match prompt with
    | some text => write text
    | none => pure ()
    match ← readLine with
    | none => Run.note .endOfInput
    | some line =>
      if !Text.allBlank line then
        runLine options fuel line
      interactWithin prompt n

/-- Runs the lines of the input, each a unit of its own, until the input ends.
Every line takes at least one byte. -/
def interact (prompt : Option String) : Run Failure Unit :=
  fun m => interactWithin options fuel prompt (m.console.input.length + 1) m

end Session
end BracketScript
