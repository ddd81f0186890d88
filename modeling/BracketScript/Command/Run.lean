import BracketScript.Command.Arguments
import BracketScript.Command.Filter
import BracketScript.Config.Resolve

/-!
# The command

What the command writes and the code it exits with, as a function of its
arguments and of what it finds: files, environment, input and clock.
-/

namespace BracketScript
namespace Command

/-- What the command finds when it starts. -/
structure Host where
  files : Files
  env : Config.Environment
  input : List UInt8
  clock : Nat → Moment

/-- What the command leaves behind. -/
structure Outcome where
  code : Nat
  stdout : ByteArray
  stderr : String

/-- The exit code for a command line that makes no sense. -/
def usageCode : Nat := 64

/-- The name and version of the command. -/
def versionText : String := "canterbury 0.1.0"

/-- How to use the command. -/
def usageText : String := "Usage: canterbury [OPTIONS] [SCRIPT]"

/-- The help on the command. -/
def helpText : String :=
  "\n".intercalate
    ["Canterbury - run a script, or start an interactive session without one",
     "",
     usageText,
     "",
     "Arguments:",
     "  [SCRIPT]  Script to run",
     "",
     "Options:",
     "      --emit <EMIT>    Print a pipeline stage instead of running [possible values: tokens, ast]",
     "      --json           JSON output for --emit and error reports",
     "  -v, --verbose...     Verbosity level (-v, -vv)",
     "  -q, --quiet          Only log errors",
     "      --config <PATH>  Config file (defaults to ./canterbury.toml, then the user config)",
     "  -h, --help           Print help",
     "  -V, --version        Print version",
     "",
     "Run 'canterbury' without a script to read statements from stdin."]

/-- The log filter in force. -/
def filterOf (host : Host) (i : Invocation) : LogFilter :=
  LogFilter.choose (host.env "CANTERBURY_LOG") i.verbose i.quiet

/-- The log lines that a filter lets through. -/
def logText (filter : LogFilter) (asJson : Bool) (events : List Event) : String :=
  String.join ((events.filter filter.shows).map fun e => e.line asJson ++ "\n")

/-- What is written about the log filter before anything else happens. -/
def opening (host : Host) : String :=
  String.join ((LogFilter.complaintsAbout (host.env "CANTERBURY_LOG")).map (· ++ "\n"))

/-- A session that is ready to run. -/
structure Ready where
  config : Config
  options : SessionOptions
  /-- The machine, with the events so far in its log. -/
  machine : Machine

/-- Resolves the configuration and sets a session up. -/
def prepare (host : Host) (i : Invocation) : Except Failure Ready :=
  match Config.resolve host.files host.env i.config with
  | .error failure => .error failure
  | .ok (loaded, events) =>
    let config := loaded.config
    let warnings := loaded.warnings.map fun w => Event.configWarning w.display
    let machine := Session.start (.ofInput host.input none) config.modules
    .ok
      { config := config
        options :=
          { setup :=
              { maxDepth := config.maxCallDepth
                modules := Session.enabledModules config.modules
                clock := host.clock }
            emit := i.emit
            json := i.json }
        machine := { machine with log := (events ++ warnings).toArray ++ machine.log } }

/-- Runs the script, or without one the lines of the input. -/
def runInput (host : Host) (fuel : Nat) (i : Invocation) (options : SessionOptions) :
    Run Failure Unit :=
  match i.script with
  | some path => do
    let _ ← Session.runScript options fuel path (host.files path)
    pure ()
  | none => Session.interact options fuel none

/-- The end of a command: a failure is reported and decides on the exit code. -/
def finish (host : Host) (i : Invocation) (result : Except Failure Unit) (events : List Event)
    (stdout : ByteArray) : Outcome :=
  match result with
  | .ok () => ⟨0, stdout, logText (filterOf host i) i.json events⟩
  | .error failure =>
    ⟨failure.exitCode, stdout,
      logText (filterOf host i) i.json (events ++ [.reported (failure.report i.json)])⟩

/-- Runs what the command line asks for. -/
def execute (host : Host) (fuel : Nat) (i : Invocation) : Outcome :=
  let outcome :=
    match prepare host i with
    | .error failure => finish host i (.error failure) [] ByteArray.empty
    | .ok ready =>
      let (result, m) := runInput host fuel i ready.options ready.machine
      finish host i result m.log.toList m.console.written
  { outcome with stderr := opening host ++ outcome.stderr }

/-- What the command does with its arguments. -/
def outcome (host : Host) (fuel : Nat) (arguments : List String) : Outcome :=
  match Request.ofArguments arguments with
  | .error fault => ⟨usageCode, ByteArray.empty, fault.message ++ "\n\n" ++ usageText ++ "\n"⟩
  | .ok .version => ⟨0, (versionText ++ "\n").toUTF8, ""⟩
  | .ok .help => ⟨0, (helpText ++ "\n").toUTF8, ""⟩
  | .ok (.run i) => execute host fuel i

end Command
end BracketScript
