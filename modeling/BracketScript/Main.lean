import BracketScript.Command.Run
import Std.Time

/-!
# The command line

The outermost layer gathers what the command needs from the outside world, runs
the command and hands on what it leaves behind.

* On a terminal the lines of an interactive session run as they are typed.  A
  unit there can read no further than its own line.
* A script on a terminal waits for typed input only if it reads any.
* In all other cases the whole input is read first.

Output appears when the script, or the line of the session, has come to its
end.  Interrupts are not handled here.
-/

namespace BracketScript
namespace Command

/-- A bound on the depth of computations that no run reaches. -/
def unbounded : Nat := Nat.pow 10 18

/-- The error that reading a file ended with.  The code of an error may come
with either sign. -/
def fileError (e : IO.Error) : IoError :=
  match e with
  | .noFileOrDirectory _ _ _ => .notFound
  | .inappropriateType _ code _ =>
    match min code (-code) with
    | 20 => .notDirectory
    | 21 => .isDirectory
    | _ => .refused (toString e)
  | _ => .refused (toString e)

/-- What reading a path gives. -/
def readPath (path : String) : IO (Except IoError ByteArray) := do
  try
    return .ok (← IO.FS.readBinFile path)
  catch e =>
    return .error (fileError e)

/-- Whether what reading a path gives tells of a file.  A file may be there and
not be readable. -/
def isFile : Except IoError ByteArray → Bool
  | .ok _ => true
  | .error .notFound | .error .notDirectory | .error .isDirectory => false
  | .error _ => true

/-- Everything up to the end of a stream. -/
partial def readAll (stream : IO.FS.Stream) (seen : ByteArray) : IO ByteArray := do
  let chunk ← stream.read 65536
  if chunk.isEmpty then return seen else readAll stream (seen ++ chunk)

/-- The variables of the environment that play a part. -/
def environment : IO Config.Environment := do
  let names := ["CANTERBURY_PROMPT", "CANTERBURY_MAX_CALL_DEPTH", "CANTERBURY_MODULES",
    "CANTERBURY_LOG", "XDG_CONFIG_HOME", "HOME"]
  let values ← names.mapM fun name => do return (name, ← IO.getEnv name)
  return fun name => (values.lookup name).join

/-- The files that a command line may need. -/
def filesFor (env : Config.Environment) (i : Invocation) : IO Files := do
  let configs := match i.config with
    | some path => [path]
    | none => Config.projectFile :: (Config.userFile? env).toList
  let contents ← (configs ++ i.script.toList).mapM fun path => do return (path, ← readPath path)
  return {
    read := fun path => (contents.lookup path).getD (.error .notFound)
    isFile := fun path => (contents.lookup path).any isFile }

/-- A clock that starts now and goes on by a millisecond a reading. -/
def clockFromNow : IO (Nat → Moment) := do
  let now ← Std.Time.Timestamp.now
  let date ← Std.Time.PlainDateTime.now
  let start := now.toMillisecondsSinceUnixEpoch.val
  let text := date.format "uuuu-MM-dd HH:mm:ss"
  return fun n => ⟨start + n, text⟩

/-- Hands on what a command leaves behind. -/
def emit (outcome : Outcome) : IO UInt32 := do
  let stdout ← IO.getStdout
  stdout.write outcome.stdout
  stdout.flush
  let stderr ← IO.getStderr
  stderr.putStr outcome.stderr
  stderr.flush
  return outcome.code.toUInt32

/-- Writes what has gathered in a machine, and empties it. -/
def drain (host : Host) (i : Invocation) (m : Machine) : IO Machine := do
  let _ ← emit ⟨0, m.console.written, logText (filterOf host i) i.json m.log.toList⟩
  return { m with console := { m.console with written := ByteArray.empty }, log := #[] }

/-- Runs the lines typed on a terminal until there are no more. -/
partial def converse (host : Host) (i : Invocation) (ready : Ready) (m : Machine) : IO UInt32 := do
  let stdout ← IO.getStdout
  stdout.putStr ready.config.prompt
  stdout.flush
  let typed ← (← IO.getStdin).getLine
  let m := { m with console := { m.console with input := typed.toUTF8.toList } }
  let (result, m) := Session.interactWithin ready.options unbounded none 1 m
  let m ← drain host i m
  match result with
  | .error failure => emit (finish host i (.error failure) [] ByteArray.empty)
  | .ok () => if typed.isEmpty then return 0 else converse host i ready m

/-- Whether an invocation reads its input: a line laid out for it is gone at the
end. -/
def readsInput (host : Host) (i : Invocation) : Bool :=
  match prepare { host with input := [10] } i with
  | .error _ => false
  | .ok ready => (runInput host unbounded i ready.options ready.machine).2.console.input.isEmpty

/-- Runs an invocation on the world as it is. -/
def start (i : Invocation) : IO UInt32 := do
  let env ← environment
  let files ← filesFor env i
  let clock ← clockFromNow
  let host : Host := { files := files, env := env, input := [], clock := clock }
  let stdin ← IO.getStdin
  let typed ← stdin.isTty
  if typed && i.script.isNone then
    (← IO.getStderr).putStr (opening host)
    match prepare host i with
    | .error failure => emit (finish host i (.error failure) [] ByteArray.empty)
    | .ok ready => converse host i ready (← drain host i ready.machine)
  else if typed && !readsInput host i then
    emit (execute host unbounded i)
  else
    let input ← readAll stdin ByteArray.empty
    emit (execute { host with input := input.toList } unbounded i)

end Command
end BracketScript

open BracketScript in
/-- Runs the command with its arguments. -/
def main (arguments : List String) : IO UInt32 :=
  match Command.Request.ofArguments arguments with
  | .ok (.run i) => Command.start i
  | _ =>
    let nowhere : Command.Host :=
      { files := .none
        env := fun _ => none
        input := []
        clock := fun _ => ⟨0, ""⟩ }
    Command.emit (Command.outcome nowhere 0 arguments)
