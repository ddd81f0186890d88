/-!
# Input and output

Output is a sequence of bytes, possibly with a limit after which nothing more is
accepted; a text that does not fit is cut.  Input is a sequence of bytes read
line by line.
-/

namespace BracketScript

/-- What can go wrong with a stream or a file. -/
inductive IoError where
  | notFound
  | notDirectory
  | isDirectory
  | invalidText
  | sinkFull
  /-- Any other refusal, in the words of whoever refused. -/
  | refused (reason : String)
deriving DecidableEq, Repr

/-- The wording of a stream or file error. -/
def IoError.message : IoError → String
  | .notFound => "No such file or directory (os error 2)"
  | .notDirectory => "Not a directory (os error 20)"
  | .isDirectory => "Is a directory (os error 21)"
  | .invalidText => "stream did not contain valid UTF-8"
  | .sinkFull => "sink full"
  | .refused reason => reason

/-- The streams of a session. -/
structure Console where
  /-- Everything written so far. -/
  written : ByteArray
  /-- How many more bytes the output accepts; without a bound, all. -/
  room : Option Nat
  /-- What is left of the input. -/
  input : List UInt8

namespace Console

/-- A console with nothing written yet. -/
def ofInput (input : List UInt8) (room : Option Nat) : Console :=
  ⟨ByteArray.empty, room, input⟩

/-- Writes a text, or as much of it as the output accepts. -/
def write (console : Console) (text : String) : Except IoError Unit × Console :=
  let bytes := text.toUTF8
  match console.room with
  | none => (.ok (), { console with written := console.written ++ bytes })
  | some room =>
    if bytes.size ≤ room then
      (.ok (), { console with written := console.written ++ bytes, room := some (room - bytes.size) })
    else
      (.error .sinkFull,
        { console with written := console.written ++ bytes.extract 0 room, room := some 0 })

/-- Writes a text and a line end. -/
def writeLine (console : Console) (text : String) : Except IoError Unit × Console :=
  console.write (text ++ "\n")

/-- A text without the line ends at its end. -/
def chomp (line : String) : String :=
  String.ofList (line.toList.reverse.dropWhile fun c => c = '\n' || c = '\r').reverse

/-- Reads a line, without its line end.  At the end of the input there is none.
A line that is not valid UTF-8 is lost. -/
def readLine (console : Console) : Except IoError (Option String) × Console :=
  match console.input with
  | [] => (.ok none, console)
  | bytes =>
    let (line, rest) := bytes.span (· ≠ 10)
    let console := { console with input := rest.drop 1 }
    match String.fromUTF8? (line ++ rest.take 1).toByteArray with
    | some text => (.ok (some (chomp text)), console)
    | none => (.error .invalidText, console)

end Console
end BracketScript
