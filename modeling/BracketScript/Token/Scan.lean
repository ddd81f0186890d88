import BracketScript.Token.Segment

/-!
# Tokens of a source text

The pieces of a source get their lines here.  Scanning does not stop at a
fault: either every piece is fine and the result is the list of tokens, closed
by an end marker, or it is the list of all faults.
-/

namespace BracketScript

/-- What has been read of a source so far: the current line, the tokens and the
faults. -/
structure Scan where
  line : Nat
  tokens : Array Token
  errors : Array SyntaxError

namespace Scan

/-- The beginning of a source. -/
def start : Scan :=
  ⟨1, #[], #[]⟩

/-- Takes in one piece.  A token and a fault stand on the line on which their
piece ends. -/
def step (scan : Scan) (piece : Segment) : Scan :=
  let line := scan.line + piece.text.count '\n'
  match piece.reading with
  | .blank => { scan with line := line }
  | .token kind literal =>
    { scan with
      line := line
      tokens := scan.tokens.push ⟨kind, String.ofList piece.text, literal, line⟩ }
  | .fault fault =>
    { scan with line := line, errors := scan.errors.push ⟨line, .line, fault⟩ }

/-- The tokens with the end marker, unless there were faults. -/
def finish (scan : Scan) : Except (List SyntaxError) (List Token) :=
  if scan.errors.isEmpty then .ok (scan.tokens.push (Token.eof scan.line)).toList
  else .error scan.errors.toList

end Scan

/-- The tokens of a source text, or all its faults. -/
def Token.scan (source : String) : Except (List SyntaxError) (List Token) :=
  ((segments source.toList).foldl Scan.step Scan.start).finish

end BracketScript
