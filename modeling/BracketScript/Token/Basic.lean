import BracketScript.Decimal.Layout
import BracketScript.Json
import BracketScript.Outline

/-!
# Tokens

A token is a piece of source text with its kind, the value it denotes if it is
a number or a string, and the line on which it ends.
-/

namespace BracketScript

/-- The kinds of tokens.  `eof` marks the end of the source. -/
inductive Kind where
  | leftParen | rightParen | leftBracket | rightBracket | leftBrace | rightBrace
  | minus | plus | star | slash | comma | colon | bang | equal
  | bitAnd | bitOr | bitNeg | underscore | semicolon
  | andKw | orKw | unequal | greater | greaterEqual | lesser | lesserEqual | arrow | walrus
  | num | str | identifier
  | funcKw | structKw | selfKw | forKw | whileKw | ifKw | elifKw | elseKw | matchKw | againstKw
  | isKw | trueKw | falseKw | nullKw | importKw | returnKw
  | eof
deriving DecidableEq, Repr

namespace Kind

/-- The name of a kind in token listings and outlines. -/
def name : Kind → String
  | .leftParen => "LeftParen"
  | .rightParen => "RightParen"
  | .leftBracket => "LeftBracket"
  | .rightBracket => "RightBracket"
  | .leftBrace => "LeftBrace"
  | .rightBrace => "RightBrace"
  | .minus => "Minus"
  | .plus => "Plus"
  | .star => "Star"
  | .slash => "Slash"
  | .comma => "Comma"
  | .colon => "Colon"
  | .bang => "Bang"
  | .equal => "Equal"
  | .bitAnd => "BitAnd"
  | .bitOr => "BitOr"
  | .bitNeg => "BitNeg"
  | .underscore => "Underscore"
  | .semicolon => "Semicolon"
  | .andKw => "And"
  | .orKw => "Or"
  | .unequal => "Unequal"
  | .greater => "Greater"
  | .greaterEqual => "GreaterEqual"
  | .lesser => "Lesser"
  | .lesserEqual => "LesserEqual"
  | .arrow => "Arrow"
  | .walrus => "Walrus"
  | .num => "Num"
  | .str => "Str"
  | .identifier => "Identifier"
  | .funcKw => "Func"
  | .structKw => "Struct"
  | .selfKw => "SelfKw"
  | .forKw => "For"
  | .whileKw => "While"
  | .ifKw => "If"
  | .elifKw => "Elif"
  | .elseKw => "Else"
  | .matchKw => "Match"
  | .againstKw => "Against"
  | .isKw => "Is"
  | .trueKw => "True"
  | .falseKw => "False"
  | .nullKw => "Null"
  | .importKw => "Import"
  | .returnKw => "Return"
  | .eof => "Eof"

/-- The name of a kind in JSON: capitals, an underscore before each inner word. -/
def label (k : Kind) : String :=
  match k.name.toList with
  | [] => ""
  | c :: cs =>
    String.ofList (c :: cs.flatMap fun c => if c.isUpper then ['_', c] else [c.toUpper])

/-- The kind of a word that is reserved, if it is. -/
def keyword? (word : String) : Option Kind :=
  match word with
  | "and" => some .andKw
  | "or" => some .orKw
  | "func" => some .funcKw
  | "lambda" => some .funcKw
  | "struct" => some .structKw
  | "self" => some .selfKw
  | "for" => some .forKw
  | "while" => some .whileKw
  | "if" => some .ifKw
  | "elif" => some .elifKw
  | "else" => some .elseKw
  | "match" => some .matchKw
  | "against" => some .againstKw
  | "is" => some .isKw
  | "true" => some .trueKw
  | "false" => some .falseKw
  | "null" => some .nullKw
  | "import" => some .importKw
  | "return" => some .returnKw
  | _ => none

end Kind

/-- Numbers are shown with the fewest digits that read back, a tie going up,
and never with an exponent. -/
def numberText (x : Float) : String :=
  Decimal.Layout.text { positional := none, point := false, plus := false, tie := .up } x

/-- The value a token denotes by itself. -/
inductive Literal where
  | num (x : Float)
  | str (s : String)
deriving DecidableEq

namespace Literal

/-- The text of a literal in token listings. -/
def display : Literal → String
  | .num x => numberText x
  | .str s => s

/-- The JSON value of a literal. -/
def json : Literal → Json
  | .num x => .float x
  | .str s => .str s

/-- The outline of a literal. -/
def outline : Literal → Outline
  | .num x => .wrap "Num" (.word (Outline.number.text x))
  | .str s => .wrap "Str" (.text s)

end Literal

/-- A piece of source text that means something. -/
structure Token where
  kind : Kind
  lexeme : String
  literal : Option Literal
  line : Nat
deriving DecidableEq

namespace Token

/-- The end of a source whose last line is `line`. -/
def eof (line : Nat) : Token :=
  ⟨.eof, "", none, line⟩

/-- A token as it stands in token listings. -/
def display (t : Token) : String :=
  "[" ++ t.kind.name ++ " " ++ t.lexeme ++
    (match t.literal with
      | some l => " " ++ l.display
      | none => "") ++ "]"

/-- The JSON object of a token; a token without a value has no such field. -/
def json (t : Token) : Json :=
  .obj ([("kind", .str t.kind.label), ("lexeme", .str t.lexeme)] ++
    (t.literal.map fun l => ("literal", l.json)).toList ++ [("line", .nat t.line)])

/-- The outline of a token. -/
def outline (t : Token) : Outline :=
  .record "Token"
    [("kind", .word t.kind.name),
     ("lexeme", .text t.lexeme),
     ("literal", .option (t.literal.map Literal.outline)),
     ("line", .count t.line)]

end Token
end BracketScript
