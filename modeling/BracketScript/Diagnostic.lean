import BracketScript.Token.Basic

/-!
# Diagnostics of source text

What can be wrong with a source text, where it was noticed, and the wording
shown to the user.
-/

namespace BracketScript

/-- The lists whose length is limited. -/
inductive ListKind where
  | parameters
  | imports
  | arguments
deriving DecidableEq, Repr

namespace ListKind

/-- What the entries of a list are called. -/
def entries : ListKind → String
  | .parameters => "parameters"
  | .imports => "imports"
  | .arguments => "arguments"

/-- What a list is called as a whole. -/
def whole : ListKind → String
  | .parameters => "parameters"
  | .imports => "imports"
  | .arguments => "call arguments"

end ListKind

/-- The faults a source text can have.  The first three are found while the
text is cut into tokens, the others while the tokens are read as statements. -/
inductive SyntaxFault where
  | unexpectedCharacter
  | unterminatedString
  | invalidNumber
  | tooMuchNesting
  | noExpression
  | invalidTarget
  | returnOutsideFunction
  | listTooLong (list : ListKind)
  | listUnclosed (list : ListKind)
  | noModuleName
  | noBracketAfterModule
  | noImportName
  | noSemicolonAfterReturn
  | noBracketAfterIf
  | conditionUnclosed
  | noBracketAfterFor
  | noCommaAfterInitializer
  | noCommaAfterCondition
  | clausesUnclosed
  | noLoopBody
  | noBracketAfterWhile
  | noBracketAfterMatch
  | expressionUnclosed
  | noAgainst
  | noMatchBody
  | noCaseBody
  | noArrow
  | caseUnclosed
  | matchUnclosed
  | blockUnclosed
  | noSemicolon
  | noBracketAfterStruct
  | noParameterName
  | noAttributeName
  | noAttributeWalrus
  | noSemicolonAfterAttribute
  | structUnclosed
  | noBracketAfterFunction
  | noFunctionBody
deriving DecidableEq, Repr

/-- The wording of a fault. -/
def SyntaxFault.message : SyntaxFault → String
  | .unexpectedCharacter => "Unexpected character."
  | .unterminatedString => "Unterminated string."
  | .invalidNumber => "Invalid number literal."
  | .tooMuchNesting => "Too much nesting."
  | .noExpression => "Expect expression."
  | .invalidTarget => "Invalid assignment target."
  | .returnOutsideFunction => "Cannot return from top-level code."
  | .listTooLong list => "Expected fewer than 128 " ++ list.entries ++ "."
  | .listUnclosed list => "Expect ']' after " ++ list.whole ++ "."
  | .noModuleName => "Expect module name after 'import'."
  | .noBracketAfterModule => "Expect '[' after module name."
  | .noImportName => "Expect import name."
  | .noSemicolonAfterReturn => "Expect ';' after return value."
  | .noBracketAfterIf => "Expect '[' after 'if'."
  | .conditionUnclosed => "Expect ']' after condition."
  | .noBracketAfterFor => "Expect '[' after 'for'."
  | .noCommaAfterInitializer => "Expect ',' after loop initializer."
  | .noCommaAfterCondition => "Expect ',' after loop condition."
  | .clausesUnclosed => "Expect ']' after loop clauses."
  | .noLoopBody => "Expect '[' before loop body."
  | .noBracketAfterWhile => "Expect '[' after 'while'."
  | .noBracketAfterMatch => "Expect '[' after 'match'."
  | .expressionUnclosed => "Expect ']' after expression."
  | .noAgainst => "Expect 'against' before match body."
  | .noMatchBody => "Expect '[' before match body."
  | .noCaseBody => "Expect '[' before case body."
  | .noArrow => "Expect '->' in case body."
  | .caseUnclosed => "Expect ']' after case body."
  | .matchUnclosed => "Expect ']' after match body."
  | .blockUnclosed => "Expect ']' after block."
  | .noSemicolon => "Expect ';' after expression."
  | .noBracketAfterStruct => "Expect '[' after struct declaration."
  | .noParameterName => "Expect identifier in params body."
  | .noAttributeName => "Expect attribute name."
  | .noAttributeWalrus => "Expect ':=' after attribute name."
  | .noSemicolonAfterAttribute => "Expect ';' after attribute value."
  | .structUnclosed => "Expect ']' after struct body."
  | .noBracketAfterFunction => "Expect '[' after function declaration."
  | .noFunctionBody => "Expect function body."

/-- Where on its line a fault was noticed. -/
inductive Location where
  | line
  | atEnd
  | lexeme (text : String)
deriving DecidableEq, Repr

namespace Location

/-- The place of a token: a lexeme, or the end of the source. -/
def ofToken (t : Token) : Location :=
  if t.kind = .eof then .atEnd else .lexeme t.lexeme

/-- The place as it stands in an error line. -/
def display : Location → String
  | .line => ""
  | .atEnd => " at end"
  | .lexeme text => " at '" ++ text ++ "'"

/-- The JSON object of a place. -/
def json : Location → Json
  | .line => .obj [("kind", .str "line")]
  | .atEnd => .obj [("kind", .str "end")]
  | .lexeme text => .obj [("kind", .str "lexeme"), ("lexeme", .str text)]

end Location

/-- A fault with its place. -/
structure SyntaxError where
  line : Nat
  location : Location
  fault : SyntaxFault
deriving DecidableEq, Repr

namespace SyntaxError

/-- A fault noticed at a token. -/
def atToken (t : Token) (fault : SyntaxFault) : SyntaxError :=
  ⟨t.line, .ofToken t, fault⟩

/-- The error line shown to the user. -/
def display (e : SyntaxError) : String :=
  "[line " ++ Nat.repr e.line ++ "] Error" ++ e.location.display ++ ": " ++ e.fault.message

/-- The JSON object of an error. -/
def json (e : SyntaxError) : Json :=
  .obj [("line", .nat e.line), ("location", e.location.json), ("message", .str e.fault.message)]

end SyntaxError
end BracketScript
