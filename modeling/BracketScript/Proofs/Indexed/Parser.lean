import BracketScript.Tree.Grammar

/-!
# Reading tokens by their places

The grammar once more, as an algorithm on an array of tokens.  It remembers the
place of the next token, the number of open levels and the number of open
function bodies.  What could go wrong with such an algorithm is part of its
outcome: looking at a place outside the array, counting below zero, and not
coming to an end.  Loops and calls have no bound of their own here; they use up
fuel, and whoever is out of fuel says so.

There is no list of tokens left, no bound taken from its length, and no level
that is handed down.  That the tokens are read as `parse` reads them is what has
to be proved.
-/

namespace BracketScript
namespace Indexed

/-- An algorithm at work on an array of tokens. -/
structure State where
  tokens : Array Token
  /-- The place of the next token. -/
  place : Nat
  errors : Array SyntaxError
  /-- The lines of the `for` loops read so far. -/
  loops : Array Nat
  /-- The number of open levels. -/
  depth : Nat
  /-- The number of open function bodies. -/
  functions : Nat
  /-- All places of the next token so far, in order. -/
  path : Array Nat
  /-- The places that were looked at so far. -/
  seen : Array Nat

/-- The tokens with an end marker behind them, on the line of the last one, unless
the last one is an end marker. -/
def closed (tokens : List Token) : List Token :=
  if tokens.getLast?.map Token.kind = some .eof then tokens
  else tokens ++ [Token.eof ((tokens.getLast?.map Token.line).getD 1)]

/-- The beginning of a list of tokens. -/
def State.ofTokens (tokens : List Token) : State :=
  { tokens := (closed tokens).toArray
    place := 0
    errors := #[]
    loops := #[]
    depth := 0
    functions := 0
    path := #[0]
    seen := #[] }

/-- How an action ends. -/
inductive Outcome (α : Type) where
  /-- With a value, or without one after noting why. -/
  | done (value : Option α) (state : State)
  | outOfRange
  | underflow
  | exhausted

/-- Something that the algorithm does. -/
def Action (α : Type) : Type :=
  State → Outcome α

namespace Action

variable {α : Type}

instance : Monad Action where
  pure a := fun s => .done (some a) s
  bind p k := fun s =>
    match p s with
    | .done (some a) s => k a s
    | .done none s => .done none s
    | .outOfRange => .outOfRange
    | .underflow => .underflow
    | .exhausted => .exhausted

/-! ### Tokens -/

/-- The token at a place. -/
def lookAt (i : Nat) : Action Token :=
  fun s =>
    match s.tokens[i]? with
    | some t => .done (some t) { s with seen := s.seen.push i }
    | none => .outOfRange

/-- The next token. -/
def peek : Action Token :=
  fun s => lookAt s.place s

/-- The token before the next one. -/
def previous : Action Token :=
  fun s =>
    match s.place with
    | 0 => .underflow
    | i + 1 => lookAt i s

/-- Goes on to the next place. -/
def goOn : Action Unit :=
  fun s => .done (some ()) { s with place := s.place + 1, path := s.path.push (s.place + 1) }

/-- Whether the next token is not an end marker. -/
def hasNext : Action Bool := do
  let t ← peek
  pure (t.kind ≠ .eof)

/-- Whether the next token is of the given kind. -/
def check (kind : Kind) : Action Bool := do
  if ← hasNext then
    let t ← peek
    pure (t.kind = kind)
  else pure false

/-- Takes the next token.  At an end marker the token before it is given once
more. -/
def advance : Action Token := do
  if ← hasNext then goOn
  previous

/-- Whether the next token is of one of the given kinds. -/
def checkAny : List Kind → Action Bool
  | [] => pure false
  | kind :: kinds => do
    if ← check kind then pure true else checkAny kinds

/-- Takes the next token if it is of one of the given kinds, and tells whether it
was. -/
def accept (kinds : List Kind) : Action Bool := do
  if ← checkAny kinds then
    let _ ← advance
    pure true
  else pure false

/-! ### Faults -/

/-- Notes a fault and goes on. -/
def report (t : Token) (fault : SyntaxFault) : Action Unit :=
  fun s => .done (some ()) { s with errors := s.errors.push (SyntaxError.atToken t fault) }

/-- Gives up. -/
def giveUp : Action α :=
  fun s => .done none s

/-- Notes a fault at the next token and gives up. -/
def fail (fault : SyntaxFault) : Action α := do
  let t ← peek
  report t fault
  giveUp

/-- The next token, which must be of the given kind. -/
def expect (kind : Kind) (fault : SyntaxFault) : Action Token := do
  if ← check kind then advance else fail fault

/-- Goes on whether or not something gives up. -/
def attempt (p : Action α) : Action (Option α) :=
  fun s =>
    match p s with
    | .done value s => .done (some value) s
    | .outOfRange => .outOfRange
    | .underflow => .underflow
    | .exhausted => .exhausted

/-- Remembers that a `for` loop was read. -/
def noteLoop (line : Nat) : Action Unit :=
  fun s => .done (some ()) { s with loops := s.loops.push line }

/-! ### Counters -/

/-- Does something one level deeper, unless all levels are open. -/
def nested (p : Action α) : Action α :=
  fun s =>
    if Grammar.maxNesting ≤ s.depth then fail .tooMuchNesting s
    else
      match p { s with depth := s.depth + 1 } with
      | .done value s =>
        match s.depth with
        | 0 => .underflow
        | depth + 1 => .done value { s with depth := depth }
      | .outOfRange => .outOfRange
      | .underflow => .underflow
      | .exhausted => .exhausted

/-- Does something in the body of a function. -/
def inBody (p : Action α) : Action α :=
  fun s =>
    match p { s with functions := s.functions + 1 } with
    | .done value s =>
      match s.functions with
      | 0 => .underflow
      | functions + 1 => .done value { s with functions := functions }
    | .outOfRange => .outOfRange
    | .underflow => .underflow
    | .exhausted => .exhausted

/-- Whether a function body is open. -/
def inFunction : Action Bool :=
  fun s => .done (some (0 < s.functions)) s

/-! ### Loops -/

/-- Repeats a step until it says that it is done. -/
def loop (step : α → Action (ForInStep α)) : (fuel : Nat) → α → Action α
  | 0, _ => fun _ => .exhausted
  | fuel + 1, a => do
    match ← step a with
    | .yield a => loop step fuel a
    | .done a => pure a

/-- One more item, unless a closing bracket or the end comes next. -/
def itemRound (item : Action α) (items : Array α) : Action (ForInStep (Array α)) := do
  if ← check .rightBracket then pure (.done items)
  else if ← hasNext then pure (.yield (items.push (← item)))
  else pure (.done items)

/-- Items up to a closing bracket, which is not taken. -/
def untilBracket (fuel : Nat) (item : Action α) : Action (List α) := do
  let items ← loop (itemRound item) fuel #[]
  pure items.toList

/-- One more entry of a list that has `count` entries. -/
def entry (list : ListKind) (item : Action α) (count : Nat) : Action α := do
  if Reader.maxEntries ≤ count then
    report (← peek) (.listTooLong list)
  item

/-- One more entry, and whether a comma follows it. -/
def entryRound (list : ListKind) (item : Action α) (items : Array α) :
    Action (ForInStep (Array α)) := do
  let e ← entry list item items.size
  if ← accept [.comma] then pure (.yield (items.push e)) else pure (.done (items.push e))

/-- Entries separated by commas, and the bracket that closes them. -/
def entries (fuel : Nat) (list : ListKind) (item : Action α) : Action (List α × Token) := do
  let items ← if ← check .rightBracket then pure #[] else loop (entryRound list item) fuel #[]
  let bracket ← expect .rightBracket (.listUnclosed list)
  pure (items.toList, bracket)

end Action

/-- What a production may call, at the cost of fuel. -/
structure Calls where
  /-- The number of rounds that a loop may take. -/
  rounds : Nat
  statement : Action Stmt
  expression : Action Expr
  /-- The operand of a unary operator. -/
  operand : Action Expr
  /-- A struct after its keyword. -/
  structBody : Action Expr
  /-- A conditional after its keyword `if` or `elif`. -/
  conditional : Action Stmt

namespace Calls

open Indexed.Action

variable (calls : Calls)

/-- Statements up to and including the closing bracket. -/
def block : Action (List Stmt) := do
  let stmts ← untilBracket calls.rounds calls.statement
  let _ ← expect .rightBracket .blockUnclosed
  pure stmts

/-- A function after its keyword. -/
def function : Action Expr := do
  let keyword ← previous
  let _ ← expect .leftBracket .noBracketAfterFunction
  let (params, _) ← entries calls.rounds .parameters (expect .identifier .noParameterName)
  let _ ← expect .leftBracket .noFunctionBody
  let body ← inBody calls.block
  pure (.func keyword params body)

/-- A name, a constant, `self`, or an expression in brackets. -/
def primary : Action Expr := do
  if ← accept [.trueKw] then pure (.literal (.bool true))
  else if ← accept [.falseKw] then pure (.literal (.bool false))
  else if ← accept [.nullKw] then pure (.literal .null)
  else if ← accept [.num, .str] then
    let t ← previous
    match t.literal with
    | some (.num x) => pure (.literal (.num x))
    | some (.str s) => pure (.literal (.str s))
    | none => pure (.literal .null)
  else if ← accept [.selfKw] then
    let keyword ← previous
    pure (.selfRef keyword)
  else if ← accept [.identifier, .underscore] then
    let name ← previous
    pure (.variable name)
  else if ← accept [.leftBracket] then
    let e ← calls.expression
    let _ ← expect .rightBracket .expressionUnclosed
    pure (.grouping e)
  else fail .noExpression

/-- One more call or attribute behind an expression. -/
def callRound (e : Expr) : Action (ForInStep Expr) := do
  if ← accept [.leftBracket] then
    let (args, bracket) ← entries calls.rounds .arguments calls.expression
    pure (.yield (.call e bracket args))
  else if ← check .identifier then
    let name ← advance
    pure (.yield (.attribute e name))
  else pure (.done e)

/-- A primary expression with the calls and attributes that follow it. -/
def call : Action Expr := do
  let e ← calls.primary
  loop calls.callRound calls.rounds e

/-- Unary operators bind tighter than binary ones. -/
def unary : Action Expr := do
  if ← accept [.bang, .minus, .bitNeg] then
    let op ← previous
    let e ← calls.operand
    pure (.unary op e)
  else calls.call

/-- One more operator and its right operand. -/
def operatorRound (node : Expr → Token → Expr → Expr) (ops : List Kind) (operand : Action Expr)
    (left : Expr) : Action (ForInStep Expr) := do
  if ← accept ops then
    let op ← previous
    let right ← operand
    pure (.yield (node left op right))
  else pure (.done left)

/-- One level of binary operators, which associate to the left. -/
def leftAssoc (node : Expr → Token → Expr → Expr) (ops : List Kind) (operand : Action Expr) :
    Action Expr := do
  let left ← operand
  loop (operatorRound node ops operand) calls.rounds left

/-- Products and quotients. -/
def factor : Action Expr :=
  calls.leftAssoc .binary [.star, .slash] calls.unary

/-- Sums and differences. -/
def term : Action Expr :=
  calls.leftAssoc .binary [.minus, .plus] calls.factor

/-- Bitwise operators. -/
def bitwise : Action Expr :=
  calls.leftAssoc .binary [.bitOr, .bitAnd] calls.term

/-- Comparisons by order. -/
def comparison : Action Expr :=
  calls.leftAssoc .binary [.lesser, .lesserEqual, .greater, .greaterEqual] calls.bitwise

/-- Comparisons for equality and tests with `is`. -/
def equality : Action Expr :=
  calls.leftAssoc .binary [.equal, .unequal, .isKw] calls.comparison

/-- Expressions joined by `and`. -/
def conjunction : Action Expr :=
  calls.leftAssoc .logical [.andKw] calls.equality

/-- Expressions joined by `or`. -/
def disjunction : Action Expr :=
  calls.leftAssoc .logical [.orKw] calls.conjunction

/-- What may stand on either side of `:=`. -/
def assignable : Action Expr := do
  if ← accept [.structKw] then calls.structBody
  else if ← accept [.funcKw] then calls.function
  else calls.disjunction

/-- An expression, possibly an assignment. -/
def assignment : Action Expr := do
  let left ← calls.assignable
  if ← accept [.walrus] then
    let walrus ← previous
    let value ← calls.assignable
    match Grammar.target? left with
    | some target => pure (.assign target value)
    | none =>
      report walrus .invalidTarget
      pure left
  else pure left

/-- One entry of a struct body. -/
def fieldInit : Action FieldInit := do
  let name ← expect .identifier .noAttributeName
  let _ ← expect .walrus .noAttributeWalrus
  let value ← calls.assignable
  let _ ← expect .semicolon .noSemicolonAfterAttribute
  pure ⟨name, value⟩

/-- A struct after its keyword; the body may be left out. -/
def structDecl : Action Expr := do
  let keyword ← previous
  let _ ← expect .leftBracket .noBracketAfterStruct
  let (params, _) ← entries calls.rounds .parameters (expect .identifier .noParameterName)
  if ← accept [.leftBracket] then
    let body ← untilBracket calls.rounds calls.fieldInit
    let _ ← expect .rightBracket .structUnclosed
    pure (.struct keyword params body)
  else pure (.struct keyword params [])

/-- An import after its keyword. -/
def importStatement : Action Stmt := do
  let module ← expect .identifier .noModuleName
  let _ ← expect .leftBracket .noBracketAfterModule
  let (names, _) ← entries calls.rounds .imports (expect .identifier .noImportName)
  pure (.importing module names)

/-- An expression unless the next token is of the given kind. -/
def exprBefore (kind : Kind) : Action (Option Expr) := do
  if ← check kind then pure none
  else
    let e ← calls.expression
    pure (some e)

/-- A return after its keyword. -/
def returnStatement : Action Stmt := do
  let keyword ← previous
  if !(← inFunction) then
    report keyword .returnOutsideFunction
  let value ← calls.exprBefore .semicolon
  let _ ← expect .semicolon .noSemicolonAfterReturn
  pure (.returning keyword value)

/-- A conditional after its keyword `if` or `elif`. -/
def ifStatement : Action Stmt := do
  let _ ← expect .leftBracket .noBracketAfterIf
  let condition ← calls.expression
  let _ ← expect .rightBracket .conditionUnclosed
  let consequence ← calls.statement
  if ← accept [.elifKw] then
    let otherwise ← calls.conditional
    pure (.conditional condition consequence (some otherwise))
  else if ← accept [.elseKw] then
    let otherwise ← calls.statement
    pure (.conditional condition consequence (some otherwise))
  else pure (.conditional condition consequence none)

/-- A `for` loop after its keyword. -/
def forStatement : Action Stmt := do
  let keyword ← previous
  let _ ← expect .leftBracket .noBracketAfterFor
  let initializer ← calls.exprBefore .comma
  let _ ← expect .comma .noCommaAfterInitializer
  let condition ← calls.exprBefore .comma
  let _ ← expect .comma .noCommaAfterCondition
  let increment ← calls.exprBefore .rightBracket
  let _ ← expect .rightBracket .clausesUnclosed
  let _ ← expect .leftBracket .noLoopBody
  let body ← calls.block
  noteLoop keyword.line
  pure (Grammar.forLoop keyword initializer condition increment body)

/-- A `while` loop after its keyword. -/
def whileStatement : Action Stmt := do
  let keyword ← previous
  let _ ← expect .leftBracket .noBracketAfterWhile
  let condition ← calls.expression
  let _ ← expect .rightBracket .conditionUnclosed
  let _ ← expect .leftBracket .noLoopBody
  let body ← calls.block
  pure (.whileLoop keyword condition (.block body))

/-- One case of a `match`. -/
def matchCase : Action MatchCase := do
  let _ ← expect .leftBracket .noCaseBody
  let pattern ← calls.expression
  let _ ← expect .arrow .noArrow
  let consequence ← calls.statement
  let _ ← expect .rightBracket .caseUnclosed
  pure ⟨pattern, consequence⟩

/-- A `match` after its keyword. -/
def matchStatement : Action Stmt := do
  let keyword ← previous
  let _ ← expect .leftBracket .noBracketAfterMatch
  let subject ← calls.expression
  let _ ← expect .rightBracket .expressionUnclosed
  let _ ← expect .againstKw .noAgainst
  let _ ← expect .leftBracket .noMatchBody
  let cases ← untilBracket calls.rounds calls.matchCase
  let _ ← expect .rightBracket .matchUnclosed
  pure (.matching keyword subject cases)

/-- An expression that a semicolon ends. -/
def expressionStatement : Action Stmt := do
  let e ← calls.expression
  let _ ← expect .semicolon .noSemicolon
  pure (.expression e)

/-- The first token tells what kind of statement follows. -/
def statementInner : Action Stmt := do
  if ← accept [.importKw] then calls.importStatement
  else if ← accept [.returnKw] then calls.returnStatement
  else if ← accept [.ifKw] then calls.ifStatement
  else if ← accept [.forKw] then calls.forStatement
  else if ← accept [.whileKw] then calls.whileStatement
  else if ← accept [.matchKw] then calls.matchStatement
  else if ← accept [.leftBracket] then
    let stmts ← calls.block
    pure (.block stmts)
  else calls.expressionStatement

/-- The calls that a given amount of fuel allows. -/
def within : (fuel : Nat) → Calls
  | 0 =>
    { rounds := 0
      statement := fun _ => .exhausted
      expression := fun _ => .exhausted
      operand := fun _ => .exhausted
      structBody := fun _ => .exhausted
      conditional := fun _ => .exhausted }
  | fuel + 1 =>
    let calls := within fuel
    { rounds := fuel + 1
      statement := nested calls.statementInner
      expression := nested calls.assignment
      operand := nested calls.unary
      structBody := nested calls.structDecl
      conditional := calls.ifStatement }

/-- Skips one more token unless reading can resume at it. -/
def skipRound : Action (ForInStep Unit) := do
  if ← hasNext then
    let last ← previous
    if last.kind = .semicolon then pure (.done ())
    else
      let t ← peek
      if Grammar.opensStatement t.kind then pure (.done ())
      else
        let _ ← advance
        pure (.yield ())
  else pure (.done ())

/-- Skips at least one token, up to the next place where reading resumes. -/
def resume : Action Unit := do
  let _ ← advance
  loop (fun _ => skipRound) calls.rounds ()

/-- One more statement.  Reading resumes after one with faults. -/
def statementRound (done : Array Stmt) : Action (ForInStep (Array Stmt)) := do
  if ← hasNext then
    match ← attempt calls.statement with
    | some stmt => pure (.yield (done.push stmt))
    | none =>
      calls.resume
      pure (.yield done)
  else pure (.done done)

/-- The statements, or all faults if there are any. -/
def conclude (stmts : Array Stmt) : Action (Except (List SyntaxError) (List Stmt)) :=
  fun s =>
    .done (some (if s.errors.isEmpty then .ok stmts.toList else .error s.errors.toList)) s

/-- The statements of all tokens, or all faults. -/
def program : Action (Except (List SyntaxError) (List Stmt)) := do
  let stmts ← loop calls.statementRound calls.rounds #[]
  conclude stmts

end Calls

/-- Reads a list of tokens as statements, within the given amount of fuel. -/
def parse (fuel : Nat) (tokens : List Token) :
    Outcome (Except (List SyntaxError) (List Stmt)) :=
  (Calls.within fuel).program (State.ofTokens tokens)

end Indexed
end BracketScript
