import BracketScript.Tree.Basic
import BracketScript.Tree.Cursor

/-!
# Reading statements

One reader for each production of the grammar.  Nesting is limited: statements,
expressions, operands of unary operators and struct bodies each open a level,
and at most `maxNesting` levels may be open at a time.  The readers of a level
are written in terms of the readers of the next one (`Inner`), and `level` ties
them together by recursion on the number of levels left.

A fault ends the statement it is in.  Reading resumes after the next semicolon
or before the next token that opens a statement, so that one pass finds the
faults of all statements.
-/

namespace BracketScript
namespace Grammar

/-- The readers that open one more level of nesting. -/
structure Inner where
  /-- A statement; `inFunction` tells whether `return` is allowed. -/
  statement : (inFunction : Bool) → Reader Stmt
  expression : Reader Expr
  /-- The operand of a unary operator. -/
  operand : Reader Expr
  /-- A struct after its keyword. -/
  structBody : (keyword : Token) → Reader Expr

/-- The greatest number of open levels. -/
def maxNesting : Nat := 255

variable (inner : Inner)

/-- Statements up to and including the closing bracket. -/
def block (inFunction : Bool) : Reader (List Stmt) := do
  let stmts ← Reader.untilBracket (inner.statement inFunction)
  let _ ← Reader.expect .rightBracket .blockUnclosed
  pure stmts

/-- A function after its keyword. -/
def function (keyword : Token) : Reader Expr := do
  let _ ← Reader.expect .leftBracket .noBracketAfterFunction
  let (params, _) ← Reader.entries .parameters (Reader.expect .identifier .noParameterName)
  let _ ← Reader.expect .leftBracket .noFunctionBody
  let body ← block inner true
  pure (.func keyword params body)

/-- A name, a constant, `self`, or an expression in brackets. -/
def primary : Reader Expr := do
  let some t ← Reader.accept? [.trueKw, .falseKw, .nullKw, .num, .str, .selfKw, .identifier,
      .underscore, .leftBracket]
    | Reader.fail .noExpression
  match t.kind with
  | .trueKw => pure (.literal (.bool true))
  | .falseKw => pure (.literal (.bool false))
  | .nullKw => pure (.literal .null)
  | .num | .str =>
    match t.literal with
    | some (.num x) => pure (.literal (.num x))
    | some (.str s) => pure (.literal (.str s))
    | none => pure (.literal .null)
  | .selfKw => pure (.selfRef t)
  | .leftBracket =>
    let e ← inner.expression
    let _ ← Reader.expect .rightBracket .expressionUnclosed
    pure (.grouping e)
  | _ => pure (.variable t)

/-- A primary expression with the calls and attributes that follow it. -/
def call : Reader Expr := do
  Reader.loop (fun e => do
    match ← Reader.accept? [.leftBracket, .identifier] with
    | none => pure none
    | some t =>
      if t.kind = .identifier then pure (some (.attribute e t))
      else
        let (args, bracket) ← Reader.entries .arguments inner.expression
        pure (some (.call e bracket args))) (← primary inner)

/-- Unary operators bind tighter than binary ones. -/
def unary : Reader Expr := do
  match ← Reader.accept? [.bang, .minus, .bitNeg] with
  | some op => pure (.unary op (← inner.operand))
  | none => call inner

/-- One level of binary operators, which associate to the left. -/
def leftAssoc (node : Expr → Token → Expr → Expr) (ops : List Kind) (operand : Reader Expr) :
    Reader Expr := do
  Reader.loop (fun left => do
    match ← Reader.accept? ops with
    | some op => pure (some (node left op (← operand)))
    | none => pure none) (← operand)

/-- Products and quotients. -/
def factor : Reader Expr :=
  leftAssoc .binary [.star, .slash] (unary inner)

/-- Sums and differences. -/
def term : Reader Expr :=
  leftAssoc .binary [.minus, .plus] (factor inner)

/-- Bitwise operators bind looser than sums and tighter than comparisons. -/
def bitwise : Reader Expr :=
  leftAssoc .binary [.bitOr, .bitAnd] (term inner)

/-- Comparisons by order. -/
def comparison : Reader Expr :=
  leftAssoc .binary [.lesser, .lesserEqual, .greater, .greaterEqual] (bitwise inner)

/-- Comparisons for equality and tests with `is`. -/
def equality : Reader Expr :=
  leftAssoc .binary [.equal, .unequal, .isKw] (comparison inner)

/-- Expressions joined by `and`. -/
def conjunction : Reader Expr :=
  leftAssoc .logical [.andKw] (equality inner)

/-- Expressions joined by `or`, which binds loosest. -/
def disjunction : Reader Expr :=
  leftAssoc .logical [.orKw] (conjunction inner)

/-- What may stand on either side of `:=`. -/
def assignable : Reader Expr := do
  match ← Reader.accept? [.structKw, .funcKw] with
  | none => disjunction inner
  | some t => if t.kind = .structKw then inner.structBody t else function inner t

/-- The target that an expression is when it stands before `:=`. -/
def target? : Expr → Option Target
  | .variable name => some (.variable name)
  | .attribute (.selfRef keyword) name => some (.selfField keyword name)
  | _ => none

/-- An expression, possibly an assignment.  After a wrong target reading goes
on as if the assignment were not there. -/
def assignment : Reader Expr := do
  let left ← assignable inner
  match ← Reader.accept? [.walrus] with
  | none => pure left
  | some walrus =>
    let value ← assignable inner
    match target? left with
    | some target => pure (.assign target value)
    | none =>
      Reader.report walrus .invalidTarget
      pure left

/-- One entry of a struct body. -/
def fieldInit : Reader FieldInit := do
  let name ← Reader.expect .identifier .noAttributeName
  let _ ← Reader.expect .walrus .noAttributeWalrus
  let value ← assignable inner
  let _ ← Reader.expect .semicolon .noSemicolonAfterAttribute
  pure ⟨name, value⟩

/-- A struct after its keyword; the body may be left out. -/
def structDecl (keyword : Token) : Reader Expr := do
  let _ ← Reader.expect .leftBracket .noBracketAfterStruct
  let (params, _) ← Reader.entries .parameters (Reader.expect .identifier .noParameterName)
  match ← Reader.accept? [.leftBracket] with
  | none => pure (.struct keyword params [])
  | some _ =>
    let body ← Reader.untilBracket (fieldInit inner)
    let _ ← Reader.expect .rightBracket .structUnclosed
    pure (.struct keyword params body)

/-- An import after its keyword.  No semicolon ends it. -/
def importStatement : Reader Stmt := do
  let module ← Reader.expect .identifier .noModuleName
  let _ ← Reader.expect .leftBracket .noBracketAfterModule
  let (names, _) ← Reader.entries .imports (Reader.expect .identifier .noImportName)
  pure (.importing module names)

/-- An expression unless the next token is of the given kind. -/
def exprBefore (kind : Kind) : Reader (Option Expr) := do
  if ← Reader.nextIs kind then pure none
  else pure (some (← inner.expression))

/-- A return after its keyword; the value may be left out.  Outside a function it
is a fault, and reading goes on. -/
def returnStatement (inFunction : Bool) (keyword : Token) : Reader Stmt := do
  if !inFunction then
    Reader.report keyword .returnOutsideFunction
  let value ← exprBefore inner .semicolon
  let _ ← Reader.expect .semicolon .noSemicolonAfterReturn
  pure (.returning keyword value)

/-- A condition in brackets and the statement it guards. -/
def guarded (inFunction : Bool) : Reader (Expr × Stmt) := do
  let _ ← Reader.expect .leftBracket .noBracketAfterIf
  let condition ← inner.expression
  let _ ← Reader.expect .rightBracket .conditionUnclosed
  let consequence ← inner.statement inFunction
  pure (condition, consequence)

/-- Conditions and statements in order, each the alternative of the one
before. -/
def chain (arms : List (Expr × Stmt)) (otherwise : Option Stmt) : Option Stmt :=
  arms.foldr (fun arm rest => some (.conditional arm.1 arm.2 rest)) otherwise

/-- A conditional after its keyword, with its `elif` and `else` parts. -/
def ifStatement (inFunction : Bool) : Reader Stmt := do
  let (condition, consequence) ← guarded inner inFunction
  let arms ← Reader.loop (fun (arms : Array (Expr × Stmt)) => do
    match ← Reader.accept? [.elifKw] with
    | some _ => pure (some (arms.push (← guarded inner inFunction)))
    | none => pure none) #[]
  let otherwise ←
    match ← Reader.accept? [.elseKw] with
    | some _ => some <$> inner.statement inFunction
    | none => pure none
  pure (.conditional condition consequence (chain arms.toList otherwise))

/-- The while loop that a `for` loop stands for: the initializer runs first in
a block of its own, a missing condition holds always, and the increment runs
after the body. -/
def forLoop (keyword : Token) (initializer condition increment : Option Expr)
    (body : List Stmt) : Stmt :=
  let round : Stmt :=
    match increment with
    | some e => .block [.block body, .expression e]
    | none => .block body
  let loop : Stmt := .whileLoop keyword (condition.getD (.literal (.bool true))) round
  match initializer with
  | some e => .block [.expression e, loop]
  | none => loop

/-- A `for` loop after its keyword; each of its three clauses may be left out. -/
def forStatement (inFunction : Bool) (keyword : Token) : Reader Stmt := do
  let _ ← Reader.expect .leftBracket .noBracketAfterFor
  let initializer ← exprBefore inner .comma
  let _ ← Reader.expect .comma .noCommaAfterInitializer
  let condition ← exprBefore inner .comma
  let _ ← Reader.expect .comma .noCommaAfterCondition
  let increment ← exprBefore inner .rightBracket
  let _ ← Reader.expect .rightBracket .clausesUnclosed
  let _ ← Reader.expect .leftBracket .noLoopBody
  let body ← block inner inFunction
  Reader.noteLoop keyword.line
  pure (forLoop keyword initializer condition increment body)

/-- A `while` loop after its keyword. -/
def whileStatement (inFunction : Bool) (keyword : Token) : Reader Stmt := do
  let _ ← Reader.expect .leftBracket .noBracketAfterWhile
  let condition ← inner.expression
  let _ ← Reader.expect .rightBracket .conditionUnclosed
  let _ ← Reader.expect .leftBracket .noLoopBody
  let body ← block inner inFunction
  pure (.whileLoop keyword condition (.block body))

/-- One case of a `match`: a pattern, an arrow and a statement in brackets. -/
def matchCase (inFunction : Bool) : Reader MatchCase := do
  let _ ← Reader.expect .leftBracket .noCaseBody
  let pattern ← inner.expression
  let _ ← Reader.expect .arrow .noArrow
  let consequence ← inner.statement inFunction
  let _ ← Reader.expect .rightBracket .caseUnclosed
  pure ⟨pattern, consequence⟩

/-- A `match` after its keyword. -/
def matchStatement (inFunction : Bool) (keyword : Token) : Reader Stmt := do
  let _ ← Reader.expect .leftBracket .noBracketAfterMatch
  let subject ← inner.expression
  let _ ← Reader.expect .rightBracket .expressionUnclosed
  let _ ← Reader.expect .againstKw .noAgainst
  let _ ← Reader.expect .leftBracket .noMatchBody
  let cases ← Reader.untilBracket (matchCase inner inFunction)
  let _ ← Reader.expect .rightBracket .matchUnclosed
  pure (.matching keyword subject cases)

/-- An expression that a semicolon ends. -/
def expressionStatement : Reader Stmt := do
  let e ← inner.expression
  let _ ← Reader.expect .semicolon .noSemicolon
  pure (.expression e)

/-- The first token tells what kind of statement follows. -/
def statement (inFunction : Bool) : Reader Stmt := do
  match ← Reader.accept? [.importKw, .returnKw, .ifKw, .forKw, .whileKw, .matchKw, .leftBracket] with
  | none => expressionStatement inner
  | some t =>
    match t.kind with
    | .importKw => importStatement
    | .returnKw => returnStatement inner inFunction t
    | .ifKw => ifStatement inner inFunction
    | .forKw => forStatement inner inFunction t
    | .whileKw => whileStatement inner inFunction t
    | .matchKw => matchStatement inner inFunction t
    | _ => .block <$> block inner inFunction

/-- The readers that may open at most `n` levels. -/
def level : Nat → Inner
  | 0 =>
    { statement := fun _ => Reader.fail .tooMuchNesting
      expression := Reader.fail .tooMuchNesting
      operand := Reader.fail .tooMuchNesting
      structBody := fun _ => Reader.fail .tooMuchNesting }
  | n + 1 =>
    let inner := level n
    { statement := statement inner
      expression := assignment inner
      operand := unary inner
      structBody := structDecl inner }

/-- Tokens that open a statement (or a function or struct) wherever they stand. -/
def opensStatement : Kind → Bool
  | .funcKw | .structKw | .forKw | .ifKw | .whileKw | .matchKw | .importKw | .returnKw => true
  | _ => false

/-- Skips to the next place where reading resumes, `last` being the kind of the
token skipped last. -/
def skip : (last : Kind) → List Token → List Token
  | _, [] => []
  | last, t :: rest =>
    if last = .semicolon || opensStatement t.kind then t :: rest else skip t.kind rest

/-- Skips at least one token, up to the next place where reading resumes. -/
def resume : List Token → List Token
  | [] => []
  | t :: rest => skip t.kind rest

/-- Reads at most `n` statements, resuming after those with faults. -/
def statements (one : Reader Stmt) : Nat → Array Stmt → Cursor → Array Stmt × Cursor
  | 0, done, c => (done, c)
  | n + 1, done, c =>
    if c.rest.isEmpty then (done, c)
    else
      match one c with
      | (some s, c) => statements one n (done.push s) c
      | (none, c) => statements one n done { c with rest := resume c.rest }

end Grammar

/-- What came of reading a list of tokens. -/
structure Parse where
  /-- The statements, or all faults if there are any. -/
  outcome : Except (List SyntaxError) (List Stmt)
  /-- The lines of the `for` loops that were read, in the order in which they
  ended. -/
  loops : List Nat

/-- Reads a list of tokens as statements.  Every round takes at least one
token. -/
def Parse.ofTokens (tokens : List Token) : Parse :=
  let start := Cursor.ofTokens tokens
  let one := (Grammar.level Grammar.maxNesting).statement false
  let (stmts, c) := Grammar.statements one start.rest.length #[] start
  { outcome := if c.errors.isEmpty then .ok stmts.toList else .error c.errors.toList
    loops := c.loops.toList }

/-- The statements of a list of tokens, or all its faults. -/
def parse (tokens : List Token) : Except (List SyntaxError) (List Stmt) :=
  (Parse.ofTokens tokens).outcome

end BracketScript
