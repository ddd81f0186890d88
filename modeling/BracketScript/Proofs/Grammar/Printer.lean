import BracketScript.Proofs.Grammar.Derivation

/-!
# Writing trees as tokens

`print` writes a tree as the tokens stored in it, with the fixed tokens between
them.  Two things are written in one way though there are others:

* a conditional that is the alternative of another one, with `elif`;
* a loop whose keyword is `for`, as `for [, condition, ] [body]`.  The other two
  clauses of a `for` loop are not part of the loop in the tree.

Not every tree is one that the grammar has: `printable` is the condition on
nodes, and `levels` counts the levels of nesting that reading the printed tokens
opens.
-/

namespace BracketScript

/-- A token that is always the same. -/
def mark (kind : Kind) (lexeme : String) : Token :=
  ⟨kind, lexeme, none, 1⟩

/-- Tokens in brackets. -/
def brackets (w : List Token) : List Token :=
  mark .leftBracket "[" :: (w ++ [mark .rightBracket "]"])

/-- Lists of tokens with a comma between any two. -/
def commas (ws : List (List Token)) : List Token :=
  (ws.intersperse [mark .comma ","]).flatten

/-- The token that denotes a constant. -/
def Constant.print : Constant → Token
  | .null => mark .nullKw "null"
  | .bool true => mark .trueKw "true"
  | .bool false => mark .falseKw "false"
  | .num x => ⟨.num, numberText x, some (.num x), 1⟩
  | .str s => ⟨.str, "\"" ++ s ++ "\"", some (.str s), 1⟩

/-- A target as tokens. -/
def Target.print : Target → List Token
  | .variable name => [name]
  | .selfField keyword name => [keyword, name]

/-- Names as a list in brackets. -/
def printNames (names : List Token) : List Token :=
  brackets (commas (names.map fun t => [t]))

/-- The alternative of a conditional, itself printed as `w`.  A conditional loses
its own keyword to `elif`. -/
def printAlternative (s : Stmt) (w : List Token) : List Token :=
  match s with
  | .conditional _ _ _ => mark .elifKw "elif" :: w.tail
  | _ => mark .elseKw "else" :: w

mutual

/-- An expression as tokens. -/
def Expr.print : Expr → List Token
  | .literal value => [value.print]
  | .variable name => [name]
  | .assign target value => target.print ++ mark .walrus ":=" :: value.print
  | .binary left op right => left.print ++ op :: right.print
  | .logical left op right => left.print ++ op :: right.print
  | .unary op right => op :: right.print
  | .grouping inner => brackets inner.print
  | .call callee bracket args =>
    callee.print ++ mark .leftBracket "[" :: (commas (printExprs args) ++ [bracket])
  | .attribute object name => object.print ++ [name]
  | .selfRef keyword => [keyword]
  | .func keyword params body => keyword :: (printNames params ++ brackets (printStmts body))
  | .struct keyword params [] => keyword :: printNames params
  | .struct keyword params (entry :: body) =>
    keyword :: (printNames params ++ brackets (printFields (entry :: body)))

/-- Each of the expressions as tokens. -/
def printExprs : List Expr → List (List Token)
  | [] => []
  | e :: es => e.print :: printExprs es

/-- Entries of a struct body as tokens. -/
def printFields : List FieldInit → List Token
  | [] => []
  | ⟨name, value⟩ :: body =>
    name :: mark .walrus ":=" :: (value.print ++ mark .semicolon ";" :: printFields body)

/-- A statement as tokens. -/
def Stmt.print : Stmt → List Token
  | .expression expr => expr.print ++ [mark .semicolon ";"]
  | .block stmts => brackets (printStmts stmts)
  | .conditional condition consequence none =>
    mark .ifKw "if" :: (brackets condition.print ++ consequence.print)
  | .conditional condition consequence (some otherwise) =>
    mark .ifKw "if" :: (brackets condition.print ++
      (consequence.print ++ printAlternative otherwise otherwise.print))
  | .whileLoop keyword condition body =>
    if keyword.kind = .forKw then
      keyword ::
        (brackets (mark .comma "," :: (condition.print ++ [mark .comma ","])) ++ body.print)
    else keyword :: (brackets condition.print ++ body.print)
  | .matching keyword subject cases =>
    keyword :: (brackets subject.print ++ mark .againstKw "against" :: brackets (printCases cases))
  | .importing module names => mark .importKw "import" :: module :: printNames names
  | .returning keyword none => [keyword, mark .semicolon ";"]
  | .returning keyword (some value) => keyword :: (value.print ++ [mark .semicolon ";"])

/-- Statements as tokens, one after the other. -/
def printStmts : List Stmt → List Token
  | [] => []
  | s :: ss => s.print ++ printStmts ss

/-- Cases of a `match` as tokens. -/
def printCases : List MatchCase → List Token
  | [] => []
  | ⟨pattern, consequence⟩ :: cases =>
    brackets (pattern.print ++ mark .arrow "->" :: consequence.print) ++ printCases cases

end

/-! ### Levels of nesting -/

/-- The levels of a conditional that the levels of an alternative add up to.
`elif` opens no level of its own. -/
def alternativeLevels (s : Stmt) (n : Nat) : Nat :=
  match s with
  | .conditional _ _ _ => n
  | _ => n + 1

mutual

/-- How many levels the reading of an expression opens below its own. -/
def Expr.levels : Expr → Nat
  | .literal _ | .variable _ | .selfRef _ => 0
  | .assign _ value => value.levels
  | .binary left _ right => max left.levels right.levels
  | .logical left _ right => max left.levels right.levels
  | .unary _ right => right.levels + 1
  | .grouping inner => inner.levels + 1
  | .call callee _ args => max callee.levels (exprsLevels args)
  | .attribute object _ => object.levels
  | .func _ _ body => stmtsLevels body
  | .struct _ _ body => fieldsLevels body + 1

/-- How many levels the reading of expressions opens, each in its own. -/
def exprsLevels : List Expr → Nat
  | [] => 0
  | e :: es => max (e.levels + 1) (exprsLevels es)

/-- How many levels the reading of struct entries opens. -/
def fieldsLevels : List FieldInit → Nat
  | [] => 0
  | ⟨_, value⟩ :: body => max value.levels (fieldsLevels body)

/-- How many levels the reading of a statement opens, with its own. -/
def Stmt.levels : Stmt → Nat
  | .expression expr => expr.levels + 2
  | .block stmts => stmtsLevels stmts + 1
  | .conditional condition consequence none =>
    max (condition.levels + 1) consequence.levels + 1
  | .conditional condition consequence (some otherwise) =>
    max (max (condition.levels + 1) consequence.levels + 1)
      (alternativeLevels otherwise otherwise.levels)
  | .whileLoop _ condition body => max (condition.levels + 2) body.levels
  | .matching _ subject cases => max (subject.levels + 1) (casesLevels cases) + 1
  | .importing _ _ => 1
  | .returning _ none => 1
  | .returning _ (some value) => value.levels + 2

/-- How many levels the reading of statements opens. -/
def stmtsLevels : List Stmt → Nat
  | [] => 0
  | s :: ss => max s.levels (stmtsLevels ss)

/-- How many levels the reading of cases opens. -/
def casesLevels : List MatchCase → Nat
  | [] => 0
  | ⟨pattern, consequence⟩ :: cases =>
    max (max (pattern.levels + 1) consequence.levels) (casesLevels cases)

end

section Lists

@[simp] theorem printExprs_eq_map (es : List Expr) : printExprs es = es.map Expr.print := by
  induction es with
  | nil => rfl
  | cons e es ih => simp [printExprs, ih]

@[simp] theorem printStmts_eq_flatMap (ss : List Stmt) :
    printStmts ss = ss.flatMap Stmt.print := by
  induction ss with
  | nil => rfl
  | cons s ss ih => simp [printStmts, ih]

/-- An entry of a struct body as tokens. -/
def FieldInit.print (entry : FieldInit) : List Token :=
  entry.name :: mark .walrus ":=" :: (entry.value.print ++ [mark .semicolon ";"])

@[simp] theorem printFields_eq_flatMap (body : List FieldInit) :
    printFields body = body.flatMap FieldInit.print := by
  induction body with
  | nil => rfl
  | cons entry body ih =>
      obtain ⟨name, value⟩ := entry
      simp [printFields, FieldInit.print, ih]

/-- A case of a `match` as tokens. -/
def MatchCase.print (entry : MatchCase) : List Token :=
  brackets (entry.pattern.print ++ mark .arrow "->" :: entry.consequence.print)

@[simp] theorem printCases_eq_flatMap (cases : List MatchCase) :
    printCases cases = cases.flatMap MatchCase.print := by
  induction cases with
  | nil => rfl
  | cons entry cases ih =>
      obtain ⟨pattern, consequence⟩ := entry
      simp [printCases, MatchCase.print, ih]

theorem exprsLevels_le {es : List Expr} {d : Nat} :
    exprsLevels es ≤ d ↔ ∀ e ∈ es, e.levels + 1 ≤ d := by
  induction es with
  | nil => simp [exprsLevels]
  | cons e es ih => rw [exprsLevels, Nat.max_le, ih, List.forall_mem_cons]

theorem stmtsLevels_le {ss : List Stmt} {d : Nat} :
    stmtsLevels ss ≤ d ↔ ∀ s ∈ ss, s.levels ≤ d := by
  induction ss with
  | nil => simp [stmtsLevels]
  | cons s ss ih => rw [stmtsLevels, Nat.max_le, ih, List.forall_mem_cons]

theorem fieldsLevels_le {body : List FieldInit} {d : Nat} :
    fieldsLevels body ≤ d ↔ ∀ entry ∈ body, entry.value.levels ≤ d := by
  induction body with
  | nil => simp [fieldsLevels]
  | cons entry body ih =>
      obtain ⟨name, value⟩ := entry
      rw [fieldsLevels, Nat.max_le, ih, List.forall_mem_cons]

theorem casesLevels_le {cases : List MatchCase} {d : Nat} :
    casesLevels cases ≤ d ↔
      ∀ entry ∈ cases, entry.pattern.levels + 1 ≤ d ∧ entry.consequence.levels ≤ d := by
  induction cases with
  | nil => simp [casesLevels]
  | cons entry cases ih =>
      obtain ⟨pattern, consequence⟩ := entry
      simp only [casesLevels, Nat.max_le, ih, List.forall_mem_cons]

end Lists

/-! ### Conditionals -/

/-- What is printed behind the statement of a conditional. -/
def printOtherwise : Option Stmt → List Token
  | none => []
  | some s => printAlternative s s.print

theorem print_conditional (condition : Expr) (consequence : Stmt) (otherwise : Option Stmt) :
    (Stmt.conditional condition consequence otherwise).print =
      mark .ifKw "if" :: (brackets condition.print ++ consequence.print ++
        printOtherwise otherwise) := by
  cases otherwise <;> simp [Stmt.print, printOtherwise]

theorem levels_conditional {condition : Expr} {consequence : Stmt} {otherwise : Option Stmt}
    {d : Nat} :
    (Stmt.conditional condition consequence otherwise).levels ≤ d + 1 ↔
      condition.levels + 1 ≤ d ∧ consequence.levels ≤ d ∧
        ∀ s ∈ otherwise, alternativeLevels s s.levels ≤ d + 1 := by
  cases otherwise with
  | none =>
      simp only [Stmt.levels, Nat.add_le_add_iff_right, Nat.max_le, Option.mem_def, reduceCtorEq,
        false_implies, implies_true, and_true]
  | some s =>
      simp only [Stmt.levels, Nat.max_le, Nat.add_le_add_iff_right, and_assoc, Option.mem_def,
        Option.some.injEq, forall_eq']

/-! ### Trees that can be written -/

namespace Grammar

/-- How tight a place is. -/
def Place.rank : Place → Nat
  | .expression => 0
  | .assignable => 1
  | .disjunction => 2
  | .conjunction => 3
  | .equality => 4
  | .comparison => 5
  | .bitwise => 6
  | .term => 7
  | .factor => 8
  | .unary => 9
  | .call => 10
  | .primary => 11

/-- The place whose operator a kind of token is. -/
def operatorPlace : Kind → Place
  | .orKw => .disjunction
  | .andKw => .conjunction
  | .equal | .unequal | .isKw => .equality
  | .lesser | .lesserEqual | .greater | .greaterEqual => .comparison
  | .bitOr | .bitAnd => .bitwise
  | .minus | .plus => .term
  | _ => .factor

end Grammar

open Grammar

/-- The tightest place in which an expression can stand. -/
def Expr.place : Expr → Place
  | .assign _ _ => .expression
  | .func _ _ _ | .struct _ _ _ => .assignable
  | .binary _ op _ | .logical _ op _ => operatorPlace op.kind
  | .unary _ _ => .unary
  | .call _ _ _ | .attribute _ _ => .call
  | .literal _ | .variable _ | .selfRef _ | .grouping _ => .primary

/-- The expression can stand in the place as it is. -/
def Expr.Fits (e : Expr) (p : Place) : Prop :=
  p.rank ≤ e.place.rank

instance (e : Expr) (p : Place) : Decidable (e.Fits p) :=
  inferInstanceAs (Decidable (_ ≤ _))

/-- An `elif` or `else` behind the statement would be part of it. -/
def Stmt.endsOpen : Stmt → Bool
  | .conditional _ _ none => true
  | .conditional _ _ (some otherwise) => otherwise.endsOpen
  | _ => false

namespace Grammar

/-- The node is one of its operator, and both operands stand where the operator
has them: the left one may be of the same level, the right one is tighter. -/
structure Operands (node left : Expr) (op : Token) (right : Expr) : Prop where
  sign : op.kind ∈ (operatorPlace op.kind).operators
  kind : (operatorPlace op.kind).node left op right = node
  left : left.Fits (operatorPlace op.kind)
  right : right.Fits (operatorPlace op.kind).tighter

/-- What a tree has to obey at each node to be what its printed tokens are. -/
def printable : NodeLaw where
  expr e := limits.expr e ∧
    match e with
    | .assign _ value => value.Fits .assignable
    | .binary left op right => Operands (.binary left op right) left op right
    | .logical left op right => Operands (.logical left op right) left op right
    | .unary op right => op.kind ∈ [.bang, .minus, .bitNeg] ∧ right.Fits .unary
    | .call callee bracket _ => bracket.kind = .rightBracket ∧ callee.Fits .call
    | .attribute object _ => object.Fits .call
    | .func keyword params _ => keyword.kind = .funcKw ∧ ∀ t ∈ params, t.kind = .identifier
    | .struct keyword params body =>
      keyword.kind = .structKw ∧ (∀ t ∈ params, t.kind = .identifier) ∧
        ∀ entry ∈ body, entry.name.kind = .identifier ∧ entry.value.Fits .assignable
    | _ => True
  stmt inFunction s := limits.stmt inFunction s ∧
    match s with
    -- A bracket opens a block, not an expression.
    | .expression e => ∀ t ∈ e.print.head?, t.kind ≠ .leftBracket
    | .conditional _ consequence (some _) => consequence.endsOpen = false
    | .whileLoop keyword _ body =>
      (keyword.kind = .whileKw ∨ keyword.kind = .forKw) ∧ ∃ stmts, body = .block stmts
    | .matching keyword _ _ => keyword.kind = .matchKw
    | .importing module names => module.kind = .identifier ∧ ∀ t ∈ names, t.kind = .identifier
    | .returning keyword _ => keyword.kind = .returnKw
    | _ => True

end Grammar
end BracketScript
