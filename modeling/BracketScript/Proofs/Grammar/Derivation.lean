import BracketScript.Proofs.Tree.Traversal

/-!
# The grammar

The grammar of the language as a relation between tokens and trees, apart from
any way of reading:

    statement   := importing | return | if | for | while | match | "[" block | expression ";"
    importing   := "import" IDENT "[" names "]"
    return      := "return" expression? ";"
    if          := "if" if-tail
    if-tail     := "[" expression "]" statement ( "elif" if-tail | "else" statement )?
    for         := "for" "[" expression? "," expression? "," expression? "]" "[" block
    while       := "while" "[" expression "]" "[" block
    match       := "match" "[" expression "]" "against"
                   "[" ( "[" expression "->" statement "]" )* "]"
    block       := statement* "]"
    expression  := assignable ( ":=" assignable )?
    assignable  := "struct" struct-body | "func" "[" names "]" "[" block | disjunction
    struct-body := "[" names "]" ( "[" ( IDENT ":=" assignable ";" )* "]" )?
    disjunction := conjunction ( "or" conjunction )*        and so on down to factor
    unary       := ( "!" | "-" | "~" ) unary | call
    call        := primary ( "[" arguments "]" | IDENT )*
    primary     := "true" | "false" | "null" | NUM | STR | "self" | IDENT | "_" | "[" expression "]"

Repetitions are built up from the left, so that the tree of `a - b - c` has
`a - b` as its left operand.  The number in front of a derivation bounds its
depth: statements, expressions, operands of unary operators and struct bodies
each open a level.

The grammar is ambiguous: it does not say to which `if` an `else` belongs.  Nor
does it bound the length of a list, or say that `return` belongs in a function;
such things are `limits` on trees.
-/

namespace BracketScript
namespace Grammar

/-- The places in which an expression can stand, from the loosest to the
tightest. -/
inductive Place where
  | expression | assignable | disjunction | conjunction | equality | comparison | bitwise | term
  | factor | unary | call | primary
deriving DecidableEq

namespace Place

/-- The next tighter place. -/
def tighter : Place → Place
  | .expression => .assignable
  | .assignable => .disjunction
  | .disjunction => .conjunction
  | .conjunction => .equality
  | .equality => .comparison
  | .comparison => .bitwise
  | .bitwise => .term
  | .term => .factor
  | .factor => .unary
  | .unary => .call
  | .call => .primary
  | .primary => .primary

/-- The binary operators of a place. -/
def operators : Place → List Kind
  | .disjunction => [.orKw]
  | .conjunction => [.andKw]
  | .equality => [.equal, .unequal, .isKw]
  | .comparison => [.lesser, .lesserEqual, .greater, .greaterEqual]
  | .bitwise => [.bitOr, .bitAnd]
  | .term => [.minus, .plus]
  | .factor => [.star, .slash]
  | _ => []

/-- The tree of a binary operator: `and` and `or` decide without their right
operand at times, so they have a node of their own. -/
def node : Place → Expr → Token → Expr → Expr
  | .disjunction | .conjunction => .logical
  | _ => .binary

end Place

/-- The constant that a token denotes. -/
inductive Denotes : Token → Constant → Prop
  | yes {t : Token} (kind : t.kind = .trueKw) : Denotes t (.bool true)
  | no {t : Token} (kind : t.kind = .falseKw) : Denotes t (.bool false)
  | null {t : Token} (kind : t.kind = .nullKw) : Denotes t .null
  | number {t : Token} {x : Float} (kind : t.kind = .num ∨ t.kind = .str)
      (literal : t.literal = some (.num x)) : Denotes t (.num x)
  | text {t : Token} {s : String} (kind : t.kind = .num ∨ t.kind = .str)
      (literal : t.literal = some (.str s)) : Denotes t (.str s)
  /-- No scanned token is of this form. -/
  | missing {t : Token} (kind : t.kind = .num ∨ t.kind = .str) (literal : t.literal = none) :
      Denotes t .null

/-- The target that an expression is when it stands before `:=`. -/
inductive Targets : Expr → Target → Prop
  | name (t : Token) : Targets (.variable t) (.variable t)
  | field (keyword t : Token) :
      Targets (.attribute (.selfRef keyword) t) (.selfField keyword t)

/-- What a loop does in one round: the increment follows the body. -/
inductive ForRound : Option Expr → List Stmt → Stmt → Prop
  | bare (body : List Stmt) : ForRound none body (.block body)
  | stepped (e : Expr) (body : List Stmt) :
      ForRound (some e) body (.block [.block body, .expression e])

/-- A condition that is left out holds always. -/
inductive ForCondition : Option Expr → Expr → Prop
  | absent : ForCondition none (.literal (.bool true))
  | present (e : Expr) : ForCondition (some e) e

/-- The initializer comes before the loop, in a block around both. -/
inductive ForStart : Option Expr → Stmt → Stmt → Prop
  | bare (loop : Stmt) : ForStart none loop loop
  | after (e : Expr) (loop : Stmt) : ForStart (some e) loop (.block [.expression e, loop])

/-- A pair of brackets. -/
structure Brackets (l r : Token) : Prop where
  left : l.kind = .leftBracket
  right : r.kind = .rightBracket

/-- Tokens in brackets. -/
def within (l : Token) (w : List Token) (r : Token) : List Token :=
  l :: (w ++ [r])

/-- Names separated by commas. -/
inductive Names : List Token → List Token → Prop
  | none : Names [] []
  | one {t : Token} (kind : t.kind = .identifier) : Names [t] [t]
  | more {w names : List Token} {comma t : Token} (before : Names w names) (some : names ≠ [])
      (separator : comma.kind = .comma) (kind : t.kind = .identifier) :
      Names (w ++ [comma, t]) (names ++ [t])

mutual

/-- The tokens are the expression, in the given place. -/
inductive Phrase : Nat → Place → List Token → Expr → Prop
  | value {d : Nat} {w : List Token} {e : Expr} (inside : Phrase d .assignable w e) :
      Phrase (d + 1) .expression w e
  | assign {d : Nat} {w₁ w₂ : List Token} {walrus : Token} {e value : Expr} {target : Target}
      (left : Phrase d .assignable w₁ e) (targets : Targets e target)
      (sign : walrus.kind = .walrus) (right : Phrase d .assignable w₂ value) :
      Phrase (d + 1) .expression (w₁ ++ walrus :: w₂) (.assign target value)
  | struct {d : Nat} {keyword : Token} {w params : List Token} {body : List FieldInit}
      (kind : keyword.kind = .structKw) (inside : StructBody d w params body) :
      Phrase d .assignable (keyword :: w) (.struct keyword params body)
  | func {d : Nat} {keyword l₁ r₁ l₂ r₂ : Token} {w₁ w₂ params : List Token} {body : List Stmt}
      (kind : keyword.kind = .funcKw) (around₁ : Brackets l₁ r₁) (names : Names w₁ params)
      (around₂ : Brackets l₂ r₂) (inside : Statements d w₂ body) :
      Phrase d .assignable (keyword :: (within l₁ w₁ r₁ ++ within l₂ w₂ r₂))
        (.func keyword params body)
  | tighter {d : Nat} {p : Place} {w : List Token} {e : Expr} (level : p ≠ .expression)
      (inside : Phrase d p.tighter w e) : Phrase d p w e
  | operator {d : Nat} {p : Place} {w₁ w₂ : List Token} {op : Token} {left right : Expr}
      (before : Phrase d p w₁ left) (sign : op.kind ∈ p.operators)
      (after : Phrase d p.tighter w₂ right) :
      Phrase d p (w₁ ++ op :: w₂) (p.node left op right)
  | unary {d : Nat} {op : Token} {w : List Token} {right : Expr}
      (sign : op.kind = .bang ∨ op.kind = .minus ∨ op.kind = .bitNeg)
      (after : Operand d w right) : Phrase d .unary (op :: w) (.unary op right)
  | call {d : Nat} {w₁ w₂ : List Token} {l r : Token} {callee : Expr} {args : List Expr}
      (before : Phrase d .call w₁ callee) (around : Brackets l r)
      (inside : Arguments d w₂ args) : Phrase d .call (w₁ ++ within l w₂ r) (.call callee r args)
  | member {d : Nat} {w : List Token} {name : Token} {object : Expr}
      (before : Phrase d .call w object) (kind : name.kind = .identifier) :
      Phrase d .call (w ++ [name]) (.attribute object name)
  | constant {d : Nat} {t : Token} {v : Constant} (denotes : Denotes t v) :
      Phrase d .primary [t] (.literal v)
  | self {d : Nat} {t : Token} (kind : t.kind = .selfKw) : Phrase d .primary [t] (.selfRef t)
  | name {d : Nat} {t : Token} (kind : t.kind = .identifier ∨ t.kind = .underscore) :
      Phrase d .primary [t] (.variable t)
  | grouping {d : Nat} {l r : Token} {w : List Token} {e : Expr} (around : Brackets l r)
      (inside : Phrase d .expression w e) : Phrase d .primary (within l w r) (.grouping e)

/-- The tokens are the operand of a unary operator. -/
inductive Operand : Nat → List Token → Expr → Prop
  | deeper {d : Nat} {w : List Token} {e : Expr} (inside : Phrase d .unary w e) :
      Operand (d + 1) w e

/-- The tokens are expressions separated by commas. -/
inductive Arguments : Nat → List Token → List Expr → Prop
  | none {d : Nat} : Arguments d [] []
  | one {d : Nat} {w : List Token} {e : Expr} (first : Phrase d .expression w e) :
      Arguments d w [e]
  | more {d : Nat} {w₁ w₂ : List Token} {comma : Token} {es : List Expr} {e : Expr}
      (before : Arguments d w₁ es) (some : es ≠ []) (separator : comma.kind = .comma)
      (next : Phrase d .expression w₂ e) : Arguments d (w₁ ++ comma :: w₂) (es ++ [e])

/-- The tokens are a struct after its keyword. -/
inductive StructBody : Nat → List Token → List Token → List FieldInit → Prop
  | bare {d : Nat} {l r : Token} {w params : List Token} (around : Brackets l r)
      (names : Names w params) : StructBody (d + 1) (within l w r) params []
  | full {d : Nat} {l₁ r₁ l₂ r₂ : Token} {w₁ w₂ params : List Token} {body : List FieldInit}
      (around₁ : Brackets l₁ r₁) (names : Names w₁ params) (around₂ : Brackets l₂ r₂)
      (inside : Fields d w₂ body) :
      StructBody (d + 1) (within l₁ w₁ r₁ ++ within l₂ w₂ r₂) params body

/-- The tokens are entries of a struct body. -/
inductive Fields : Nat → List Token → List FieldInit → Prop
  | none {d : Nat} : Fields d [] []
  | more {d : Nat} {w₁ w₂ : List Token} {name walrus semicolon : Token} {value : Expr}
      {body : List FieldInit} (before : Fields d w₁ body) (kind : name.kind = .identifier)
      (sign : walrus.kind = .walrus) (next : Phrase d .assignable w₂ value)
      (ends : semicolon.kind = .semicolon) :
      Fields d (w₁ ++ name :: walrus :: (w₂ ++ [semicolon])) (body ++ [⟨name, value⟩])

/-- The tokens are the expression, or there is none of either. -/
inductive Clause : Nat → List Token → Option Expr → Prop
  | absent {d : Nat} : Clause d [] none
  | present {d : Nat} {w : List Token} {e : Expr} (inside : Phrase d .expression w e) :
      Clause d w (some e)

/-- The tokens are the statement. -/
inductive Statement : Nat → List Token → Stmt → Prop
  | importing {d : Nat} {keyword module l r : Token} {w names : List Token}
      (kind : keyword.kind = .importKw) (name : module.kind = .identifier)
      (around : Brackets l r) (inside : Names w names) :
      Statement (d + 1) (keyword :: module :: within l w r) (.importing module names)
  | returning {d : Nat} {keyword semicolon : Token} {w : List Token} {value : Option Expr}
      (kind : keyword.kind = .returnKw) (inside : Clause d w value)
      (ends : semicolon.kind = .semicolon) :
      Statement (d + 1) (keyword :: (w ++ [semicolon])) (.returning keyword value)
  | conditional {d : Nat} {keyword : Token} {w : List Token} {s : Stmt}
      (kind : keyword.kind = .ifKw) (after : IfTail d w s) :
      Statement (d + 1) (keyword :: w) s
  | forLoop {d : Nat} {keyword l₁ comma₁ comma₂ r₁ l₂ r₂ : Token} {w₁ w₂ w₃ w : List Token}
      {initializer condition increment : Option Expr} {body : List Stmt} {test : Expr}
      {round s : Stmt} (kind : keyword.kind = .forKw) (around₁ : Brackets l₁ r₁)
      (clause₁ : Clause d w₁ initializer) (separator₁ : comma₁.kind = .comma)
      (clause₂ : Clause d w₂ condition) (separator₂ : comma₂.kind = .comma)
      (clause₃ : Clause d w₃ increment) (around₂ : Brackets l₂ r₂)
      (inside : Statements d w body) (rounds : ForRound increment body round)
      (tests : ForCondition condition test)
      (starts : ForStart initializer (.whileLoop keyword test round) s) :
      Statement (d + 1)
        (keyword :: (within l₁ (w₁ ++ comma₁ :: (w₂ ++ comma₂ :: w₃)) r₁ ++ within l₂ w r₂)) s
  | whileLoop {d : Nat} {keyword l₁ r₁ l₂ r₂ : Token} {w₁ w₂ : List Token} {condition : Expr}
      {body : List Stmt} (kind : keyword.kind = .whileKw) (around₁ : Brackets l₁ r₁)
      (test : Phrase d .expression w₁ condition) (around₂ : Brackets l₂ r₂)
      (inside : Statements d w₂ body) :
      Statement (d + 1) (keyword :: (within l₁ w₁ r₁ ++ within l₂ w₂ r₂))
        (.whileLoop keyword condition (.block body))
  | matching {d : Nat} {keyword l₁ r₁ against l₂ r₂ : Token} {w₁ w₂ : List Token}
      {subject : Expr} {cases : List MatchCase} (kind : keyword.kind = .matchKw)
      (around₁ : Brackets l₁ r₁) (value : Phrase d .expression w₁ subject)
      (middle : against.kind = .againstKw) (around₂ : Brackets l₂ r₂)
      (inside : Cases d w₂ cases) :
      Statement (d + 1) (keyword :: (within l₁ w₁ r₁ ++ against :: within l₂ w₂ r₂))
        (.matching keyword subject cases)
  | block {d : Nat} {l r : Token} {w : List Token} {stmts : List Stmt} (around : Brackets l r)
      (inside : Statements d w stmts) : Statement (d + 1) (within l w r) (.block stmts)
  | expression {d : Nat} {w : List Token} {semicolon : Token} {e : Expr}
      (inside : Phrase d .expression w e) (ends : semicolon.kind = .semicolon) :
      Statement (d + 1) (w ++ [semicolon]) (.expression e)

/-- The tokens are a conditional after its keyword, which is `if` or `elif`. -/
inductive IfTail : Nat → List Token → Stmt → Prop
  | bare {d : Nat} {l r : Token} {w₁ w₂ : List Token} {condition : Expr} {s : Stmt}
      (around : Brackets l r) (test : Phrase d .expression w₁ condition)
      (inside : Statement d w₂ s) :
      IfTail d (within l w₁ r ++ w₂) (.conditional condition s none)
  | elif {d : Nat} {l r keyword : Token} {w₁ w₂ w₃ : List Token} {condition : Expr} {s o : Stmt}
      (around : Brackets l r) (test : Phrase d .expression w₁ condition)
      (inside : Statement d w₂ s) (kind : keyword.kind = .elifKw) (after : IfTail d w₃ o) :
      IfTail d (within l w₁ r ++ (w₂ ++ keyword :: w₃)) (.conditional condition s (some o))
  | otherwise {d : Nat} {l r keyword : Token} {w₁ w₂ w₃ : List Token} {condition : Expr}
      {s o : Stmt} (around : Brackets l r) (test : Phrase d .expression w₁ condition)
      (inside : Statement d w₂ s) (kind : keyword.kind = .elseKw) (after : Statement d w₃ o) :
      IfTail d (within l w₁ r ++ (w₂ ++ keyword :: w₃)) (.conditional condition s (some o))

/-- The tokens are statements. -/
inductive Statements : Nat → List Token → List Stmt → Prop
  | none {d : Nat} : Statements d [] []
  | more {d : Nat} {w₁ w₂ : List Token} {stmts : List Stmt} {s : Stmt}
      (before : Statements d w₁ stmts) (next : Statement d w₂ s) :
      Statements d (w₁ ++ w₂) (stmts ++ [s])

/-- The tokens are cases of a `match`. -/
inductive Cases : Nat → List Token → List MatchCase → Prop
  | none {d : Nat} : Cases d [] []
  | more {d : Nat} {l arrow r : Token} {w₁ w₂ w₃ : List Token} {cases : List MatchCase}
      {pattern : Expr} {s : Stmt} (before : Cases d w₁ cases) (around : Brackets l r)
      (test : Phrase d .expression w₂ pattern) (sign : arrow.kind = .arrow)
      (inside : Statement d w₃ s) :
      Cases d (w₁ ++ within l (w₂ ++ arrow :: w₃) r) (cases ++ [⟨pattern, s⟩])

end

/-- The limits that the grammar does not know of. -/
def limits : NodeLaw where
  expr
    | .variable name => name.kind = .identifier ∨ name.kind = .underscore
    | .selfRef keyword => keyword.kind = .selfKw
    | .attribute _ name => name.kind = .identifier
    | .assign (.variable name) _ => name.kind = .identifier ∨ name.kind = .underscore
    | .assign (.selfField keyword name) _ => keyword.kind = .selfKw ∧ name.kind = .identifier
    | .call _ _ args => args.length ≤ 127
    | .func _ params _ => params.length ≤ 127
    | .struct _ params _ => params.length ≤ 127
    | _ => True
  stmt inFunction
    | .importing _ names => names.length ≤ 127
    | .returning _ _ => inFunction = true
    | _ => True

end Grammar
end BracketScript
