import BracketScript.Token.Basic

/-!
# Syntax trees

Expressions and statements as the reader of tokens builds them.  A node keeps
the tokens that later diagnostics point to.  There is no node for `for`: such a
loop is read as the while loop it stands for.
-/

namespace BracketScript

/-- A value written directly in the source. -/
inductive Constant where
  | null
  | bool (b : Bool)
  | num (x : Float)
  | str (s : String)
deriving DecidableEq

/-- What may stand to the left of `:=`. -/
inductive Target where
  | variable (name : Token)
  | selfField (keyword name : Token)
deriving DecidableEq

mutual

/-- Expressions. -/
inductive Expr where
  | literal (value : Constant)
  | variable (name : Token)
  | assign (target : Target) (value : Expr)
  | binary (left : Expr) (op : Token) (right : Expr)
  | logical (left : Expr) (op : Token) (right : Expr)
  | unary (op : Token) (right : Expr)
  | grouping (inner : Expr)
  /-- A call; `bracket` is the one that closes the arguments. -/
  | call (callee : Expr) (bracket : Token) (args : List Expr)
  | attribute (object : Expr) (name : Token)
  | selfRef (keyword : Token)
  | func (keyword : Token) (params : List Token) (body : List Stmt)
  | struct (keyword : Token) (params : List Token) (body : List FieldInit)

/-- Statements. -/
inductive Stmt where
  | expression (expr : Expr)
  | block (stmts : List Stmt)
  | conditional (condition : Expr) (consequence : Stmt) (otherwise : Option Stmt)
  | whileLoop (keyword : Token) (condition : Expr) (body : Stmt)
  | matching (keyword : Token) (subject : Expr) (cases : List MatchCase)
  | importing (module : Token) (names : List Token)
  | returning (keyword : Token) (value : Option Expr)

/-- One `name := value;` entry of a struct body. -/
structure FieldInit where
  name : Token
  value : Expr

/-- One `[pattern -> statement]` entry of a match body. -/
structure MatchCase where
  pattern : Expr
  consequence : Stmt

end

/-- The pattern `_` accepts every subject. -/
def Expr.isWildcard : Expr → Bool
  | .variable name => name.lexeme = "_"
  | _ => false

end BracketScript
