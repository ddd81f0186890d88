import BracketScript.Tree.Basic

/-!
# Dumps of syntax trees

The JSON object and the outline of every node.  Both name the parts of a node
in the same order.
-/

namespace BracketScript

namespace Constant

/-- The JSON value of a constant is the constant itself. -/
def json : Constant → Json
  | .null => .null
  | .bool b => .bool b
  | .num x => .float x
  | .str s => .str s

/-- The outline of a constant names its type. -/
def outline : Constant → Outline
  | .null => .word "Null"
  | .bool b => .wrap "Bool" (.word (if b then "true" else "false"))
  | .num x => .wrap "Num" (.word (Outline.number.text x))
  | .str s => .wrap "Str" (.text s)

end Constant

namespace Target

/-- The JSON object of an assignment target. -/
def json : Target → Json
  | .variable name => .obj [("kind", .str "variable"), ("name", name.json)]
  | .selfField keyword name =>
    .obj [("kind", .str "self_field"), ("keyword", keyword.json), ("name", name.json)]

/-- The outline of an assignment target. -/
def outline : Target → Outline
  | .variable name => .record "Variable" [("name", name.outline)]
  | .selfField keyword name =>
    .record "SelfField" [("keyword", keyword.outline), ("name", name.outline)]

end Target

mutual

/-- The JSON object of an expression, tagged `expr`. -/
def Expr.json : Expr → Json
  | .literal value => .obj [("expr", .str "literal"), ("value", value.json)]
  | .variable name => .obj [("expr", .str "variable"), ("name", name.json)]
  | .assign target value =>
    .obj [("expr", .str "assign"), ("target", target.json), ("value", value.json)]
  | .binary left op right =>
    .obj [("expr", .str "binary"), ("left", left.json), ("op", op.json), ("right", right.json)]
  | .logical left op right =>
    .obj [("expr", .str "logical"), ("left", left.json), ("op", op.json), ("right", right.json)]
  | .unary op right => .obj [("expr", .str "unary"), ("op", op.json), ("right", right.json)]
  | .grouping inner => .obj [("expr", .str "grouping"), ("inner", inner.json)]
  | .call callee bracket args =>
    .obj [("expr", .str "call"), ("callee", callee.json), ("bracket", bracket.json),
      ("args", .arr (exprsJson args))]
  | .attribute object name =>
    .obj [("expr", .str "get"), ("object", object.json), ("name", name.json)]
  | .selfRef keyword => .obj [("expr", .str "self_ref"), ("keyword", keyword.json)]
  | .func keyword params body =>
    .obj [("expr", .str "func"),
      ("decl", .obj [("keyword", keyword.json), ("params", .arr (params.map Token.json)),
        ("body", .arr (stmtsJson body))])]
  | .struct keyword params body =>
    .obj [("expr", .str "struct"),
      ("decl", .obj [("keyword", keyword.json), ("params", .arr (params.map Token.json)),
        ("body", .arr (fieldsJson body))])]

/-- The JSON objects of expressions. -/
def exprsJson : List Expr → List Json
  | [] => []
  | e :: es => e.json :: exprsJson es

/-- The JSON objects of struct entries. -/
def fieldsJson : List FieldInit → List Json
  | [] => []
  | ⟨name, value⟩ :: fs =>
    .obj [("name", name.json), ("value", value.json)] :: fieldsJson fs

/-- The JSON object of a statement, tagged `stmt`. -/
def Stmt.json : Stmt → Json
  | .expression e => .obj [("stmt", .str "expression"), ("expr", e.json)]
  | .block stmts => .obj [("stmt", .str "block"), ("stmts", .arr (stmtsJson stmts))]
  | .conditional condition consequence otherwise =>
    .obj [("stmt", .str "if"), ("condition", condition.json), ("then", consequence.json),
      ("otherwise", stmtOptionJson otherwise)]
  | .whileLoop keyword condition body =>
    .obj [("stmt", .str "while"), ("keyword", keyword.json), ("condition", condition.json),
      ("body", body.json)]
  | .matching keyword subject cases =>
    .obj [("stmt", .str "match"), ("keyword", keyword.json), ("subject", subject.json),
      ("cases", .arr (casesJson cases))]
  | .importing module names =>
    .obj [("stmt", .str "import"), ("module", module.json), ("names", .arr (names.map Token.json))]
  | .returning keyword value =>
    .obj [("stmt", .str "return"), ("keyword", keyword.json), ("value", exprOptionJson value)]

/-- The JSON objects of statements. -/
def stmtsJson : List Stmt → List Json
  | [] => []
  | s :: ss => s.json :: stmtsJson ss

/-- The JSON objects of match entries. -/
def casesJson : List MatchCase → List Json
  | [] => []
  | ⟨pattern, consequence⟩ :: cs =>
    .obj [("pattern", pattern.json), ("then", consequence.json)] :: casesJson cs

/-- A missing statement is `null`. -/
def stmtOptionJson : Option Stmt → Json
  | none => .null
  | some s => s.json

/-- A missing expression is `null`. -/
def exprOptionJson : Option Expr → Json
  | none => .null
  | some e => e.json

end

mutual

/-- The outline of an expression. -/
def Expr.outline : Expr → Outline
  | .literal value => .record "Literal" [("value", value.outline)]
  | .variable name => .record "Variable" [("name", name.outline)]
  | .assign target value =>
    .record "Assign" [("target", target.outline), ("value", value.outline)]
  | .binary left op right =>
    .record "Binary" [("left", left.outline), ("op", op.outline), ("right", right.outline)]
  | .logical left op right =>
    .record "Logical" [("left", left.outline), ("op", op.outline), ("right", right.outline)]
  | .unary op right => .record "Unary" [("op", op.outline), ("right", right.outline)]
  | .grouping inner => .record "Grouping" [("inner", inner.outline)]
  | .call callee bracket args =>
    .record "Call" [("callee", callee.outline), ("bracket", bracket.outline),
      ("args", .list (exprsOutline args))]
  | .attribute object name => .record "Get" [("object", object.outline), ("name", name.outline)]
  | .selfRef keyword => .record "SelfRef" [("keyword", keyword.outline)]
  | .func keyword params body =>
    .record "Func" [("decl", .record "FuncDecl" [("keyword", keyword.outline),
      ("params", .list (params.map Token.outline)), ("body", .list (stmtsOutline body))])]
  | .struct keyword params body =>
    .record "Struct" [("decl", .record "StructDecl" [("keyword", keyword.outline),
      ("params", .list (params.map Token.outline)), ("body", .list (fieldsOutline body))])]

/-- The outlines of expressions. -/
def exprsOutline : List Expr → List Outline
  | [] => []
  | e :: es => e.outline :: exprsOutline es

/-- The outlines of struct entries. -/
def fieldsOutline : List FieldInit → List Outline
  | [] => []
  | ⟨name, value⟩ :: fs =>
    .record "FieldInit" [("name", name.outline), ("value", value.outline)] :: fieldsOutline fs

/-- The outline of a statement. -/
def Stmt.outline : Stmt → Outline
  | .expression e => .record "Expression" [("expr", e.outline)]
  | .block stmts => .record "Block" [("stmts", .list (stmtsOutline stmts))]
  | .conditional condition consequence otherwise =>
    .record "If" [("condition", condition.outline), ("then", consequence.outline),
      ("otherwise", stmtOptionOutline otherwise)]
  | .whileLoop keyword condition body =>
    .record "While" [("keyword", keyword.outline), ("condition", condition.outline),
      ("body", body.outline)]
  | .matching keyword subject cases =>
    .record "Match" [("keyword", keyword.outline), ("subject", subject.outline),
      ("cases", .list (casesOutline cases))]
  | .importing module names =>
    .record "Import" [("module", module.outline), ("names", .list (names.map Token.outline))]
  | .returning keyword value =>
    .record "Return" [("keyword", keyword.outline), ("value", exprOptionOutline value)]

/-- The outlines of statements. -/
def stmtsOutline : List Stmt → List Outline
  | [] => []
  | s :: ss => s.outline :: stmtsOutline ss

/-- The outlines of match entries. -/
def casesOutline : List MatchCase → List Outline
  | [] => []
  | ⟨pattern, consequence⟩ :: cs =>
    .record "MatchCase" [("pattern", pattern.outline), ("then", consequence.outline)] ::
      casesOutline cs

/-- The outline of a statement that may be missing. -/
def stmtOptionOutline : Option Stmt → Outline
  | none => .option none
  | some s => .option (some s.outline)

/-- The outline of an expression that may be missing. -/
def exprOptionOutline : Option Expr → Outline
  | none => .option none
  | some e => .option (some e.outline)

end

end BracketScript
