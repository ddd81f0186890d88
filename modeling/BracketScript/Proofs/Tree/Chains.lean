import BracketScript.Tree.Basic

/-!
# Chains of nodes

A chain goes from a node to one directly inside it, and so on inwards.  Four ways
inwards do not add to the nesting of a tree: into the alternative of a
conditional, the left operand of an operator, the function that is called and the
object of an attribute.  `nesting` bounds the other steps that a chain from a
node can take (`Chain.counted_le`).
-/

namespace BracketScript

/-- A node of a syntax tree. -/
inductive TreeNode where
  | expr (e : Expr)
  | stmt (s : Stmt)

/-- How a node stands in the one around it. -/
inductive Way where
  | otherwise
  | left
  | callee
  | object
  /-- In any other way. -/
  | deeper
deriving DecidableEq, Repr

/-- Whether a step inwards adds to the nesting. -/
def Way.counts : Way → Bool
  | .deeper => true
  | _ => false

namespace TreeNode

/-- The first node has the second one directly inside. -/
inductive Has : TreeNode → Way → TreeNode → Prop
  | assigned {target : Target} {e : Expr} : Has (.expr (.assign target e)) .deeper (.expr e)
  | left {l r : Expr} {op : Token} : Has (.expr (.binary l op r)) .left (.expr l)
  | right {l r : Expr} {op : Token} : Has (.expr (.binary l op r)) .deeper (.expr r)
  | deciding {l r : Expr} {op : Token} : Has (.expr (.logical l op r)) .left (.expr l)
  | undecided {l r : Expr} {op : Token} : Has (.expr (.logical l op r)) .deeper (.expr r)
  | operand {op : Token} {e : Expr} : Has (.expr (.unary op e)) .deeper (.expr e)
  | grouped {e : Expr} : Has (.expr (.grouping e)) .deeper (.expr e)
  | callee {e : Expr} {bracket : Token} {args : List Expr} :
    Has (.expr (.call e bracket args)) .callee (.expr e)
  | argument {e a : Expr} {bracket : Token} {args : List Expr} (h : a ∈ args) :
    Has (.expr (.call e bracket args)) .deeper (.expr a)
  | object {e : Expr} {name : Token} : Has (.expr (.attribute e name)) .object (.expr e)
  | function {keyword : Token} {params : List Token} {body : List Stmt} {s : Stmt} (h : s ∈ body) :
    Has (.expr (.func keyword params body)) .deeper (.stmt s)
  | field {keyword : Token} {params : List Token} {body : List FieldInit} {entry : FieldInit}
    (h : entry ∈ body) : Has (.expr (.struct keyword params body)) .deeper (.expr entry.value)
  | expression {e : Expr} : Has (.stmt (.expression e)) .deeper (.expr e)
  | block {ss : List Stmt} {s : Stmt} (h : s ∈ ss) : Has (.stmt (.block ss)) .deeper (.stmt s)
  | question {e : Expr} {s : Stmt} {o : Option Stmt} :
    Has (.stmt (.conditional e s o)) .deeper (.expr e)
  | consequence {e : Expr} {s : Stmt} {o : Option Stmt} :
    Has (.stmt (.conditional e s o)) .deeper (.stmt s)
  | otherwise {e : Expr} {s o : Stmt} :
    Has (.stmt (.conditional e s (some o))) .otherwise (.stmt o)
  | guard {keyword : Token} {e : Expr} {s : Stmt} :
    Has (.stmt (.whileLoop keyword e s)) .deeper (.expr e)
  | round {keyword : Token} {e : Expr} {s : Stmt} :
    Has (.stmt (.whileLoop keyword e s)) .deeper (.stmt s)
  | subject {keyword : Token} {e : Expr} {cases : List MatchCase} :
    Has (.stmt (.matching keyword e cases)) .deeper (.expr e)
  | pattern {keyword : Token} {e : Expr} {cases : List MatchCase} {entry : MatchCase}
    (h : entry ∈ cases) : Has (.stmt (.matching keyword e cases)) .deeper (.expr entry.pattern)
  | fitting {keyword : Token} {e : Expr} {cases : List MatchCase} {entry : MatchCase}
    (h : entry ∈ cases) :
    Has (.stmt (.matching keyword e cases)) .deeper (.stmt entry.consequence)
  | returned {keyword : Token} {e : Expr} :
    Has (.stmt (.returning keyword (some e))) .deeper (.expr e)

/-- Steps from a node inwards, each into a node directly inside the one before. -/
inductive Chain : TreeNode → List (Way × TreeNode) → Prop
  | here (n : TreeNode) : Chain n []
  | inwards {n n' : TreeNode} {way : Way} {steps : List (Way × TreeNode)} (first : Has n way n')
    (rest : Chain n' steps) : Chain n ((way, n') :: steps)

/-- The number of steps that add to the nesting. -/
def counted (steps : List (Way × TreeNode)) : Nat :=
  steps.countP fun step => step.1.counts

theorem counted_cons (way : Way) (n : TreeNode) (steps : List (Way × TreeNode)) :
    counted ((way, n) :: steps) = counted steps + if way.counts then 1 else 0 :=
  List.countP_cons

end TreeNode

/-! ### The nesting of a tree -/

mutual

/-- How many steps that count can lead inwards from an expression. -/
def Expr.nesting : Expr → Nat
  | .literal _ | .variable _ | .selfRef _ => 0
  | .assign _ value => value.nesting + 1
  | .binary left _ right => max left.nesting (right.nesting + 1)
  | .logical left _ right => max left.nesting (right.nesting + 1)
  | .unary _ right => right.nesting + 1
  | .grouping inner => inner.nesting + 1
  | .call callee _ args => max callee.nesting (exprsNesting args)
  | .attribute object _ => object.nesting
  | .func _ _ body => stmtsNesting body
  | .struct _ _ body => fieldsNesting body

/-- How many steps that count can lead from a node to and into its
expressions. -/
def exprsNesting : List Expr → Nat
  | [] => 0
  | e :: es => max (e.nesting + 1) (exprsNesting es)

/-- How many steps that count can lead from a struct to and into its entries. -/
def fieldsNesting : List FieldInit → Nat
  | [] => 0
  | ⟨_, value⟩ :: body => max (value.nesting + 1) (fieldsNesting body)

/-- How many steps that count can lead inwards from a statement. -/
def Stmt.nesting : Stmt → Nat
  | .expression expr => expr.nesting + 1
  | .block stmts => stmtsNesting stmts
  | .conditional condition consequence none =>
    max (condition.nesting + 1) (consequence.nesting + 1)
  | .conditional condition consequence (some otherwise) =>
    max (max (condition.nesting + 1) (consequence.nesting + 1)) otherwise.nesting
  | .whileLoop _ condition body => max (condition.nesting + 1) (body.nesting + 1)
  | .matching _ subject cases => max (subject.nesting + 1) (casesNesting cases)
  | .importing _ _ => 0
  | .returning _ none => 0
  | .returning _ (some value) => value.nesting + 1

/-- How many steps that count can lead from a node to and into its statements. -/
def stmtsNesting : List Stmt → Nat
  | [] => 0
  | s :: ss => max (s.nesting + 1) (stmtsNesting ss)

/-- How many steps that count can lead from a `match` to and into its cases. -/
def casesNesting : List MatchCase → Nat
  | [] => 0
  | ⟨pattern, consequence⟩ :: cases =>
    max (max (pattern.nesting + 1) (consequence.nesting + 1)) (casesNesting cases)

end

section Lists

theorem exprsNesting_le {es : List Expr} {n : Nat} :
    exprsNesting es ≤ n ↔ ∀ e ∈ es, e.nesting + 1 ≤ n := by
  induction es with
  | nil => simp [exprsNesting]
  | cons e es ih => rw [exprsNesting, Nat.max_le, ih, List.forall_mem_cons]

theorem stmtsNesting_le {ss : List Stmt} {n : Nat} :
    stmtsNesting ss ≤ n ↔ ∀ s ∈ ss, s.nesting + 1 ≤ n := by
  induction ss with
  | nil => simp [stmtsNesting]
  | cons s ss ih => rw [stmtsNesting, Nat.max_le, ih, List.forall_mem_cons]

theorem fieldsNesting_le {body : List FieldInit} {n : Nat} :
    fieldsNesting body ≤ n ↔ ∀ entry ∈ body, entry.value.nesting + 1 ≤ n := by
  induction body with
  | nil => simp [fieldsNesting]
  | cons entry body ih =>
      obtain ⟨name, value⟩ := entry
      rw [fieldsNesting, Nat.max_le, ih, List.forall_mem_cons]

theorem casesNesting_le {cases : List MatchCase} {n : Nat} :
    casesNesting cases ≤ n ↔
      ∀ entry ∈ cases, entry.pattern.nesting + 1 ≤ n ∧ entry.consequence.nesting + 1 ≤ n := by
  induction cases with
  | nil => simp [casesNesting]
  | cons entry cases ih =>
      obtain ⟨pattern, consequence⟩ := entry
      simp only [casesNesting, Nat.max_le, ih, List.forall_mem_cons]

theorem nesting_lt_of_mem_exprs {e : Expr} {es : List Expr} (h : e ∈ es) :
    e.nesting + 1 ≤ exprsNesting es :=
  exprsNesting_le.mp (Nat.le_refl _) e h

theorem nesting_lt_of_mem_stmts {s : Stmt} {ss : List Stmt} (h : s ∈ ss) :
    s.nesting + 1 ≤ stmtsNesting ss :=
  stmtsNesting_le.mp (Nat.le_refl _) s h

theorem nesting_lt_of_mem_fields {entry : FieldInit} {body : List FieldInit} (h : entry ∈ body) :
    entry.value.nesting + 1 ≤ fieldsNesting body :=
  fieldsNesting_le.mp (Nat.le_refl _) entry h

theorem nesting_lt_of_mem_cases {entry : MatchCase} {cases : List MatchCase} (h : entry ∈ cases) :
    entry.pattern.nesting + 1 ≤ casesNesting cases ∧
      entry.consequence.nesting + 1 ≤ casesNesting cases :=
  casesNesting_le.mp (Nat.le_refl _) entry h

end Lists

namespace TreeNode

/-- How many steps that count can lead inwards from a node. -/
def nesting : TreeNode → Nat
  | .expr e => e.nesting
  | .stmt s => s.nesting

/-- A step inwards that counts leads to less nesting, and no step leads to
more. -/
theorem Has.nesting_le {n n' : TreeNode} {way : Way} (h : Has n way n') :
    (n'.nesting + if way.counts then 1 else 0) ≤ n.nesting := by
  cases h with
  | argument h => exact Nat.le_trans (nesting_lt_of_mem_exprs h) (Nat.le_max_right _ _)
  | function h => exact nesting_lt_of_mem_stmts h
  | field h => exact nesting_lt_of_mem_fields h
  | block h => exact nesting_lt_of_mem_stmts h
  | pattern h => exact Nat.le_trans (nesting_lt_of_mem_cases h).1 (Nat.le_max_right _ _)
  | fitting h => exact Nat.le_trans (nesting_lt_of_mem_cases h).2 (Nat.le_max_right _ _)
  | @question e s o | @consequence e s o =>
      cases o <;> simp only [nesting, Stmt.nesting, Way.counts, if_true] <;> omega
  | _ =>
      simp only [nesting, Expr.nesting, Stmt.nesting, Way.counts, if_true, Bool.false_eq_true,
        if_false]
      omega

/-- The nesting bounds the steps of a chain that count. -/
theorem Chain.counted_le {n : TreeNode} {steps : List (Way × TreeNode)} (h : Chain n steps) :
    counted steps ≤ n.nesting := by
  induction h with
  | here n => exact Nat.zero_le _
  | inwards first _ ih =>
      have hfirst := first.nesting_le
      rw [counted_cons]
      omega

end TreeNode

end BracketScript
