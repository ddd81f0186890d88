import BracketScript.Proofs.Grammar.Tokens
import BracketScript.Value.Basic

/-!
# Code without a name

A name can be missing from a piece of code: none of the tokens that its nodes
keep has that lexeme (`NodeLaw.lacking`).  It is missing from a program if it is
no lexeme of the tokens that the program is read from (`everyNode_lacking_of_parse`).
Functions and structs carry code with them, so a name can be missing from a value
as well (`Value.Lacks`).
-/

namespace BracketScript

/-- The tokens that a node keeps. -/
def Expr.kept : Expr → List Token
  | .literal _ | .grouping _ => []
  | .variable t | .selfRef t | .unary t _ | .binary _ t _ | .logical _ t _ | .call _ t _
  | .attribute _ t | .assign (.variable t) _ => [t]
  | .assign (.selfField t u) _ => [t, u]
  | .func t params _ => t :: params
  | .struct t params body => t :: (params ++ body.map FieldInit.name)

@[inherit_doc Expr.kept]
def Stmt.kept : Stmt → List Token
  | .whileLoop t _ _ | .matching t _ _ | .returning t _ => [t]
  | .importing t names => t :: names
  | .expression _ | .block _ | .conditional _ _ _ => []

/-- The tokens have other lexemes than the given one. -/
def Token.Avoid (name : String) (tokens : List Token) : Prop :=
  ∀ t ∈ tokens, t.lexeme ≠ name

instance (name : String) (tokens : List Token) : Decidable (Token.Avoid name tokens) :=
  inferInstanceAs (Decidable (∀ t ∈ tokens, t.lexeme ≠ name))

/-- No token that is kept has the given lexeme. -/
def NodeLaw.lacking (name : String) : NodeLaw where
  expr e := Token.Avoid name e.kept
  stmt _ s := Token.Avoid name s.kept

/-- The value is not a function or struct whose code has the given name in it. -/
def Value.Lacks (name : String) : Value → Prop
  | .func c => Token.Avoid name c.params ∧ ∀ s ∈ c.body, s.EveryNode (.lacking name) true
  | .struct d =>
    Token.Avoid name d.params ∧
      ∀ entry ∈ d.body, entry.value.EveryNode (.lacking name) ∧ entry.name.lexeme ≠ name
  | _ => True

variable {name : String}

theorem Value.lacks_func {keyword : Token} {params : List Token} {body : List Stmt}
    (h : (Expr.func keyword params body).EveryNode (.lacking name)) (id : Nat) (scope : ScopeId) :
    (Value.func ⟨id, params, body, scope⟩).Lacks name :=
  ⟨fun t ht => h.1 t (List.mem_cons_of_mem _ ht), stmtsEveryNode_iff.mp h.2⟩

theorem Value.lacks_struct {keyword : Token} {params : List Token} {body : List FieldInit}
    (h : (Expr.struct keyword params body).EveryNode (.lacking name)) (id : Nat) (scope : ScopeId) :
    (Value.struct ⟨id, params, body, scope⟩).Lacks name := by
  obtain ⟨hkept, hbody⟩ := h
  constructor
  · intro t ht
    exact hkept t (List.mem_cons_of_mem _ (List.mem_append_left _ ht))
  · intro entry hentry
    have hname : entry.name ∈ body.map FieldInit.name := List.mem_map_of_mem hentry
    exact ⟨fieldsEveryNode_iff.mp hbody entry hentry,
      hkept _ (List.mem_cons_of_mem _ (List.mem_append_right _ hname))⟩

/-! ### Programs that are read -/

open Grammar

theorem Expr.lacking_of_tokensLaw (e : Expr) (h : (tokensLaw fun t => t.lexeme ≠ name).expr e) :
    (NodeLaw.lacking name).expr e := by
  intro t ht
  cases e with
  | literal | grouping => cases ht
  | «variable» | selfRef | unary | binary | logical | call | «attribute» =>
      obtain rfl := List.mem_singleton.mp ht
      exact h.1
  | assign target value =>
      cases target with
      | «variable» name =>
          obtain rfl := List.mem_singleton.mp ht
          exact h.1
      | selfField keyword name =>
          rcases List.mem_cons.mp ht with rfl | ht
          · exact h.1.1
          · obtain rfl := List.mem_singleton.mp ht
            exact h.2.1
  | func keyword params body =>
      rcases List.mem_cons.mp ht with rfl | ht
      · exact h.1.1
      · exact (h.2 t ht).1
  | struct keyword params body =>
      rcases List.mem_cons.mp ht with rfl | ht
      · exact h.1.1
      · rcases List.mem_append.mp ht with ht | ht
        · exact (h.2.1 t ht).1
        · obtain ⟨entry, hentry, rfl⟩ := List.mem_map.mp ht
          exact (h.2.2 entry hentry).1

theorem Stmt.lacking_of_tokensLaw {inFunction : Bool} (s : Stmt)
    (h : (tokensLaw fun t => t.lexeme ≠ name).stmt inFunction s) :
    (NodeLaw.lacking name).stmt inFunction s := by
  intro t ht
  cases s with
  | expression | block | conditional => cases ht
  | whileLoop | matching | returning =>
      obtain rfl := List.mem_singleton.mp ht
      exact h.1
  | importing module names =>
      rcases List.mem_cons.mp ht with rfl | ht
      · exact h.1.1
      · exact (h.2 t ht).1

/-- A program lacks every name that is no lexeme of its tokens. -/
theorem everyNode_lacking_of_parse {tokens : List Token} {trees : List Stmt}
    (h : parse tokens = .ok trees) (htokens : Token.Avoid name tokens) :
    ∀ tree ∈ trees, tree.EveryNode (.lacking name) false := by
  intro tree htree
  have hsteps := @NodeLaw.imp_steps _ (.lacking name) (sizeOf tree)
    (fun e _ => e.lacking_of_tokensLaw) (fun _ s _ => s.lacking_of_tokensLaw)
  exact hsteps.stmt tree (Nat.le_refl _) false (everyNode_tokensLaw_of_parse h htokens tree htree)

end BracketScript
