import BracketScript.Proofs.Grammar.Soundness

/-!
# The tokens at the nodes of a tree

The nodes of a tree keep some of the tokens that the tree was read from.  Each
of them is of a kind that the grammar has in its place: an operator at a node
for operators, a name where something is named.  What holds of all tokens that
were read holds of the tokens kept (`everyNode_tokensLaw_of_parse`), and a constant
is what such a token denotes.
-/

namespace BracketScript
namespace Grammar

/-- The places of operators that have both operands evaluated. -/
def Place.isStrict : Place → Bool
  | .disjunction | .conjunction => false
  | _ => true

/-- A token that names something. -/
def Named (Q : Token → Prop) (t : Token) : Prop :=
  Q t ∧ t.kind = .identifier

/-- A token that is read as a variable: a name or an underscore. -/
def Read (Q : Token → Prop) (t : Token) : Prop :=
  Q t ∧ (t.kind = .identifier ∨ t.kind = .underscore)

/-- A constant that a token denotes, or `true` in place of a test that is left
out. -/
def Stated (Q : Token → Prop) (value : Constant) : Prop :=
  value = .bool true ∨ ∃ t, Q t ∧ Denotes t value

/-- Every token kept at a node satisfies `Q` and is of a kind that the grammar
has there. -/
def tokensLaw (Q : Token → Prop) : NodeLaw where
  expr
    | .literal value => Stated Q value
    | .grouping _ => True
    | .variable t => Read Q t
    | .assign (.variable t) _ => Read Q t
    | .assign (.selfField keyword t) _ => (Q keyword ∧ keyword.kind = .selfKw) ∧ Named Q t
    | .binary _ op _ => Q op ∧ ∃ p : Place, p.isStrict = true ∧ op.kind ∈ p.operators
    | .logical _ op _ => Q op ∧ (op.kind = .orKw ∨ op.kind = .andKw)
    | .unary op _ => Q op ∧ (op.kind = .bang ∨ op.kind = .minus ∨ op.kind = .bitNeg)
    | .call _ bracket _ => Q bracket ∧ bracket.kind = .rightBracket
    | .attribute _ t => Named Q t
    | .selfRef keyword => Q keyword ∧ keyword.kind = .selfKw
    | .func keyword params _ =>
      (Q keyword ∧ keyword.kind = .funcKw) ∧ ∀ t ∈ params, Named Q t
    | .struct keyword params body =>
      (Q keyword ∧ keyword.kind = .structKw) ∧ (∀ t ∈ params, Named Q t) ∧
        ∀ entry ∈ body, Named Q entry.name
  stmt _
    | .whileLoop keyword _ _ => Q keyword ∧ (keyword.kind = .whileKw ∨ keyword.kind = .forKw)
    | .matching keyword _ _ => Q keyword ∧ keyword.kind = .matchKw
    | .importing module names => Named Q module ∧ ∀ t ∈ names, Named Q t
    | .returning keyword _ => Q keyword ∧ keyword.kind = .returnKw
    | .expression _ | .block _ | .conditional _ _ _ => True

variable {Q : Token → Prop}

theorem Names.named {w names : List Token} (h : Names w names) (hw : ∀ t ∈ w, Q t) :
    ∀ t ∈ names, Named Q t := by
  induction h with
  | none => simp
  | one kind => simpa using ⟨hw _ List.mem_cons_self, kind⟩
  | @more w names comma t before _ _ kind ih =>
      intro u hu
      rcases List.mem_append.mp hu with hu | hu
      · exact ih (fun v hv => hw v (by simp [hv])) u hu
      · obtain rfl := List.mem_singleton.mp hu
        exact ⟨hw u (by simp), kind⟩

theorem Targets.everyNode {e value : Expr} {target : Target} (h : Targets e target)
    (he : e.EveryNode (tokensLaw Q)) : (tokensLaw Q).expr (.assign target value) := by
  cases h with
  | name t => exact he
  | field keyword t => exact ⟨he.2, he.1⟩

/-- A binary operator and its operands. -/
theorem everyNode_node {p : Place} {op : Token} {left right : Expr} (hop : Q op)
    (sign : op.kind ∈ p.operators) (hleft : left.EveryNode (tokensLaw Q))
    (hright : right.EveryNode (tokensLaw Q)) :
    (p.node left op right).EveryNode (tokensLaw Q) := by
  cases p with
  | disjunction =>
      have hkind : op.kind = .orKw := by simpa [Place.operators] using sign
      exact ⟨⟨hop, Or.inl hkind⟩, hleft, hright⟩
  | conjunction =>
      have hkind : op.kind = .andKw := by simpa [Place.operators] using sign
      exact ⟨⟨hop, Or.inr hkind⟩, hleft, hright⟩
  | _ => exact ⟨⟨hop, _, rfl, sign⟩, hleft, hright⟩

section Loops

variable {inFunction : Bool}

theorem everyNode_block {stmts : List Stmt}
    (h : ∀ s ∈ stmts, s.EveryNode (tokensLaw Q) inFunction) :
    (Stmt.block stmts).EveryNode (tokensLaw Q) inFunction :=
  ⟨trivial, stmtsEveryNode_iff.mpr h⟩

theorem ForRound.everyNode {increment : Option Expr} {body : List Stmt} {round : Stmt}
    (h : ForRound increment body round) (hincrement : ∀ e ∈ increment, e.EveryNode (tokensLaw Q))
    (hbody : ∀ s ∈ body, s.EveryNode (tokensLaw Q) inFunction) :
    round.EveryNode (tokensLaw Q) inFunction := by
  cases h with
  | bare => exact everyNode_block hbody
  | stepped e =>
      have hstep : (Stmt.expression e).EveryNode (tokensLaw Q) inFunction :=
        ⟨trivial, hincrement e rfl⟩
      exact everyNode_block (by simpa using ⟨everyNode_block hbody, hstep⟩)

theorem ForCondition.everyNode {condition : Option Expr} {test : Expr}
    (h : ForCondition condition test) (hcondition : ∀ e ∈ condition, e.EveryNode (tokensLaw Q)) :
    test.EveryNode (tokensLaw Q) := by
  cases h with
  | absent => exact Or.inl rfl
  | present => exact hcondition _ rfl

theorem ForStart.everyNode {initializer : Option Expr} {loop s : Stmt}
    (h : ForStart initializer loop s) (hinitializer : ∀ e ∈ initializer, e.EveryNode (tokensLaw Q))
    (hloop : loop.EveryNode (tokensLaw Q) inFunction) :
    s.EveryNode (tokensLaw Q) inFunction := by
  cases h with
  | bare => exact hloop
  | after e =>
      have hfirst : (Stmt.expression e).EveryNode (tokensLaw Q) inFunction :=
        ⟨trivial, hinitializer e rfl⟩
      exact everyNode_block (by simpa using ⟨hfirst, hloop⟩)

end Loops

theorem forall_within {l r : Token} {w : List Token} (h : ∀ t ∈ within l w r, Q t) :
    Q r ∧ ∀ t ∈ w, Q t :=
  ⟨h r (by simp [within]), fun t ht => h t (by simp [within, ht])⟩

mutual

theorem Phrase.everyNode {d : Nat} {p : Place} {w : List Token} {e : Expr} :
    Phrase d p w e → (∀ t ∈ w, Q t) → e.EveryNode (tokensLaw Q)
  | .value inside, h => inside.everyNode h
  | .assign left targets _ right, h => by
      rw [List.forall_mem_append, List.forall_mem_cons] at h
      exact ⟨targets.everyNode (left.everyNode h.1), right.everyNode h.2.2⟩
  | .struct kind inside, h => by
      rw [List.forall_mem_cons] at h
      obtain ⟨hparams, hbody⟩ := inside.everyNode h.2
      exact ⟨⟨⟨h.1, kind⟩, hparams, fun entry he => (hbody entry he).1⟩,
        fieldsEveryNode_iff.mpr fun entry he => (hbody entry he).2⟩
  | .func kind _ names _ inside, h => by
      rw [List.forall_mem_cons, List.forall_mem_append] at h
      have hparams := names.named (forall_within h.2.1).2
      have hbody := inside.everyNode (forall_within h.2.2).2
      exact ⟨⟨⟨h.1, kind⟩, hparams⟩, stmtsEveryNode_iff.mpr (hbody true)⟩
  | .tighter _ inside, h => inside.everyNode h
  | .operator before sign after, h => by
      rw [List.forall_mem_append, List.forall_mem_cons] at h
      exact everyNode_node h.2.1 sign (before.everyNode h.1) (after.everyNode h.2.2)
  | .unary sign after, h => by
      rw [List.forall_mem_cons] at h
      exact ⟨⟨h.1, sign⟩, after.everyNode h.2⟩
  | .call before around inside, h => by
      rw [List.forall_mem_append] at h
      obtain ⟨hbracket, hargs⟩ := forall_within h.2
      exact ⟨⟨hbracket, around.right⟩, before.everyNode h.1,
        exprsEveryNode_iff.mpr (inside.everyNode hargs)⟩
  | .member before kind, h => by
      rw [List.forall_mem_append] at h
      exact ⟨⟨h.2 _ List.mem_cons_self, kind⟩, before.everyNode h.1⟩
  | .constant denotes, h => Or.inr ⟨_, h _ List.mem_cons_self, denotes⟩
  | .self kind, h => ⟨h _ List.mem_cons_self, kind⟩
  | .name kind, h => ⟨h _ List.mem_cons_self, kind⟩
  | .grouping _ inside, h => ⟨trivial, inside.everyNode (forall_within h).2⟩

theorem Operand.everyNode {d : Nat} {w : List Token} {e : Expr} :
    Operand d w e → (∀ t ∈ w, Q t) → e.EveryNode (tokensLaw Q)
  | .deeper inside, h => inside.everyNode h

theorem Arguments.everyNode {d : Nat} {w : List Token} {es : List Expr} :
    Arguments d w es → (∀ t ∈ w, Q t) → ∀ e ∈ es, e.EveryNode (tokensLaw Q)
  | .none, _ => by simp
  | .one first, h => by simpa using first.everyNode h
  | .more before _ _ next, h => by
      rw [List.forall_mem_append, List.forall_mem_cons] at h
      rw [List.forall_mem_append, List.forall_mem_singleton]
      exact ⟨before.everyNode h.1, next.everyNode h.2.2⟩

theorem StructBody.everyNode {d : Nat} {w params : List Token} {body : List FieldInit} :
    StructBody d w params body → (∀ t ∈ w, Q t) →
      (∀ t ∈ params, Named Q t) ∧
        ∀ entry ∈ body, Named Q entry.name ∧ entry.value.EveryNode (tokensLaw Q)
  | .bare _ names, h => ⟨names.named (forall_within h).2, by simp⟩
  | .full _ names _ inside, h => by
      rw [List.forall_mem_append] at h
      exact ⟨names.named (forall_within h.1).2, inside.everyNode (forall_within h.2).2⟩

theorem Fields.everyNode {d : Nat} {w : List Token} {body : List FieldInit} :
    Fields d w body → (∀ t ∈ w, Q t) →
      ∀ entry ∈ body, Named Q entry.name ∧ entry.value.EveryNode (tokensLaw Q)
  | .none, _ => by simp
  | .more before kind _ next _, h => by
      rw [List.forall_mem_append, List.forall_mem_cons, List.forall_mem_cons,
        List.forall_mem_append] at h
      rw [List.forall_mem_append, List.forall_mem_singleton]
      exact ⟨before.everyNode h.1, ⟨h.2.1, kind⟩, next.everyNode h.2.2.2.1⟩

theorem Clause.everyNode {d : Nat} {w : List Token} {clause : Option Expr} :
    Clause d w clause → (∀ t ∈ w, Q t) → ∀ e ∈ clause, e.EveryNode (tokensLaw Q)
  | .absent, _ => by simp
  | .present inside, h => by simpa using inside.everyNode h

theorem Statement.everyNode {d : Nat} {w : List Token} {s : Stmt} :
    Statement d w s → (∀ t ∈ w, Q t) → ∀ inFunction, s.EveryNode (tokensLaw Q) inFunction
  | .importing _ name _ inside, h, _ => by
      rw [List.forall_mem_cons, List.forall_mem_cons] at h
      exact ⟨⟨h.2.1, name⟩, inside.named (forall_within h.2.2).2⟩
  | .returning kind inside _, h, _ => by
      rw [List.forall_mem_cons, List.forall_mem_append] at h
      exact Stmt.everyNode_returning.mpr ⟨⟨h.1, kind⟩, inside.everyNode h.2.1⟩
  | .conditional _ after, h, inFunction => by
      rw [List.forall_mem_cons] at h
      exact after.everyNode h.2 inFunction
  | .forLoop kind _ clause₁ _ clause₂ _ clause₃ _ inside rounds tests starts, h, inFunction => by
      rw [List.forall_mem_cons, List.forall_mem_append] at h
      have hclauses := (forall_within h.2.1).2
      rw [List.forall_mem_append, List.forall_mem_cons, List.forall_mem_append,
        List.forall_mem_cons] at hclauses
      obtain ⟨hfirst, -, hsecond, -, hthird⟩ := hclauses
      have hbody := inside.everyNode (forall_within h.2.2).2 inFunction
      have hround := rounds.everyNode (clause₃.everyNode hthird) hbody
      have htest := tests.everyNode (clause₂.everyNode hsecond)
      exact starts.everyNode (clause₁.everyNode hfirst) ⟨⟨h.1, Or.inr kind⟩, htest, hround⟩
  | .whileLoop kind _ test _ inside, h, inFunction => by
      rw [List.forall_mem_cons, List.forall_mem_append] at h
      have hbody := inside.everyNode (forall_within h.2.2).2 inFunction
      exact ⟨⟨h.1, Or.inl kind⟩, test.everyNode (forall_within h.2.1).2, everyNode_block hbody⟩
  | .matching kind _ value _ _ inside, h, inFunction => by
      rw [List.forall_mem_cons, List.forall_mem_append, List.forall_mem_cons] at h
      have hcases := inside.everyNode (forall_within h.2.2.2).2 inFunction
      exact ⟨⟨h.1, kind⟩, value.everyNode (forall_within h.2.1).2, casesEveryNode_iff.mpr hcases⟩
  | .block _ inside, h, inFunction =>
      everyNode_block (inside.everyNode (forall_within h).2 inFunction)
  | .expression inside _, h, _ => by
      rw [List.forall_mem_append] at h
      exact ⟨trivial, inside.everyNode h.1⟩

theorem IfTail.everyNode {d : Nat} {w : List Token} {s : Stmt} :
    IfTail d w s → (∀ t ∈ w, Q t) → ∀ inFunction, s.EveryNode (tokensLaw Q) inFunction
  | .bare _ test inside, h, inFunction => by
      rw [List.forall_mem_append] at h
      exact ⟨trivial, test.everyNode (forall_within h.1).2, inside.everyNode h.2 inFunction⟩
  | .elif _ test inside _ after, h, inFunction => by
      rw [List.forall_mem_append, List.forall_mem_append, List.forall_mem_cons] at h
      exact ⟨trivial, test.everyNode (forall_within h.1).2, inside.everyNode h.2.1 inFunction,
        after.everyNode h.2.2.2 inFunction⟩
  | .otherwise _ test inside _ after, h, inFunction => by
      rw [List.forall_mem_append, List.forall_mem_append, List.forall_mem_cons] at h
      exact ⟨trivial, test.everyNode (forall_within h.1).2, inside.everyNode h.2.1 inFunction,
        after.everyNode h.2.2.2 inFunction⟩

theorem Statements.everyNode {d : Nat} {w : List Token} {stmts : List Stmt} :
    Statements d w stmts → (∀ t ∈ w, Q t) →
      ∀ inFunction, ∀ s ∈ stmts, s.EveryNode (tokensLaw Q) inFunction
  | .none, _, _ => by simp
  | .more before next, h, inFunction => by
      rw [List.forall_mem_append] at h
      rw [List.forall_mem_append, List.forall_mem_singleton]
      exact ⟨before.everyNode h.1 inFunction, next.everyNode h.2 inFunction⟩

theorem Cases.everyNode {d : Nat} {w : List Token} {cases : List MatchCase} :
    Cases d w cases → (∀ t ∈ w, Q t) → ∀ inFunction, ∀ entry ∈ cases,
      entry.pattern.EveryNode (tokensLaw Q) ∧ entry.consequence.EveryNode (tokensLaw Q) inFunction
  | .none, _, _ => by simp
  | .more before _ test _ inside, h, inFunction => by
      rw [List.forall_mem_append] at h
      have hcase := (forall_within h.2).2
      rw [List.forall_mem_append, List.forall_mem_cons] at hcase
      rw [List.forall_mem_append, List.forall_mem_singleton]
      exact ⟨before.everyNode h.1 inFunction, test.everyNode hcase.1,
        inside.everyNode hcase.2.2 inFunction⟩

end

end Grammar

open Grammar

/-- The tokens kept in trees are among those read, each in a place where the
grammar has its kind. -/
theorem everyNode_tokensLaw_of_parse {Q : Token → Prop} {tokens : List Token} {trees : List Stmt}
    (h : parse tokens = .ok trees) (hQ : ∀ t ∈ tokens, Q t) :
    ∀ tree ∈ trees, tree.EveryNode (tokensLaw Q) false := by
  obtain ⟨segments, hflat, hall⟩ := segments_of_parse h
  have hsegments : ∀ w ∈ segments, ∀ t ∈ w, Q t := by
    intro w hw t ht
    have hmem : t ∈ segments.flatten := List.mem_flatten.mpr ⟨w, hw, ht⟩
    rw [hflat] at hmem
    exact hQ t (List.takeWhile_subset _ hmem)
  clear hflat h
  induction hall with
  | nil => simp
  | cons hR _ ih =>
      rw [List.forall_mem_cons] at hsegments ⊢
      exact ⟨hR.1.everyNode hsegments.1 false, ih hsegments.2⟩

end BracketScript
