import BracketScript.Proofs.Grammar.Derivation
import BracketScript.Proofs.Reading.Repeating

/-!
# Reading again elsewhere

What an expression or a statement is read as depends on little besides its own
tokens.  Read without a fault at one place, it is read in the same way at any
other where a comma, a semicolon or a closing bracket comes behind it, and where
at least as many levels may be opened (`repeats_level`).
-/

namespace BracketScript
namespace Grammar

open Reader

/-- What ends an expression or a statement, wherever it stands. -/
def Closes (o : Option Kind) : Prop :=
  o ∈ [none, some .comma, some .semicolon, some .rightBracket]

instance : DecidablePred Closes := fun o =>
  inferInstanceAs (Decidable (o ∈ [none, some .comma, some .semicolon, some .rightBracket]))

/-- What the readers of one level read, those of another read as well. -/
structure Inner.Repeats (inner inner' : Inner) : Prop where
  statement (inFunction : Bool) :
    Reader.Repeats Closes (inner.statement inFunction) (inner'.statement inFunction)
  consumes (inFunction : Bool) : Consumes (inner.statement inFunction)
  expression : Reader.Repeats Closes inner.expression inner'.expression
  operand : Reader.Repeats Closes inner.operand inner'.operand
  structBody (keyword : Token) :
    Reader.Repeats Closes (inner.structBody keyword) (inner'.structBody keyword)

section Productions

variable {inner inner' : Inner} (hi : inner.Repeats inner') {ends : Option Kind → Prop}

include hi in
theorem repeats_block (inFunction : Bool) :
    Repeats ends (block inner inFunction) (block inner' inFunction) := by
  have hstmt := (hi.statement inFunction).noOther
  exact .thenExpect (.untilBracket hstmt (hi.consumes inFunction)) fun _ _ _ => .pure _

theorem repeats_names (list : ListKind) (fault : SyntaxFault) :
    Repeats ends (entries list (expect .identifier fault))
      (entries list (expect .identifier fault)) :=
  .entries list (.expect _ _)

include hi in
theorem repeats_function (keyword : Token) :
    Repeats ends (function inner keyword) (function inner' keyword) := by
  refine .expectThen fun _ _ => .bind (repeats_names _ _) fun params => ?_
  refine .expectThen fun _ _ => .bind (repeats_block hi true) fun body => ?_
  exact .pure _

include hi in
/-- An expression in brackets, or before anything else that is expected. -/
theorem repeats_expressionThen {β : Type} {kind : Kind} {fault : SyntaxFault}
    {k l : Expr → Token → Reader β} (hk : ∀ e t, t.kind = kind → Repeats ends (k e t) (l e t)) :
    Repeats ends (inner.expression >>= fun e => expect kind fault >>= k e)
      (inner'.expression >>= fun e => expect kind fault >>= l e) :=
  .thenExpect (hi.expression.noOther) hk

include hi in
theorem repeats_primary : Repeats Closes (primary inner) (primary inner') := by
  refine .acceptThen (by decide) (.fail _ _) fun t ht => ?_
  cases hkind : t.kind <;> simp only [hkind, List.mem_cons, reduceCtorEq] at ht ⊢
  case num => rcases t.literal with _ | x | s <;> exact .pure _
  case str => rcases t.literal with _ | x | s <;> exact .pure _
  case leftBracket => exact repeats_expressionThen hi fun _ _ _ => .pure _
  case trueKw | falseKw | nullKw | selfKw | identifier | underscore => exact .pure _
  all_goals simp at ht

include hi in
theorem repeats_call : Repeats Closes (call inner) (call inner') := by
  rw [call_eq, call_eq]
  refine .bind (repeats_primary hi) fun e => ?_
  refine .loopWhenNext (by decide) (fun e t _ => ?_) e
  by_cases hkind : t.kind = .identifier
  · simp only [hkind, if_true]
    exact .pure _
  · simp only [hkind, if_false]
    refine .bind (.entries _ (hi.expression.noOther)) fun args => ?_
    exact .pure _

include hi in
theorem repeats_unary : Repeats Closes (unary inner) (unary inner') := by
  refine .acceptThen (by decide) (repeats_call hi) fun op _ => ?_
  exact .bind hi.operand fun _ => .pure _

theorem repeats_leftAssoc (p : Place) {operand operand' : Reader Expr}
    (hoperand : Repeats Closes operand operand') :
    Repeats Closes (leftAssoc p.node p.operators operand)
      (leftAssoc p.node p.operators operand') := by
  have hends : ∀ kind ∈ p.operators, ¬Closes (some kind) := by cases p <;> decide
  refine .bind hoperand fun left => .loopWhenNext hends (fun left op _ => ?_) left
  exact .bind hoperand fun _ => .pure _

include hi in
theorem repeats_disjunction : Repeats Closes (disjunction inner) (disjunction inner') := by
  have hfactor : Repeats Closes (factor inner) (factor inner') :=
    repeats_leftAssoc .factor (repeats_unary hi)
  have hterm : Repeats Closes (term inner) (term inner') := repeats_leftAssoc .term hfactor
  have hbitwise : Repeats Closes (bitwise inner) (bitwise inner') :=
    repeats_leftAssoc .bitwise hterm
  have hcomparison : Repeats Closes (comparison inner) (comparison inner') :=
    repeats_leftAssoc .comparison hbitwise
  have hequality : Repeats Closes (equality inner) (equality inner') :=
    repeats_leftAssoc .equality hcomparison
  have hconjunction : Repeats Closes (conjunction inner) (conjunction inner') :=
    repeats_leftAssoc .conjunction hequality
  exact repeats_leftAssoc .disjunction hconjunction

include hi in
theorem repeats_assignable : Repeats Closes (assignable inner) (assignable inner') := by
  refine .acceptThen (by decide) (repeats_disjunction hi) fun t _ => ?_
  by_cases hkind : t.kind = .structKw
  · simp only [hkind, if_true]
    exact hi.structBody t
  · simp only [hkind, if_false]
    exact repeats_function hi t

include hi in
theorem repeats_assignment : Repeats Closes (assignment inner) (assignment inner') := by
  refine .bind (repeats_assignable hi) fun left => ?_
  refine .acceptThen (by decide) (.pure _) fun walrus _ => ?_
  refine .bind (repeats_assignable hi) fun value => ?_
  cases target? left with
  | none => exact .reportThen (k := fun _ => pure left) walrus _ (.pure left) _
  | some target => exact .pure _

include hi in
theorem repeats_fieldInit : Repeats ends (fieldInit inner) (fieldInit inner') := by
  refine .expectThen fun name _ => .expectThen fun _ _ => ?_
  refine .thenExpect ((repeats_assignable hi).noOther) fun value _ _ => ?_
  exact .pure _

include hi in
theorem repeats_structDecl (hu : inner.Uniform id) (keyword : Token) :
    Repeats Closes (structDecl inner keyword) (structDecl inner' keyword) := by
  refine .expectThen fun _ _ => .bind (repeats_names _ _) fun params => ?_
  refine .acceptThen (by decide) (.pure _) fun _ _ => ?_
  have hconsumes : Consumes (fieldInit inner) := (parallel_fieldInit keepsText_id hu).2
  refine .thenExpect (.untilBracket (repeats_fieldInit hi) hconsumes) fun body _ _ => ?_
  exact .pure _

/-! ### Statements -/

theorem repeats_importStatement : Repeats ends importStatement importStatement := by
  refine .expectThen fun module _ => .expectThen fun _ _ => ?_
  exact .bind (repeats_names _ _) fun _ => .pure _

include hi in
theorem repeats_exprBefore (kind : Kind) :
    Repeats noOther (exprBefore inner kind) (exprBefore inner' kind) := by
  refine .nextIsThen fun next => ?_
  cases next with
  | true => exact .pure _
  | false =>
      exact .bind (hi.expression.noOther) fun _ => .pure _

include hi in
theorem repeats_returnStatement (inFunction : Bool) (keyword : Token) :
    Repeats ends (returnStatement inner inFunction keyword)
      (returnStatement inner' inFunction keyword) := by
  have hvalue : Repeats ends (returnValue inner keyword) (returnValue inner' keyword) :=
    .thenExpect (repeats_exprBefore hi _) fun _ _ _ => .pure _
  cases inFunction with
  | true => exact hvalue
  | false => exact .reportThen keyword .returnOutsideFunction hvalue _

include hi in
theorem repeats_guarded (inFunction : Bool) :
    Repeats Closes (guarded inner inFunction) (guarded inner' inFunction) := by
  refine .expectThen fun _ _ => repeats_expressionThen hi fun condition _ _ => ?_
  exact .bind (hi.statement inFunction) fun _ => .pure _

include hi in
theorem repeats_ifStatement (inFunction : Bool) :
    Repeats Closes (ifStatement inner inFunction) (ifStatement inner' inFunction) := by
  have helse : Repeats Closes (elsePart inner inFunction) (elsePart inner' inFunction) := by
    refine .acceptThen (by decide) (.pure _) fun _ _ => ?_
    exact .map some (hi.statement inFunction)
  rw [ifStatement_eq, ifStatement_eq]
  refine .bind (repeats_guarded hi inFunction) fun arm => ?_
  refine .bind (.loopWhenNext (by decide) (fun arms _ _ => ?_) #[]) fun arms => ?_
  · exact .bind (repeats_guarded hi inFunction) fun _ => .pure _
  · refine .bind helse fun otherwise => ?_
    exact .pure _

include hi in
theorem repeats_forStatement (inFunction : Bool) (keyword : Token) :
    Repeats ends (forStatement inner inFunction keyword)
      (forStatement inner' inFunction keyword) := by
  refine .expectThen fun _ _ => ?_
  refine .thenExpect (repeats_exprBefore hi _) fun initializer _ _ => ?_
  refine .thenExpect (repeats_exprBefore hi _) fun condition _ _ => ?_
  refine .thenExpect (repeats_exprBefore hi _) fun increment _ _ => .expectThen fun _ _ => ?_
  refine .bind (repeats_block hi inFunction) fun body => .noteLoopThen _ _ ?_
  exact .pure _

include hi in
theorem repeats_whileStatement (inFunction : Bool) (keyword : Token) :
    Repeats ends (whileStatement inner inFunction keyword)
      (whileStatement inner' inFunction keyword) := by
  refine .expectThen fun _ _ => repeats_expressionThen hi fun condition _ _ => ?_
  refine .expectThen fun _ _ => .bind (repeats_block hi inFunction) fun body => ?_
  exact .pure _

include hi in
theorem repeats_matchStatement (hu : inner.Uniform id) (inFunction : Bool) (keyword : Token) :
    Repeats ends (matchStatement inner inFunction keyword)
      (matchStatement inner' inFunction keyword) := by
  have hcase : Repeats noOther (matchCase inner inFunction) (matchCase inner' inFunction) := by
    refine .expectThen fun _ _ => repeats_expressionThen hi fun pattern _ _ => ?_
    refine .thenExpect ((hi.statement inFunction).noOther)
      fun consequence _ _ => ?_
    exact .pure _
  have hconsumes : Consumes (matchCase inner inFunction) := (parallel_matchCase hu inFunction).2
  refine .expectThen fun _ _ => repeats_expressionThen hi fun subject _ _ => ?_
  refine .expectThen fun _ _ => .expectThen fun _ _ => ?_
  refine .thenExpect (.untilBracket hcase hconsumes) fun cases _ _ => ?_
  exact .pure _

include hi in
theorem repeats_statement (hu : inner.Uniform id) (inFunction : Bool) :
    Repeats Closes (statement inner inFunction) (statement inner' inFunction) := by
  refine .acceptThen (by decide) ?_ fun t _ => ?_
  · exact repeats_expressionThen hi fun _ _ _ => .pure _
  · change Repeats Closes (announced inner inFunction t) (announced inner' inFunction t)
    unfold announced
    cases t.kind
    case importKw => exact repeats_importStatement
    case returnKw => exact repeats_returnStatement hi inFunction t
    case ifKw => exact repeats_ifStatement hi inFunction
    case forKw => exact repeats_forStatement hi inFunction t
    case whileKw => exact repeats_whileStatement hi inFunction t
    case matchKw => exact repeats_matchStatement hi hu inFunction t
    all_goals exact Repeats.map Stmt.block (repeats_block hi inFunction)

end Productions

/-- What is read where few levels may be opened is read in the same way where
more may be. -/
theorem repeats_level {n m : Nat} (h : n ≤ m) : (level n).Repeats (level m) := by
  induction n generalizing m with
  | zero =>
      exact
        { statement := fun _ => .fail _ _
          consumes := fun _ => consumes_fail _
          expression := .fail _ _
          operand := .fail _ _
          structBody := fun _ => .fail _ _ }
  | succ n ih =>
      obtain ⟨m, rfl⟩ : ∃ k, m = k + 1 := ⟨m - 1, by omega⟩
      have hi := ih (Nat.le_of_succ_le_succ h)
      have hu := uniform_level keepsText_id n
      exact
        { statement := repeats_statement hi hu
          consumes := consumes_statement keepsText_id hu
          expression := repeats_assignment hi
          operand := repeats_unary hi
          structBody := repeats_structDecl hi hu }

end Grammar
end BracketScript
