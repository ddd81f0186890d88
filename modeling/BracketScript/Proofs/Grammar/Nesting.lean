import BracketScript.Proofs.Grammar.Soundness
import BracketScript.Proofs.Tree.Chains

/-!
# How deep a derivation makes a tree

A level of nesting leads through at most nine nodes that count: from an
assignment to its value, from there through right operands of the seven kinds of
binary operators, and into brackets or to an argument, where the next level
begins.  So a derivation with `d` levels makes a tree in which no chain has more
than `9 * d` steps that count (`Statement.nesting_le`).
-/

namespace BracketScript
namespace Grammar

/-- How many steps that count an expression can have in a place before it takes
up a new level. -/
def Place.steps : Place → Nat
  | .expression => 0
  | .assignable => 8
  | .disjunction => 8
  | .conjunction => 7
  | .equality => 6
  | .comparison => 5
  | .bitwise => 4
  | .term => 3
  | .factor => 2
  | .unary => 1
  | .call => 1
  | .primary => 1

theorem Place.steps_tighter_le {p : Place} (h : p ≠ .expression) : p.tighter.steps ≤ p.steps := by
  cases p <;> first | exact absurd rfl h | decide

/-- Where there are operators, the next tighter place has one step less. -/
theorem Place.steps_tighter_lt {p : Place} {kind : Kind} (h : kind ∈ p.operators) :
    p.tighter.steps + 1 ≤ p.steps := by
  cases p <;> first | cases h; done | decide

theorem nesting_node (p : Place) (left : Expr) (op : Token) (right : Expr) :
    (p.node left op right).nesting = max left.nesting (right.nesting + 1) := by
  cases p <;> simp only [Place.node, Expr.nesting]

section Loops

variable {n : Nat}

theorem ForRound.nesting_le {increment : Option Expr} {body : List Stmt} {round : Stmt}
    (h : ForRound increment body round) (hincrement : ∀ e ∈ increment, e.nesting ≤ n)
    (hbody : stmtsNesting body ≤ n + 1) : round.nesting ≤ n + 2 := by
  cases h with
  | bare => exact Nat.le_succ_of_le hbody
  | stepped e =>
      have he := hincrement e rfl
      simp only [Stmt.nesting, stmtsNesting]
      omega

theorem ForCondition.nesting_le {condition : Option Expr} {test : Expr}
    (h : ForCondition condition test) (hcondition : ∀ e ∈ condition, e.nesting ≤ n) :
    test.nesting ≤ n := by
  cases h with
  | absent => exact Nat.zero_le n
  | present => exact hcondition _ rfl

theorem ForStart.nesting_le {initializer : Option Expr} {loop s : Stmt}
    (h : ForStart initializer loop s) (hinitializer : ∀ e ∈ initializer, e.nesting ≤ n)
    (hloop : loop.nesting ≤ n + 3) : s.nesting ≤ n + 4 := by
  cases h with
  | bare => exact Nat.le_succ_of_le hloop
  | after e =>
      have he := hinitializer e rfl
      simp only [Stmt.nesting, stmtsNesting]
      omega

end Loops

mutual

theorem Phrase.nesting_le {d : Nat} {p : Place} {w : List Token} {e : Expr} :
    Phrase d p w e → e.nesting ≤ 9 * d + p.steps
  | .value inside => by
      have h := inside.nesting_le
      simp only [Place.steps] at h ⊢
      omega
  | .assign _ _ _ right => by
      have h := right.nesting_le
      simp only [Place.steps, Expr.nesting] at h ⊢
      omega
  | .struct _ inside => by
      have h := inside.nesting_le
      simp only [Place.steps, Expr.nesting]
      omega
  | .func _ _ _ _ inside => by
      have h := inside.nesting_le
      simp only [Place.steps, Expr.nesting]
      omega
  | .tighter level inside => by
      have h := inside.nesting_le
      have hplace := Place.steps_tighter_le level
      omega
  | .operator before sign after => by
      have hleft := before.nesting_le
      have hright := after.nesting_le
      have hplace := Place.steps_tighter_lt sign
      rw [nesting_node]
      omega
  | .unary _ after => by
      have h := after.nesting_le
      simp only [Place.steps, Expr.nesting]
      omega
  | .call before _ inside => by
      have hcallee := before.nesting_le
      have hargs := inside.nesting_le
      simp only [Place.steps, Expr.nesting] at hcallee ⊢
      omega
  | .member before _ => by
      have h := before.nesting_le
      simp only [Expr.nesting]
      omega
  | .constant _ => by simp [Expr.nesting]
  | .self _ => by simp [Expr.nesting]
  | .name _ => by simp [Expr.nesting]
  | .grouping _ inside => by
      have h := inside.nesting_le
      simp only [Place.steps, Expr.nesting] at h ⊢
      omega

theorem Operand.nesting_le {d : Nat} {w : List Token} {e : Expr} :
    Operand d w e → e.nesting ≤ 9 * d
  | .deeper inside => by
      have h := inside.nesting_le
      simp only [Place.steps] at h
      omega

theorem Arguments.nesting_le {d : Nat} {w : List Token} {es : List Expr} :
    Arguments d w es → exprsNesting es ≤ 9 * d + 1
  | .none => by simp [exprsNesting]
  | .one first => by
      have h := first.nesting_le
      simp only [Place.steps] at h
      rw [exprsNesting_le, List.forall_mem_singleton]
      omega
  | .more before _ _ next => by
      have hbefore := before.nesting_le
      have h := next.nesting_le
      simp only [Place.steps] at h
      rw [exprsNesting_le] at hbefore ⊢
      rw [List.forall_mem_append, List.forall_mem_singleton]
      exact ⟨hbefore, by omega⟩

theorem StructBody.nesting_le {d : Nat} {w params : List Token} {body : List FieldInit} :
    StructBody d w params body → fieldsNesting body ≤ 9 * d
  | .bare _ _ => by simp [fieldsNesting]
  | .full _ _ _ inside => by
      have h := inside.nesting_le
      omega

theorem Fields.nesting_le {d : Nat} {w : List Token} {body : List FieldInit} :
    Fields d w body → fieldsNesting body ≤ 9 * d + 9
  | .none => by simp [fieldsNesting]
  | .more before _ _ next _ => by
      have hbefore := before.nesting_le
      have h := next.nesting_le
      simp only [Place.steps] at h
      rw [fieldsNesting_le] at hbefore ⊢
      rw [List.forall_mem_append, List.forall_mem_singleton]
      exact ⟨hbefore, by dsimp only; omega⟩

theorem Clause.nesting_le {d : Nat} {w : List Token} {clause : Option Expr} :
    Clause d w clause → ∀ e ∈ clause, e.nesting ≤ 9 * d
  | .absent => nofun
  | .present inside => by
      rintro e ⟨⟩
      exact inside.nesting_le

/-- No chain in a statement with `d` levels has more than `9 * d` steps that
count. -/
theorem Statement.nesting_le {d : Nat} {w : List Token} {s : Stmt} :
    Statement d w s → s.nesting ≤ 9 * d
  | .importing _ _ _ _ => by simp [Stmt.nesting]
  | .returning _ inside _ => by
      have h := inside.nesting_le
      generalize ‹Option Expr› = value at h ⊢
      cases value with
      | none => simp [Stmt.nesting]
      | some e =>
          have he := h e rfl
          simp only [Stmt.nesting]
          omega
  | .conditional _ after => by
      have h := after.nesting_le
      omega
  | .forLoop _ _ clause₁ _ clause₂ _ clause₃ _ inside rounds tests starts => by
      have hround := rounds.nesting_le clause₃.nesting_le inside.nesting_le
      have htest := tests.nesting_le clause₂.nesting_le
      have hstart := starts.nesting_le clause₁.nesting_le (by
        simp only [Stmt.nesting]
        omega)
      omega
  | .whileLoop _ _ test _ inside => by
      have htest := test.nesting_le
      have hbody := inside.nesting_le
      simp only [Place.steps] at htest
      simp only [Stmt.nesting]
      omega
  | .matching _ _ value _ _ inside => by
      have hvalue := value.nesting_le
      have hcases := inside.nesting_le
      simp only [Place.steps] at hvalue
      simp only [Stmt.nesting]
      omega
  | .block _ inside => by
      have h := inside.nesting_le
      simp only [Stmt.nesting]
      omega
  | .expression inside _ => by
      have h := inside.nesting_le
      simp only [Place.steps] at h
      simp only [Stmt.nesting]
      omega

theorem IfTail.nesting_le {d : Nat} {w : List Token} {s : Stmt} :
    IfTail d w s → s.nesting ≤ 9 * d + 1
  | .bare _ test inside => by
      have htest := test.nesting_le
      have hinside := inside.nesting_le
      simp only [Place.steps] at htest
      simp only [Stmt.nesting]
      omega
  | .elif _ test inside _ after => by
      have htest := test.nesting_le
      have hinside := inside.nesting_le
      have hafter := after.nesting_le
      simp only [Place.steps] at htest
      simp only [Stmt.nesting]
      omega
  | .otherwise _ test inside _ after => by
      have htest := test.nesting_le
      have hinside := inside.nesting_le
      have hafter := after.nesting_le
      simp only [Place.steps] at htest
      simp only [Stmt.nesting]
      omega

theorem Statements.nesting_le {d : Nat} {w : List Token} {stmts : List Stmt} :
    Statements d w stmts → stmtsNesting stmts ≤ 9 * d + 1
  | .none => by simp [stmtsNesting]
  | .more before next => by
      have hbefore := before.nesting_le
      have h := next.nesting_le
      rw [stmtsNesting_le] at hbefore ⊢
      rw [List.forall_mem_append, List.forall_mem_singleton]
      exact ⟨hbefore, by omega⟩

theorem Cases.nesting_le {d : Nat} {w : List Token} {cases : List MatchCase} :
    Cases d w cases → casesNesting cases ≤ 9 * d + 1
  | .none => by simp [casesNesting]
  | .more before _ test _ inside => by
      have hbefore := before.nesting_le
      have htest := test.nesting_le
      have hinside := inside.nesting_le
      simp only [Place.steps] at htest
      rw [casesNesting_le] at hbefore ⊢
      rw [List.forall_mem_append, List.forall_mem_singleton]
      exact ⟨hbefore, by dsimp only; omega, by dsimp only; omega⟩

end

end Grammar

open Grammar

/-- The nesting of what is read is bounded by the limit on levels. -/
theorem nesting_le_of_parse {tokens : List Token} {trees : List Stmt}
    (h : parse tokens = .ok trees) : ∀ tree ∈ trees, tree.nesting ≤ 9 * maxNesting := by
  obtain ⟨segments, -, hall⟩ := segments_of_parse h
  clear h
  induction hall with
  | nil => simp
  | cons hR _ ih => exact List.forall_mem_cons.mpr ⟨hR.1.nesting_le, ih⟩

end BracketScript
