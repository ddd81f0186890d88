import BracketScript.Proofs.Grammar.Derivation

/-!
# Where a text ends

Brackets always match, and a comma or a semicolon never stands in an expression
outside brackets.  So the end of an expression can be told from what comes behind
it, without reading it: it is the first comma, semicolon or closing bracket that
no bracket encloses (`Enclosed.eq_of_append`).  Likewise the statements of a block
end with the first closing bracket that none of them opens.

An expression is never a list of statements as well, though it may begin with a
bracket like a block (`Phrase.not_statements`).
-/

namespace BracketScript
namespace Grammar

/-- Tokens without an end marker in which brackets match, and the kinds in `stops`
stand in brackets only. -/
inductive Enclosed : (stops : List Kind) → List Token → Prop
  | nil {stops : List Kind} : Enclosed stops []
  | single {stops : List Kind} {t : Token}
      (kind : t.kind ∉ .leftBracket :: .rightBracket :: .eof :: stops) : Enclosed stops [t]
  | append {stops : List Kind} {w w' : List Token} (before : Enclosed stops w)
      (after : Enclosed stops w') : Enclosed stops (w ++ w')
  | within {stops : List Kind} {l r : Token} {w : List Token} (around : Brackets l r)
      (inside : Enclosed [] w) : Enclosed stops (within l w r)

/-- The tokens up to the first of `stops` or the first closing bracket outside
all brackets, where `depth` brackets are open already. -/
def extent (stops : List Kind) : (depth : Nat) → List Token → List Token
  | _, [] => []
  | depth, t :: rest =>
    if t.kind = .leftBracket then t :: extent stops (depth + 1) rest
    else if t.kind = .rightBracket then
      match depth with
      | 0 => []
      | depth + 1 => t :: extent stops depth rest
    else if depth = 0 ∧ t.kind ∈ stops then []
    else t :: extent stops depth rest

namespace Enclosed

variable {stops : List Kind} {w w' s s' : List Token} {t t' : Token}

theorem extent_append {others : List Kind} (h : Enclosed others w) (depth : Nat)
    (hstops : depth = 0 → stops ⊆ others) (s : List Token) :
    extent stops depth (w ++ s) = w ++ extent stops depth s := by
  induction h generalizing depth s with
  | nil => rfl
  | @single _ t kind =>
      simp only [List.mem_cons, not_or] at kind
      have hstop : ¬(depth = 0 ∧ t.kind ∈ stops) := fun h => kind.2.2.2 (hstops h.1 h.2)
      simp [extent, kind.1, kind.2.1, hstop]
  | append _ _ ih ih' => rw [List.append_assoc, ih depth hstops, ih' depth hstops, List.append_assoc]
  | @within _ l r w around _ ih =>
      have hleft : r.kind ≠ .leftBracket := by simp [around.right]
      simp only [Grammar.within, List.cons_append, List.append_assoc, extent, around.left, if_true]
      rw [ih (depth + 1) (by simp)]
      simp [extent, around.right]

/-- The end of the tokens can be told from what comes behind them. -/
theorem extent_eq (h : Enclosed stops w) (ht : t.kind = .rightBracket ∨ t.kind ∈ stops)
    (hleft : t.kind ≠ .leftBracket) : extent stops 0 (w ++ t :: s) = w := by
  rw [h.extent_append 0 (fun _ => List.Subset.refl _)]
  rcases ht with ht | ht
  · simp [extent, ht]
  · by_cases hright : t.kind = .rightBracket <;> simp [extent, hleft, hright, ht]

/-- Two such texts that go on into the same tokens end at the same place. -/
theorem eq_of_append (hstops : .leftBracket ∉ stops) (h : Enclosed stops w)
    (ht : t.kind = .rightBracket ∨ t.kind ∈ stops) (h' : Enclosed stops w')
    (ht' : t'.kind = .rightBracket ∨ t'.kind ∈ stops) (heq : w ++ t :: s = w' ++ t' :: s') :
    w = w' ∧ t = t' ∧ s = s' := by
  have hleft {t : Token} (ht : t.kind = .rightBracket ∨ t.kind ∈ stops) :
      t.kind ≠ .leftBracket := by
    rintro hkind
    rw [hkind] at ht
    exact ht.elim (by simp) hstops
  have hw : w = w' := by
    rw [← h.extent_eq ht (hleft ht), heq, h'.extent_eq ht' (hleft ht')]
  subst hw
  simpa using heq

theorem front_ne (h : Enclosed stops (t :: w)) : t.kind ≠ .rightBracket := by
  intro ht
  have hgoes := h.extent_append 0 (fun _ => List.Subset.refl _) []
  simp [extent, ht] at hgoes

theorem mono {others : List Kind} (h : Enclosed others w) (hstops : stops ⊆ others) :
    Enclosed stops w := by
  induction h with
  | nil => exact .nil
  | single kind =>
      exact .single fun h => kind (List.cons_subset_cons _ (List.cons_subset_cons _
        (List.cons_subset_cons _ hstops)) h)
  | append _ _ ih ih' => exact .append (ih hstops) (ih' hstops)
  | within around inside => exact .within around inside

theorem kind_ne_eof (h : Enclosed stops w) : ∀ t ∈ w, t.kind ≠ .eof := by
  induction h with
  | nil => simp
  | single kind =>
      simp only [List.mem_cons, not_or] at kind
      simpa using kind.2.2.1
  | append _ _ ih ih' => exact List.forall_mem_append.mpr ⟨ih, ih'⟩
  | @within _ l r w around _ ih =>
      refine List.forall_mem_cons.mpr ⟨by simp [around.left], ?_⟩
      exact List.forall_mem_append.mpr ⟨ih, by simp [around.right]⟩

end Enclosed

/-- What separates expressions, and what ends them. -/
def separators : List Kind :=
  [.comma, .semicolon]

namespace Enclosed

variable {stops : List Kind} {t : Token}

theorem of_mem (kinds : List Kind) (h : t.kind ∈ kinds)
    (hkinds : ∀ kind ∈ kinds, kind ∉ .leftBracket :: .rightBracket :: .eof :: stops) :
    Enclosed stops [t] :=
  .single (hkinds _ h)

theorem of_kind {kind : Kind} (h : t.kind = kind)
    (hkind : kind ∉ .leftBracket :: .rightBracket :: .eof :: stops) : Enclosed stops [t] :=
  .single (h ▸ hkind)

theorem loosen {w : List Token} (h : Enclosed separators w) : Enclosed [] w :=
  h.mono (List.nil_subset _)

end Enclosed

theorem Names.enclosed {w names : List Token} (h : Names w names) : Enclosed [] w := by
  induction h with
  | none => exact .nil
  | one kind => exact .of_kind kind (by decide)
  | @more w names comma t _ _ separator kind ih =>
      have hpair : Enclosed [] ([comma] ++ [t]) :=
        .append (.of_kind separator (by decide)) (.of_kind kind (by decide))
      exact .append ih hpair

theorem Denotes.kind_mem {t : Token} {v : Constant} (h : Denotes t v) :
    t.kind ∈ [Kind.trueKw, .falseKw, .nullKw, .num, .str] := by
  cases h with
  | yes kind | no kind | null kind => simp [kind]
  | number kind | text kind | missing kind => rcases kind with kind | kind <;> simp [kind]

mutual

theorem Phrase.enclosed {d : Nat} {p : Place} {w : List Token} {e : Expr} :
    Phrase d p w e → Enclosed separators w
  | .value inside => inside.enclosed
  | .assign left _ sign right =>
      .append left.enclosed (.append (.of_kind sign (by decide)) right.enclosed)
  | .struct kind inside => .append (.of_kind kind (by decide)) inside.enclosed
  | .func kind around₁ names around₂ inside =>
      .append (.of_kind kind (by decide))
        (.append (.within around₁ names.enclosed) (.within around₂ inside.enclosed))
  | .tighter _ inside => inside.enclosed
  | @Phrase.operator _ p _ _ _ _ _ before sign after =>
      .append before.enclosed
        (.append (.of_mem p.operators sign (by cases p <;> decide)) after.enclosed)
  | .unary sign after =>
      .append (.of_mem [.bang, .minus, .bitNeg] (by simpa using sign) (by decide))
        after.enclosed
  | .call before around inside => .append before.enclosed (.within around inside.enclosed)
  | .member before kind => .append before.enclosed (.of_kind kind (by decide))
  | .constant denotes => .of_mem _ denotes.kind_mem (by decide)
  | .self kind => .of_kind kind (by decide)
  | .name kind =>
      .of_mem [.identifier, .underscore] (by simpa using kind) (by decide)
  | .grouping around inside => .within around inside.enclosed.loosen

theorem Operand.enclosed {d : Nat} {w : List Token} {e : Expr} :
    Operand d w e → Enclosed separators w
  | .deeper inside => inside.enclosed

theorem Arguments.enclosed {d : Nat} {w : List Token} {es : List Expr} :
    Arguments d w es → Enclosed [] w
  | .none => .nil
  | .one first => first.enclosed.loosen
  | .more before _ separator next =>
      .append before.enclosed (.append (.of_kind separator (by decide)) next.enclosed.loosen)

theorem StructBody.enclosed {d : Nat} {w params : List Token} {body : List FieldInit} :
    StructBody d w params body → Enclosed separators w
  | .bare around names => .within around names.enclosed
  | .full around₁ names around₂ inside =>
      .append (.within around₁ names.enclosed) (.within around₂ inside.enclosed)

theorem Fields.enclosed {d : Nat} {w : List Token} {body : List FieldInit} :
    Fields d w body → Enclosed [] w
  | .none => .nil
  | .more before kind sign next ends =>
      .append before.enclosed
        (.append (.of_kind kind (by decide))
          (.append (.of_kind sign (by decide))
            (.append next.enclosed.loosen (.of_kind ends (by decide)))))

theorem Clause.enclosed {d : Nat} {w : List Token} {o : Option Expr} :
    Clause d w o → Enclosed separators w
  | .absent => .nil
  | .present inside => inside.enclosed

theorem Statement.enclosed {d : Nat} {w : List Token} {s : Stmt} :
    Statement d w s → Enclosed [] w
  | .importing kind name around inside =>
      .append (.of_kind kind (by decide))
        (.append (.of_kind name (by decide)) (.within around inside.enclosed))
  | .returning kind inside ends =>
      .append (.of_kind kind (by decide))
        (.append inside.enclosed.loosen (.of_kind ends (by decide)))
  | .conditional kind after =>
      .append (.of_kind kind (by decide)) after.enclosed
  | .forLoop kind around₁ clause₁ separator₁ clause₂ separator₂ clause₃ around₂ inside _ _ _ =>
      .append (.of_kind kind (by decide))
        (.append
          (.within around₁
            (.append clause₁.enclosed.loosen
              (.append (.of_kind separator₁ (by decide))
                (.append clause₂.enclosed.loosen
                  (.append (.of_kind separator₂ (by decide)) clause₃.enclosed.loosen)))))
          (.within around₂ inside.enclosed))
  | .whileLoop kind around₁ test around₂ inside =>
      .append (.of_kind kind (by decide))
        (.append (.within around₁ test.enclosed.loosen) (.within around₂ inside.enclosed))
  | .matching kind around₁ value middle around₂ inside =>
      .append (.of_kind kind (by decide))
        (.append (.within around₁ value.enclosed.loosen)
          (.append (.of_kind middle (by decide))
            (.within around₂ inside.enclosed)))
  | .block around inside => .within around inside.enclosed
  | .expression inside ends => .append inside.enclosed.loosen (.of_kind ends (by decide))

theorem IfTail.enclosed {d : Nat} {w : List Token} {s : Stmt} : IfTail d w s → Enclosed [] w
  | .bare around test inside => .append (.within around test.enclosed.loosen) inside.enclosed
  | .elif around test inside kind after =>
      .append (.within around test.enclosed.loosen)
        (.append inside.enclosed
          (.append (.of_kind kind (by decide)) after.enclosed))
  | .otherwise around test inside kind after =>
      .append (.within around test.enclosed.loosen)
        (.append inside.enclosed
          (.append (.of_kind kind (by decide)) after.enclosed))

theorem Statements.enclosed {d : Nat} {w : List Token} {stmts : List Stmt} :
    Statements d w stmts → Enclosed [] w
  | .none => .nil
  | .more before next => .append before.enclosed next.enclosed

theorem Cases.enclosed {d : Nat} {w : List Token} {cases : List MatchCase} :
    Cases d w cases → Enclosed [] w
  | .none => .nil
  | .more before around test sign inside =>
      .append before.enclosed
        (.within around (.append test.enclosed.loosen
          (.append (.of_kind sign (by decide)) inside.enclosed)))

end

/-! ### Expressions are no statements -/

/-- The kinds of tokens by which a statement other than an expression is known. -/
def announcing : List Kind :=
  [.importKw, .returnKw, .ifKw, .forKw, .whileKw, .matchKw, .leftBracket]

/-- How an expression begins: with an expression in brackets, or with a token that
announces no statement. -/
inductive Begins : List Token → Prop
  | plain {t : Token} {rest : List Token} (kind : t.kind ∉ announcing) : Begins (t :: rest)
  | grouped {d : Nat} {l r : Token} {w rest : List Token} {e : Expr} (around : Brackets l r)
      (inside : Phrase d .expression w e) : Begins (within l w r ++ rest)

theorem Begins.append {w : List Token} (h : Begins w) (w' : List Token) : Begins (w ++ w') := by
  cases h with
  | plain kind => exact .plain kind
  | grouped around inside =>
      rw [List.append_assoc]
      exact .grouped around inside

theorem Begins.ne_nil {w : List Token} (h : Begins w) : w ≠ [] := by
  cases h <;> simp [within]

theorem Begins.of_mem (kinds : List Kind) {t : Token} {rest : List Token} (h : t.kind ∈ kinds)
    (hkinds : ∀ kind ∈ kinds, kind ∉ announcing) : Begins (t :: rest) :=
  .plain (hkinds _ h)

theorem Phrase.begins {d : Nat} {p : Place} {w : List Token} {e : Expr} :
    Phrase d p w e → Begins w
  | .value inside => inside.begins
  | .assign left _ _ _ => left.begins.append _
  | .struct kind _ => .plain (by simp [kind, announcing])
  | .func kind _ _ _ _ => .plain (by simp [kind, announcing])
  | .tighter _ inside => inside.begins
  | .operator before _ _ => before.begins.append _
  | .unary sign _ =>
      .of_mem [.bang, .minus, .bitNeg] (by simpa using sign) (by decide)
  | .call before _ _ => before.begins.append _
  | .member before _ => before.begins.append _
  | .constant denotes => .of_mem _ denotes.kind_mem (by decide)
  | .self kind => .plain (by simp [kind, announcing])
  | .name kind => .of_mem [.identifier, .underscore] (by simpa using kind) (by decide)
  | .grouping around inside => by
      rw [← List.append_nil (within _ _ _)]
      exact .grouped around inside

/-- Statements are none, or there is a first one. -/
theorem Statements.first {d : Nat} {w : List Token} {stmts : List Stmt} :
    Statements d w stmts → w = [] ∨ ∃ w₁ w₂ s, w = w₁ ++ w₂ ∧ Statement d w₁ s
  | .none => Or.inl rfl
  | @Statements.more _ _ w' _ s before next => by
      right
      rcases before.first with rfl | ⟨w₁, w₂, s', rfl, hfirst⟩
      · exact ⟨w', [], s, by simp, next⟩
      · exact ⟨w₁, w₂ ++ w', s', by simp, hfirst⟩

/-- A bracket at the beginning of an expression has an expression in it. -/
theorem Begins.inside {w s : List Token} {l r : Token} (h : Begins (within l w r ++ s))
    (around : Brackets l r) (hw : Enclosed [] w) : ∃ d e, Phrase d .expression w e := by
  generalize hall : within l w r ++ s = all at h
  cases h with
  | plain kind =>
      obtain ⟨rfl, -⟩ := List.cons.inj hall
      exact absurd (by simp [around.left, announcing]) kind
  | @grouped d l' r' w' rest e around' inside =>
      simp only [within, List.cons_append, List.append_assoc, List.nil_append,
        List.cons.injEq] at hall
      obtain ⟨rfl, -, -⟩ := hw.eq_of_append (by simp) (Or.inl around.right) inside.enclosed.loosen
        (Or.inl around'.right) hall.2
      exact ⟨d, e, inside⟩

/-- No tokens are an expression and statements at once.  Either the first
statement ends with a semicolon, and expressions have none, or both begin with a
bracket, and what is in the brackets would be both as well. -/
theorem Phrase.not_statements {d d' : Nat} {p : Place} {w : List Token} {e : Expr}
    {stmts : List Stmt} (h : Phrase d p w e) (h' : Statements d' w stmts) : False := by
  induction hn : w.length using Nat.strongRecOn generalizing d d' p w e stmts with
  | ind n ih =>
    have hbegins := h.begins
    have hkeyword {t : Token} {v : List Token} {kind : Kind} (ht : t.kind = kind)
        (hkind : kind ∈ announcing ∧ kind ≠ .leftBracket) : ¬Begins (t :: v) := by
      intro hb
      generalize hall : t :: v = all at hb
      cases hb with
      | plain hplain =>
          obtain ⟨rfl, -⟩ := List.cons.inj hall
          exact hplain (ht ▸ hkind.1)
      | grouped around _ =>
          obtain ⟨rfl, -⟩ := List.cons.inj hall
          exact hkind.2 (ht.symm.trans around.left)
    rcases h'.first with rfl | ⟨w₁, w₂, s, rfl, hfirst⟩
    · cases hbegins
    · cases hfirst with
      | importing kind | returning kind | conditional kind | forLoop kind | whileLoop kind
      | matching kind => exact hkeyword kind (by decide) hbegins
      | @block _ l r u _ around inside =>
          obtain ⟨_, _, hphrase⟩ := hbegins.inside around inside.enclosed
          refine ih u.length ?_ hphrase inside rfl
          rw [← hn]
          simp only [within, List.length_append, List.length_cons]
          omega
      | @expression _ v semicolon _ inside ends =>
          have hstop : semicolon.kind = .rightBracket ∨ semicolon.kind ∈ separators := by
            simp [ends, separators]
          have hends := inside.enclosed.extent_eq (s := w₂) hstop (by simp [ends])
          have hgoes := h.enclosed.extent_append 0 (fun _ => List.Subset.refl _) []
          simp only [List.append_nil, List.append_assoc, List.cons_append, List.nil_append,
            extent] at hgoes
          rw [hends] at hgoes
          simpa using congrArg List.length hgoes

end Grammar
end BracketScript
