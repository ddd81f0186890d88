import BracketScript.Proofs.Grammar.Composition
import BracketScript.Proofs.Grammar.Legible

/-!
# Printed programs read back

Reading the printed tokens of statements gives the statements, if they are
`printable` and do not nest too deeply.

An `if` without `else` is open at its end.  Nothing may be printed behind it that
it would take for a part of its own.
-/

namespace BracketScript
namespace Grammar

open Reader

/-! ### Statements -/

/-- No part of a conditional comes next. -/
def NoElse (s : List Token) : Prop :=
  ∀ t ∈ s.head?, t.kind ≠ .elifKw ∧ t.kind ≠ .elseKw

/-- The alternative of a conditional, once printed, reads back: behind the parts
that are there already the loop over `elif` reads some more, and then comes the
`else` part. -/
def ReadsAlternative (inner : Inner) (inFunction : Bool) (o : Option Stmt) (w s : List Token) :
    Prop :=
  ∀ arms : Array (Expr × Stmt), ∃ w₁ w₂ arms' o', w = w₁ ++ w₂ ∧
    Rounds (armRound inner inFunction) arms w₁ arms' (w₂ ++ s) ∧
    Takes (elsePart inner inFunction) w₂ o' s ∧ chain arms'.toList o' = chain arms.toList o

/-- The statement, once printed, reads back, on its own and as the alternative of
a conditional. -/
def StmtReadsBack (s : Stmt) : Prop :=
  ∀ inFunction, s.EveryNode printable inFunction → ∀ d rest,
    (s.endsOpen = true → NoElse rest) →
    (s.levels ≤ d → Takes ((level d).statement inFunction) s.print s rest) ∧
    (alternativeLevels s s.levels ≤ d + 1 →
      ReadsAlternative (level d) inFunction (some s) (printAlternative s s.print) rest)

/-- The tokens with which a statement begins. -/
def stmtStarts : List Kind :=
  [.importKw, .returnKw, .ifKw, .forKw, .whileKw, .matchKw] ++ Place.expression.starts

theorem print_head_stmt {s : Stmt} {inFunction : Bool} (h : s.EveryNode printable inFunction) :
    ∃ t w, s.print = t :: w ∧ t.kind ∈ stmtStarts := by
  cases s with
  | expression e =>
      obtain ⟨t, w, hprint, hkind⟩ := print_head e h.2
      have hstart := starts_of_fits (p := .expression) (Nat.zero_le _) hkind
      exact ⟨t, _, by rw [Stmt.print, hprint]; rfl, List.mem_append_right _ hstart⟩
  | block stmts => exact ⟨_, _, rfl, by simp [mark, stmtStarts, Place.starts]⟩
  | conditional condition consequence otherwise =>
      cases otherwise <;> exact ⟨_, _, rfl, by simp [mark, stmtStarts]⟩
  | whileLoop keyword condition body =>
      have hkind : keyword.kind ∈ stmtStarts := by
        rcases h.1.2.1 with hkind | hkind <;> simp [hkind, stmtStarts]
      unfold Stmt.print
      split <;> exact ⟨keyword, _, rfl, hkind⟩
  | matching keyword subject cases =>
      have hkind : keyword.kind = .matchKw := h.1.2
      exact ⟨keyword, _, rfl, by simp [hkind, stmtStarts]⟩
  | importing module names => exact ⟨_, _, rfl, by simp [mark, stmtStarts]⟩
  | returning keyword value =>
      have hkind : keyword.kind = .returnKw := (Stmt.everyNode_returning.mp h).1.2
      cases value <;> exact ⟨keyword, _, rfl, by simp [hkind, stmtStarts]⟩

/-- The first token of a statement is no bracket that closes, and no part of a
conditional. -/
theorem stmtStarts_ne {kind : Kind} (h : kind ∈ stmtStarts) :
    kind ≠ .rightBracket ∧ kind ≠ .elifKw ∧ kind ≠ .elseKw := by
  refine ⟨?_, ?_, ?_⟩ <;> rintro rfl <;> simp [stmtStarts, Place.starts] at h

/-- Only a conditional needs more than to read back on its own. -/
theorem StmtReadsBack.of_takes {s : Stmt} (hs : ∀ c t o, s ≠ .conditional c t o)
    (h : ∀ inFunction, s.EveryNode printable inFunction → ∀ d rest, s.levels ≤ d →
      Takes ((level d).statement inFunction) s.print s rest) : StmtReadsBack s := by
  refine fun inFunction hnodes d rest _ => ⟨h inFunction hnodes d rest, fun hd arms => ?_⟩
  have hprint : printAlternative s s.print = mark .elseKw "else" :: s.print := by
    cases s <;> first | rfl | exact absurd rfl (hs _ _ _)
  have hlevels : alternativeLevels s s.levels = s.levels + 1 := by
    cases s <;> first | rfl | exact absurd rfl (hs _ _ _)
  rw [hlevels] at hd
  refine ⟨[], printAlternative s s.print, arms, some s, rfl, ?_, ?_, rfl⟩
  · exact .stopWhenNext (by simp [hprint, mark])
  · rw [hprint]
    exact .acceptThen (by simp [mark]) (.map some (h inFunction hnodes d rest (by omega)))

/-- Statements in brackets, after the opening one. -/
theorem takes_block {stmts : List Stmt} {inFunction : Bool} {d : Nat} {rest : List Token}
    (hstmts : ∀ s ∈ stmts, StmtReadsBack s)
    (hnodes : ∀ s ∈ stmts, s.EveryNode printable inFunction) (hd : ∀ s ∈ stmts, s.levels ≤ d) :
    Takes (block (level d) inFunction) (printStmts stmts ++ [mark .rightBracket "]"]) stmts
      rest := by
  have hitems : Takes (untilBracket ((level d).statement inFunction)) (stmts.flatMap Stmt.print)
      stmts (mark .rightBracket "]" :: rest) := by
    refine .untilBracket (fun kind => kind ≠ .elifKw ∧ kind ≠ .elseKw) rfl (by simp)
      (fun s hs => ?_) (fun s hs u hu => ?_)
    · obtain ⟨t, w, hprint, hkind⟩ := print_head_stmt (hnodes s hs)
      exact ⟨t, w, hprint, stmtStarts_ne hkind⟩
    · exact (hstmts s hs inFunction (hnodes s hs) d u fun _ => hu).1 (hd s hs)
  rw [printStmts_eq_flatMap]
  exact .bind hitems (.expectThen rfl (.pure stmts rest))

theorem readsBack_func (keyword : Token) (params : List Token) {body : List Stmt}
    (hbody : ∀ s ∈ body, StmtReadsBack s) : ExprReadsBack (.func keyword params body) := by
  refine .of_place fun hnodes d hd => .of_reads not_false fun s _ => ?_
  obtain ⟨⟨hlength, hkind, hparams⟩, hnodes⟩ := hnodes
  have hblock : Takes (block (level d) true) (printStmts body ++ [mark .rightBracket "]"]) body
      s :=
    takes_block hbody (stmtsEveryNode_iff.mp hnodes) (stmtsLevels_le.mp hd)
  refine .acceptThen (by simp [hkind]) ?_
  simp only [hkind, reduceCtorEq, if_false]
  refine takes_namesThen hparams hlength (.expectThen rfl ?_)
  exact .bindPure (Expr.func keyword params) hblock

theorem readsBack_struct (keyword : Token) (params : List Token) {body : List FieldInit}
    (hbody : ∀ entry ∈ body, ExprReadsBack entry.value) :
    ExprReadsBack (.struct keyword params body) := by
  refine .of_place fun hnodes d hd => .of_reads not_false fun s hfollow => ?_
  obtain ⟨⟨hlength, hkind, hparams, hfields⟩, hnodes⟩ := hnodes
  rw [fieldsEveryNode_iff] at hnodes
  obtain ⟨d, rfl⟩ : ∃ n, d = n + 1 := ⟨d - 1, by simp only [Expr.levels] at hd; omega⟩
  have hd : ∀ entry ∈ body, entry.value.levels ≤ d :=
    fieldsLevels_le.mp (Nat.le_of_succ_le_succ hd)
  have hfield (entry : FieldInit) (hentry : entry ∈ body) (u : List Token) :
      Takes (fieldInit (level d)) entry.print entry u := by
    obtain ⟨hname, hfits⟩ := hfields entry hentry
    have hend : Follow .assignable (mark .semicolon ";" :: u) := follow_of_end (by simp [mark])
    have hvalue := (hbody entry hentry).assignable (hnodes entry hentry) hfits (hd entry hentry)
      hend
    obtain ⟨name, value⟩ := entry
    exact .expectThen hname (.expectThen rfl (.bind hvalue (.expectThen rfl (.pure _ u))))
  have hitems : Takes (untilBracket (fieldInit (level d))) (body.flatMap FieldInit.print) body
      (mark .rightBracket "]" :: s) := by
    refine .untilBracket (fun _ => True) rfl trivial (fun entry hentry => ?_)
      (fun entry hentry u _ => hfield entry hentry u)
    have hname : entry.name.kind = .identifier := (hfields entry hentry).1
    exact ⟨entry.name, _, rfl, by simp [hname], trivial⟩
  have hdecl {w : List Token} {e : Expr} (h : Takes (structDecl (level d) keyword) w e s) :
      Takes (Grammar.assignable (level (d + 1))) (keyword :: w) e s := by
    refine .acceptThen (by simp [hkind]) ?_
    simp only [hkind, if_true]
    exact h
  cases body with
  | nil =>
      -- What comes next must not be taken for a body.
      have hdecline : ∀ t ∈ ([] ++ s).head?, t.kind ∉ [Kind.leftBracket] := by
        intro t ht
        have hcall := hfollow t ht .call (by simp [Expr.place, Place.rank])
        simp only [Place.suffixes, List.mem_cons, List.not_mem_nil, or_false, not_or] at hcall ⊢
        exact hcall.1
      have hnames : Takes (structDecl (level d) keyword) (printNames params ++ [])
          (.struct keyword params []) s :=
        takes_namesThen hparams hlength (.declineThen hdecline (.pure _ s))
      rw [List.append_nil] at hnames
      exact hdecl hnames
  | cons entry body =>
      refine hdecl (takes_namesThen hparams hlength (.acceptThen (by simp [mark]) ?_))
      rw [printFields_eq_flatMap]
      exact .bind hitems (.expectThen rfl (.pure _ s))

theorem readsBack_expression {e : Expr} (he : ExprReadsBack e) : StmtReadsBack (.expression e) := by
  refine .of_takes (by simp) fun inFunction hnodes d rest hd => ?_
  obtain ⟨⟨-, hopen⟩, hnodes⟩ := hnodes
  obtain ⟨d, rfl⟩ : ∃ n, d = n + 1 := ⟨d - 1, by simp only [Stmt.levels] at hd; omega⟩
  have hend : Follow .expression (mark .semicolon ";" :: rest) := follow_of_end (by simp [mark])
  have hinside := he.expression hnodes (Nat.le_of_succ_le_succ hd) hend
  obtain ⟨t, w, hprint, hkind⟩ := print_head e hnodes
  have hdecline : ∀ u ∈ (e.print ++ [mark .semicolon ";"] ++ rest).head?, u.kind ∉
      [Kind.importKw, .returnKw, .ifKw, .forKw, .whileKw, .matchKw, .leftBracket] := by
    have hne : t.kind ≠ .leftBracket := hopen t (by simp [hprint])
    have hstart := starts_of_fits (p := .expression) (Nat.zero_le _) hkind
    have hstarts : ∀ kind ∈ Place.expression.starts, kind ≠ .leftBracket → kind ∉
        [Kind.importKw, .returnKw, .ifKw, .forKw, .whileKw, .matchKw, .leftBracket] := by
      decide
    simpa [hprint] using hstarts t.kind hstart hne
  exact .declineThen hdecline (.bind hinside (.expectThen rfl (.pure _ rest)))

theorem readsBack_block {stmts : List Stmt} (hstmts : ∀ s ∈ stmts, StmtReadsBack s) :
    StmtReadsBack (.block stmts) := by
  refine .of_takes (by simp) fun inFunction hnodes d rest hd => ?_
  obtain ⟨d, rfl⟩ : ∃ n, d = n + 1 := ⟨d - 1, by simp only [Stmt.levels] at hd; omega⟩
  have hblock : Takes (block (level d) inFunction) (printStmts stmts ++ [mark .rightBracket "]"])
      stmts rest :=
    takes_block hstmts (stmtsEveryNode_iff.mp hnodes.2)
      (stmtsLevels_le.mp (Nat.le_of_succ_le_succ hd))
  exact .acceptThen (by simp [mark]) (.map Stmt.block hblock)

theorem readsBack_importing (module : Token) (names : List Token) :
    StmtReadsBack (.importing module names) := by
  refine .of_takes (by simp) fun inFunction hnodes d rest hd => ?_
  obtain ⟨d, rfl⟩ : ∃ n, d = n + 1 := ⟨d - 1, by simp only [Stmt.levels] at hd; omega⟩
  obtain ⟨hlength, hmodule, hnames⟩ := hnodes
  refine .acceptThen (by simp [mark]) (.expectThen hmodule ?_)
  rw [← List.append_nil (printNames names)]
  exact takes_namesThen hnames hlength (.pure _ rest)

/-- A clause that is left out, before the token that shows it. -/
theorem takes_noExpr {inner : Inner} {kind : Kind} {t : Token} {s : List Token}
    (ht : t.kind = kind) : Takes (exprBefore inner kind) [] none (t :: s) := by
  refine .nextIsThen ?_
  simpa [ht] using Takes.pure none (t :: s)

/-- A clause that is there. -/
theorem takes_someExpr {e : Expr} {kind : Kind} {d : Nat} {s : List Token}
    (hkind : kind ∉ Place.expression.starts) (hnodes : e.EveryNode printable)
    (h : Takes (level d).expression e.print e s) :
    Takes (exprBefore (level d) kind) e.print (some e) s := by
  obtain ⟨t, w, hprint, hstart⟩ := print_head e hnodes
  have hne : t.kind ≠ kind := by
    rintro rfl
    exact hkind (starts_of_fits (Nat.zero_le _) hstart)
  refine .nextIsThen ?_
  rw [hprint] at h ⊢
  simp only [List.cons_append, List.head?_cons, Option.any_some, hne, decide_false,
    Bool.false_eq_true, if_false]
  exact .bindPure some h

theorem readsBack_returning (keyword : Token) {value : Option Expr}
    (hvalue : ∀ e ∈ value, ExprReadsBack e) : StmtReadsBack (.returning keyword value) := by
  refine .of_takes (by simp) fun inFunction hnodes d rest hd => ?_
  obtain ⟨⟨hplace, hkind⟩, hvalues⟩ := Stmt.everyNode_returning.mp hnodes
  have hplace : inFunction = true := hplace
  subst hplace
  obtain ⟨d, rfl⟩ : ∃ n, d = n + 1 := by
    refine ⟨d - 1, ?_⟩
    cases value <;> simp only [Stmt.levels] at hd <;> omega
  have hclose {w : List Token}
      (h : Takes (exprBefore (level d) .semicolon) w value (mark .semicolon ";" :: rest)) :
      Takes ((level (d + 1)).statement true) (keyword :: (w ++ [mark .semicolon ";"]))
        (.returning keyword value) rest := by
    refine .acceptThen (by simp [hkind]) ?_
    simp only [hkind, returnStatement_true]
    exact .bind h (.expectThen rfl (.pure _ rest))
  cases value with
  | none => exact hclose (takes_noExpr rfl)
  | some e =>
      have hend : Follow .expression (mark .semicolon ";" :: rest) :=
        follow_of_end (by simp [mark])
      refine hclose (takes_someExpr (by decide) (hvalues e rfl) ?_)
      exact (hvalue e rfl).expression (hvalues e rfl) (Nat.le_of_succ_le_succ hd) hend

/-- An expression in brackets, and what comes behind it. -/
theorem takes_bracketedThen {β : Type} {fault fault' : SyntaxFault} {e : Expr} {d : Nat}
    {k : Expr → Reader β} {b : β} {w s : List Token} (he : ExprReadsBack e)
    (hnodes : e.EveryNode printable) (hd : e.levels + 1 ≤ d) (hk : Takes (k e) w b s) :
    Takes (expect .leftBracket fault >>= fun _ => (level d).expression >>= fun e =>
      expect .rightBracket fault' >>= fun _ => k e) (brackets e.print ++ w) b s := by
  have hend : Follow .expression (mark .rightBracket "]" :: (w ++ s)) :=
    follow_of_end (by simp [mark])
  have hlist : brackets e.print ++ w =
      mark .leftBracket "[" :: (e.print ++ mark .rightBracket "]" :: w) := by
    simp [brackets]
  rw [hlist]
  exact .expectThen rfl (.bind (he.expression hnodes hd hend) (.expectThen rfl hk))

theorem readsBack_matching (keyword : Token) {subject : Expr} {cases : List MatchCase}
    (hsubject : ExprReadsBack subject)
    (hcases : ∀ entry ∈ cases, ExprReadsBack entry.pattern ∧ StmtReadsBack entry.consequence) :
    StmtReadsBack (.matching keyword subject cases) := by
  refine .of_takes (by simp) fun inFunction hnodes d rest hd => ?_
  obtain ⟨⟨-, hkind⟩, hnodes₁, hnodes₂⟩ := hnodes
  rw [casesEveryNode_iff] at hnodes₂
  obtain ⟨d, rfl⟩ : ∃ n, d = n + 1 := ⟨d - 1, by simp only [Stmt.levels] at hd; omega⟩
  simp only [Stmt.levels, Nat.succ_le_succ_iff, Nat.max_le, casesLevels_le] at hd
  have hcase (entry : MatchCase) (hentry : entry ∈ cases) (u : List Token) :
      Takes (matchCase (level d) inFunction) entry.print entry u := by
    obtain ⟨hpattern, hconsequence⟩ := hcases entry hentry
    obtain ⟨hpnodes, hcnodes⟩ := hnodes₂ entry hentry
    obtain ⟨hd₁, hd₂⟩ := hd.2 entry hentry
    obtain ⟨pattern, s⟩ := entry
    have harrow : Follow .expression
        (mark .arrow "->" :: (s.print ++ mark .rightBracket "]" :: u)) :=
      follow_of_end (by simp [mark])
    have hs := (hconsequence inFunction hcnodes d (mark .rightBracket "]" :: u) fun _ => by
      simp [NoElse, mark]).1 hd₂
    have hlist : MatchCase.print ⟨pattern, s⟩ = mark .leftBracket "[" ::
        (pattern.print ++ mark .arrow "->" :: (s.print ++ [mark .rightBracket "]"])) := by
      simp [MatchCase.print, brackets]
    rw [hlist]
    have hpattern : Takes (level d).expression pattern.print pattern
        (mark .arrow "->" :: (s.print ++ [mark .rightBracket "]"]) ++ u) := by
      simpa using hpattern.expression hpnodes hd₁ harrow
    exact .expectThen rfl (.bind hpattern (.expectThen rfl
      (.bind hs (.expectThen rfl (.pure _ u)))))
  have hitems : Takes (untilBracket (matchCase (level d) inFunction))
      (cases.flatMap MatchCase.print) cases (mark .rightBracket "]" :: rest) := by
    refine .untilBracket (fun _ => True) rfl trivial (fun entry hentry => ?_)
      (fun entry hentry u _ => hcase entry hentry u)
    exact ⟨_, _, rfl, by simp [mark], trivial⟩
  refine .acceptThen (by simp [hkind]) ?_
  simp only [hkind]
  refine takes_bracketedThen hsubject hnodes₁ hd.1 (.expectThen rfl (.expectThen rfl ?_))
  rw [printCases_eq_flatMap]
  exact .bind hitems (.expectThen rfl (.pure _ rest))

theorem readsBack_whileLoop (keyword : Token) {condition : Expr} {body : Stmt}
    (hcondition : ExprReadsBack condition)
    (hbody : ∀ stmts, body = .block stmts → ∀ s ∈ stmts, StmtReadsBack s) :
    StmtReadsBack (.whileLoop keyword condition body) := by
  refine .of_takes (by simp) fun inFunction hnodes d rest hd => ?_
  obtain ⟨⟨-, hkind, stmts, rfl⟩, hnodes₁, -, hnodes₂⟩ := hnodes
  obtain ⟨d, rfl⟩ : ∃ n, d = n + 1 := ⟨d - 1, by simp only [Stmt.levels] at hd; omega⟩
  simp only [Stmt.levels, Nat.max_le, Nat.succ_le_succ_iff] at hd
  have hblock : Takes (block (level d) inFunction) (printStmts stmts ++ [mark .rightBracket "]"])
      stmts rest :=
    takes_block (hbody stmts rfl) (stmtsEveryNode_iff.mp hnodes₂) (stmtsLevels_le.mp hd.2)
  rcases hkind with hkind | hkind
  · have hprint : (Stmt.whileLoop keyword condition (.block stmts)).print =
        keyword :: (brackets condition.print ++ (Stmt.block stmts).print) := by
      simp [Stmt.print, hkind]
    rw [hprint]
    refine .acceptThen (by simp [hkind]) ?_
    simp only [hkind]
    refine takes_bracketedThen hcondition hnodes₁ hd.1 (.expectThen rfl ?_)
    exact .bindPure (fun body => Stmt.whileLoop keyword condition (.block body)) hblock
  · have hprint : (Stmt.whileLoop keyword condition (.block stmts)).print =
        keyword :: mark .leftBracket "[" :: ([] ++ mark .comma "," :: (condition.print ++
          mark .comma "," :: ([] ++ mark .rightBracket "]" :: (Stmt.block stmts).print))) := by
      simp [Stmt.print, brackets, hkind]
    rw [hprint]
    have hend : Follow .expression (mark .comma "," :: (mark .rightBracket "]" ::
        (Stmt.block stmts).print ++ rest)) :=
      follow_of_end (by simp [mark])
    have htest : Takes (exprBefore (level d) .comma) condition.print (some condition)
        (mark .comma "," :: (mark .rightBracket "]" :: (Stmt.block stmts).print ++ rest)) :=
      takes_someExpr (by decide) hnodes₁ (hcondition.expression hnodes₁ hd.1 hend)
    refine .acceptThen (by simp [hkind]) ?_
    simp only [hkind]
    refine .expectThen rfl (.bind (takes_noExpr rfl) (.expectThen rfl ?_))
    refine .bind htest (.expectThen rfl (.bind (takes_noExpr rfl) (.expectThen rfl ?_)))
    exact .expectThen rfl (.bindLast hblock (.noteLoopThen (.pure _ rest)))

theorem takes_guarded {condition : Expr} {consequence : Stmt} {inFunction : Bool} {d : Nat}
    {s : List Token} (hcondition : ExprReadsBack condition)
    (hnodes : condition.EveryNode printable) (hd : condition.levels + 1 ≤ d)
    (h : Takes ((level d).statement inFunction) consequence.print consequence s) :
    Takes (guarded (level d) inFunction) (brackets condition.print ++ consequence.print)
      (condition, consequence) s :=
  takes_bracketedThen hcondition hnodes hd (.bindPure (Prod.mk condition) h)

/-- Nothing printed is nothing read, where no part of a conditional follows. -/
theorem readsAlternative_none {inner : Inner} {inFunction : Bool} {s : List Token}
    (h : NoElse s) : ReadsAlternative inner inFunction none [] s := by
  refine fun arms => ⟨[], [], arms, none, rfl, ?_, ?_, rfl⟩
  · exact .stopWhenNext fun t ht => by simpa using (h t ht).1
  · exact .declineThen (fun t ht => by simpa using (h t ht).2) (.pure none s)

/-- One more `elif` part. -/
theorem ReadsAlternative.elif {inner : Inner} {inFunction : Bool} {condition : Expr}
    {consequence : Stmt} {otherwise : Option Stmt} {w w' s : List Token}
    (hguarded : Takes (guarded inner inFunction) w (condition, consequence) (w' ++ s))
    (h : ReadsAlternative inner inFunction otherwise w' s) :
    ReadsAlternative inner inFunction (some (.conditional condition consequence otherwise))
      (mark .elifKw "elif" :: (w ++ w')) s := by
  intro arms
  obtain ⟨w₁, w₂, arms', o', rfl, hrounds, helse, hchain⟩ := h (arms.push (condition, consequence))
  refine ⟨mark .elifKw "elif" :: (w ++ w₁), w₂, arms', o', by simp, ?_, helse, ?_⟩
  · refine .moreWhenNext (by simp [mark]) ?_ hrounds
    rw [List.append_assoc] at hguarded
    exact .bindPure (fun arm => some (arms.push arm)) hguarded
  · simpa [chain] using hchain

theorem readsBack_conditional {condition : Expr} {consequence : Stmt} {otherwise : Option Stmt}
    (hcondition : ExprReadsBack condition) (hconsequence : StmtReadsBack consequence)
    (hotherwise : ∀ s ∈ otherwise, StmtReadsBack s) :
    StmtReadsBack (.conditional condition consequence otherwise) := by
  intro inFunction hnodes d rest hopen
  obtain ⟨⟨-, hlaw⟩, hnodes₁, hnodes₂, hnodes₃⟩ := Stmt.everyNode_conditional.mp hnodes
  have hparts (d : Nat)
      (hd : (Stmt.conditional condition consequence otherwise).levels ≤ d + 1) :
      Takes (guarded (level d) inFunction) (brackets condition.print ++ consequence.print)
        (condition, consequence) (printOtherwise otherwise ++ rest) ∧
      ReadsAlternative (level d) inFunction otherwise (printOtherwise otherwise) rest := by
    obtain ⟨hd₁, hd₂, hd₃⟩ := levels_conditional.mp hd
    cases otherwise with
    | none =>
        -- Whether or not the inner statement is open too, nothing follows that is for it.
        have hrest : NoElse rest := hopen rfl
        refine ⟨takes_guarded hcondition hnodes₁ hd₁ ?_, readsAlternative_none hrest⟩
        exact (hconsequence inFunction hnodes₂ d rest fun _ => hrest).1 hd₂
    | some s =>
        refine ⟨takes_guarded hcondition hnodes₁ hd₁ ?_, ?_⟩
        · refine (hconsequence inFunction hnodes₂ d _ fun hends => ?_).1 hd₂
          exact absurd hends (by simp [show consequence.endsOpen = false from hlaw])
        · exact (hotherwise s rfl inFunction (hnodes₃ s rfl) d rest hopen).2 (hd₃ s rfl)
  refine ⟨fun hd => ?_, fun hd => ?_⟩
  · obtain ⟨d, rfl⟩ : ∃ n, d = n + 1 := by
      refine ⟨d - 1, ?_⟩
      cases otherwise <;> simp only [Stmt.levels] at hd <;> omega
    obtain ⟨hguarded, halternative⟩ := hparts d hd
    obtain ⟨w₁, w₂, arms, o, htail, hrounds, helse, hchain⟩ := halternative #[]
    have hresult : otherwise = chain arms.toList o := by
      rw [hchain]
      rfl
    rw [print_conditional]
    refine .acceptThen (by simp [mark]) ?_
    change Takes (ifStatement (level d) inFunction) _ _ _
    rw [ifStatement_eq]
    rw [htail] at hguarded ⊢
    rw [hresult]
    refine .bind hguarded (.bind hrounds.loop ?_)
    exact .bindPure (fun o => Stmt.conditional condition consequence (chain arms.toList o)) helse
  · obtain ⟨hguarded, halternative⟩ := hparts d hd
    have h := halternative.elif hguarded
    unfold printAlternative
    rw [print_conditional]
    exact h

/-! ### No end marker is printed -/

/-- None of the tokens is an end marker. -/
def NoEof (w : List Token) : Prop :=
  ∀ t ∈ w, t.kind ≠ .eof

@[simp] theorem noEof_nil : NoEof [] := by
  simp [NoEof]

@[simp] theorem noEof_cons {t : Token} {w : List Token} :
    NoEof (t :: w) ↔ t.kind ≠ .eof ∧ NoEof w := by
  simp [NoEof]

@[simp] theorem noEof_append {w w' : List Token} : NoEof (w ++ w') ↔ NoEof w ∧ NoEof w' := by
  simp [NoEof, or_imp, forall_and]

@[simp] theorem noEof_flatMap {α : Type} {print : α → List Token} {items : List α} :
    NoEof (items.flatMap print) ↔ ∀ a ∈ items, NoEof (print a) := by
  induction items with
  | nil => simp
  | cons a items ih => simp [ih]

@[simp] theorem noEof_brackets {w : List Token} : NoEof (brackets w) ↔ NoEof w := by
  simp [brackets, mark]

theorem noEof_commas {ws : List (List Token)} (h : ∀ w ∈ ws, NoEof w) : NoEof (commas ws) := by
  cases ws with
  | nil => simp [commas]
  | cons w ws =>
      rw [commas_cons]
      simpa [mark] using h

theorem noEof_printNames {names : List Token} (h : ∀ t ∈ names, t.kind = .identifier) :
    NoEof (printNames names) := by
  simp only [printNames, noEof_brackets]
  refine noEof_commas fun w hw => ?_
  obtain ⟨t, ht, rfl⟩ := List.mem_map.mp hw
  simp [h t ht]

theorem noEof_printAlternative {s : Stmt} {w : List Token} (h : NoEof w) :
    NoEof (printAlternative s w) := by
  unfold printAlternative
  split
  · have htail : NoEof w.tail := fun t ht => h t (List.mem_of_mem_tail ht)
    simpa [mark] using htail
  · simpa [mark] using h

theorem noEof_printOtherwise {o : Option Stmt} (h : ∀ s ∈ o, NoEof s.print) :
    NoEof (printOtherwise o) := by
  cases o with
  | none => exact noEof_nil
  | some s => exact noEof_printAlternative (h s rfl)

theorem operator_ne_eof {kind : Kind} (h : kind ∈ (operatorPlace kind).operators) :
    kind ≠ .eof := by
  rintro rfl
  simp [operatorPlace, Place.operators] at h

theorem noEof_steps : TreeSteps (fun e => e.EveryNode printable → NoEof e.print)
    (fun s => ∀ inFunction, s.EveryNode printable inFunction → NoEof s.print) where
  constant value _ := by
    rcases value with _ | (_ | _) | _ | _ <;> simp [Expr.print, Constant.print, mark]
  name t h := by
    rcases h.1 with hkind | hkind <;> simp [Expr.print, hkind]
  assign target _ hvalue h := by
    have htarget : NoEof target.print := by
      cases target with
      | «variable» name =>
          rcases h.1.1 with hkind | hkind <;> simp [Target.print, hkind]
      | selfField keyword name => simp [Target.print, h.1.1.1, h.1.1.2]
    simp [Expr.print, mark, htarget, hvalue h.2]
  binary op hleft hright h := by
    simp [Expr.print, hleft h.2.1, hright h.2.2, operator_ne_eof h.1.2.sign]
  logical op hleft hright h := by
    simp [Expr.print, hleft h.2.1, hright h.2.2, operator_ne_eof h.1.2.sign]
  unary op _ hright h := by
    have hop : op.kind ∈ [Kind.bang, .minus, .bitNeg] := h.1.2.1
    have hne : op.kind ≠ .eof := by
      intro hkind
      simp [hkind] at hop
    simp [Expr.print, hne, hright h.2]
  grouping he h := by simpa [Expr.print] using he h.2
  call bracket args hcallee hargs h := by
    obtain ⟨⟨-, hbracket, -⟩, hnodes, hnodes'⟩ := h
    have hcommas : NoEof (commas (args.map Expr.print)) := by
      refine noEof_commas fun w hw => ?_
      obtain ⟨e, he, rfl⟩ := List.mem_map.mp hw
      exact hargs e he (exprsEveryNode_iff.mp hnodes' e he)
    simp [Expr.print, mark, hbracket, hcommas, hcallee hnodes]
  member t hobject h := by
    have hkind : t.kind = .identifier := h.1.1
    simp [Expr.print, hkind, hobject h.2]
  self keyword h := by
    have hkind : keyword.kind = .selfKw := h.1
    simp [Expr.print, hkind]
  func keyword params body hbody h := by
    obtain ⟨⟨-, hkind, hparams⟩, hnodes⟩ := h
    have hstmts : ∀ s ∈ body, NoEof s.print :=
      fun s hs => hbody s hs true (stmtsEveryNode_iff.mp hnodes s hs)
    simpa [Expr.print, hkind, noEof_printNames hparams] using hstmts
  struct keyword params body hbody h := by
    obtain ⟨⟨-, hkind, hparams, hfields⟩, hnodes⟩ := h
    have hentries : ∀ entry ∈ body, NoEof entry.print := fun entry hentry => by
      simp [FieldInit.print, mark, (hfields entry hentry).1,
        hbody entry hentry (fieldsEveryNode_iff.mp hnodes entry hentry)]
    cases body with
    | nil => simp [Expr.print, hkind, noEof_printNames hparams]
    | cons entry body => simpa [Expr.print, hkind, noEof_printNames hparams] using hentries
  expression he inFunction h := by simp [Stmt.print, mark, he h.2]
  block hstmts inFunction h := by
    simpa [Stmt.print] using
      fun s hs => hstmts s hs inFunction (stmtsEveryNode_iff.mp h.2 s hs)
  conditional hcondition hconsequence hotherwise inFunction h := by
    obtain ⟨-, hnodes₁, hnodes₂, hnodes₃⟩ := Stmt.everyNode_conditional.mp h
    have hrest := noEof_printOtherwise fun s hs => hotherwise s hs inFunction (hnodes₃ s hs)
    rw [print_conditional]
    simp [mark, hcondition hnodes₁, hconsequence inFunction hnodes₂, hrest]
  whileLoop keyword _ _ hcondition hbody inFunction h := by
    obtain ⟨⟨-, hkind, -⟩, hnodes₁, hnodes₂⟩ := h
    have hne : keyword.kind ≠ .eof := by
      rcases hkind with hkind | hkind <;> simp [hkind]
    unfold Stmt.print
    split <;> simp [mark, hne, hcondition hnodes₁, hbody inFunction hnodes₂]
  matching keyword _ cases hsubject hcases inFunction h := by
    obtain ⟨⟨-, hkind⟩, hnodes₁, hnodes₂⟩ := h
    have hentries : ∀ entry ∈ cases, NoEof entry.print := fun entry hentry => by
      obtain ⟨hpattern, hconsequence⟩ := casesEveryNode_iff.mp hnodes₂ entry hentry
      simp [MatchCase.print, mark, (hcases entry hentry).1 hpattern,
        (hcases entry hentry).2 inFunction hconsequence]
    have hkind : keyword.kind = .matchKw := hkind
    simpa [Stmt.print, mark, hkind, hsubject hnodes₁] using hentries
  importing module names inFunction h := by
    obtain ⟨-, hmodule, hnames⟩ := h
    simp [Stmt.print, mark, hmodule, noEof_printNames hnames]
  returning keyword value hvalue inFunction h := by
    obtain ⟨⟨-, hkind⟩, hnodes⟩ := Stmt.everyNode_returning.mp h
    have hkind : keyword.kind = .returnKw := hkind
    cases value with
    | none => simp [Stmt.print, mark, hkind]
    | some e => simp [Stmt.print, mark, hkind, hvalue e rfl (hnodes e rfl)]

/-! ### Programs -/

/-- All trees read back.  The body of a loop is not read as a statement, so what
is shown of a block is shown of the statements in it too. -/
theorem readsBack_steps : TreeSteps ExprReadsBack
    (fun s => StmtReadsBack s ∧ ∀ stmts, s = .block stmts → ∀ t ∈ stmts, StmtReadsBack t) where
  constant := readsBack_literal
  name := readsBack_variable
  assign target _ := readsBack_assign target
  binary := readsBack_binary
  logical := readsBack_logical
  unary op _ := readsBack_unary op
  grouping := readsBack_grouping
  call := readsBack_call
  member := readsBack_attribute
  self := readsBack_selfRef
  func keyword params _ hbody := readsBack_func keyword params fun s hs => (hbody s hs).1
  struct keyword params _ := readsBack_struct keyword params
  expression he := ⟨readsBack_expression he, by simp⟩
  block hstmts := by
    refine ⟨readsBack_block fun s hs => (hstmts s hs).1, ?_⟩
    rintro stmts ⟨⟩ s hs
    exact (hstmts s hs).1
  conditional hcondition hconsequence hotherwise :=
    ⟨readsBack_conditional hcondition hconsequence.1 fun s hs => (hotherwise s hs).1, by simp⟩
  whileLoop keyword _ _ hcondition hbody :=
    ⟨readsBack_whileLoop keyword hcondition hbody.2, by simp⟩
  matching keyword _ _ hsubject hcases :=
    ⟨readsBack_matching keyword hsubject fun entry hentry =>
      ⟨(hcases entry hentry).1, (hcases entry hentry).2.1⟩, by simp⟩
  importing module names := ⟨readsBack_importing module names, by simp⟩
  returning keyword _ hvalue := ⟨readsBack_returning keyword hvalue, by simp⟩

/-- No part of a conditional begins a printed program. -/
theorem noElse_flatMap {trees : List Stmt} {inFunction : Bool}
    (hnodes : ∀ tree ∈ trees, tree.EveryNode printable inFunction) :
    NoElse (trees.flatMap Stmt.print) := by
  cases trees with
  | nil => simp [NoElse]
  | cons tree trees =>
      obtain ⟨t, w, hprint, hkind⟩ := print_head_stmt (hnodes tree (by simp))
      simpa [NoElse, hprint] using (stmtStarts_ne hkind).2

/-- Statement after statement reads back. -/
theorem statements_print {d : Nat} (trees : List Stmt)
    (hnodes : ∀ tree ∈ trees, tree.EveryNode printable false)
    (hlevels : ∀ tree ∈ trees, tree.levels ≤ d) (n : Nat) (done : Array Stmt) (c : Cursor)
    (hrest : c.rest = trees.flatMap Stmt.print) (hn : c.rest.length ≤ n) :
    ∃ loops, statements ((level d).statement false) n done c =
      (done ++ trees, { c with rest := [], loops := loops }) := by
  induction trees generalizing n done c with
  | nil =>
      refine ⟨c.loops, ?_⟩
      have hrest : c.rest = [] := hrest
      rw [statements_of_nil hrest, ← hrest]
      simp
  | cons tree trees ih =>
      obtain ⟨htree, htrees⟩ := List.forall_mem_cons.mp hnodes
      obtain ⟨hlevel, hlevels⟩ := List.forall_mem_cons.mp hlevels
      have hreads := (readsBack_steps.stmt tree).1 false htree d (trees.flatMap Stmt.print)
        fun _ => noElse_flatMap htrees
      obtain ⟨loops, htake⟩ := hreads.1 hlevel c (by simpa using hrest)
      obtain ⟨t, w, hprint, -⟩ := print_head_stmt htree
      have hne : c.rest ≠ [] := by
        rw [hrest]
        simp [hprint]
      have hlt : (trees.flatMap Stmt.print).length < c.rest.length := by
        rw [hrest]
        simp only [List.flatMap_cons, hprint, List.length_append, List.length_cons]
        omega
      obtain ⟨n, rfl⟩ : ∃ m, n = m + 1 := ⟨n - 1, by omega⟩
      obtain ⟨loops', hmore⟩ := ih htrees hlevels n (done.push tree)
        { c with rest := trees.flatMap Stmt.print, loops := loops } rfl
        (by simp only; omega)
      refine ⟨loops', ?_⟩
      rw [statements_of_some hne htake, hmore]
      simp

end Grammar

open Grammar

/-- Printing well-formed statements and reading them again gives the same
statements. -/
theorem parse_print (trees : List Stmt) (eof : Token) (heof : eof.kind = .eof)
    (hnodes : ∀ tree ∈ trees, tree.EveryNode printable false)
    (hlevels : ∀ tree ∈ trees, tree.levels ≤ 255) :
    parse (printStmts trees ++ [eof]) = .ok trees := by
  have hnoEof : NoEof (trees.flatMap Stmt.print) :=
    noEof_flatMap.mpr fun tree htree => noEof_steps.stmt tree false (hnodes tree htree)
  have hrest : (Cursor.ofTokens (printStmts trees ++ [eof])).rest =
      trees.flatMap Stmt.print := by
    have hall : ∀ t ∈ trees.flatMap Stmt.print, (decide (t.kind ≠ .eof)) = true :=
      fun t ht => by simpa using hnoEof t ht
    simp only [Cursor.ofTokens, printStmts_eq_flatMap]
    rw [List.takeWhile_append_of_pos hall]
    simp [heof]
  obtain ⟨loops, hread⟩ := statements_print trees hnodes hlevels _ #[] _ hrest (Nat.le_refl _)
  have hprogram : program (Cursor.ofTokens (printStmts trees ++ [eof])) =
      (#[] ++ trees, { Cursor.ofTokens (printStmts trees ++ [eof]) with
        rest := [], loops := loops }) := hread
  rw [parse_eq_ok_iff, hprogram]
  exact ⟨rfl, by simp⟩

/-- `f := func [x] [if [x] return -x; elif [x y] [] else for [, true, ] [f[x - x - x];]];`
reads back. -/
theorem parse_print_func :
    let f : Token := ⟨.identifier, "f", none, 1⟩
    let x : Token := ⟨.identifier, "x", none, 1⟩
    let y : Token := ⟨.identifier, "y", none, 1⟩
    let minus : Token := ⟨.minus, "-", none, 1⟩
    let trees : List Stmt :=
      [.expression (.assign (.variable f) (.func ⟨.funcKw, "func", none, 1⟩ [x]
        [.conditional (.variable x)
          (.returning ⟨.returnKw, "return", none, 1⟩ (some (.unary minus (.variable x))))
          (some (.conditional (.attribute (.variable x) y) (.block [])
            (some (.whileLoop ⟨.forKw, "for", none, 1⟩ (.literal (.bool true))
              (.block [.expression (.call (.variable f) ⟨.rightBracket, "]", none, 1⟩
                [.binary (.binary (.variable x) minus (.variable x)) minus
                  (.variable x)])])))))]))]
    parse (printStmts trees ++ [⟨.eof, "", none, 1⟩]) = .ok trees := by
  intro f x y minus trees
  refine parse_print trees ⟨.eof, "", none, 1⟩ rfl ?_ ?_
  · have hf : f.kind = .identifier := rfl
    have hx : x.kind = .identifier := rfl
    have hy : y.kind = .identifier := rfl
    have hminus : minus.kind = .minus := rfl
    have hdifference : Operands (.binary (.variable x) minus (.variable x)) (.variable x) minus
        (.variable x) :=
      ⟨by decide, rfl, by decide, by decide⟩
    have hdifferences : Operands (.binary (.binary (.variable x) minus (.variable x)) minus
        (.variable x)) (.binary (.variable x) minus (.variable x)) minus (.variable x) :=
      ⟨by decide, rfl, by decide, by decide⟩
    simp [trees, hf, hx, hy, hminus, hdifference, hdifferences, Stmt.EveryNode, Expr.EveryNode,
      printable, limits, Expr.print, Target.print, Stmt.endsOpen, Expr.Fits, Expr.place,
      Place.rank]
  · simp [trees, Stmt.levels, Expr.levels, stmtsLevels, exprsLevels, alternativeLevels]

end BracketScript
