import BracketScript.Proofs.Grammar.Composition

/-!
# Limits on nesting

How many levels may be open makes one difference only: a reader that gets to its
limit notes that there is too much nesting.  A reader with a lower limit either
does what one with a higher limit does or has noted this fault (`Curbed`).  So
what can be read within any limit is either read, as the same statements, or
refused with this fault (`parse_of_parseWithin`).
-/

namespace BracketScript

/-- It is among the noted faults that there is too much nesting. -/
def Cursor.TooDeep (c : Cursor) : Prop :=
  ∃ e ∈ c.errors, e.fault = .tooMuchNesting

namespace Reader

variable {α β : Type}

/-- The first reader does what the second one does, or notes that there is too
much nesting. -/
structure Curbed (p q : Reader α) : Prop where
  keeps (c : Cursor) : ∀ e ∈ c.errors, e ∈ (p c).2.errors
  same (c : Cursor) : p c = q c ∨ (p c).2.TooDeep

namespace Curbed

theorem of_parallel {f : Token → Token} {g : α → α} {p q : Reader α} (h : Parallel f g p q) :
    Curbed p p :=
  ⟨h.keeps, fun _ => Or.inl rfl⟩

/-- What was noted stays noted. -/
theorem tooDeep {p q : Reader α} (h : Curbed p q) {c : Cursor} (hc : c.TooDeep) :
    (p c).2.TooDeep := by
  obtain ⟨e, he, hfault⟩ := hc
  exact ⟨e, h.keeps c e he, hfault⟩

theorem pure (a : α) : Curbed (pure a) (pure a) :=
  of_parallel (.pure (f := id) id a)

theorem accept (kinds : List Kind) : Curbed (accept? kinds) (accept? kinds) :=
  of_parallel (.accept (f := id) kinds)

theorem nextIs (kind : Kind) : Curbed (nextIs kind) (nextIs kind) :=
  of_parallel (.nextIs (f := id) kind)

theorem report (t : Token) (fault : SyntaxFault) : Curbed (report t fault) (report t fault) :=
  of_parallel (.report (f := id) t fault)

theorem fail (fault : SyntaxFault) : Curbed (fail fault : Reader α) (fail fault) :=
  of_parallel (.fail (f := id) id fault)

theorem expect (kind : Kind) (fault : SyntaxFault) :
    Curbed (expect kind fault) (expect kind fault) :=
  of_parallel (.expect (f := id) kind fault)

/-- A reader that may open no level at all. -/
theorem limit (q : Reader α) : Curbed (Reader.fail .tooMuchNesting) q where
  keeps := (fail .tooMuchNesting).keeps
  same _ := Or.inr ⟨_, Array.mem_push_self, rfl⟩

theorem bind {p q : Reader α} {k l : α → Reader β} (hp : Curbed p q)
    (hk : ∀ a, Curbed (k a) (l a)) : Curbed (p >>= k) (q >>= l) where
  keeps := bind_keeps hp.keeps fun a => (hk a).keeps
  same c := by
    have hfirst := hp.same c
    rcases bind_cases p k c with ⟨a, d, hd, hbind⟩ | ⟨d, hd, hbind⟩
    · rw [hd] at hfirst
      rw [hbind]
      rcases hfirst with hsame | hdeep
      · rw [bind_of_some hsame.symm]
        exact (hk a).same d
      · exact Or.inr ((hk a).tooDeep hdeep)
    · rw [hd] at hfirst
      rw [hbind]
      rcases hfirst with hsame | hdeep
      · exact Or.inl (bind_of_none hsame.symm).symm
      · exact Or.inr hdeep

theorem map {p q : Reader α} (g : α → β) (hp : Curbed p q) : Curbed (g <$> p) (g <$> q) :=
  hp.bind fun a => pure (g a)

theorem loop {step step' : α → Reader (Option α)} (hstep : ∀ a, Curbed (step a) (step' a))
    (a : α) : Curbed (loop step a) (loop step' a) where
  keeps c := Closed.loopWithin_keeps (fun a => (hstep a).keeps) c.rest.length a c
  same c := by
    unfold Reader.loop
    generalize c.rest.length = n
    induction n generalizing a c with
    | zero => exact Or.inl rfl
    | succ n ih =>
        have hround := (hstep a).same c
        rcases step_cases step a c with ⟨a', d, hd⟩ | ⟨d, hd⟩ | ⟨d, hd⟩ <;> rw [hd] at hround
        · rw [loopWithin_of_more hd]
          rcases hround with hsame | ⟨e, he, hfault⟩
          · rw [loopWithin_of_more hsame.symm]
            exact ih a' d
          · exact Or.inr ⟨e, Closed.loopWithin_keeps (fun a => (hstep a).keeps) n a' d e he, hfault⟩
        · rw [loopWithin_of_stop hd]
          exact hround.imp_left fun hsame => (loopWithin_of_stop hsame.symm).symm
        · rw [loopWithin_of_fail hd]
          exact hround.imp_left fun hsame => (loopWithin_of_fail hsame.symm).symm

theorem whenNext (kinds : List Kind) {k l : Token → Reader (Option α)}
    (hk : ∀ t, Curbed (k t) (l t)) : Curbed (whenNext kinds k) (whenNext kinds l) := by
  refine .bind (accept kinds) fun o => ?_
  cases o with
  | none => exact pure none
  | some t => exact hk t

theorem untilBracket {p q : Reader α} (hp : Curbed p q) :
    Curbed (untilBracket p) (untilBracket q) := by
  refine .bind (loop (fun items => ?_) #[]) fun items => pure items.toList
  refine .bind (nextIs .rightBracket) fun closes => ?_
  cases closes with
  | true => exact pure none
  | false =>
      refine .bind (of_parallel (.atEnd (f := id))) fun ends => ?_
      cases ends with
      | true => exact pure none
      | false => exact .bind hp fun item => pure (some (items.push item))

theorem entry (list : ListKind) {p q : Reader α} (hp : Curbed p q) (count : Nat) :
    Curbed (entry list p count) (entry list q count) := by
  unfold Reader.entry
  by_cases hcount : maxEntries ≤ count
  · simp only [hcount, if_true]
    refine .bind (of_parallel (.peek (f := id))) fun t => ?_
    exact .bind (report t _) fun _ => hp
  · simp only [hcount, if_false]
    exact hp

theorem entries (list : ListKind) {p q : Reader α} (hp : Curbed p q) :
    Curbed (entries list p) (entries list q) := by
  rw [entries_eq, entries_eq]
  have hopen : Curbed (openEntries list p) (openEntries list q) := by
    refine .bind (nextIs .rightBracket) fun closes => ?_
    cases closes with
    | true => exact pure #[]
    | false =>
        refine .bind (entry list hp 0) fun first => loop (fun items => ?_) #[first]
        refine whenNext _ fun _ => ?_
        exact .bind (entry list hp items.size) fun item => pure (some (items.push item))
  refine .bind hopen fun items => ?_
  exact .bind (expect _ _) fun bracket => pure (items.toList, bracket)

end Curbed

end Reader

namespace Grammar

open Reader

/-! ### Each production -/

/-- The readers of the next level have a lower limit than the others. -/
structure Inner.Curbed (inner inner' : Inner) : Prop where
  statement (inFunction : Bool) :
    Reader.Curbed (inner.statement inFunction) (inner'.statement inFunction)
  expression : Reader.Curbed inner.expression inner'.expression
  operand : Reader.Curbed inner.operand inner'.operand
  structBody (keyword : Token) :
    Reader.Curbed (inner.structBody keyword) (inner'.structBody keyword)

section Productions

variable {inner inner' : Inner} (hi : inner.Curbed inner')

include hi

theorem curbed_block (inFunction : Bool) :
    Reader.Curbed (block inner inFunction) (block inner' inFunction) := by
  refine .bind (.untilBracket (hi.statement inFunction)) fun stmts => ?_
  exact .bind (.expect _ _) fun _ => .pure stmts

theorem curbed_function (keyword : Token) :
    Reader.Curbed (function inner keyword) (function inner' keyword) := by
  refine .bind (.expect _ _) fun _ => ?_
  refine .bind (.entries _ (.expect _ _)) fun params => ?_
  refine .bind (.expect _ _) fun _ => ?_
  exact .bind (curbed_block hi true) fun body => .pure _

theorem curbed_primary : Reader.Curbed (primary inner) (primary inner') := by
  refine .bind (.accept _) fun o => ?_
  cases o with
  | none => exact .fail _
  | some t =>
      dsimp only
      split
      case h_7 =>
        refine .bind hi.expression fun e => ?_
        exact .bind (.expect _ _) fun _ => .pure _
      case h_4 | h_5 => split <;> exact .pure _
      all_goals exact .pure _

theorem curbed_call : Reader.Curbed (call inner) (call inner') := by
  rw [call_eq, call_eq]
  refine .bind (curbed_primary hi) fun e => .loop (fun e => .whenNext _ fun t => ?_) e
  by_cases hkind : t.kind = .identifier
  · simp only [hkind, if_true]
    exact .pure _
  · simp only [hkind, if_false]
    exact .bind (.entries _ hi.expression) fun args => .pure _

theorem curbed_unary : Reader.Curbed (unary inner) (unary inner') := by
  refine .bind (.accept _) fun o => ?_
  cases o with
  | none => exact curbed_call hi
  | some op => exact .bind hi.operand fun right => .pure _

omit hi in
theorem curbed_leftAssoc (node : Expr → Token → Expr → Expr) (ops : List Kind)
    {operand operand' : Reader Expr} (h : Reader.Curbed operand operand') :
    Reader.Curbed (leftAssoc node ops operand) (leftAssoc node ops operand') := by
  rw [leftAssoc_eq, leftAssoc_eq]
  refine .bind h fun left => .loop (fun left => .whenNext _ fun op => ?_) left
  exact .bind h fun right => .pure _

theorem curbed_disjunction : Reader.Curbed (disjunction inner) (disjunction inner') := by
  have hfactor : Reader.Curbed (factor inner) (factor inner') :=
    curbed_leftAssoc _ _ (curbed_unary hi)
  have hterm : Reader.Curbed (term inner) (term inner') := curbed_leftAssoc _ _ hfactor
  have hbitwise : Reader.Curbed (bitwise inner) (bitwise inner') := curbed_leftAssoc _ _ hterm
  have hcomparison : Reader.Curbed (comparison inner) (comparison inner') :=
    curbed_leftAssoc _ _ hbitwise
  have hequality : Reader.Curbed (equality inner) (equality inner') :=
    curbed_leftAssoc _ _ hcomparison
  exact curbed_leftAssoc _ _ (curbed_leftAssoc _ _ hequality)

theorem curbed_assignable : Reader.Curbed (assignable inner) (assignable inner') := by
  refine .bind (.accept _) fun o => ?_
  cases o with
  | none => exact curbed_disjunction hi
  | some t =>
      by_cases hkind : t.kind = .structKw
      · simp only [hkind, if_true]
        exact hi.structBody t
      · simp only [hkind, if_false]
        exact curbed_function hi t

theorem curbed_assignment : Reader.Curbed (assignment inner) (assignment inner') := by
  refine .bind (curbed_assignable hi) fun left => ?_
  refine .bind (.accept _) fun o => ?_
  cases o with
  | none => exact .pure left
  | some walrus =>
      refine .bind (curbed_assignable hi) fun value => ?_
      cases target? left with
      | some target => exact .pure _
      | none => exact .bind (.report walrus _) fun _ => .pure left

theorem curbed_structDecl (keyword : Token) :
    Reader.Curbed (structDecl inner keyword) (structDecl inner' keyword) := by
  have hfield : Reader.Curbed (fieldInit inner) (fieldInit inner') := by
    refine .bind (.expect _ _) fun name => ?_
    refine .bind (.expect _ _) fun _ => ?_
    refine .bind (curbed_assignable hi) fun value => ?_
    exact .bind (.expect _ _) fun _ => .pure _
  refine .bind (.expect _ _) fun _ => ?_
  refine .bind (.entries _ (.expect _ _)) fun params => ?_
  refine .bind (.accept _) fun o => ?_
  cases o with
  | none => exact .pure _
  | some _ =>
      refine .bind (.untilBracket hfield) fun body => ?_
      exact .bind (.expect _ _) fun _ => .pure _

theorem curbed_exprBefore (kind : Kind) :
    Reader.Curbed (exprBefore inner kind) (exprBefore inner' kind) := by
  refine .bind (.nextIs kind) fun stops => ?_
  cases stops with
  | true => exact .pure none
  | false => exact .bind hi.expression fun e => .pure (some e)

theorem curbed_returnStatement (inFunction : Bool) (keyword : Token) :
    Reader.Curbed (returnStatement inner inFunction keyword)
      (returnStatement inner' inFunction keyword) := by
  have hvalue : Reader.Curbed (returnValue inner keyword) (returnValue inner' keyword) := by
    refine .bind (curbed_exprBefore hi _) fun value => ?_
    exact .bind (.expect _ _) fun _ => .pure _
  cases inFunction with
  | true => exact hvalue
  | false => exact .bind (.report keyword _) fun _ => hvalue

theorem curbed_guarded (inFunction : Bool) :
    Reader.Curbed (guarded inner inFunction) (guarded inner' inFunction) := by
  refine .bind (.expect _ _) fun _ => ?_
  refine .bind hi.expression fun condition => ?_
  refine .bind (.expect _ _) fun _ => ?_
  exact .bind (hi.statement inFunction) fun consequence => .pure _

theorem curbed_ifStatement (inFunction : Bool) :
    Reader.Curbed (ifStatement inner inFunction) (ifStatement inner' inFunction) := by
  rw [ifStatement_eq, ifStatement_eq]
  refine .bind (curbed_guarded hi inFunction) fun arm => ?_
  refine .bind (.loop (fun arms => .whenNext _ fun _ => ?_) #[]) fun arms => ?_
  · exact .bind (curbed_guarded hi inFunction) fun arm => .pure _
  · refine .bind (.bind (.accept _) fun o => ?_) fun otherwise => .pure _
    cases o with
    | none => exact .pure none
    | some _ => exact .map some (hi.statement inFunction)

theorem curbed_forStatement (inFunction : Bool) (keyword : Token) :
    Reader.Curbed (forStatement inner inFunction keyword)
      (forStatement inner' inFunction keyword) := by
  refine .bind (.expect _ _) fun _ => ?_
  refine .bind (curbed_exprBefore hi _) fun initializer => ?_
  refine .bind (.expect _ _) fun _ => ?_
  refine .bind (curbed_exprBefore hi _) fun condition => ?_
  refine .bind (.expect _ _) fun _ => ?_
  refine .bind (curbed_exprBefore hi _) fun increment => ?_
  refine .bind (.expect _ _) fun _ => ?_
  refine .bind (.expect _ _) fun _ => ?_
  refine .bind (curbed_block hi inFunction) fun body => ?_
  exact .bind (.of_parallel (.noteLoop (f := id) _ keyword.line)) fun _ => .pure _

theorem curbed_whileStatement (inFunction : Bool) (keyword : Token) :
    Reader.Curbed (whileStatement inner inFunction keyword)
      (whileStatement inner' inFunction keyword) := by
  refine .bind (.expect _ _) fun _ => ?_
  refine .bind hi.expression fun condition => ?_
  refine .bind (.expect _ _) fun _ => ?_
  refine .bind (.expect _ _) fun _ => ?_
  exact .bind (curbed_block hi inFunction) fun body => .pure _

theorem curbed_matchStatement (inFunction : Bool) (keyword : Token) :
    Reader.Curbed (matchStatement inner inFunction keyword)
      (matchStatement inner' inFunction keyword) := by
  have hcase : Reader.Curbed (matchCase inner inFunction) (matchCase inner' inFunction) := by
    refine .bind (.expect _ _) fun _ => ?_
    refine .bind hi.expression fun pattern => ?_
    refine .bind (.expect _ _) fun _ => ?_
    refine .bind (hi.statement inFunction) fun consequence => ?_
    exact .bind (.expect _ _) fun _ => .pure _
  refine .bind (.expect _ _) fun _ => ?_
  refine .bind hi.expression fun subject => ?_
  refine .bind (.expect _ _) fun _ => ?_
  refine .bind (.expect _ _) fun _ => ?_
  refine .bind (.expect _ _) fun _ => ?_
  refine .bind (.untilBracket hcase) fun cases => ?_
  exact .bind (.expect _ _) fun _ => .pure _

theorem curbed_announced (inFunction : Bool) (t : Token) :
    Reader.Curbed (announced inner inFunction t) (announced inner' inFunction t) := by
  unfold announced
  split
  · exact .of_parallel (parallel_importStatement (f := id))
  · exact curbed_returnStatement hi inFunction t
  · exact curbed_ifStatement hi inFunction
  · exact curbed_forStatement hi inFunction t
  · exact curbed_whileStatement hi inFunction t
  · exact curbed_matchStatement hi inFunction t
  · exact .map _ (curbed_block hi inFunction)

theorem curbed_statement (inFunction : Bool) :
    Reader.Curbed (statement inner inFunction) (statement inner' inFunction) := by
  refine .bind (.accept _) fun o => ?_
  cases o with
  | none =>
      refine .bind hi.expression fun e => ?_
      exact .bind (.expect _ _) fun _ => .pure _
  | some t => exact curbed_announced hi inFunction t

end Productions

/-- A level has a lower limit than those above it. -/
theorem curbed_level {n limit : Nat} (h : n ≤ limit) : (level n).Curbed (level limit) := by
  induction n generalizing limit with
  | zero => exact ⟨fun _ => .limit _, .limit _, .limit _, fun _ => .limit _⟩
  | succ n ih =>
      obtain ⟨limit, rfl⟩ : ∃ k, limit = k + 1 := ⟨limit - 1, by omega⟩
      have hi := ih (Nat.le_of_succ_le_succ h)
      exact ⟨curbed_statement hi, curbed_assignment hi, curbed_unary hi, curbed_structDecl hi⟩

/-! ### Reading statements -/

theorem statements_same {one one' : Reader Stmt} {g : Stmt → Stmt} (hone : Parallel id g one one)
    (h : Reader.Curbed one one') (n : Nat) (done : Array Stmt) (c : Cursor) :
    statements one n done c = statements one' n done c ∨ (statements one n done c).2.TooDeep := by
  induction n generalizing done c with
  | zero => exact Or.inl rfl
  | succ n ih =>
      have hround := h.same c
      rcases round_cases one c with hrest | ⟨hrest, ⟨s, d, hd⟩ | ⟨d, hd⟩⟩
      · exact Or.inl (by rw [statements_of_nil hrest, statements_of_nil hrest])
      · rw [hd] at hround
        rw [statements_of_some hrest hd]
        rcases hround with hsame | ⟨e, he, hfault⟩
        · rw [statements_of_some hrest hsame.symm]
          exact ih _ d
        · exact Or.inr ⟨e, statements_keeps hone n _ d e he, hfault⟩
      · rw [hd] at hround
        rw [statements_of_none hrest hd]
        rcases hround with hsame | ⟨e, he, hfault⟩
        · rw [statements_of_none hrest hsame.symm]
          exact ih done (resumed d)
        · exact Or.inr ⟨e, statements_keeps hone n done (resumed d) e he, hfault⟩

/-- The statements of all tokens at a cursor, with at most the given number of
levels open at a time. -/
def programWithin (limit : Nat) (c : Cursor) : Array Stmt × Cursor :=
  statements ((level limit).statement false) c.rest.length #[] c

/-- With a lower limit, a program is read in the same way or has too much
nesting. -/
theorem programWithin_same {n limit : Nat} (h : n ≤ limit) (c : Cursor) :
    programWithin n c = programWithin limit c ∨ (programWithin n c).2.TooDeep :=
  statements_same ((uniform_level keepsText_id n).statement false)
    ((curbed_level h).statement false) _ _ c

end Grammar

open Grammar

/-- Reads a list of tokens as statements, with another limit on nesting. -/
def parseWithin (limit : Nat) (tokens : List Token) : Except (List SyntaxError) (List Stmt) :=
  let read := programWithin limit (Cursor.ofTokens tokens)
  if read.2.errors.isEmpty then .ok read.1.toList else .error read.2.errors.toList

theorem parseWithin_maxNesting (tokens : List Token) :
    parseWithin maxNesting tokens = parse tokens := rfl

theorem parseWithin_eq_ok_iff {limit : Nat} {tokens : List Token} {trees : List Stmt} :
    parseWithin limit tokens = .ok trees ↔
      (programWithin limit (Cursor.ofTokens tokens)).2.errors = #[] ∧
        (programWithin limit (Cursor.ofTokens tokens)).1.toList = trees := by
  unfold parseWithin
  by_cases h : (programWithin limit (Cursor.ofTokens tokens)).2.errors = #[] <;> simp [h]

/-- The tokens are refused, with too much nesting among the faults. -/
def RefusedAsTooDeep (tokens : List Token) : Prop :=
  ∃ errors, parse tokens = .error errors ∧ ∃ e ∈ errors, e.fault.message = "Too much nesting."

theorem refusedAsTooDeep_of_tooDeep {tokens : List Token}
    (h : (programWithin maxNesting (Cursor.ofTokens tokens)).2.TooDeep) :
    RefusedAsTooDeep tokens := by
  obtain ⟨e, he, hfault⟩ := h
  have hnonempty : (programWithin maxNesting (Cursor.ofTokens tokens)).2.errors.isEmpty = false :=
    Array.isEmpty_eq_false_iff.mpr (Array.ne_empty_of_mem he)
  refine ⟨_, ?_, e, Array.mem_toList_iff.mpr he, by rw [hfault]; rfl⟩
  rw [← parseWithin_maxNesting, parseWithin, hnonempty]
  rfl

/-- What is read within some limit is read as it is or refused as too deep. -/
theorem parse_of_parseWithin {limit : Nat} {tokens : List Token} {trees : List Stmt}
    (h : parseWithin limit tokens = .ok trees) :
    parse tokens = .ok trees ∨ RefusedAsTooDeep tokens := by
  have hread := parseWithin_eq_ok_iff.mp h
  rw [← parseWithin_maxNesting, parseWithin_eq_ok_iff]
  rcases Nat.le_total maxNesting limit with hle | hle
  · rcases programWithin_same hle (Cursor.ofTokens tokens) with hsame | hdeep
    · rw [hsame]
      exact Or.inl hread
    · exact Or.inr (refusedAsTooDeep_of_tooDeep hdeep)
  · rcases programWithin_same hle (Cursor.ofTokens tokens) with hsame | ⟨e, he, -⟩
    · rw [← hsame]
      exact Or.inl hread
    · exact absurd hread.1 (Array.ne_empty_of_mem he)

end BracketScript
