import BracketScript.Proofs.Reading.Parallel
import BracketScript.Proofs.Tree.Traversal
import BracketScript.Tree.Grammar

/-!
# The productions are built from primitive readers

Every reader of the grammar is `Parallel` to itself: run on tokens with other
lines, it builds the same tree with those lines.  With that, what
`Reading.Parallel` proves holds of all of them (`uniform_level`).

A statement takes at least one token (`consumes_statement`); this is what makes
the loops over statements end.  An expression does too, but nothing here needs
it.
-/

namespace BracketScript

namespace Reader

variable {α β : Type} {f : Token → Token}

/-- A reader that takes at least one token whenever it yields a value. -/
def Consumes (p : Reader α) : Prop :=
  ∀ c a c', p c = (some a, c') → c'.rest.length < c.rest.length

theorem consumes_fail (fault : SyntaxFault) : Consumes (fail fault : Reader α) := by
  intro c a c' h
  simp [fail] at h

theorem consumes_bind_left {p : Reader α} {k : α → Reader β} (hp : Consumes p)
    (hk : ∀ a (c : Cursor), c.LeadsTo (k a c).2) : Consumes (p >>= k) := by
  intro c b c' h
  rcases bind_cases p k c with ⟨a, d, hd, hbind⟩ | ⟨d, hd, hbind⟩
  · have hlt := hp c a d hd
    have hle := (hk a d).rest.length_le
    rw [← hbind, h] at hle
    exact Nat.lt_of_le_of_lt hle hlt
  · rw [hbind] at h
    simp at h

theorem consumes_bind_right {p : Reader α} {k : α → Reader β}
    (hp : ∀ c : Cursor, c.LeadsTo (p c).2) (hk : ∀ a, Consumes (k a)) : Consumes (p >>= k) := by
  intro c b c' h
  rcases bind_cases p k c with ⟨a, d, hd, hbind⟩ | ⟨d, hd, hbind⟩
  · have hle := (hp c).rest.length_le
    rw [hd] at hle
    rw [hbind] at h
    exact Nat.lt_of_lt_of_le (hk a d b c' h) hle
  · rw [hbind] at h
    simp at h

/-- A token that was accepted has been taken. -/
theorem accept?_eq_some {kinds : List Kind} {c c' : Cursor} {t : Token}
    (h : accept? kinds c = (some (some t), c')) :
    t.kind ∈ kinds ∧ c.rest = t :: c'.rest ∧ c' = { c with rest := c'.rest } := by
  rcases hc : c.rest with _ | ⟨u, rest⟩
  · simp [accept?, hc] at h
  · by_cases hu : u.kind ∈ kinds
    · simp only [accept?, hc, hu, if_true, Prod.mk.injEq, Option.some.injEq] at h
      obtain ⟨rfl, rfl⟩ := h
      exact ⟨hu, rfl, rfl⟩
    · simp [accept?, hc, hu] at h

/-- Where no token is accepted, the next one is of another kind and stays. -/
theorem accept?_eq_none {kinds : List Kind} {c c' : Cursor}
    (h : accept? kinds c = (some none, c')) : c' = c ∧ ∀ t ∈ c.rest.head?, t.kind ∉ kinds := by
  rcases hc : c.rest with _ | ⟨u, rest⟩
  · simp only [accept?, hc, Prod.mk.injEq] at h
    exact ⟨h.2.symm, by simp⟩
  · by_cases hu : u.kind ∈ kinds
    · simp [accept?, hc, hu] at h
    · simp only [accept?, hc, hu, if_false, Prod.mk.injEq] at h
      exact ⟨h.2.symm, by simpa using hu⟩

/-- Goes on with the next token if it is of one of the given kinds, and stops
otherwise. -/
def whenNext (kinds : List Kind) (k : Token → Reader (Option α)) : Reader (Option α) := do
  match ← accept? kinds with
  | some t => k t
  | none => pure none

theorem whenNext_eq_more {kinds : List Kind} {k : Token → Reader (Option α)} {c c' : Cursor}
    {a : α} (h : whenNext kinds k c = (some (some a), c')) :
    ∃ t d, accept? kinds c = (some (some t), d) ∧ k t d = (some (some a), c') := by
  unfold whenNext at h
  rcases bind_cases (accept? kinds) _ c with ⟨o, d, hd, hbind⟩ | ⟨d, hd, hbind⟩
  · rw [hbind] at h
    cases o with
    | none => simp at h
    | some t => exact ⟨t, d, hd, h⟩
  · rw [hbind] at h
    simp at h

/-- A round that begins in this way takes a token when it goes on. -/
theorem advances_whenNext {kinds : List Kind} {k : α → Token → Reader (Option α)}
    (hk : ∀ a t (c : Cursor), c.LeadsTo (k a t c).2) :
    Advances fun a => whenNext kinds (k a) := by
  intro a c a' c' h
  obtain ⟨t, d, hd, hmore⟩ := whenNext_eq_more h
  obtain ⟨-, hrest, -⟩ := accept?_eq_some hd
  have hle := (hk a t d).rest.length_le
  rw [hmore] at hle
  simp only [hrest, List.length_cons]
  exact Nat.lt_succ_of_le hle

theorem consumes_expect (kind : Kind) (fault : SyntaxFault) : Consumes (expect kind fault) := by
  intro c t c' h
  unfold expect at h
  rcases bind_cases (accept? [kind]) _ c with ⟨o, d, hd, hbind⟩ | ⟨d, hd, hbind⟩
  · rw [hbind] at h
    cases o with
    | none => simp [fail] at h
    | some u =>
        obtain ⟨-, hrest, -⟩ := accept?_eq_some hd
        simp only [pure_apply, Prod.mk.injEq] at h
        simp [hrest, h.2]
  · rw [hbind] at h
    simp at h

/-! ### The rounds of the loops -/

/-- One more item, unless a closing bracket or the end comes next. -/
def itemRound (item : Reader α) (items : Array α) : Reader (Option (Array α)) := do
  if ← nextIs .rightBracket then pure none
  else if ← atEnd then pure none
  else pure (some (items.push (← item)))

/-- One more entry after a comma. -/
def entryRound (list : ListKind) (item : Reader α) (items : Array α) :
    Reader (Option (Array α)) :=
  whenNext [.comma] fun _ => do pure (some (items.push (← entry list item items.size)))

theorem untilBracket_eq (item : Reader α) :
    untilBracket item = loop (itemRound item) #[] >>= fun items => pure items.toList := rfl

/-- The entries of a list that is not empty. -/
def someEntries (list : ListKind) (item : Reader α) : Reader (Array α) := do
  loop (entryRound list item) #[← entry list item 0]

/-- The entries of a list, up to the bracket that closes it. -/
def openEntries (list : ListKind) (item : Reader α) : Reader (Array α) := do
  if ← nextIs .rightBracket then pure #[] else someEntries list item

theorem entries_eq (list : ListKind) (item : Reader α) :
    entries list item =
      openEntries list item >>= fun items =>
      expect .rightBracket (.listUnclosed list) >>= fun bracket =>
      pure (items.toList, bracket) := by
  unfold openEntries entries
  rw [bind_assoc]
  congr 1
  funext closes
  cases closes with
  | true => rfl
  | false =>
      simp only [Bool.false_eq_true, if_false, someEntries, bind_assoc]
      rfl

theorem advances_itemRound {item : Reader α} (hc : Consumes item) :
    Advances (itemRound item) := by
  intro items c items' c' h
  unfold itemRound at h
  by_cases hclose : (c.rest.head?.any fun t => t.kind = .rightBracket) = true
  · rw [bind_of_some (show nextIs .rightBracket c = (some true, c) by simp [nextIs, hclose])] at h
    simp at h
  · rw [bind_of_some (show nextIs .rightBracket c = (some false, c) by
      simpa [nextIs] using hclose)] at h
    by_cases hend : c.rest.isEmpty = true
    · simp only [Bool.false_eq_true, if_false] at h
      rw [bind_of_some (show atEnd c = (some true, c) by simp [atEnd, hend])] at h
      simp at h
    · simp only [Bool.false_eq_true, if_false] at h
      rw [bind_of_some (show atEnd c = (some false, c) by simpa [atEnd] using hend)] at h
      simp only [Bool.false_eq_true, if_false] at h
      rcases bind_cases item (fun x => pure (some (items.push x))) c with
        ⟨a, d, hd, hbind⟩ | ⟨d, hd, hbind⟩
      · rw [hbind] at h
        simp only [pure_apply, Prod.mk.injEq] at h
        exact h.2 ▸ hc c a d hd
      · rw [hbind] at h
        simp at h

namespace Parallel

theorem map {g : α → α} {h : β → β} {p q : Reader α} {k l : α → β} (hp : Parallel f g p q)
    (hk : ∀ a, l (g a) = h (k a)) : Parallel f h (k <$> p) (l <$> q) := by
  refine .bind hp fun a => ?_
  change Parallel f h (Pure.pure (k a)) (Pure.pure (l (g a)))
  rw [hk]
  exact .pure h (k a)

theorem expect (kind : Kind) (fault : SyntaxFault) :
    Parallel f f (Reader.expect kind fault) (Reader.expect kind fault) := by
  refine .bind (.accept [kind]) fun o => ?_
  cases o with
  | none => exact .fail f fault
  | some t => exact .pure f t

/-- A reader that begins with an expected token takes at least that one. -/
theorem expectThen {h : β → β} (kind : Kind) (fault : SyntaxFault) {k l : Token → Reader β}
    (hk : ∀ t, Parallel f h (k t) (l (f t))) :
    Parallel f h (Reader.expect kind fault >>= k) (Reader.expect kind fault >>= l) ∧
      Consumes (Reader.expect kind fault >>= k) :=
  ⟨.bind (expect kind fault) hk,
    consumes_bind_left (consumes_expect kind fault) fun t => (hk t).leadsTo⟩

/-- Loops whose rounds begin with `whenNext` need nothing but the rest of the
round. -/
theorem loopWhenNext {g : α → α} {kinds : List Kind} {k l : α → Token → Reader (Option α)}
    (hk : ∀ a t, Parallel f (Option.map g) (k a t) (l (g a) (f t))) (a : α) :
    Parallel f g (Reader.loop (fun a => whenNext kinds (k a)) a)
      (Reader.loop (fun a => whenNext kinds (l a)) (g a)) := by
  refine .loop a (fun a => .bind (.accept kinds) fun o => ?_)
    (advances_whenNext fun a t => (hk a t).leadsTo)
  cases o with
  | none => exact .pure _ none
  | some t => exact hk a t

theorem itemRound {g : α → α} {p q : Reader α} (hp : Parallel f g p q) (items : Array α) :
    Parallel f (Option.map (Array.map g)) (Reader.itemRound p items)
      (Reader.itemRound q (items.map g)) := by
  refine .bind (.nextIs .rightBracket) fun closes => ?_
  cases closes with
  | true => exact .pure _ none
  | false =>
      refine .bind .atEnd fun ends => ?_
      cases ends with
      | true => exact .pure _ none
      | false =>
          refine .bind hp fun item => ?_
          rw [← Array.map_push]
          exact .pure (Option.map (Array.map g)) (some (items.push item))

theorem untilBracket {g : α → α} {p q : Reader α} (hp : Parallel f g p q) (hc : Consumes p) :
    Parallel f (List.map g) (Reader.untilBracket p) (Reader.untilBracket q) := by
  have hloop := Parallel.loop (f := f) (#[] : Array α) (itemRound hp) (advances_itemRound hc)
  rw [untilBracket_eq, untilBracket_eq]
  refine .bind (by simpa using hloop) fun items => ?_
  rw [Array.toList_map]
  exact .pure (List.map g) items.toList

theorem entry (list : ListKind) {g : α → α} {p q : Reader α} (hp : Parallel f g p q)
    (count : Nat) : Parallel f g (Reader.entry list p count) (Reader.entry list q count) := by
  unfold Reader.entry
  by_cases hcount : maxEntries ≤ count
  · simp only [hcount, if_true]
    refine .bind .peek fun t => ?_
    exact .bind (.report t _) fun _ => hp
  · simp only [hcount, if_false]
    exact hp

theorem someEntries (list : ListKind) {g : α → α} {p q : Reader α} (hp : Parallel f g p q) :
    Parallel f (Array.map g) (Reader.someEntries list p) (Reader.someEntries list q) := by
  refine .bind (entry list hp 0) fun first => ?_
  have hloop : Parallel f (Array.map g) (Reader.loop (Reader.entryRound list p) #[first])
      (Reader.loop (Reader.entryRound list q) (#[first].map g)) := by
    refine loopWhenNext (fun items _ => ?_) #[first]
    simp only [Array.size_map]
    refine .bind (entry list hp items.size) fun item => ?_
    rw [← Array.map_push]
    exact .pure (Option.map (Array.map g)) (some (items.push item))
  simpa using hloop

theorem openEntries (list : ListKind) {g : α → α} {p q : Reader α} (hp : Parallel f g p q) :
    Parallel f (Array.map g) (Reader.openEntries list p) (Reader.openEntries list q) := by
  refine .bind (.nextIs .rightBracket) fun closes => ?_
  cases closes with
  | true => simpa using Parallel.pure (f := f) (Array.map g) #[]
  | false => exact someEntries list hp

theorem entries (list : ListKind) {g : α → α} {p q : Reader α} (hp : Parallel f g p q) :
    Parallel f (Prod.map (List.map g) f) (Reader.entries list p) (Reader.entries list q) := by
  rw [entries_eq, entries_eq]
  refine .bind (openEntries list hp) fun items => ?_
  refine .bind (expect _ _) fun bracket => ?_
  rw [Array.toList_map]
  exact .pure (Prod.map (List.map g) f) (items.toList, bracket)

end Parallel
end Reader

namespace Grammar

open Reader

/-! ### The rounds of the loops in the grammar -/

/-- One more call or attribute behind an expression. -/
def callRound (inner : Inner) (e : Expr) : Reader (Option Expr) :=
  whenNext [.leftBracket, .identifier] fun t =>
    if t.kind = .identifier then pure (some (.attribute e t))
    else do
      let (args, bracket) ← entries .arguments inner.expression
      pure (some (.call e bracket args))

/-- One more operator and its right operand. -/
def operatorRound (node : Expr → Token → Expr → Expr) (ops : List Kind) (operand : Reader Expr)
    (left : Expr) : Reader (Option Expr) :=
  whenNext ops fun op => do pure (some (node left op (← operand)))

/-- One more `elif` part. -/
def armRound (inner : Inner) (inFunction : Bool) (arms : Array (Expr × Stmt)) :
    Reader (Option (Array (Expr × Stmt))) :=
  whenNext [.elifKw] fun _ => do pure (some (arms.push (← guarded inner inFunction)))

/-- The `else` part, if there is one. -/
def elsePart (inner : Inner) (inFunction : Bool) : Reader (Option Stmt) := do
  match ← accept? [.elseKw] with
  | some _ => some <$> inner.statement inFunction
  | none => pure none

theorem call_eq (inner : Inner) :
    call inner = primary inner >>= loop (callRound inner) := by
  refine congrArg (primary inner >>= ·) (funext fun e => congrArg (loop · e) (funext fun e => ?_))
  refine congrArg (accept? [.leftBracket, .identifier] >>= ·) (funext fun o => ?_)
  cases o <;> rfl

theorem leftAssoc_eq (node : Expr → Token → Expr → Expr) (ops : List Kind)
    (operand : Reader Expr) :
    leftAssoc node ops operand = operand >>= loop (operatorRound node ops operand) := rfl

theorem ifStatement_eq (inner : Inner) (inFunction : Bool) :
    ifStatement inner inFunction =
      guarded inner inFunction >>= fun arm =>
      loop (armRound inner inFunction) #[] >>= fun arms =>
      elsePart inner inFunction >>= fun otherwise =>
      pure (.conditional arm.1 arm.2 (chain arms.toList otherwise)) := by
  refine congrArg (guarded inner inFunction >>= ·) (funext fun arm => ?_)
  refine congrArg (loop (armRound inner inFunction) #[] >>= ·) (funext fun arms => ?_)
  unfold elsePart
  rw [bind_assoc]
  refine congrArg (accept? [.elseKw] >>= ·) (funext fun o => ?_)
  cases o <;> rfl

/-- The statement of a return after what its place has to say about it. -/
def returnValue (inner : Inner) (keyword : Token) : Reader Stmt := do
  let value ← exprBefore inner .semicolon
  let _ ← expect .semicolon .noSemicolonAfterReturn
  pure (.returning keyword value)

theorem returnStatement_true (inner : Inner) (keyword : Token) :
    returnStatement inner true keyword = returnValue inner keyword := rfl

theorem returnStatement_false (inner : Inner) (keyword : Token) :
    returnStatement inner false keyword =
      report keyword .returnOutsideFunction >>= fun _ => returnValue inner keyword := rfl

/-! ### Each production -/

/-- The readers of the next level are built from primitive readers. -/
structure Inner.Uniform (f : Token → Token) (inner : Inner) : Prop where
  statement (inFunction : Bool) :
    Parallel f (Stmt.mapTokens f) (inner.statement inFunction) (inner.statement inFunction)
  consumes (inFunction : Bool) : Consumes (inner.statement inFunction)
  expression : Parallel f (Expr.mapTokens f) inner.expression inner.expression
  operand : Parallel f (Expr.mapTokens f) inner.operand inner.operand
  structBody (keyword : Token) :
    Parallel f (Expr.mapTokens f) (inner.structBody keyword) (inner.structBody (f keyword))

section Productions

variable {f : Token → Token} (hf : KeepsText f) {inner : Inner} (hi : inner.Uniform f)

include hi in
theorem parallel_block (inFunction : Bool) :
    Parallel f (List.map (Stmt.mapTokens f)) (block inner inFunction)
      (block inner inFunction) := by
  refine .bind ((hi.statement inFunction).untilBracket (hi.consumes inFunction)) fun stmts => ?_
  exact .bind (.expect _ _) fun _ => .pure _ stmts

include hi in
theorem parallel_function (keyword : Token) :
    Parallel f (Expr.mapTokens f) (function inner keyword) (function inner (f keyword)) := by
  refine .bind (.expect _ _) fun _ => ?_
  refine .bind (.entries _ (.expect _ _)) fun params => ?_
  refine .bind (.expect _ _) fun _ => ?_
  refine .bind (parallel_block hi true) fun body => ?_
  have hnode := Parallel.pure (f := f) (Expr.mapTokens f) (.func keyword params.1 body)
  simpa [Expr.mapTokens] using hnode

include hf hi in
theorem parallel_primary :
    Parallel f (Expr.mapTokens f) (primary inner) (primary inner) := by
  refine .bind (.accept _) fun o => ?_
  cases o with
  | none => exact .fail _ _
  | some t =>
      have hnode (e : Expr) : Parallel f (Expr.mapTokens f) (pure e) (pure (e.mapTokens f)) :=
        .pure _ e
      simp only [Option.map_some, hf.kind, hf.literal]
      cases hkind : t.kind
      case trueKw => exact hnode (.literal (.bool true))
      case falseKw => exact hnode (.literal (.bool false))
      case nullKw => exact hnode (.literal .null)
      case num =>
        rcases t.literal with _ | x | s
        · exact hnode (.literal .null)
        · exact hnode (.literal (.num x))
        · exact hnode (.literal (.str s))
      case str =>
        rcases t.literal with _ | x | s
        · exact hnode (.literal .null)
        · exact hnode (.literal (.num x))
        · exact hnode (.literal (.str s))
      case selfKw => exact hnode (.selfRef t)
      case leftBracket =>
        refine .bind hi.expression fun e => ?_
        exact .bind (.expect _ _) fun _ => hnode (.grouping e)
      all_goals exact hnode (.variable t)

include hf hi in
theorem parallel_call : Parallel f (Expr.mapTokens f) (call inner) (call inner) := by
  rw [call_eq]
  refine .bind (parallel_primary hf hi) fun e => .loopWhenNext (fun e t => ?_) e
  by_cases hkind : t.kind = .identifier
  · simp only [hf.kind, hkind, if_true]
    exact .pure (Option.map (Expr.mapTokens f)) (some (.attribute e t))
  · simp only [hf.kind, hkind, if_false]
    refine .bind (.entries _ hi.expression) fun args => ?_
    have hnode := Parallel.pure (f := f) (Option.map (Expr.mapTokens f))
      (some (.call e args.2 args.1))
    simpa [Expr.mapTokens] using hnode

include hf hi in
theorem parallel_unary : Parallel f (Expr.mapTokens f) (unary inner) (unary inner) := by
  refine .bind (.accept _) fun o => ?_
  cases o with
  | none => exact parallel_call hf hi
  | some op => exact .bind hi.operand fun right => .pure (Expr.mapTokens f) (.unary op right)

theorem parallel_leftAssoc {node : Expr → Token → Expr → Expr} {ops : List Kind}
    {operand : Reader Expr}
    (hnode : ∀ l op r, (node l op r).mapTokens f = node (l.mapTokens f) (f op) (r.mapTokens f))
    (hoperand : Parallel f (Expr.mapTokens f) operand operand) :
    Parallel f (Expr.mapTokens f) (leftAssoc node ops operand) (leftAssoc node ops operand) := by
  refine .bind hoperand fun left => .loopWhenNext (fun left op => ?_) left
  refine .bind hoperand fun right => ?_
  rw [← hnode]
  exact .pure (Option.map (Expr.mapTokens f)) (some (node left op right))

include hf hi in
theorem parallel_disjunction :
    Parallel f (Expr.mapTokens f) (disjunction inner) (disjunction inner) := by
  have hbinary (l : Expr) (op : Token) (r : Expr) : (Expr.binary l op r).mapTokens f =
      .binary (l.mapTokens f) (f op) (r.mapTokens f) := by simp [Expr.mapTokens]
  have hlogical (l : Expr) (op : Token) (r : Expr) : (Expr.logical l op r).mapTokens f =
      .logical (l.mapTokens f) (f op) (r.mapTokens f) := by simp [Expr.mapTokens]
  have hfactor : Parallel f (Expr.mapTokens f) (factor inner) (factor inner) :=
    parallel_leftAssoc hbinary (parallel_unary hf hi)
  have hterm : Parallel f (Expr.mapTokens f) (term inner) (term inner) :=
    parallel_leftAssoc hbinary hfactor
  have hbitwise : Parallel f (Expr.mapTokens f) (bitwise inner) (bitwise inner) :=
    parallel_leftAssoc hbinary hterm
  have hcomparison : Parallel f (Expr.mapTokens f) (comparison inner) (comparison inner) :=
    parallel_leftAssoc hbinary hbitwise
  have hequality : Parallel f (Expr.mapTokens f) (equality inner) (equality inner) :=
    parallel_leftAssoc hbinary hcomparison
  have hconjunction : Parallel f (Expr.mapTokens f) (conjunction inner) (conjunction inner) :=
    parallel_leftAssoc hlogical hequality
  exact parallel_leftAssoc hlogical hconjunction

include hf hi in
theorem parallel_assignable :
    Parallel f (Expr.mapTokens f) (assignable inner) (assignable inner) := by
  refine .bind (.accept _) fun o => ?_
  cases o with
  | none => exact parallel_disjunction hf hi
  | some t =>
      by_cases hkind : t.kind = .structKw
      · simp only [Option.map_some, hf.kind, hkind, if_true]
        exact hi.structBody t
      · simp only [Option.map_some, hf.kind, hkind, if_false]
        exact parallel_function hi t

theorem target?_mapTokens (f : Token → Token) (e : Expr) :
    target? (e.mapTokens f) = (target? e).map (Target.mapTokens f) := by
  cases e with
  | «attribute» object name => cases object <;> simp [Expr.mapTokens, target?, Target.mapTokens]
  | _ => simp [Expr.mapTokens, target?, Target.mapTokens]

include hf hi in
theorem parallel_assignment :
    Parallel f (Expr.mapTokens f) (assignment inner) (assignment inner) := by
  refine .bind (parallel_assignable hf hi) fun left => ?_
  refine .bind (.accept _) fun o => ?_
  cases o with
  | none => exact .pure _ left
  | some walrus =>
      refine .bind (parallel_assignable hf hi) fun value => ?_
      rw [target?_mapTokens]
      cases target? left with
      | none => exact .bind (.report walrus _) fun _ => .pure _ left
      | some target => exact .pure (Expr.mapTokens f) (.assign target value)

include hf hi in
theorem parallel_fieldInit :
    Parallel f (FieldInit.mapTokens f) (fieldInit inner) (fieldInit inner) ∧
      Consumes (fieldInit inner) := by
  refine Parallel.expectThen _ _ fun name => ?_
  refine .bind (.expect _ _) fun _ => ?_
  refine .bind (parallel_assignable hf hi) fun value => ?_
  exact .bind (.expect _ _) fun _ => .pure (FieldInit.mapTokens f) ⟨name, value⟩

include hf hi in
theorem parallel_structDecl (keyword : Token) :
    Parallel f (Expr.mapTokens f) (structDecl inner keyword) (structDecl inner (f keyword)) := by
  refine .bind (.expect _ _) fun _ => ?_
  refine .bind (.entries _ (.expect _ _)) fun params => ?_
  refine .bind (.accept _) fun o => ?_
  cases o with
  | none =>
      have hnode := Parallel.pure (f := f) (Expr.mapTokens f) (.struct keyword params.1 [])
      simpa [Expr.mapTokens] using hnode
  | some bracket =>
      obtain ⟨hfield, hconsumes⟩ := parallel_fieldInit hf hi
      refine .bind (hfield.untilBracket hconsumes) fun body => ?_
      refine .bind (.expect _ _) fun _ => ?_
      have hnode := Parallel.pure (f := f) (Expr.mapTokens f) (.struct keyword params.1 body)
      simpa [Expr.mapTokens] using hnode

theorem parallel_importStatement :
    Parallel f (Stmt.mapTokens f) importStatement importStatement := by
  refine .bind (.expect _ _) fun module => ?_
  refine .bind (.expect _ _) fun _ => ?_
  refine .bind (.entries _ (.expect _ _)) fun names => ?_
  have hnode := Parallel.pure (f := f) (Stmt.mapTokens f) (.importing module names.1)
  simpa [Stmt.mapTokens] using hnode

include hi in
theorem parallel_exprBefore (kind : Kind) :
    Parallel f (Option.map (Expr.mapTokens f)) (exprBefore inner kind) (exprBefore inner kind) := by
  refine .bind (.nextIs kind) fun next => ?_
  cases next with
  | true => exact .pure _ none
  | false => exact .bind hi.expression fun e => .pure (Option.map (Expr.mapTokens f)) (some e)

include hi in
theorem parallel_returnStatement (inFunction : Bool) (keyword : Token) :
    Parallel f (Stmt.mapTokens f) (returnStatement inner inFunction keyword)
      (returnStatement inner inFunction (f keyword)) := by
  have hvalue : Parallel f (Stmt.mapTokens f) (returnValue inner keyword)
      (returnValue inner (f keyword)) := by
    refine .bind (parallel_exprBefore hi _) fun value => ?_
    refine .bind (.expect _ _) fun _ => ?_
    rw [← Stmt.mapTokens_returning]
    exact .pure (Stmt.mapTokens f) (.returning keyword value)
  cases inFunction with
  | true => exact hvalue
  | false => exact .bind (.report keyword _) fun _ => hvalue

/-- A condition and its statement, with their tokens replaced. -/
def mapArm (f : Token → Token) : Expr × Stmt → Expr × Stmt :=
  Prod.map (Expr.mapTokens f) (Stmt.mapTokens f)

include hi in
theorem parallel_guarded (inFunction : Bool) :
    Parallel f (mapArm f) (guarded inner inFunction) (guarded inner inFunction) := by
  refine .bind (.expect _ _) fun _ => ?_
  refine .bind hi.expression fun condition => ?_
  refine .bind (.expect _ _) fun _ => ?_
  refine .bind (hi.statement inFunction) fun consequence => ?_
  exact .pure (mapArm f) (condition, consequence)

theorem chain_mapTokens (f : Token → Token) (arms : List (Expr × Stmt))
    (otherwise : Option Stmt) :
    chain (arms.map (mapArm f)) (otherwise.map (Stmt.mapTokens f)) =
      (chain arms otherwise).map (Stmt.mapTokens f) := by
  induction arms with
  | nil => rfl
  | cons arm arms ih =>
      simp only [chain, List.map_cons, List.foldr_cons, Option.map_some,
        Stmt.mapTokens_conditional] at ih ⊢
      rw [ih]
      rfl

include hi in
theorem parallel_ifStatement (inFunction : Bool) :
    Parallel f (Stmt.mapTokens f) (ifStatement inner inFunction)
      (ifStatement inner inFunction) := by
  have harms : Parallel f (Array.map (mapArm f)) (loop (armRound inner inFunction) #[])
      (loop (armRound inner inFunction) (#[].map (mapArm f))) := by
    refine .loopWhenNext (fun arms _ => ?_) #[]
    refine .bind (parallel_guarded hi inFunction) fun arm => ?_
    rw [← Array.map_push]
    exact .pure (Option.map (Array.map (mapArm f))) (some (arms.push arm))
  rw [ifStatement_eq]
  refine .bind (parallel_guarded hi inFunction) fun arm => ?_
  refine .bind (by simpa using harms) fun arms => ?_
  refine .bind (g := Option.map (Stmt.mapTokens f)) (.bind (.accept _) fun o => ?_)
    fun otherwise => ?_
  · cases o with
    | none => exact .pure _ none
    | some _ => exact .map (hi.statement inFunction) fun _ => rfl
  · rw [Array.toList_map, chain_mapTokens]
    have hnode := Parallel.pure (f := f) (Stmt.mapTokens f)
      (.conditional arm.1 arm.2 (chain arms.toList otherwise))
    rw [Stmt.mapTokens_conditional] at hnode
    exact hnode

theorem forLoop_mapTokens (f : Token → Token) (keyword : Token)
    (initializer condition increment : Option Expr) (body : List Stmt) :
    forLoop (f keyword) (initializer.map (Expr.mapTokens f)) (condition.map (Expr.mapTokens f))
        (increment.map (Expr.mapTokens f)) (body.map (Stmt.mapTokens f)) =
      (forLoop keyword initializer condition increment body).mapTokens f := by
  cases initializer <;> cases condition <;> cases increment <;>
    simp [forLoop, Stmt.mapTokens, Expr.mapTokens]

include hi in
theorem parallel_forStatement (inFunction : Bool) (keyword : Token) :
    Parallel f (Stmt.mapTokens f) (forStatement inner inFunction keyword)
      (forStatement inner inFunction (f keyword)) := by
  refine .bind (.expect _ _) fun _ => ?_
  refine .bind (parallel_exprBefore hi _) fun initializer => ?_
  refine .bind (.expect _ _) fun _ => ?_
  refine .bind (parallel_exprBefore hi _) fun condition => ?_
  refine .bind (.expect _ _) fun _ => ?_
  refine .bind (parallel_exprBefore hi _) fun increment => ?_
  refine .bind (.expect _ _) fun _ => ?_
  refine .bind (.expect _ _) fun _ => ?_
  refine .bind (parallel_block hi inFunction) fun body => ?_
  refine .bind (.noteLoop _ _) fun _ => ?_
  rw [forLoop_mapTokens]
  exact .pure (Stmt.mapTokens f) (forLoop keyword initializer condition increment body)

include hi in
theorem parallel_whileStatement (inFunction : Bool) (keyword : Token) :
    Parallel f (Stmt.mapTokens f) (whileStatement inner inFunction keyword)
      (whileStatement inner inFunction (f keyword)) := by
  refine .bind (.expect _ _) fun _ => ?_
  refine .bind hi.expression fun condition => ?_
  refine .bind (.expect _ _) fun _ => ?_
  refine .bind (.expect _ _) fun _ => ?_
  refine .bind (parallel_block hi inFunction) fun body => ?_
  have hnode := Parallel.pure (f := f) (Stmt.mapTokens f)
    (.whileLoop keyword condition (.block body))
  simpa [Stmt.mapTokens] using hnode

include hi in
theorem parallel_matchCase (inFunction : Bool) :
    Parallel f (MatchCase.mapTokens f) (matchCase inner inFunction)
        (matchCase inner inFunction) ∧
      Consumes (matchCase inner inFunction) := by
  refine Parallel.expectThen _ _ fun _ => ?_
  refine .bind hi.expression fun pattern => ?_
  refine .bind (.expect _ _) fun _ => ?_
  refine .bind (hi.statement inFunction) fun consequence => ?_
  exact .bind (.expect _ _) fun _ => .pure (MatchCase.mapTokens f) ⟨pattern, consequence⟩

include hi in
theorem parallel_matchStatement (inFunction : Bool) (keyword : Token) :
    Parallel f (Stmt.mapTokens f) (matchStatement inner inFunction keyword)
      (matchStatement inner inFunction (f keyword)) := by
  obtain ⟨hcase, hconsumes⟩ := parallel_matchCase hi inFunction
  refine .bind (.expect _ _) fun _ => ?_
  refine .bind hi.expression fun subject => ?_
  refine .bind (.expect _ _) fun _ => ?_
  refine .bind (.expect _ _) fun _ => ?_
  refine .bind (.expect _ _) fun _ => ?_
  refine .bind (hcase.untilBracket hconsumes) fun cases => ?_
  refine .bind (.expect _ _) fun _ => ?_
  have hnode := Parallel.pure (f := f) (Stmt.mapTokens f) (.matching keyword subject cases)
  simpa [Stmt.mapTokens] using hnode

include hi in
theorem parallel_expressionStatement :
    Parallel f (Stmt.mapTokens f) (expressionStatement inner) (expressionStatement inner) := by
  refine .bind hi.expression fun e => ?_
  exact .bind (.expect _ _) fun _ => .pure (Stmt.mapTokens f) (.expression e)

/-- The statement that the first token announces. -/
def announced (inner : Inner) (inFunction : Bool) (t : Token) : Reader Stmt :=
  match t.kind with
  | .importKw => importStatement
  | .returnKw => returnStatement inner inFunction t
  | .ifKw => ifStatement inner inFunction
  | .forKw => forStatement inner inFunction t
  | .whileKw => whileStatement inner inFunction t
  | .matchKw => matchStatement inner inFunction t
  | _ => .block <$> block inner inFunction

include hf hi in
theorem parallel_announced (inFunction : Bool) (t : Token) :
    Parallel f (Stmt.mapTokens f) (announced inner inFunction t)
      (announced inner inFunction (f t)) := by
  unfold announced
  rw [hf.kind]
  cases t.kind
  case importKw => exact parallel_importStatement
  case returnKw => exact parallel_returnStatement hi inFunction t
  case ifKw => exact parallel_ifStatement hi inFunction
  case forKw => exact parallel_forStatement hi inFunction t
  case whileKw => exact parallel_whileStatement hi inFunction t
  case matchKw => exact parallel_matchStatement hi inFunction t
  all_goals exact .map (parallel_block hi inFunction) fun stmts => by simp [Stmt.mapTokens]

include hf hi in
theorem parallel_statement (inFunction : Bool) :
    Parallel f (Stmt.mapTokens f) (statement inner inFunction) (statement inner inFunction) := by
  refine .bind (.accept _) fun o => ?_
  cases o with
  | none => exact parallel_expressionStatement hi
  | some t => exact parallel_announced hf hi inFunction t

include hf hi in
theorem consumes_statement (inFunction : Bool) : Consumes (statement inner inFunction) := by
  intro c s c' h
  unfold statement at h
  rcases bind_cases (accept? _) _ c with ⟨o, d, hd, hbind⟩ | ⟨d, hd, hbind⟩
  · rw [hbind] at h
    cases o with
    | none =>
        have hconsumes : Consumes (expressionStatement inner) :=
          consumes_bind_right hi.expression.leadsTo fun e =>
            consumes_bind_left (consumes_expect _ _) fun _ c => .refl c
        obtain ⟨rfl, -⟩ := accept?_eq_none hd
        exact hconsumes d s c' h
    | some t =>
        obtain ⟨-, hrest, -⟩ := accept?_eq_some hd
        have hle := ((parallel_announced hf hi inFunction t).leadsTo d).rest.length_le
        rw [show announced inner inFunction t d = (some s, c') from h] at hle
        simp only [hrest, List.length_cons]
        exact Nat.lt_succ_of_le hle
  · rw [hbind] at h
    simp at h

end Productions

/-- Every level is built from primitive readers. -/
theorem uniform_level {f : Token → Token} (hf : KeepsText f) (n : Nat) :
    (level n).Uniform f := by
  induction n with
  | zero =>
      exact
        { statement := fun _ => .fail _ _
          consumes := fun _ => consumes_fail _
          expression := .fail _ _
          operand := .fail _ _
          structBody := fun _ => .fail _ _ }
  | succ n ih =>
      exact
        { statement := parallel_statement hf ih
          consumes := consumes_statement hf ih
          expression := parallel_assignment hf ih
          operand := parallel_unary hf ih
          structBody := parallel_structDecl hf ih }

end Grammar
end BracketScript
