import BracketScript.Proofs.Grammar.Extents
import BracketScript.Proofs.Grammar.Repeating
import BracketScript.Proofs.Grammar.RoundTrip
import BracketScript.Proofs.Grammar.Soundness

/-!
# A `for` loop and the `while` loop it stands for

A `for` loop can be written by hand: `for [init, test, step] [body]` as
`[init; while [test] [[body] step;]]`.  Where both texts are read without a fault,
their trees differ in the keyword only (`forText_whileText`).

The parts of the two texts are the same tokens, at places with other tokens behind
them and with fewer levels left to open.  `Repeats` says that they are read as the
same trees nevertheless.  What remains is to show that each reader stops where its
part ends, which brackets tell (`Enclosed`), and that the hand-written text has no
expression where a bracket opens a block.
-/

namespace BracketScript

namespace Reader

variable {α β : Type} {p : Reader α} {k : α → Reader β} {u v w : List Token} {a : α}

theorem Repeats.sound {ends : Option Kind → Prop} {q : Reader α} (h : Repeats ends p q) :
    Sound p fun w a => ∀ s, ends (frontKind s) → Takes q w a s := by
  intro c a c' hc
  obtain ⟨hle, hquiet⟩ := h c a c' hc
  refine ⟨hle, fun heq => ?_⟩
  obtain ⟨w, hw, htakes⟩ := hquiet heq
  exact ⟨w, hw, fun s hs => htakes s (Or.inr hs)⟩

/-- There is only one choice of the tokens that were taken. -/
theorem Sound.andForall {ι : Type} {P : List Token → α → Prop} {R : ι → List Token → α → Prop}
    (hP : Sound p P) (hR : ∀ i, Sound p (R i)) : Sound p fun w a => P w a ∧ ∀ i, R i w a := by
  intro c a c' hc
  obtain ⟨hle, hquiet⟩ := hP c a c' hc
  refine ⟨hle, fun heq => ?_⟩
  obtain ⟨w, hw, hwP⟩ := hquiet heq
  refine ⟨w, hw, hwP, fun i => ?_⟩
  obtain ⟨w', hw', hwR⟩ := (hR i c a c' hc).2 heq
  obtain rfl : w = w' := List.append_cancel_right (hw.symm.trans hw')
  exact hwR

/-- The reader yields a value from the tokens, without noting a fault. -/
def Succeeds (p : Reader α) (u : List Token) : Prop :=
  ∃ c a c', c.rest = u ∧ p c = (some a, c') ∧ c'.errors.size = c.errors.size

namespace Succeeds

/-- Where the first part of a sequence takes some tokens, the second part goes on
behind them. -/
theorem after (h : Succeeds (p >>= k) (w ++ v)) (hp : Takes p w a v) : Succeeds (k a) v := by
  obtain ⟨c, b, c', hrest, hc, heq⟩ := h
  obtain ⟨loops, hloops⟩ := hp c hrest
  rw [bind_of_some hloops] at hc
  exact ⟨_, b, c', rfl, hc, heq⟩

theorem accepted {kinds : List Kind} {k : Option Token → Reader β} {t : Token}
    (h : Succeeds (accept? kinds >>= k) (t :: v)) (ht : t.kind ∈ kinds) :
    Succeeds (k (some t)) v := by
  have haccept : Takes (accept? kinds >>= Pure.pure) [t] (some t) v := .acceptThen ht (.pure _ v)
  rw [bind_pure] at haccept
  exact h.after haccept

theorem expected {kind : Kind} {fault : SyntaxFault} {k : Token → Reader β} {t : Token}
    (h : Succeeds (expect kind fault >>= k) (t :: v)) (ht : t.kind = kind) : Succeeds (k t) v :=
  h.after (Takes.expect ht)

theorem first {P : List Token → α → Prop} {S : α → List Token → β → Prop}
    (h : Succeeds (p >>= k) u) (hp : Sound p P) (hk : ∀ a, Sound (k a) (S a)) : Succeeds p u := by
  obtain ⟨c, b, c', hrest, hc, heq⟩ := h
  rcases bind_cases p k c with ⟨a, d, hd, hbind⟩ | ⟨d, hd, hbind⟩
  · rw [hbind] at hc
    have hle₁ := (hp c a d hd).1
    have hle₂ := (hk a d b c' hc).1
    exact ⟨c, a, d, hrest, hd, by omega⟩
  · rw [hbind] at hc
    simp at hc

/-- Some of the tokens were taken, which are related to the value. -/
theorem exists_taken {R : List Token → α → Prop} (h : Succeeds p u) (hp : Sound p R) :
    ∃ w v a, u = w ++ v ∧ R w a := by
  obtain ⟨c, a, c', rfl, hc, heq⟩ := h
  obtain ⟨w, hw, hR⟩ := (hp c a c' hc).2 heq
  exact ⟨w, c'.rest, a, hw, hR⟩

end Succeeds
end Reader

namespace Grammar

open Reader

/-- The first token tells what kind of statement follows. -/
theorem statement_eq (n : Nat) (inFunction : Bool) :
    (level (n + 1)).statement inFunction =
      accept? announcing >>= fun o =>
        o.elim (expressionStatement (level n)) (announced (level n) inFunction) := by
  refine congrArg (accept? announcing >>= ·) (funext fun o => ?_)
  cases o <;> rfl

/-! ### Blocks, one statement at a time -/

/-- The rest of a block, some of whose statements have been read. -/
def blockFrom (inner : Inner) (inFunction : Bool) (stmts : Array Stmt) : Reader (List Stmt) := do
  let stmts ← loop (itemRound (inner.statement inFunction)) stmts
  let _ ← expect .rightBracket .blockUnclosed
  pure stmts.toList

theorem block_eq (inner : Inner) (inFunction : Bool) :
    block inner inFunction = blockFrom inner inFunction #[] := by
  unfold block blockFrom
  rw [untilBracket_eq, bind_assoc]
  rfl

section Blocks

variable {n : Nat} {inFunction : Bool}

/-- A block goes on with a statement unless it is closed. -/
theorem blockFrom_open (stmts : Array Stmt) {c : Cursor} {t : Token} {u : List Token}
    (hrest : c.rest = t :: u) (ht : t.kind ≠ .rightBracket) :
    blockFrom (level n) inFunction stmts c =
      ((level n).statement inFunction >>= fun s => blockFrom (level n) inFunction (stmts.push s))
        c := by
  have hadvances : Advances (itemRound ((level n).statement inFunction)) :=
    advances_itemRound ((uniform_level keepsText_id n).consumes inFunction)
  have hround : itemRound ((level n).statement inFunction) stmts c =
      ((level n).statement inFunction >>= fun s => pure (some (stmts.push s))) c := by
    have hnext : nextIs .rightBracket c = (some false, c) := by simp [nextIs, hrest, ht]
    have hend : atEnd c = (some false, c) := by simp [atEnd, hrest]
    unfold itemRound
    rw [bind_of_some hnext]
    exact bind_of_some hend
  unfold blockFrom
  rw [loop_eq hadvances stops_itemRound, bind_assoc]
  rcases hs : (level n).statement inFunction c with ⟨_ | s, d⟩
  · rw [bind_of_none hs]
    exact bind_of_none (hround.trans (bind_of_none hs))
  · rw [bind_of_some hs]
    exact bind_of_some (hround.trans (bind_of_some hs))

theorem sound_blockFrom (stmts : Array Stmt) :
    Sound (blockFrom (level n) inFunction stmts) fun _ _ => True := by
  have hround (stmts : Array Stmt) : Sound (itemRound ((level n).statement inFunction) stmts)
      fun _ _ => ∀ w₀ : List Token, True → True := by
    refine .nextIsThen _ fun closes => ?_
    cases closes with
    | true => exact .pure fun _ => id
    | false =>
        refine .atEndThen fun ends => ?_
        cases ends with
        | true => exact .pure fun _ => id
        | false =>
            refine .bind ((derives_level n).statement inFunction) fun s => ?_
            exact .pure fun _ _ _ => id
  refine .bind (Sound.loop (I := fun _ _ => True) hround stmts) fun _ => ?_
  exact .expectThen fun _ _ => .pure fun _ _ => trivial

/-- The statement at the front of a block is read. -/
theorem succeeds_statement {stmts : Array Stmt} {t : Token} {u : List Token}
    (h : Succeeds (blockFrom (level n) inFunction stmts) (t :: u)) (ht : t.kind ≠ .rightBracket) :
    Succeeds ((level n).statement inFunction) (t :: u) := by
  obtain ⟨c, b, c', hrest, hc, heq⟩ := h
  rw [blockFrom_open stmts hrest ht] at hc
  exact Succeeds.first ⟨c, b, c', hrest, hc, heq⟩ ((derives_level n).statement inFunction)
    fun s => sound_blockFrom (stmts.push s)

/-- And then the rest of the block is. -/
theorem succeeds_rest {stmts : Array Stmt} {t : Token} {w v : List Token} {s : Stmt}
    (h : Succeeds (blockFrom (level n) inFunction stmts) (t :: w ++ v))
    (ht : t.kind ≠ .rightBracket) (htakes : Takes ((level n).statement inFunction) (t :: w) s v) :
    Succeeds (blockFrom (level n) inFunction (stmts.push s)) v := by
  obtain ⟨c, b, c', hrest, hc, heq⟩ := h
  rw [blockFrom_open stmts hrest ht] at hc
  have hbind : Succeeds ((level n).statement inFunction >>= fun s =>
      blockFrom (level n) inFunction (stmts.push s)) (t :: w ++ v) := ⟨c, b, c', hrest, hc, heq⟩
  exact hbind.after htakes

theorem takes_blockFrom {stmts : Array Stmt} {t : Token} {w w' v : List Token} {s : Stmt}
    {all : List Stmt} (ht : t.kind ≠ .rightBracket)
    (htakes : Takes ((level n).statement inFunction) (t :: w) s (w' ++ v))
    (hrest : Takes (blockFrom (level n) inFunction (stmts.push s)) w' all v) :
    Takes (blockFrom (level n) inFunction stmts) (t :: w ++ w') all v := by
  intro c hc
  rw [blockFrom_open stmts (by simpa using hc) ht]
  exact Takes.bind htakes hrest c hc

theorem takes_blockEnd (stmts : Array Stmt) {r : Token} (hr : r.kind = .rightBracket)
    (v : List Token) : Takes (blockFrom (level n) inFunction stmts) [r] stmts.toList v := by
  have hstop : Takes (itemRound ((level n).statement inFunction) stmts) [] none (r :: v) := by
    refine .nextIsThen ?_
    simpa [hr] using Takes.pure none (r :: v)
  have hloop : Takes (loop (itemRound ((level n).statement inFunction)) stmts) [] stmts (r :: v) :=
    (Rounds.stop hstop).loop
  refine .bind (w := []) hloop ?_
  exact Takes.expectThen hr (.pure _ v)

end Blocks

/-! ### The two texts -/

/-- `for [init, test, step] [body]`. -/
def forText (init test step body : List Token) : List Token :=
  mark .forKw "for" ::
    (brackets (init ++ mark .comma "," :: (test ++ mark .comma "," :: step)) ++ brackets body)

/-- A test that is left out is `true`. -/
def testText (test : List Token) : List Token :=
  if test = [] then [mark .trueKw "true"] else test

/-- `[body] step;`, and the body alone if there is no `step`. -/
def roundText (step body : List Token) : List Token :=
  if step = [] then body else brackets body ++ (step ++ [mark .semicolon ";"])

/-- `while [test] [[body] step;]`. -/
def loopText (test step body : List Token) : List Token :=
  mark .whileKw "while" :: (brackets (testText test) ++ brackets (roundText step body))

/-- `[init; while [test] [[body] step;]]`, and the loop alone if there is no
`init`. -/
def whileText (init test step body : List Token) : List Token :=
  if init = [] then loopText test step body
  else brackets (init ++ mark .semicolon ";" :: loopText test step body)

theorem brackets_append (w s : List Token) :
    brackets w ++ s = mark .leftBracket "[" :: (w ++ mark .rightBracket "]" :: s) := by
  simp [brackets]

/-! ### Reading the parts -/

/-- The tokens are read as the clause at one place, and hence at others. -/
structure ReadsClause (n : Nat) (w : List Token) (o : Option Expr) : Prop where
  derived : Clause n w o
  again {m : Nat} (h : n ≤ m) {e : Expr} (he : o = some e) {s : List Token}
    (hs : Closes (frontKind s)) : Takes (level m).expression w e s

/-- The tokens are read as the rest of a block at one place, and hence at others. -/
structure ReadsBody (n : Nat) (inFunction : Bool) (w : List Token) (stmts : List Stmt) :
    Prop where
  derived : ∃ u r, w = u ++ [r] ∧ r.kind = .rightBracket ∧ Statements n u stmts
  again {m : Nat} (h : n ≤ m) (s : List Token) : Takes (block (level m) inFunction) w stmts s

section Parts

variable {n : Nat} {inFunction : Bool}

theorem sound_clause (n : Nat) (kind : Kind) :
    Sound (exprBefore (level n) kind) (ReadsClause n) := by
  refine .nextIsThen kind fun next => ?_
  cases next with
  | true => exact .pure ⟨.absent, by simp⟩
  | false =>
      have hagain (i : { m // n ≤ m }) : Sound (level n).expression fun w e =>
          ∀ s, Closes (frontKind s) → Takes (level i.1).expression w e s :=
        (repeats_level i.2).expression.sound
      refine .bind ((derives_level n).expression.andForall hagain) fun e => .pure ?_
      rintro w ⟨⟨hphrase, -⟩, htakes⟩
      refine ⟨by simpa using Clause.present hphrase, ?_⟩
      rintro m hm e' ⟨⟩ s hs
      simpa using htakes ⟨m, hm⟩ s hs

theorem sound_body (n : Nat) (inFunction : Bool) :
    Sound (block (level n) inFunction) (ReadsBody n inFunction) := by
  have hagain (i : { m // n ≤ m }) : Sound (block (level n) inFunction) fun w stmts =>
      ∀ s, True → Takes (block (level i.1) inFunction) w stmts s := by
    have hrepeats : Repeats (fun _ => True) (block (level n) inFunction)
        (block (level i.1) inFunction) := repeats_block (repeats_level i.2) inFunction
    exact hrepeats.sound
  refine ((sound_block (derives_level n) inFunction).andForall hagain).mono ?_
  rintro w stmts ⟨⟨u, r, hw, hr, hstmts, -⟩, htakes⟩
  exact ⟨⟨u, r, hw, hr, hstmts⟩, fun hm s => htakes ⟨_, hm⟩ s trivial⟩

/-- The parts of a `for` loop. -/
structure ForParts (n : Nat) (inFunction : Bool) (init test step body : List Token)
    (i t e : Option Expr) (stmts : List Stmt) : Prop where
  init : ReadsClause n init i
  test : ReadsClause n test t
  step : ReadsClause n step e
  body : ReadsBody n inFunction body stmts

theorem sound_forParts (n : Nat) (inFunction : Bool) (keyword : Token) :
    Sound (forStatement (level n) inFunction keyword) fun w s =>
      ∃ l₁ w₁ comma₁ w₂ comma₂ w₃ r₁ l₂ w₄ i t e stmts,
        w = l₁ :: (w₁ ++ comma₁ :: (w₂ ++ comma₂ :: (w₃ ++ r₁ :: l₂ :: w₄))) ∧
          comma₁.kind = .comma ∧ comma₂.kind = .comma ∧ r₁.kind = .rightBracket ∧
          ForParts n inFunction w₁ w₂ w₃ w₄ i t e stmts ∧ s = forLoop keyword i t e stmts := by
  refine .expectThen fun l₁ _ => .bind (sound_clause n _) fun i => ?_
  refine .expectThen fun comma₁ hcomma₁ => .bind (sound_clause n _) fun t => ?_
  refine .expectThen fun comma₂ hcomma₂ => .bind (sound_clause n _) fun e => ?_
  refine .expectThen fun r₁ hr₁ => .expectThen fun l₂ _ => ?_
  refine .bind (sound_body n inFunction) fun stmts => .noteLoopThen _ (.pure ?_)
  intro w₄ hbody w₃ hstep w₂ htest w₁ hinit
  exact ⟨l₁, w₁, comma₁, w₂, comma₂, w₃, r₁, l₂, w₄, i, t, e, stmts, by simp, hcomma₁, hcomma₂,
    hr₁, ⟨hinit, htest, hstep, hbody⟩, rfl⟩

end Parts

/-! ### What the `for` loop is read as -/

/-- Each part of a `for` loop is read up to its end, and no further. -/
theorem read_forText {n : Nat} {inFunction : Bool} {init test step body after : List Token}
    (hinit : Enclosed separators init) (htest : Enclosed separators test)
    (hstep : Enclosed separators step) (hbody : Enclosed [] body) {c c' : Cursor} {s : Stmt}
    (hrest : c.rest = forText init test step body ++ after)
    (hread : (level n).statement inFunction c = (some s, c'))
    (hquiet : c'.errors.size = c.errors.size) :
    ∃ k i t e stmts, n = k + 1 ∧ c'.rest = after ∧
      ForParts k inFunction init test step (body ++ [mark .rightBracket "]"]) i t e stmts ∧
      s = forLoop (mark .forKw "for") i t e stmts := by
  cases n with
  | zero => simp [level, Reader.fail] at hread
  | succ k =>
      have haccept : accept? announcing c = (some (some (mark .forKw "for")),
          { c with rest := (forText init test step body ++ after).tail }) := by
        simp [accept?, announcing, hrest, forText, mark]
      rw [statement_eq, bind_of_some haccept] at hread
      have hfor : forStatement (level k) inFunction (mark .forKw "for")
          { c with rest := (forText init test step body ++ after).tail } = (some s, c') := hread
      obtain ⟨w, hw, l₁, w₁, comma₁, w₂, comma₂, w₃, r₁, l₂, w₄, i, t, e, stmts, rfl, hcomma₁,
        hcomma₂, hr₁, hparts, rfl⟩ := (sound_forParts k inFunction _ _ s c' hfor).2 hquiet
      simp only [forText, brackets, List.cons_append, List.append_assoc, List.nil_append,
        List.tail_cons, List.cons.injEq] at hw
      obtain ⟨rfl, hw⟩ := hw
      have hmark : (mark .comma ",").kind = .rightBracket ∨ (mark .comma ",").kind ∈ separators := by
        decide
      have hstop {t : Token} (ht : t.kind = .comma) :
          t.kind = .rightBracket ∨ t.kind ∈ separators := by simp [ht, separators]
      obtain ⟨rfl, -, hw⟩ := hinit.eq_of_append (by decide) hmark hparts.init.derived.enclosed
        (hstop hcomma₁) hw
      obtain ⟨rfl, -, hw⟩ := htest.eq_of_append (by decide) hmark hparts.test.derived.enclosed
        (hstop hcomma₂) hw
      obtain ⟨rfl, -, hw⟩ := hstep.eq_of_append (by decide) (Or.inl rfl)
        hparts.step.derived.enclosed (Or.inl hr₁) hw
      obtain ⟨-, hw⟩ := List.cons.inj hw
      obtain ⟨u, r, rfl, hr, hstmts⟩ := hparts.body.derived
      simp only [List.append_assoc, List.cons_append, List.nil_append] at hw
      obtain ⟨rfl, rfl, rfl⟩ := hbody.eq_of_append (by simp) (Or.inl rfl) hstmts.enclosed
        (Or.inl hr) hw
      exact ⟨k, i, t, e, stmts, rfl, rfl, hparts, rfl⟩

/-! ### What the `while` loop is read as -/

section While

variable {n m : Nat} {inFunction : Bool}

/-- An expression where a statement is read does not begin with a bracket, for that
would open a block. -/
theorem front_of_succeeds {d : Nat} {w v : List Token} {e : Expr}
    (h : Phrase d .expression w e) (hs : Succeeds ((level n).statement inFunction) (w ++ v)) :
    ∃ t u, w = t :: u ∧ t.kind ∉ announcing := by
  have hbegins := h.begins
  cases hbegins with
  | @plain t u kind => exact ⟨t, u, rfl, kind⟩
  | @grouped d l r w rest e around inside =>
      exfalso
      cases n with
      | zero =>
          obtain ⟨c, a, c', -, hc, -⟩ := hs
          simp [level, Reader.fail] at hc
      | succ n =>
          rw [statement_eq] at hs
          simp only [within, List.cons_append, List.append_assoc, List.nil_append] at hs
          have hblock : Succeeds (block (level n) inFunction) (w ++ r :: (rest ++ v)) := by
            have hannounced := hs.accepted (by simp [around.left, announcing])
            simp only [Option.elim_some, announced, around.left] at hannounced
            exact hannounced.first (sound_body n inFunction)
              fun stmts => Sound.pure (R := fun _ _ => True) trivial
          obtain ⟨w', v', stmts, hw, ⟨u, r', rfl, hr', hstmts⟩, -⟩ :=
            hblock.exists_taken (sound_body n inFunction)
          simp only [List.append_assoc, List.cons_append, List.nil_append] at hw
          obtain ⟨rfl, -, -⟩ := inside.enclosed.loosen.eq_of_append (by simp) (Or.inl around.right)
            hstmts.enclosed (Or.inl hr') hw
          exact inside.not_statements hstmts

/-- The same at the front of what is left of a block. -/
theorem front_of_blockFrom {d : Nat} {w v : List Token} {e : Expr} {stmts : Array Stmt}
    (h : Phrase d .expression w e)
    (hs : Succeeds (blockFrom (level n) inFunction stmts) (w ++ v)) :
    ∃ t u, w = t :: u ∧ t.kind ∉ announcing ∧ t.kind ≠ .rightBracket := by
  obtain ⟨t, u, rfl⟩ := List.exists_cons_of_ne_nil h.begins.ne_nil
  have hne := h.enclosed.front_ne
  obtain ⟨t', u', heq, hkind⟩ := front_of_succeeds h (succeeds_statement hs hne)
  obtain ⟨rfl, rfl⟩ := List.cons.inj heq
  exact ⟨t, u, rfl, hkind, hne⟩

theorem takes_expressionStatement {t semicolon : Token} {u s : List Token} {e : Expr}
    (ht : t.kind ∉ announcing) (hend : semicolon.kind = .semicolon)
    (htakes : Takes (level n).expression (t :: u) e (semicolon :: s)) :
    Takes ((level (n + 1)).statement inFunction) (t :: u ++ [semicolon]) (.expression e) s := by
  rw [statement_eq]
  refine .declineThen (by simpa using ht) ?_
  exact .bind htakes (.expectThen hend (.pure _ s))

theorem takes_blockStatement {l : Token} {w s : List Token} {stmts : List Stmt}
    (hl : l.kind = .leftBracket) (htakes : Takes (block (level n) inFunction) w stmts s) :
    Takes ((level (n + 1)).statement inFunction) (l :: w) (.block stmts) s := by
  rw [statement_eq]
  refine .acceptThen (by simp [hl, announcing]) ?_
  simp only [Option.elim_some, announced, hl]
  exact .map Stmt.block htakes

/-- The condition of the loop: a test that is left out is `true`. -/
theorem takes_test {test : List Token} {t : Option Expr} (htest : ReadsClause n test t)
    (hm : n ≤ m) (s : List Token) :
    Takes (level (m + 1)).expression (testText test)
      (t.getD (.literal (.bool true))) (mark .rightBracket "]" :: s) := by
  have hcloses : Closes (frontKind (mark .rightBracket "]" :: s)) := by simp [Closes, frontKind, mark]
  cases htest.derived with
  | absent =>
      have hend : Follow .expression (mark .rightBracket "]" :: s) := follow_of_end (by simp [mark])
      exact (readsBack_literal (.bool true)).expression ⟨trivial, trivial⟩ (by simp [Expr.levels]) hend
  | present hphrase =>
      rw [testText, if_neg hphrase.begins.ne_nil]
      exact htest.again (Nat.le_succ_of_le hm) rfl hcloses

/-- One round of the loop: the step follows the body. -/
theorem takes_round {step body : List Token} {e : Option Expr} {stmts : List Stmt}
    (hstep : ReadsClause n step e)
    (hbody : ReadsBody n inFunction (body ++ [mark .rightBracket "]"]) stmts) (hm : n ≤ m)
    (s : List Token)
    (hs : Succeeds (block (level (m + 1)) inFunction)
      (roundText step body ++ mark .rightBracket "]" :: s)) :
    Takes (block (level (m + 1)) inFunction) (roundText step body ++ [mark .rightBracket "]"])
      (e.elim stmts fun e => [.block stmts, .expression e]) s := by
  cases hstep.derived with
  | absent => exact hbody.again (Nat.le_succ_of_le hm) s
  | @present _ _ e hphrase =>
      rw [roundText, if_neg hphrase.begins.ne_nil] at hs ⊢
      simp only [block_eq, brackets, List.append_assoc, List.cons_append, List.nil_append] at hs ⊢
      have hfirst (v : List Token) : Takes ((level (m + 1)).statement inFunction)
          (mark .leftBracket "[" :: (body ++ [mark .rightBracket "]"])) (.block stmts) v :=
        takes_blockStatement rfl (hbody.again hm v)
      have hrest := succeeds_rest (w := body ++ [mark .rightBracket "]"]) (by simpa using hs)
        (by simp [mark]) (hfirst _)
      obtain ⟨t, u, rfl, ht, hne⟩ := front_of_blockFrom hphrase hrest
      have hsecond (v : List Token) : Takes ((level (m + 1)).statement inFunction)
          (t :: u ++ [mark .semicolon ";"]) (.expression e) v :=
        takes_expressionStatement ht rfl (hstep.again hm rfl (by simp [Closes, frontKind, mark]))
      have hlast : Takes (blockFrom (level (m + 1)) inFunction #[.block stmts, .expression e])
          [mark .rightBracket "]"] [.block stmts, .expression e] s := takes_blockEnd _ rfl s
      have hrest : Takes (blockFrom (level (m + 1)) inFunction (#[].push (.block stmts)))
          (t :: u ++ [mark .semicolon ";"] ++ [mark .rightBracket "]"])
          [.block stmts, .expression e] s := takes_blockFrom hne (hsecond _) hlast
      simpa using takes_blockFrom (by simp [mark]) (hfirst _) hrest

/-- The loop alone. -/
theorem takes_loopText {test step body after : List Token} {t e : Option Expr}
    {stmts : List Stmt} (htest : ReadsClause n test t) (hstep : ReadsClause n step e)
    (hbody : ReadsBody n inFunction (body ++ [mark .rightBracket "]"]) stmts) (hm : n ≤ m)
    (hs : Succeeds ((level (m + 2)).statement inFunction) (loopText test step body ++ after)) :
    Takes ((level (m + 2)).statement inFunction) (loopText test step body)
      (forLoop (mark .whileKw "while") none t e stmts) after := by
  rw [statement_eq] at hs ⊢
  rw [loopText, brackets_append] at hs ⊢
  simp only [List.append_assoc, List.cons_append, brackets_append] at hs
  have hblock := ((((hs.accepted (by decide)).expected rfl).after
    (takes_test htest hm _)).expected rfl).expected rfl
  have hround := takes_round hstep hbody hm after (hblock.first (sound_body _ inFunction)
    fun stmts => Sound.pure (R := fun _ _ => True) trivial)
  have hloop : forLoop (mark .whileKw "while") none t e stmts =
      .whileLoop (mark .whileKw "while") (t.getD (.literal (.bool true)))
        (.block (e.elim stmts fun e => [.block stmts, .expression e])) := by
    cases e <;> rfl
  rw [hloop]
  refine .acceptThen (by decide) (.expectThen rfl (.bind (takes_test htest hm _) ?_))
  refine .expectThen rfl (.expectThen rfl ?_)
  exact .bindPure (fun body => Stmt.whileLoop _ _ (.block body)) hround

/-- The hand-written text is read as the `for` loop, but for the keyword, if it is
read at all. -/
theorem takes_whileText {init test step body after : List Token} {i t e : Option Expr}
    {stmts : List Stmt}
    (hparts : ForParts n inFunction init test step (body ++ [mark .rightBracket "]"]) i t e stmts)
    (hm : n ≤ m)
    (hs : Succeeds ((level (m + 3)).statement inFunction) (whileText init test step body ++ after)) :
    Takes ((level (m + 3)).statement inFunction) (whileText init test step body)
      (forLoop (mark .whileKw "while") i t e stmts) after := by
  cases hparts.init.derived with
  | absent =>
      exact takes_loopText hparts.test hparts.step hparts.body (Nat.le_succ_of_le hm) hs
  | @present _ _ i hphrase =>
      rw [whileText, if_neg hphrase.begins.ne_nil] at hs ⊢
      unfold brackets at hs ⊢
      simp only [List.append_assoc, List.cons_append, List.nil_append] at hs
      have hblock : Succeeds (blockFrom (level (m + 2)) inFunction #[])
          (init ++ mark .semicolon ";" :: (loopText test step body ++
            mark .rightBracket "]" :: after)) := by
        rw [statement_eq] at hs
        rw [← block_eq]
        exact (hs.accepted (by decide)).first (sound_body _ inFunction)
          fun stmts => Sound.pure (R := fun _ _ => True) trivial
      obtain ⟨t', u, rfl, ht, hne⟩ := front_of_blockFrom hphrase hblock
      have hfirst (v : List Token) : Takes ((level (m + 2)).statement inFunction)
          (t' :: u ++ [mark .semicolon ";"]) (.expression i) v :=
        takes_expressionStatement ht rfl
          (hparts.init.again (Nat.le_succ_of_le hm) rfl (by simp [Closes, frontKind, mark]))
      have hrest : Succeeds (blockFrom (level (m + 2)) inFunction (#[].push (.expression i)))
          (loopText test step body ++ mark .rightBracket "]" :: after) :=
        succeeds_rest (by simpa using hblock) hne (hfirst _)
      have hsecond : Takes ((level (m + 2)).statement inFunction) (loopText test step body)
          (forLoop (mark .whileKw "while") none t e stmts) (mark .rightBracket "]" :: after) :=
        takes_loopText hparts.test hparts.step hparts.body hm
          (succeeds_statement hrest (by simp [mark]))
      have hlast : Takes (blockFrom (level (m + 2)) inFunction
          ((#[].push (.expression i)).push (forLoop (mark .whileKw "while") none t e stmts)))
          [mark .rightBracket "]"]
          [.expression i, forLoop (mark .whileKw "while") none t e stmts] after :=
        takes_blockEnd _ rfl after
      have hrest : Takes (blockFrom (level (m + 2)) inFunction (#[].push (.expression i)))
          (loopText test step body ++ [mark .rightBracket "]"])
          [.expression i, forLoop (mark .whileKw "while") none t e stmts] after :=
        takes_blockFrom (t := mark .whileKw "while") (by simp [mark]) hsecond hlast
      have hall : Takes (block (level (m + 2)) inFunction)
          (t' :: u ++ mark .semicolon ";" :: loopText test step body ++ [mark .rightBracket "]"])
          [.expression i, forLoop (mark .whileKw "while") none t e stmts] after := by
        rw [block_eq]
        simpa using takes_blockFrom hne (hfirst _) hrest
      exact takes_blockStatement rfl hall

end While

/-- Both texts are read as the same loop, apart from its keyword. -/
theorem forText_whileText {n n' : Nat} {inFunction : Bool}
    {init test step body after after' : List Token} (hinit : Enclosed separators init)
    (htest : Enclosed separators test) (hstep : Enclosed separators step)
    (hbody : Enclosed [] body) {c c' d d' : Cursor} {s s' : Stmt}
    (hc : c.rest = forText init test step body ++ after)
    (hread : (level n).statement inFunction c = (some s, c'))
    (hquiet : c'.errors.size = c.errors.size)
    (hd : d.rest = whileText init test step body ++ after')
    (hread' : (level n').statement inFunction d = (some s', d'))
    (hquiet' : d'.errors.size = d.errors.size) :
    c'.rest = after ∧ d'.rest = after' ∧ ∃ i t e stmts,
      s = forLoop (mark .forKw "for") i t e stmts ∧
      s' = forLoop (mark .whileKw "while") i t e stmts := by
  obtain ⟨k, i, t, e, stmts, -, hafter, hparts, hs⟩ :=
    read_forText hinit htest hstep hbody hc hread hquiet
  -- The levels of both texts together are enough for either.
  have hlevel : n' ≤ k + n' + 3 := by omega
  obtain ⟨w, hw, htakes⟩ :=
    (((repeats_level hlevel).statement inFunction) d s' d' hread').2 hquiet'
  obtain ⟨loops, hrun⟩ := htakes d'.rest (.refl _) d hw
  have hsucceeds : Succeeds ((level (k + n' + 3)).statement inFunction)
      (whileText init test step body ++ after') := ⟨d, s', _, hd, hrun, rfl⟩
  obtain ⟨loops', hrun'⟩ := takes_whileText hparts (Nat.le_add_right k n') hsucceeds d hd
  rw [hrun, Prod.mk.injEq, Option.some.injEq, Cursor.mk.injEq] at hrun'
  exact ⟨hafter, hrun'.2.1, i, t, e, stmts, hs, hrun'.1⟩

end Grammar
end BracketScript
