import Mathlib.Data.List.Forall2
import BracketScript.Proofs.Grammar.Composition
import BracketScript.Proofs.Grammar.Derivation

/-!
# What is read is derivable

If a list of tokens is read without a fault, the tokens up to the end marker are
consecutive statements of the grammar, and the trees are theirs.  Nothing is
skipped and nothing is left over.  In addition the trees keep the limits that
the grammar does not know of: the lengths of lists, what may be assigned to, and
where `return` may stand.

`Sound p R` says: where `p` yields a value and notes no fault, it has taken
tokens that are related to the value by `R`.  Faults noted on the way may only
add up, so that a reading without faults is one in each of its parts.
-/

namespace BracketScript

namespace Reader

variable {α β : Type}

/-- Whatever the reader yields without noting a fault is related to the tokens
it took. -/
def Sound (p : Reader α) (R : List Token → α → Prop) : Prop :=
  ∀ c a c', p c = (some a, c') → c.errors.size ≤ c'.errors.size ∧
    (c'.errors.size = c.errors.size → ∃ w, c.rest = w ++ c'.rest ∧ R w a)

namespace Sound

variable {p : Reader α} {P R : List Token → α → Prop}

theorem mono (hp : Sound p P) (h : ∀ w a, P w a → R w a) : Sound p R := by
  intro c a c' hc
  obtain ⟨hle, hquiet⟩ := hp c a c' hc
  refine ⟨hle, fun heq => ?_⟩
  obtain ⟨w, hw, hP⟩ := hquiet heq
  exact ⟨w, hw, h w a hP⟩

theorem pure {a : α} (h : R [] a) : Sound (pure a) R := by
  intro c b c' hc
  simp only [pure_apply, Prod.mk.injEq, Option.some.injEq] at hc
  obtain ⟨rfl, rfl⟩ := hc
  exact ⟨Nat.le_refl _, fun _ => ⟨[], rfl, h⟩⟩

/-- The second part is sound for what remains to be shown when the tokens of
the first part are put before its own. -/
theorem bind {k : α → Reader β} {S : List Token → β → Prop} (hp : Sound p P)
    (hk : ∀ a, Sound (k a) fun w' b => ∀ w, P w a → S (w ++ w') b) : Sound (p >>= k) S := by
  intro c b c' hc
  rcases bind_cases p k c with ⟨a, d, hd, hbind⟩ | ⟨d, hd, hbind⟩
  · rw [hbind] at hc
    obtain ⟨hle₁, hquiet₁⟩ := hp c a d hd
    obtain ⟨hle₂, hquiet₂⟩ := hk a d b c' hc
    refine ⟨Nat.le_trans hle₁ hle₂, fun heq => ?_⟩
    obtain ⟨w, hw, hP⟩ := hquiet₁ (by omega)
    obtain ⟨w', hw', hS⟩ := hquiet₂ (by omega)
    exact ⟨w ++ w', by rw [hw, hw', List.append_assoc], hS w hP⟩
  · rw [hbind] at hc
    simp at hc

theorem map {g : α → β} {S : List Token → β → Prop} (hp : Sound p P)
    (h : ∀ w a, P w a → S w (g a)) : Sound (g <$> p) S :=
  bind hp fun a => pure fun w hw => by simpa using h w a hw

theorem fail (fault : SyntaxFault) : Sound (fail fault : Reader α) R := by
  intro c a c' hc
  simp [Reader.fail] at hc

/-- A fault noted is a fault noted: nothing is left to show. -/
theorem report (t : Token) (fault : SyntaxFault) {S : List Token → Unit → Prop} :
    Sound (report t fault) S := by
  intro c a c' hc
  simp only [Reader.report, Prod.mk.injEq] at hc
  obtain ⟨-, rfl⟩ := hc
  refine ⟨by simp [Cursor.note], fun heq => ?_⟩
  simp [Cursor.note] at heq

theorem noteLoopThen {k : Unit → Reader β} {S : List Token → β → Prop} (line : Nat)
    (hk : Sound (k ()) S) : Sound (noteLoop line >>= k) S := by
  intro c b c' hc
  exact hk { c with loops := c.loops.push line } b c' hc

theorem peekThen {k : Token → Reader β} {S : List Token → β → Prop} (hk : ∀ t, Sound (k t) S) :
    Sound (peek >>= k) S :=
  fun c b c' hc => hk c.peek c b c' hc

theorem atEndThen {k : Bool → Reader β} {S : List Token → β → Prop}
    (hk : ∀ ends, Sound (k ends) S) : Sound (atEnd >>= k) S :=
  fun c b c' hc => hk c.rest.isEmpty c b c' hc

theorem nextIsThen {k : Bool → Reader β} {S : List Token → β → Prop} (kind : Kind)
    (hk : ∀ next, Sound (k next) S) : Sound (nextIs kind >>= k) S :=
  fun c b c' hc => hk _ c b c' hc

/-- A token that is accepted is put before the tokens of what follows. -/
theorem acceptThen {kinds : List Kind} {k : Option Token → Reader β} {S : List Token → β → Prop}
    (hnone : Sound (k none) S)
    (hsome : ∀ t, t.kind ∈ kinds → Sound (k (some t)) fun w b => S (t :: w) b) :
    Sound (accept? kinds >>= k) S := by
  intro c b c' hc
  rcases bind_cases (accept? kinds) k c with ⟨o, d, hd, hbind⟩ | ⟨d, hd, hbind⟩
  · rw [hbind] at hc
    cases o with
    | none =>
        obtain ⟨rfl, -⟩ := accept?_eq_none hd
        exact hnone d b c' hc
    | some t =>
        obtain ⟨hkind, hrest, hd'⟩ := accept?_eq_some hd
        have herrors : d.errors = c.errors := by rw [hd']
        obtain ⟨hle, hquiet⟩ := hsome t hkind d b c' hc
        rw [herrors] at hle hquiet
        refine ⟨hle, fun heq => ?_⟩
        obtain ⟨w, hw, hS⟩ := hquiet heq
        exact ⟨t :: w, by rw [hrest, hw, List.cons_append], hS⟩
  · rw [hbind] at hc
    simp at hc

theorem expectThen {kind : Kind} {fault : SyntaxFault} {k : Token → Reader β}
    {S : List Token → β → Prop}
    (hk : ∀ t, t.kind = kind → Sound (k t) fun w b => S (t :: w) b) :
    Sound (expect kind fault >>= k) S := by
  have heq : expect kind fault >>= k =
      accept? [kind] >>= fun o => o.elim (Reader.fail fault) k := by
    unfold expect
    rw [bind_assoc]
    refine congrArg (accept? [kind] >>= ·) (funext fun o => ?_)
    cases o <;> rfl
  rw [heq]
  exact acceptThen (fail fault) fun t ht => hk t (by simpa using ht)

/-- The invariant of a loop relates the tokens taken so far to the value built
so far. -/
theorem loop {step : α → Reader (Option α)} {I : List Token → α → Prop}
    (hstep : ∀ a, Sound (step a) fun w o => ∀ w₀, I w₀ a → I (w₀ ++ w) (o.getD a)) (a : α) :
    Sound (loop step a) fun w b => ∀ w₀, I w₀ a → I (w₀ ++ w) b := by
  have within (n : Nat) : ∀ a, Sound (loopWithin step n a)
      fun w b => ∀ w₀, I w₀ a → I (w₀ ++ w) b := by
    induction n with
    | zero => exact fun a => pure fun w₀ h => by simpa using h
    | succ n ih =>
        intro a c b c' hc
        rcases step_cases step a c with ⟨a', d, hd⟩ | ⟨d, hd⟩ | ⟨d, hd⟩
        · rw [loopWithin_of_more hd] at hc
          obtain ⟨hle₁, hquiet₁⟩ := hstep a c _ d hd
          obtain ⟨hle₂, hquiet₂⟩ := ih a' d b c' hc
          refine ⟨Nat.le_trans hle₁ hle₂, fun heq => ?_⟩
          obtain ⟨w, hw, hI⟩ := hquiet₁ (by omega)
          obtain ⟨w', hw', hI'⟩ := hquiet₂ (by omega)
          refine ⟨w ++ w', by rw [hw, hw', List.append_assoc], fun w₀ h => ?_⟩
          rw [← List.append_assoc]
          exact hI' _ (hI w₀ h)
        · rw [loopWithin_of_stop hd] at hc
          simp only [Prod.mk.injEq, Option.some.injEq] at hc
          obtain ⟨rfl, rfl⟩ := hc
          exact hstep a c _ d hd
        · rw [loopWithin_of_fail hd] at hc
          simp at hc
  exact fun c => within c.rest.length a c

/-- The invariant of a loop whose rounds begin with a certain kind of token. -/
theorem loopWhenNext {kinds : List Kind} {k : α → Token → Reader (Option α)}
    {I : List Token → α → Prop}
    (hk : ∀ a t, Sound (k a t) fun w o =>
      t.kind ∈ kinds → ∀ w₀, I w₀ a → I (w₀ ++ t :: w) (o.getD a)) (a : α) :
    Sound (Reader.loop (fun a => whenNext kinds (k a)) a)
      fun w b => ∀ w₀, I w₀ a → I (w₀ ++ w) b := by
  refine loop (fun a => ?_) a
  refine acceptThen (pure fun w₀ h => by simpa using h) fun t ht => ?_
  exact (hk a t).mono fun w o h => h ht

/-- Items up to a closing bracket satisfy what each more item keeps. -/
theorem untilBracket {I : List Token → List α → Prop} (hp : Sound p P) (hnil : I [] [])
    (hmore : ∀ w items w' a, I w items → P w' a → I (w ++ w') (items ++ [a])) :
    Sound (Reader.untilBracket p) I := by
  have hround (items : Array α) : Sound (itemRound p items) fun w o =>
      ∀ w₀, I w₀ items.toList → I (w₀ ++ w) (o.getD items).toList := by
    have hstop : Sound (Pure.pure none : Reader (Option (Array α))) fun w o =>
        ∀ w₀, I w₀ items.toList → I (w₀ ++ w) (o.getD items).toList :=
      pure fun w₀ h => by simpa using h
    refine nextIsThen .rightBracket fun closes => ?_
    cases closes with
    | true => exact hstop
    | false =>
        refine atEndThen fun ends => ?_
        cases ends with
        | true => exact hstop
        | false =>
            refine bind hp fun a => pure ?_
            intro w hP w₀ hI
            simpa using hmore w₀ items.toList w a hI hP
  rw [untilBracket_eq]
  refine bind (loop hround #[]) fun items => pure fun w h => ?_
  simpa using h [] hnil

/-- An entry without a fault is one of those that the list may still have. -/
theorem entry (list : ListKind) (hp : Sound p P) (count : Nat) :
    Sound (Reader.entry list p count) fun w a => P w a ∧ count < 127 := by
  unfold Reader.entry
  by_cases hcount : maxEntries ≤ count
  · simp only [hcount, if_true]
    refine peekThen fun t => ?_
    exact bind (P := fun _ _ => False) (report t _) fun _ => hp.mono fun _ _ _ _ h => h.elim
  · simp only [hcount, if_false]
    refine hp.mono fun w a h => ⟨h, ?_⟩
    simpa [maxEntries] using hcount

/-- Entries in brackets satisfy what each more entry keeps, and there are at
most as many as a list may have. -/
theorem entries {I : List Token → List α → Prop} (list : ListKind) (hp : Sound p P)
    (hnil : I [] []) (hone : ∀ w a, P w a → I w [a])
    (hmore : ∀ w items comma w' a, I w items → items ≠ [] → comma.kind = .comma → P w' a →
      I (w ++ comma :: w') (items ++ [a])) :
    Sound (Reader.entries list p) fun w r =>
      ∃ u, w = u ++ [r.2] ∧ r.2.kind = .rightBracket ∧ I u r.1 ∧ r.1.length ≤ 127 := by
  have hloop (first : α) : Sound (Reader.loop (entryRound list p) #[first]) fun w items =>
      ∀ w₀, (I w₀ [first] ∧ [first] ≠ [] ∧ [first].length ≤ 127) →
        I (w₀ ++ w) items.toList ∧ items.toList ≠ [] ∧ items.toList.length ≤ 127 := by
    refine loopWhenNext (I := fun w items =>
      I w items.toList ∧ items.toList ≠ [] ∧ items.toList.length ≤ 127)
      (fun items comma => ?_) #[first]
    refine bind (entry list hp items.size) fun a => pure ?_
    rintro w ⟨hP, hcount⟩ hcomma w₀ ⟨hI, hne, -⟩
    have hkind : comma.kind = .comma := by simpa using hcomma
    refine ⟨?_, by simp, by simp; omega⟩
    simpa using hmore w₀ items.toList comma w a hI hne hkind hP
  have hopen : Sound (openEntries list p) fun w items =>
      I w items.toList ∧ items.toList.length ≤ 127 := by
    refine nextIsThen .rightBracket fun closes => ?_
    cases closes with
    | true => exact pure ⟨hnil, by simp⟩
    | false =>
        refine bind (entry list hp 0) fun first => ?_
        refine (hloop first).mono ?_
        rintro w items h w' ⟨hP, -⟩
        obtain ⟨hI, -, hlength⟩ := h w' ⟨hone w' first hP, by simp, by simp⟩
        exact ⟨hI, hlength⟩
  rw [entries_eq]
  refine bind hopen fun items => expectThen fun bracket hkind => pure ?_
  rintro u ⟨hI, hlength⟩
  exact ⟨u, rfl, hkind, hI, hlength⟩

end Sound
end Reader

namespace Grammar

open Reader

/-- The tokens are the expression, which keeps the limits. -/
def Reads (d : Nat) (p : Place) (w : List Token) (e : Expr) : Prop :=
  Phrase d p w e ∧ e.EveryNode limits

/-- The tokens are the statement, which keeps the limits. -/
def ReadsStmt (d : Nat) (inFunction : Bool) (w : List Token) (s : Stmt) : Prop :=
  Statement d w s ∧ s.EveryNode limits inFunction

/-- What the readers of the next level build is derivable within `d` levels. -/
structure Inner.Derives (d : Nat) (inner : Inner) : Prop where
  statement (inFunction : Bool) : Sound (inner.statement inFunction) (ReadsStmt d inFunction)
  expression : Sound inner.expression (Reads d .expression)
  operand : Sound inner.operand fun w e => Operand d w e ∧ e.EveryNode limits
  structBody (keyword : Token) : Sound (inner.structBody keyword) fun w e =>
    keyword.kind = .structKw → Reads d .assignable (keyword :: w) e

theorem Place.everyNode_node (p : Place) (left right : Expr) (op : Token) :
    (p.node left op right).EveryNode limits ↔
      left.EveryNode limits ∧ right.EveryNode limits := by
  cases p <;> simp [Place.node, Expr.EveryNode, limits]

/-- What stands in a place stands in every looser place but the loosest. -/
theorem Reads.looser {d : Nat} {p : Place} {w : List Token} {e : Expr}
    (h : Reads d p.tighter w e) (hp : p ≠ .expression) : Reads d p w e :=
  ⟨.tighter hp h.1, h.2⟩

section Productions

variable {d : Nat} {inner : Inner} (hi : inner.Derives d)

theorem sound_names (list : ListKind) (fault : SyntaxFault) :
    Sound (entries list (expect .identifier fault)) fun w r =>
      ∃ u, w = u ++ [r.2] ∧ r.2.kind = .rightBracket ∧ Names u r.1 ∧ r.1.length ≤ 127 := by
  have hname : Sound (expect .identifier fault) fun w t => w = [t] ∧ t.kind = .identifier := by
    rw [← bind_pure (expect .identifier fault)]
    exact .expectThen fun t ht => .pure ⟨rfl, ht⟩
  refine .entries list hname .none ?_ ?_
  · rintro w t ⟨rfl, hkind⟩
    exact .one hkind
  · rintro w names comma w' t hnames hne hcomma ⟨rfl, hkind⟩
    exact .more hnames hne hcomma hkind

include hi in
theorem sound_block (inFunction : Bool) :
    Sound (block inner inFunction) fun w stmts =>
      ∃ u r, w = u ++ [r] ∧ r.kind = .rightBracket ∧ Statements d u stmts ∧
        ∀ s ∈ stmts, s.EveryNode limits inFunction := by
  have hstmts : Sound (untilBracket (inner.statement inFunction)) fun w stmts =>
      Statements d w stmts ∧ ∀ s ∈ stmts, s.EveryNode limits inFunction := by
    refine .untilBracket (hi.statement inFunction) ⟨.none, by simp⟩ ?_
    rintro w stmts w' s ⟨hstmts, hall⟩ ⟨hs, hlimits⟩
    exact ⟨.more hstmts hs, List.forall_mem_append.mpr ⟨hall, by simpa using hlimits⟩⟩
  refine .bind hstmts fun stmts => .expectThen fun bracket hkind => .pure ?_
  rintro u ⟨hstmts, hall⟩
  exact ⟨u, bracket, rfl, hkind, hstmts, hall⟩

include hi in
theorem sound_function (keyword : Token) :
    Sound (function inner keyword) fun w e =>
      keyword.kind = .funcKw → Reads d .assignable (keyword :: w) e := by
  refine .expectThen fun l₁ hl₁ => .bind (sound_names _ _) fun params => ?_
  refine .expectThen fun l₂ hl₂ => .bind (sound_block hi true) fun body => .pure ?_
  rintro w₂ ⟨u₂, r₂, rfl, hr₂, hbody, hall⟩ w₁ ⟨u₁, rfl, hr₁, hnames, hlength⟩ hkeyword
  refine ⟨?_, ?_⟩
  · simpa [within] using Phrase.func hkeyword ⟨hl₁, hr₁⟩ hnames ⟨hl₂, hr₂⟩ hbody
  · simpa [Expr.EveryNode, limits] using And.intro hlength hall

include hi in
theorem sound_primary : Sound (primary inner) (Reads d .primary) := by
  refine .acceptThen (.fail _) fun t ht => ?_
  have hconstant {v : Constant} (h : Denotes t v) :
      Sound (pure (.literal v)) fun w e => Reads d .primary (t :: w) e :=
    .pure ⟨.constant h, trivial⟩
  cases hkind : t.kind <;> simp only [hkind, List.mem_cons, reduceCtorEq] at ht ⊢
  case trueKw => exact hconstant (.yes hkind)
  case falseKw => exact hconstant (.no hkind)
  case nullKw => exact hconstant (.null hkind)
  case num =>
    rcases hl : t.literal with _ | x | s
    · exact hconstant (.missing (Or.inl hkind) hl)
    · exact hconstant (.number (Or.inl hkind) hl)
    · exact hconstant (.text (Or.inl hkind) hl)
  case str =>
    rcases hl : t.literal with _ | x | s
    · exact hconstant (.missing (Or.inr hkind) hl)
    · exact hconstant (.number (Or.inr hkind) hl)
    · exact hconstant (.text (Or.inr hkind) hl)
  case selfKw => exact .pure ⟨.self hkind, hkind⟩
  case identifier => exact .pure ⟨.name (Or.inl hkind), Or.inl hkind⟩
  case underscore => exact .pure ⟨.name (Or.inr hkind), Or.inr hkind⟩
  case leftBracket =>
    refine .bind hi.expression fun e => .expectThen fun r hr => .pure ?_
    rintro w ⟨hphrase, hlimits⟩
    exact ⟨.grouping ⟨hkind, hr⟩ hphrase, trivial, hlimits⟩
  all_goals simp at ht

include hi in
theorem sound_call : Sound (call inner) (Reads d .call) := by
  rw [call_eq]
  have hround (e : Expr) (t : Token) :
      Sound (if t.kind = .identifier then pure (some (.attribute e t))
        else entries .arguments inner.expression >>= fun r =>
          pure (some (.call e r.2 r.1))) fun w o =>
        t.kind ∈ [Kind.leftBracket, .identifier] → ∀ w₀, Reads d .call w₀ e →
          Reads d .call (w₀ ++ t :: w) (o.getD e) := by
    by_cases hkind : t.kind = .identifier
    · simp only [hkind, if_true]
      refine .pure ?_
      rintro - w₀ ⟨hphrase, hlimits⟩
      exact ⟨.member hphrase hkind, hkind, hlimits⟩
    · simp only [hkind, if_false]
      have hargs : Sound (entries .arguments inner.expression) fun w r =>
          ∃ u, w = u ++ [r.2] ∧ r.2.kind = .rightBracket ∧
            (Arguments d u r.1 ∧ ∀ e ∈ r.1, e.EveryNode limits) ∧ r.1.length ≤ 127 := by
        refine .entries (I := fun u es => Arguments d u es ∧ ∀ e ∈ es, e.EveryNode limits) _
          hi.expression ⟨.none, by simp⟩ ?_ ?_
        · rintro w e ⟨hphrase, hlimits⟩
          exact ⟨.one hphrase, by simpa using hlimits⟩
        · rintro w es comma w' e ⟨hes, hall⟩ hne hcomma ⟨hphrase, hlimits⟩
          exact ⟨.more hes hne hcomma hphrase,
            List.forall_mem_append.mpr ⟨hall, by simpa using hlimits⟩⟩
      refine .bind hargs fun args => .pure ?_
      rintro w ⟨u, rfl, hr, ⟨hes, hall⟩, hlength⟩ hopen w₀ ⟨hphrase, hlimits⟩
      have hl : t.kind = .leftBracket := by simpa [hkind] using hopen
      refine ⟨?_, ?_⟩
      · simpa [within] using Phrase.call hphrase ⟨hl, hr⟩ hes
      · simpa [Expr.EveryNode, limits] using And.intro hlength (And.intro hlimits hall)
  refine .bind (sound_primary hi) fun e => ?_
  refine (Sound.loopWhenNext (I := Reads d .call) hround e).mono ?_
  intro w b h w₀ hw₀
  exact h w₀ (hw₀.looser (by decide))

include hi in
theorem sound_unary : Sound (unary inner) (Reads d .unary) := by
  refine .acceptThen ((sound_call hi).mono fun w e h => h.looser (by decide)) fun op hop => ?_
  refine .bind hi.operand fun right => .pure ?_
  rintro w ⟨hright, hlimits⟩
  exact ⟨by simpa using Phrase.unary (by simpa using hop) hright, trivial, hlimits⟩

/-- One level of binary operators. -/
theorem sound_leftAssoc (p : Place) (hp : p ≠ .expression) {operand : Reader Expr}
    (hoperand : Sound operand (Reads d p.tighter)) :
    Sound (leftAssoc p.node p.operators operand) (Reads d p) := by
  rw [leftAssoc_eq]
  have hround (left : Expr) (op : Token) :
      Sound (operand >>= fun right => pure (some (p.node left op right))) fun w o =>
        op.kind ∈ p.operators → ∀ w₀, Reads d p w₀ left →
          Reads d p (w₀ ++ op :: w) (o.getD left) := by
    refine .bind hoperand fun right => .pure ?_
    rintro w ⟨hright, hlimits⟩ hop w₀ ⟨hleft, hlimits₀⟩
    refine ⟨by simpa using Phrase.operator hleft hop hright, ?_⟩
    exact (p.everyNode_node left right op).mpr ⟨hlimits₀, hlimits⟩
  refine .bind hoperand fun left => ?_
  refine (Sound.loopWhenNext (I := Reads d p) hround left).mono ?_
  intro w b h w₀ hw₀
  exact h w₀ (hw₀.looser hp)

include hi in
theorem sound_disjunction : Sound (disjunction inner) (Reads d .disjunction) := by
  have hfactor : Sound (factor inner) (Reads d .factor) :=
    sound_leftAssoc .factor (by decide) (sound_unary hi)
  have hterm : Sound (term inner) (Reads d .term) :=
    sound_leftAssoc .term (by decide) hfactor
  have hbitwise : Sound (bitwise inner) (Reads d .bitwise) :=
    sound_leftAssoc .bitwise (by decide) hterm
  have hcomparison : Sound (comparison inner) (Reads d .comparison) :=
    sound_leftAssoc .comparison (by decide) hbitwise
  have hequality : Sound (equality inner) (Reads d .equality) :=
    sound_leftAssoc .equality (by decide) hcomparison
  have hconjunction : Sound (conjunction inner) (Reads d .conjunction) :=
    sound_leftAssoc .conjunction (by decide) hequality
  exact sound_leftAssoc .disjunction (by decide) hconjunction

include hi in
theorem sound_assignable : Sound (assignable inner) (Reads d .assignable) := by
  refine .acceptThen ((sound_disjunction hi).mono fun w e h => h.looser (by decide))
    fun t ht => ?_
  by_cases hkind : t.kind = .structKw
  · simp only [hkind, if_true]
    exact (hi.structBody t).mono fun w e h => h hkind
  · simp only [hkind, if_false]
    exact (sound_function hi t).mono fun w e h => h (by simpa [hkind] using ht)

/-- What `:=` accepts as its target is one, and it is made of names. -/
theorem targets_of_target? {e : Expr} {target : Target} (h : target? e = some target)
    (hlimits : e.EveryNode limits) :
    Targets e target ∧ ∀ value, limits.expr (.assign target value) := by
  unfold target? at h
  split at h
  · cases h
    exact ⟨.name _, fun _ => hlimits⟩
  · cases h
    exact ⟨.field _ _, fun _ => ⟨hlimits.2, hlimits.1⟩⟩
  · simp at h

include hi in
theorem sound_assignment : Sound (assignment inner) (Reads (d + 1) .expression) := by
  refine .bind (sound_assignable hi) fun left => .acceptThen (.pure ?_) fun walrus hwalrus => ?_
  · rintro w ⟨hleft, hlimits⟩
    exact ⟨by simpa using Phrase.value hleft, hlimits⟩
  · refine .bind (sound_assignable hi) fun value => ?_
    cases htarget : target? left with
    | none => exact .bind (P := fun _ _ => False) (.report _ _) fun _ => .pure (by simp)
    | some target =>
        refine .pure ?_
        rintro w₂ ⟨hvalue, hlimits₂⟩ w₁ ⟨hleft, hlimits₁⟩
        obtain ⟨htargets, hlaw⟩ := targets_of_target? htarget hlimits₁
        refine ⟨?_, hlaw value, hlimits₂⟩
        simpa using Phrase.assign hleft htargets (by simpa using hwalrus) hvalue

include hi in
theorem sound_structDecl (keyword : Token) :
    Sound (structDecl inner keyword) fun w e =>
      keyword.kind = .structKw → Reads (d + 1) .assignable (keyword :: w) e := by
  have hfield : Sound (fieldInit inner) fun w field => ∃ walrus w' semicolon,
      w = field.name :: walrus :: (w' ++ [semicolon]) ∧ field.name.kind = .identifier ∧
        walrus.kind = .walrus ∧ Reads d .assignable w' field.value ∧
        semicolon.kind = .semicolon := by
    refine .expectThen fun name hname => .expectThen fun walrus hwalrus => ?_
    refine .bind (sound_assignable hi) fun value => .expectThen fun semicolon hend => .pure ?_
    intro w hvalue
    exact ⟨walrus, w, semicolon, rfl, hname, hwalrus, hvalue, hend⟩
  have hbody : Sound (untilBracket (fieldInit inner)) fun w body =>
      Fields d w body ∧ ∀ field ∈ body, field.value.EveryNode limits := by
    refine .untilBracket hfield ⟨.none, by simp⟩ ?_
    rintro w body w' ⟨name, value⟩ ⟨hbody, hall⟩
      ⟨walrus, u, semicolon, rfl, hname, hwalrus, ⟨hvalue, hlimits⟩, hend⟩
    exact ⟨.more hbody hname hwalrus hvalue hend,
      List.forall_mem_append.mpr ⟨hall, by simpa using hlimits⟩⟩
  refine .expectThen fun l₁ hl₁ => .bind (sound_names _ _) fun params => ?_
  refine .acceptThen (.pure ?_) fun l₂ hl₂ => ?_
  · rintro w ⟨u, rfl, hr₁, hnames, hlength⟩ hkeyword
    refine ⟨?_, hlength, trivial⟩
    simpa [within] using Phrase.struct hkeyword (.bare (d := d) ⟨hl₁, hr₁⟩ hnames)
  · refine .bind hbody fun body => .expectThen fun r₂ hr₂ => .pure ?_
    rintro w₂ ⟨hbody, hall⟩ w₁ ⟨u, rfl, hr₁, hnames, hlength⟩ hkeyword
    have hl₂ : l₂.kind = .leftBracket := by simpa using hl₂
    refine ⟨?_, hlength, fieldsEveryNode_iff.mpr hall⟩
    simpa [within] using Phrase.struct hkeyword (.full ⟨hl₁, hr₁⟩ hnames ⟨hl₂, hr₂⟩ hbody)

/-! ### Statements -/

theorem sound_importStatement (inFunction : Bool) (keyword : Token)
    (hkeyword : keyword.kind = .importKw) :
    Sound importStatement fun w s => ReadsStmt (d + 1) inFunction (keyword :: w) s := by
  refine .expectThen fun module hmodule => .expectThen fun l hl => ?_
  refine .bind (sound_names _ _) fun names => .pure ?_
  rintro w ⟨u, rfl, hr, hnames, hlength⟩
  refine ⟨?_, hlength⟩
  simpa [within] using Statement.importing hkeyword hmodule ⟨hl, hr⟩ hnames

include hi in
theorem sound_exprBefore (kind : Kind) :
    Sound (exprBefore inner kind) fun w o => Clause d w o ∧ ∀ e ∈ o, e.EveryNode limits := by
  refine .nextIsThen kind fun next => ?_
  cases next with
  | true => exact .pure ⟨.absent, by simp⟩
  | false =>
      refine .bind hi.expression fun e => .pure ?_
      rintro w ⟨hphrase, hlimits⟩
      exact ⟨by simpa using Clause.present hphrase, by simpa using hlimits⟩

include hi in
theorem sound_returnStatement (inFunction : Bool) (keyword : Token)
    (hkeyword : keyword.kind = .returnKw) :
    Sound (returnStatement inner inFunction keyword) fun w s =>
      ReadsStmt (d + 1) inFunction (keyword :: w) s := by
  have hvalue : Sound (returnValue inner keyword) fun w s =>
      ReadsStmt (d + 1) true (keyword :: w) s := by
    refine .bind (sound_exprBefore hi _) fun value => .expectThen fun semicolon hend => .pure ?_
    rintro w ⟨hclause, hlimits⟩
    exact ⟨.returning hkeyword hclause hend, Stmt.everyNode_returning.mpr ⟨rfl, hlimits⟩⟩
  cases inFunction with
  | true => exact hvalue
  | false =>
      rw [returnStatement_false]
      exact .bind (P := fun _ _ => False) (.report _ _) fun _ =>
        hvalue.mono fun _ _ _ _ h => h.elim

/-- The tokens are a condition in brackets and the statement it guards. -/
def Guard (d : Nat) (inFunction : Bool) (w : List Token) (arm : Expr × Stmt) : Prop :=
  ∃ l w₁ r w₂, w = within l w₁ r ++ w₂ ∧ Brackets l r ∧ Reads d .expression w₁ arm.1 ∧
    ReadsStmt d inFunction w₂ arm.2

/-- The tokens are what follows the statement of a conditional. -/
inductive Alternative (d : Nat) (inFunction : Bool) : List Token → Option Stmt → Prop
  | none : Alternative d inFunction [] none
  | elif {keyword : Token} {w : List Token} {s : Stmt} (kind : keyword.kind = .elifKw)
      (after : IfTail d w s) (limits : s.EveryNode limits inFunction) :
      Alternative d inFunction (keyword :: w) (some s)
  | otherwise {keyword : Token} {w : List Token} {s : Stmt} (kind : keyword.kind = .elseKw)
      (after : ReadsStmt d inFunction w s) : Alternative d inFunction (keyword :: w) (some s)

/-- The tokens are `elif` parts. -/
inductive Arms (d : Nat) (inFunction : Bool) : List Token → List (Expr × Stmt) → Prop
  | none : Arms d inFunction [] []
  | more {keyword : Token} {w w' : List Token} {arms : List (Expr × Stmt)} {arm : Expr × Stmt}
      (before : Arms d inFunction w arms) (kind : keyword.kind = .elifKw)
      (next : Guard d inFunction w' arm) :
      Arms d inFunction (w ++ keyword :: w') (arms ++ [arm])

/-- A guarded statement and what follows it make a conditional. -/
theorem Alternative.conditional {inFunction : Bool} {w w' : List Token} {arm : Expr × Stmt}
    {o : Option Stmt} (ho : Alternative d inFunction w' o) (harm : Guard d inFunction w arm) :
    IfTail d (w ++ w') (.conditional arm.1 arm.2 o) ∧
      (Stmt.conditional arm.1 arm.2 o).EveryNode limits inFunction := by
  obtain ⟨l, w₁, r, w₂, rfl, hbrackets, ⟨htest, hlimits₁⟩, ⟨hthen, hlimits₂⟩⟩ := harm
  rw [Stmt.everyNode_conditional]
  cases ho with
  | none =>
      refine ⟨?_, trivial, hlimits₁, hlimits₂, by simp⟩
      simpa using IfTail.bare hbrackets htest hthen
  | elif hkind hafter hlimits =>
      refine ⟨?_, trivial, hlimits₁, hlimits₂, by simpa using hlimits⟩
      simpa using IfTail.elif hbrackets htest hthen hkind hafter
  | otherwise hkind hafter =>
      refine ⟨?_, trivial, hlimits₁, hlimits₂, by simpa using hafter.2⟩
      simpa using IfTail.otherwise hbrackets htest hthen hkind hafter.1

/-- Each `elif` part is an alternative of what stands before it.  The parts are
read from the left, and the tree is built from the right. -/
theorem Arms.chain {inFunction : Bool} {w : List Token} {arms : List (Expr × Stmt)}
    (harms : Arms d inFunction w arms) {w' : List Token} {o : Option Stmt}
    (ho : Alternative d inFunction w' o) :
    Alternative d inFunction (w ++ w') (Grammar.chain arms o) := by
  induction harms generalizing w' o with
  | none => exact ho
  | @more keyword w u arms arm before kind next ih =>
      obtain ⟨htail, hlimits⟩ := ho.conditional next
      have hchain := ih (.elif kind htail hlimits)
      simpa [Grammar.chain] using hchain

include hi in
theorem sound_ifStatement (inFunction : Bool) (keyword : Token) (hkeyword : keyword.kind = .ifKw) :
    Sound (ifStatement inner inFunction) fun w s =>
      ReadsStmt (d + 1) inFunction (keyword :: w) s := by
  have hguarded : Sound (guarded inner inFunction) (Guard d inFunction) := by
    refine .expectThen fun l hl => .bind hi.expression fun condition => ?_
    refine .expectThen fun r hr => .bind (hi.statement inFunction) fun s => .pure ?_
    intro w₂ hs w₁ hcondition
    exact ⟨l, w₁, r, w₂, by simp [within], ⟨hl, hr⟩, hcondition, hs⟩
  have harms : Sound (loop (armRound inner inFunction) #[]) fun w arms =>
      ∀ w₀, Arms d inFunction w₀ [] → Arms d inFunction (w₀ ++ w) arms.toList := by
    refine .loopWhenNext (I := fun w arms => Arms d inFunction w arms.toList)
      (fun arms elif => ?_) #[]
    refine .bind hguarded fun arm => .pure ?_
    intro w harm hkind w₀ harms
    simpa using Arms.more harms (by simpa using hkind) harm
  have helse : Sound (elsePart inner inFunction) (Alternative d inFunction) := by
    refine .acceptThen (.pure .none) fun t ht => ?_
    exact (hi.statement inFunction).map fun w s hs => .otherwise (by simpa using ht) hs
  rw [ifStatement_eq]
  refine .bind hguarded fun arm => .bind harms fun arms => .bind helse fun o => .pure ?_
  intro w₃ ho w₂ harms w₁ harm
  obtain ⟨htail, hlimits⟩ := ((harms [] .none).chain ho).conditional harm
  exact ⟨by simpa using Statement.conditional hkeyword htail, hlimits⟩

include hi in
theorem sound_forStatement (inFunction : Bool) (keyword : Token)
    (hkeyword : keyword.kind = .forKw) :
    Sound (forStatement inner inFunction keyword) fun w s =>
      ReadsStmt (d + 1) inFunction (keyword :: w) s := by
  refine .expectThen fun l₁ hl₁ => .bind (sound_exprBefore hi _) fun start => ?_
  refine .expectThen fun comma₁ hcomma₁ => .bind (sound_exprBefore hi _) fun test => ?_
  refine .expectThen fun comma₂ hcomma₂ => .bind (sound_exprBefore hi _) fun step => ?_
  refine .expectThen fun r₁ hr₁ => .expectThen fun l₂ hl₂ => ?_
  refine .bind (sound_block hi inFunction) fun body => .noteLoopThen _ (.pure ?_)
  rintro w₄ ⟨u, r₂, rfl, hr₂, hbody, hall⟩ w₃ ⟨hstep, hlimits₃⟩ w₂ ⟨htest, hlimits₂⟩ w₁
    ⟨hstart, hlimits₁⟩
  refine ⟨?_, ?_⟩
  · have hloop {round s : Stmt} {condition : Expr} (hround : ForRound step body round)
        (hcondition : ForCondition test condition)
        (hs : ForStart start (.whileLoop keyword condition round) s) :=
      Statement.forLoop hkeyword ⟨hl₁, hr₁⟩ hstart hcomma₁ htest hcomma₂ hstep ⟨hl₂, hr₂⟩ hbody
        hround hcondition hs
    simp only [within, List.append_assoc, List.cons_append, List.nil_append] at hloop ⊢
    cases start <;> cases test <;> cases step <;>
      exact hloop (by constructor) (by constructor) (by constructor)
  · cases start <;> cases test <;> cases step <;>
      simp_all [forLoop, Stmt.EveryNode, Expr.EveryNode, limits]

include hi in
theorem sound_whileStatement (inFunction : Bool) (keyword : Token)
    (hkeyword : keyword.kind = .whileKw) :
    Sound (whileStatement inner inFunction keyword) fun w s =>
      ReadsStmt (d + 1) inFunction (keyword :: w) s := by
  refine .expectThen fun l₁ hl₁ => .bind hi.expression fun condition => ?_
  refine .expectThen fun r₁ hr₁ => .expectThen fun l₂ hl₂ => ?_
  refine .bind (sound_block hi inFunction) fun body => .pure ?_
  rintro w₂ ⟨u, r₂, rfl, hr₂, hbody, hall⟩ w₁ ⟨hcondition, hlimits⟩
  refine ⟨?_, trivial, hlimits, trivial, stmtsEveryNode_iff.mpr hall⟩
  simpa [within] using Statement.whileLoop hkeyword ⟨hl₁, hr₁⟩ hcondition ⟨hl₂, hr₂⟩ hbody

include hi in
theorem sound_matchStatement (inFunction : Bool) (keyword : Token)
    (hkeyword : keyword.kind = .matchKw) :
    Sound (matchStatement inner inFunction keyword) fun w s =>
      ReadsStmt (d + 1) inFunction (keyword :: w) s := by
  have hcase : Sound (matchCase inner inFunction) fun w entry => ∃ l w₁ arrow w₂ r,
      w = within l (w₁ ++ arrow :: w₂) r ∧ Brackets l r ∧ Reads d .expression w₁ entry.pattern ∧
        arrow.kind = .arrow ∧ ReadsStmt d inFunction w₂ entry.consequence := by
    refine .expectThen fun l hl => .bind hi.expression fun pattern => ?_
    refine .expectThen fun arrow harrow => .bind (hi.statement inFunction) fun s => ?_
    refine .expectThen fun r hr => .pure ?_
    intro w₂ hs w₁ hpattern
    exact ⟨l, w₁, arrow, w₂, r, by simp [within], ⟨hl, hr⟩, hpattern, harrow, hs⟩
  have hcases : Sound (untilBracket (matchCase inner inFunction)) fun w cases =>
      Cases d w cases ∧ ∀ entry ∈ cases,
        entry.pattern.EveryNode limits ∧ entry.consequence.EveryNode limits inFunction := by
    refine .untilBracket hcase ⟨.none, by simp⟩ ?_
    rintro w cases w' ⟨pattern, s⟩ ⟨hcases, hall⟩
      ⟨l, w₁, arrow, w₂, r, rfl, hbrackets, ⟨hpattern, hlimits₁⟩, harrow, ⟨hs, hlimits₂⟩⟩
    exact ⟨.more hcases hbrackets hpattern harrow hs,
      List.forall_mem_append.mpr ⟨hall, by simpa using And.intro hlimits₁ hlimits₂⟩⟩
  refine .expectThen fun l₁ hl₁ => .bind hi.expression fun subject => ?_
  refine .expectThen fun r₁ hr₁ => .expectThen fun against hagainst => ?_
  refine .expectThen fun l₂ hl₂ => .bind hcases fun cases => .expectThen fun r₂ hr₂ => .pure ?_
  rintro w₂ ⟨hcases, hall⟩ w₁ ⟨hsubject, hlimits⟩
  refine ⟨?_, trivial, hlimits, casesEveryNode_iff.mpr hall⟩
  simpa [within] using
    Statement.matching hkeyword ⟨hl₁, hr₁⟩ hsubject hagainst ⟨hl₂, hr₂⟩ hcases

include hi in
theorem sound_statement (inFunction : Bool) :
    Sound (statement inner inFunction) (ReadsStmt (d + 1) inFunction) := by
  refine .acceptThen ?_ fun t ht => ?_
  · refine .bind hi.expression fun e => .expectThen fun semicolon hend => .pure ?_
    rintro w ⟨hphrase, hlimits⟩
    exact ⟨.expression hphrase hend, trivial, hlimits⟩
  · cases hkind : t.kind <;> simp only [hkind, List.mem_cons, reduceCtorEq] at ht ⊢
    case importKw => exact sound_importStatement inFunction t hkind
    case returnKw => exact sound_returnStatement hi inFunction t hkind
    case ifKw => exact sound_ifStatement hi inFunction t hkind
    case forKw => exact sound_forStatement hi inFunction t hkind
    case whileKw => exact sound_whileStatement hi inFunction t hkind
    case matchKw => exact sound_matchStatement hi inFunction t hkind
    case leftBracket =>
      refine (sound_block hi inFunction).map ?_
      rintro w stmts ⟨u, r, rfl, hr, hstmts, hall⟩
      exact ⟨.block ⟨hkind, hr⟩ hstmts, trivial, stmtsEveryNode_iff.mpr hall⟩
    all_goals simp at ht

end Productions

/-- Each level of readers derives within its own number of levels. -/
theorem derives_level (n : Nat) : (level n).Derives n := by
  induction n with
  | zero => exact ⟨fun _ => .fail _, .fail _, .fail _, fun _ => .fail _⟩
  | succ n ih =>
      refine ⟨sound_statement ih, sound_assignment ih, ?_, sound_structDecl ih⟩
      exact (sound_unary ih).mono fun w e h => ⟨.deeper h.1, h.2⟩

/-- Statements read one after the other without a fault are consecutive, one
piece of the tokens for each.  The rounds that give up are out: they leave a
fault behind. -/
theorem statements_sound {one : Reader Stmt} {R : List Token → Stmt → Prop}
    (hone : Parallel id (Stmt.mapTokens id) one one) (hsound : Sound one R) (n : Nat)
    (done : Array Stmt) (c : Cursor) (hc : c.errors = #[])
    (hquiet : (statements one n done c).2.errors = #[]) :
    ∃ segments trees, (statements one n done c).1.toList = done.toList ++ trees ∧
      c.rest = segments.flatten ++ (statements one n done c).2.rest ∧
      List.Forall₂ R segments trees := by
  induction n generalizing done c with
  | zero => exact ⟨[], [], by simp [statements], by simp [statements], .nil⟩
  | succ n ih =>
      rcases round_cases one c with hrest | ⟨hrest, ⟨s, d, h⟩ | ⟨d, h⟩⟩
      · rw [statements_of_nil hrest]
        exact ⟨[], [], by simp, by simp, .nil⟩
      · rw [statements_of_some hrest h] at hquiet ⊢
        have hd : d.errors = #[] := by
          have hkeeps := statements_keeps hone n (done.push s) d
          rw [hquiet] at hkeeps
          exact Array.eq_empty_iff_forall_not_mem.mpr fun e he => by simpa using hkeeps e he
        obtain ⟨segments, trees, htrees, hsegments, hall⟩ := ih (done.push s) d hd hquiet
        obtain ⟨w, hw, hR⟩ := (hsound c s d h).2 (by rw [hc, hd])
        refine ⟨w :: segments, s :: trees, by simp [htrees], ?_, .cons hR hall⟩
        rw [hw, hsegments, List.flatten_cons, List.append_assoc]
      · rw [statements_of_none hrest h] at hquiet
        obtain ⟨fault, hfault⟩ := hone.gaveUp c (by rw [h])
        rw [h] at hfault
        have hkept := statements_keeps hone n done (resumed d) _ hfault
        rw [hquiet] at hkept
        simp at hkept

end Grammar

open Grammar

theorem segments_of_parse {tokens : List Token} {trees : List Stmt} (h : parse tokens = .ok trees) :
    ∃ segments : List (List Token),
      segments.flatten = tokens.takeWhile (fun t => t.kind ≠ .eof) ∧
      List.Forall₂ (ReadsStmt maxNesting false) segments trees := by
  obtain ⟨hquiet, htrees⟩ := parse_eq_ok_iff.mp h
  obtain ⟨segments, trees', hread, hsegments, hall⟩ :=
    statements_sound parallel_top ((derives_level maxNesting).statement false) _ #[]
      (Cursor.ofTokens tokens) rfl hquiet
  have hrest : (program (Cursor.ofTokens tokens)).2.rest = [] :=
    statements_rest parallel_top consumes_top _ #[] _ (Nat.le_refl _)
  have hsame : trees' = trees := by
    rw [← htrees]
    simpa [program] using hread.symm
  refine ⟨segments, ?_, hsame ▸ hall⟩
  calc segments.flatten
      = segments.flatten ++ (program (Cursor.ofTokens tokens)).2.rest := by
        rw [hrest, List.append_nil]
    _ = (Cursor.ofTokens tokens).rest := hsegments.symm

/-- Trees read without a fault keep the limits, as statements outside any
function. -/
theorem everyNode_of_parse {tokens : List Token} {trees : List Stmt}
    (h : parse tokens = .ok trees) : ∀ tree ∈ trees, tree.EveryNode limits false := by
  obtain ⟨segments, -, hall⟩ := segments_of_parse h
  clear h
  induction hall with
  | nil => simp
  | cons hR _ ih => exact List.forall_mem_cons.mpr ⟨hR.2, ih⟩

/-- The tokens before the end marker are consecutive statements of the grammar,
one for each tree and none left over, whenever they are read without a fault. -/
theorem parse_sound (tokens : List Token) (trees : List Stmt) (h : parse tokens = .ok trees) :
    ∃ segments : List (List Token),
      segments.flatten = tokens.takeWhile (fun t => t.kind ≠ .eof) ∧
      List.Forall₂ (Statement 255) segments trees ∧
      ∀ tree ∈ trees, tree.EveryNode limits false := by
  obtain ⟨segments, hflat, hall⟩ := segments_of_parse h
  exact ⟨segments, hflat, hall.imp fun _ _ hR => hR.1, everyNode_of_parse h⟩

/-- `a - b - c[];` is one statement; what stands behind the end marker is not
read. -/
theorem parse_sound_difference :
    ∃ segments : List (List Token),
      segments.flatten =
        List.takeWhile (fun t => t.kind ≠ .eof)
          [⟨.identifier, "a", none, 1⟩, ⟨.minus, "-", none, 1⟩, ⟨.identifier, "b", none, 1⟩,
            ⟨.minus, "-", none, 2⟩, ⟨.identifier, "c", none, 2⟩, ⟨.leftBracket, "[", none, 2⟩,
            ⟨.rightBracket, "]", none, 2⟩, ⟨.semicolon, ";", none, 2⟩, ⟨.eof, "", none, 3⟩,
            ⟨.elseKw, "else", none, 3⟩] ∧
      List.Forall₂ (Statement 255) segments
        [.expression (.binary
          (.binary (.variable ⟨.identifier, "a", none, 1⟩) ⟨.minus, "-", none, 1⟩
            (.variable ⟨.identifier, "b", none, 1⟩))
          ⟨.minus, "-", none, 2⟩
          (.call (.variable ⟨.identifier, "c", none, 2⟩) ⟨.rightBracket, "]", none, 2⟩ []))] :=
  Exists.imp (fun _ h => ⟨h.1, h.2.1⟩) (parse_sound _ _ rfl)

end BracketScript
