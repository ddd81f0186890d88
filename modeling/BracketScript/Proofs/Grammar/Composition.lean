import BracketScript.Proofs.Reading.Productions

/-!
# Reading statement by statement

Two lists of tokens, read one after the other, give what reading them as one
list gives, as long as the cut is at a statement boundary.  A fault in the first
list changes nothing about the second: where reading resumes, the cursor is as
good as new.

The cut matters in three ways, and each has its place here:

* A reader may look past the cut.  Statements do not, with one exception:
  behind a conditional they look for `elif` and `else`.  Readers that never go
  past the cut are `Closed`.
* A statement that is not finished at the cut would go on behind it.  It notes
  a fault at the end of the first list, so such faults are excluded.
* Resuming skips to the next semicolon and could skip over the cut; it does not
  if a semicolon is the last token before it.
-/

namespace BracketScript

/-- The faults of an outcome. -/
def faults {α : Type} : Except (List SyntaxError) α → List SyntaxError
  | .error errors => errors
  | .ok _ => []

namespace Cursor

/-- No fault was noted at the end of the tokens. -/
def NoEndFault (c : Cursor) : Prop :=
  ∀ e ∈ c.errors, e.location ≠ .atEnd

/-- At the end of the tokens, faults are noted at the end. -/
theorem atToken_peek_location {c : Cursor} (hfinish : c.finish.kind = .eof) (hrest : c.rest = [])
    (fault : SyntaxFault) : (SyntaxError.atToken c.peek fault).location = .atEnd := by
  simp [SyntaxError.atToken, Location.ofToken, peek, hrest, hfinish]

end Cursor

namespace Reader

variable {α β : Type} {more : List Token} {finish : Token}

/-- A reader that treats tokens added at the end as not there, unless it ends
with a fault at the old end. -/
structure Closed (more : List Token) (finish : Token) (p : Reader α) : Prop where
  leadsTo (c : Cursor) : c.LeadsTo (p c).2
  keeps (c : Cursor) : ∀ e ∈ c.errors, e ∈ (p c).2.errors
  extend (c : Cursor) (hfinish : c.finish.kind = .eof) (hend : (p c).2.NoEndFault) :
    p (c.extend more finish) = ((p c).1, (p c).2.extend more finish)

theorem Parallel.keeps {f : Token → Token} {g : α → α} {p q : Reader α} (h : Parallel f g p q)
    (c : Cursor) : ∀ e ∈ c.errors, e ∈ (p c).2.errors := by
  intro e he
  rw [h.frame c]
  simp [Cursor.after, he]

/-- A reader that gave up without a fault at the end did not get there. -/
theorem Parallel.rest_ne_nil_of_gaveUp {f : Token → Token} {g : α → α} {p q : Reader α}
    (h : Parallel f g p q) {c : Cursor} (hfinish : c.finish.kind = .eof)
    (hend : (p c).2.NoEndFault) (hnone : (p c).1 = none) : (p c).2.rest ≠ [] := by
  intro hrest
  obtain ⟨fault, hfault⟩ := h.gaveUp c hnone
  refine hend _ hfault (Cursor.atToken_peek_location ?_ hrest fault)
  rw [(h.leadsTo c).finish, hfinish]

theorem bind_keeps {p : Reader α} {k : α → Reader β}
    (hp : ∀ c, ∀ e ∈ c.errors, e ∈ (p c).2.errors)
    (hk : ∀ a c, ∀ e ∈ c.errors, e ∈ (k a c).2.errors) (c : Cursor) :
    ∀ e ∈ c.errors, e ∈ ((p >>= k) c).2.errors := by
  intro e he
  have hfirst := hp c e he
  rcases bind_cases p k c with ⟨a, d, hd, hbind⟩ | ⟨d, hd, hbind⟩
  · rw [hd] at hfirst
    rw [hbind]
    exact hk a d e hfirst
  · rw [hd] at hfirst
    rw [hbind]
    exact hfirst

theorem expect_of_kind {kind : Kind} {t : Token} (ht : t.kind = kind) (fault : SyntaxFault)
    {c : Cursor} {rest : List Token} (hc : c.rest = t :: rest) :
    expect kind fault c = (some t, { c with rest := rest }) := by
  unfold expect
  rw [bind_of_some (show accept? [kind] c = (some (some t), { c with rest := rest }) by
    simp [accept?, hc, ht])]
  rfl

theorem expect_of_ne {kind : Kind} (fault : SyntaxFault) {c : Cursor}
    (hc : ∀ t ∈ c.rest.head?, t.kind ≠ kind) :
    expect kind fault c = (none, c.note c.peek fault) := by
  unfold expect
  rw [bind_of_some (show accept? [kind] c = (some none, c) by
    rcases hrest : c.rest with _ | ⟨t, rest⟩
    · simp [accept?, hrest]
    · have ht : t.kind ≠ kind := hc t (by simp [hrest])
      simp [accept?, hrest, ht])]
  rfl

theorem accept?_extend {kinds : List Kind} {c : Cursor} (hc : c.rest ≠ []) :
    accept? kinds (c.extend more finish) =
      ((accept? kinds c).1, (accept? kinds c).2.extend more finish) := by
  obtain ⟨t, rest, ht⟩ := List.exists_cons_of_ne_nil hc
  by_cases hkind : t.kind ∈ kinds <;> simp [accept?, Cursor.extend, ht, hkind]

namespace Closed

theorem pure (a : α) : Closed more finish (pure a : Reader α) :=
  ⟨fun c => .refl c, fun _ _ he => he, fun _ _ _ => rfl⟩

/-- A sequence treats the added tokens as not there if its first part does and
its second part is closed. -/
theorem bind_extend {p : Reader α} {k : α → Reader β} {c : Cursor}
    (hfinish : (p c).2.finish.kind = .eof)
    (hfirst : (p c).2.NoEndFault →
      p (c.extend more finish) = ((p c).1, (p c).2.extend more finish))
    (hk : ∀ a, Closed more finish (k a)) (hend : ((p >>= k) c).2.NoEndFault) :
    (p >>= k) (c.extend more finish) =
      (((p >>= k) c).1, ((p >>= k) c).2.extend more finish) := by
  rcases bind_cases p k c with ⟨a, d, hd, hbind⟩ | ⟨d, hd, hbind⟩
  · rw [hd] at hfirst hfinish
    rw [hbind] at hend ⊢
    rw [bind_of_some (hfirst fun e he => hend e ((hk a).keeps d e he))]
    exact (hk a).extend d hfinish hend
  · rw [hd] at hfirst
    rw [hbind] at hend ⊢
    exact bind_of_none (hfirst hend)

theorem bind {p : Reader α} {k : α → Reader β} (hp : Closed more finish p)
    (hk : ∀ a, Closed more finish (k a)) : Closed more finish (p >>= k) where
  leadsTo := bind_leadsTo hp.leadsTo fun a => (hk a).leadsTo
  keeps := bind_keeps hp.keeps fun a => (hk a).keeps
  extend c hfinish hend :=
    bind_extend (by rw [(hp.leadsTo c).finish, hfinish]) (hp.extend c hfinish) hk hend

theorem map {p : Reader α} (g : α → β) (hp : Closed more finish p) :
    Closed more finish (g <$> p) :=
  hp.bind fun a => Closed.pure (g a)

theorem report (t : Token) (fault : SyntaxFault) : Closed more finish (Reader.report t fault) :=
  ⟨(Parallel.report (f := id) t fault).leadsTo, (Parallel.report (f := id) t fault).keeps,
    fun _ _ _ => rfl⟩

theorem noteLoop (line : Nat) : Closed more finish (Reader.noteLoop line) :=
  ⟨(Parallel.noteLoop (f := id) line line).leadsTo,
    (Parallel.noteLoop (f := id) line line).keeps, fun _ _ _ => rfl⟩

theorem expect (kind : Kind) (fault : SyntaxFault) :
    Closed more finish (Reader.expect kind fault) where
  leadsTo := (Parallel.expect (f := id) kind fault).leadsTo
  keeps := (Parallel.expect (f := id) kind fault).keeps
  extend c hfinish hend := by
    rcases hc : c.rest with _ | ⟨t, rest⟩
    · rw [expect_of_ne fault (by simp [hc])] at hend
      exact absurd (Cursor.atToken_peek_location hfinish hc fault)
        (hend _ (by simp [Cursor.note]))
    · have hmore : (c.extend more finish).rest = t :: (rest ++ more) := by simp [hc]
      by_cases ht : t.kind = kind
      · rw [expect_of_kind ht fault hc, expect_of_kind ht fault hmore]
        rfl
      · have hpeek : (c.extend more finish).peek = c.peek :=
          Cursor.extend_peek (by simp [hc]) more finish
        have hfail : Reader.expect kind fault c = _ :=
          expect_of_ne fault (by simpa [hc] using ht)
        rw [hfail, expect_of_ne fault (by rw [hmore]; simpa using ht), hpeek]
        rfl

theorem fail (fault : SyntaxFault) : Closed more finish (Reader.fail fault : Reader α) where
  leadsTo := (Parallel.fail (f := id) id fault).leadsTo
  keeps := (Parallel.fail (f := id) id fault).keeps
  extend c hfinish hend := by
    have hrest : c.rest ≠ [] := by
      intro hrest
      exact hend _ (by simp [Reader.fail, Cursor.note])
        (Cursor.atToken_peek_location hfinish hrest fault)
    simp only [Reader.fail, Cursor.extend_peek hrest]
    rfl

/-- What can be accepted behind the cut is not there. -/
theorem accept {kinds : List Kind} (hmore : ∀ t ∈ more.head?, t.kind ∉ kinds) :
    Closed more finish (accept? kinds) where
  leadsTo := (Parallel.accept (f := id) kinds).leadsTo
  keeps := (Parallel.accept (f := id) kinds).keeps
  extend c hfinish hend := by
    rcases hc : c.rest with _ | ⟨t, rest⟩
    · rcases hm : more with _ | ⟨t, rest⟩
      · simp [accept?, Cursor.extend, hc]
      · have ht : t.kind ∉ kinds := hmore t (by simp [hm])
        simp [accept?, Cursor.extend, hc, ht]
    · exact accept?_extend (by simp [hc])

/-- An expected token closes whatever stands before it. -/
theorem thenExpect {f : Token → Token} {g : α → α} {p q : Reader α} (hp : Parallel f g p q)
    (kind : Kind) (fault : SyntaxFault) {k : α → Token → Reader β}
    (hk : ∀ a t, Closed more finish (k a t)) :
    Closed more finish (p >>= fun a => Reader.expect kind fault >>= k a) where
  leadsTo := bind_leadsTo hp.leadsTo fun a =>
    ((Closed.expect kind fault).bind (hk a)).leadsTo
  keeps := bind_keeps hp.keeps fun a => ((Closed.expect kind fault).bind (hk a)).keeps
  extend c hfinish hend := by
    have hleads := hp.leadsTo c
    have hextend := hp.extend c more finish
    rcases bind_cases p (fun a => Reader.expect kind fault >>= k a) c with
      ⟨a, d, hd, hbind⟩ | ⟨d, hd, hbind⟩
    · rw [hd] at hextend hleads
      rw [hbind] at hend ⊢
      have hdfinish : d.finish.kind = .eof := by rw [hleads.finish, hfinish]
      have hrest : d.rest ≠ [] := by
        intro hrest
        rw [bind_of_none (expect_of_ne fault (by simp [hrest]))] at hend
        exact hend _ (by simp [Cursor.note]) (Cursor.atToken_peek_location hdfinish hrest fault)
      rw [bind_of_some (hextend hrest)]
      exact ((Closed.expect kind fault).bind (hk a)).extend d hdfinish hend
    · rw [hbind] at hend ⊢
      have hrest := hp.rest_ne_nil_of_gaveUp hfinish (by rw [hd]; exact hend) (by rw [hd])
      rw [hd] at hextend hrest
      exact bind_of_none (hextend hrest)

theorem loopWithin_keeps {step : α → Reader (Option α)}
    (hstep : ∀ a c, ∀ e ∈ c.errors, e ∈ (step a c).2.errors) (n : Nat) (a : α) (c : Cursor) :
    ∀ e ∈ c.errors, e ∈ (loopWithin step n a c).2.errors := by
  intro e he
  induction n generalizing a c with
  | zero => exact he
  | succ n ih =>
      have hround := hstep a c e he
      rcases step_cases step a c with ⟨a', d, hd⟩ | ⟨d, hd⟩ | ⟨d, hd⟩
      · rw [hd] at hround
        rw [loopWithin_of_more hd]
        exact ih a' d hround
      · rw [hd] at hround
        rw [loopWithin_of_stop hd]
        exact hround
      · rw [hd] at hround
        rw [loopWithin_of_fail hd]
        exact hround

/-- Here the loop may come to the old end.  It then has no round left, while
with more tokens it has, and declines. -/
theorem loopWithin_extend_closed {step : α → Reader (Option α)}
    (hstep : ∀ a, Closed more finish (step a)) (hadvances : Advances step)
    (hstop : ∀ a c, c.rest = [] → step a c = (some none, c)) (n m : Nat) (a : α) (c : Cursor)
    (hfinish : c.finish.kind = .eof) (hn : c.rest.length ≤ n) (hm : c.rest.length ≤ m)
    (hend : (loopWithin step n a c).2.NoEndFault) :
    loopWithin step m a (c.extend more finish) =
      ((loopWithin step n a c).1, (loopWithin step n a c).2.extend more finish) := by
  induction n generalizing m a c with
  | zero =>
      have hrest : c.rest = [] := List.eq_nil_of_length_eq_zero (Nat.le_zero.mp hn)
      cases m with
      | zero => rfl
      | succ m =>
          have hround := (hstep a).extend c hfinish
          rw [hstop a c hrest] at hround
          exact loopWithin_of_stop (hround hend)
  | succ n ih =>
      have hround := (hstep a).extend c hfinish
      have hleads := (hstep a).leadsTo c
      rcases step_cases step a c with ⟨a', d, hd⟩ | ⟨d, hd⟩ | ⟨d, hd⟩
      · rw [loopWithin_of_more hd] at hend ⊢
        rw [hd] at hround hleads
        have hlt := hadvances a c a' d hd
        obtain ⟨m, rfl⟩ : ∃ k, m = k + 1 := ⟨m - 1, by omega⟩
        have hkept := loopWithin_keeps (fun a => (hstep a).keeps) n a' d
        rw [loopWithin_of_more (hround fun e he => hend e (hkept e he))]
        exact ih m a' d (by rw [hleads.finish, hfinish]) (by omega) (by omega) hend
      · rw [loopWithin_of_stop hd] at hend ⊢
        rw [hd] at hround
        cases m with
        | zero =>
            have hrest : c.rest = [] := List.eq_nil_of_length_eq_zero (Nat.le_zero.mp hm)
            rw [hstop a c hrest] at hd
            cases hd
            rfl
        | succ m => exact loopWithin_of_stop (hround hend)
      · rw [loopWithin_of_fail hd] at hend ⊢
        rw [hd] at hround
        cases m with
        | zero =>
            have hrest : c.rest = [] := List.eq_nil_of_length_eq_zero (Nat.le_zero.mp hm)
            rw [hstop a c hrest] at hd
            cases hd
        | succ m => exact loopWithin_of_fail (hround hend)

/-- A loop whose rounds are closed and stop at the end. -/
theorem loop {step : α → Reader (Option α)} (hstep : ∀ a, Closed more finish (step a))
    (hadvances : Advances step) (hstop : ∀ a c, c.rest = [] → step a c = (some none, c))
    (a : α) : Closed more finish (Reader.loop step a) where
  leadsTo c := loopWithin_leadsTo (fun a => (hstep a).leadsTo) _ a c
  keeps c := loopWithin_keeps (fun a => (hstep a).keeps) _ a c
  extend c hfinish hend :=
    loopWithin_extend_closed hstep hadvances hstop _ _ a c hfinish (Nat.le_refl _) (by simp) hend

end Closed
end Reader

namespace Grammar

open Reader

/-! ### Statements are closed -/

section Productions

variable {more : List Token} {finish : Token}
variable (hmore : ∀ t ∈ more.head?, t.kind ≠ .elifKw ∧ t.kind ≠ .elseKw)
variable {inner : Inner} (hi : inner.Uniform id)
variable (hs : ∀ inFunction, Closed more finish (inner.statement inFunction))

theorem closed_entries (list : ListKind) {α : Type} {g : α → α} {item : Reader α}
    (hitem : Parallel (id : Token → Token) g item item) :
    Closed more finish (entries list item) := by
  rw [entries_eq]
  exact .thenExpect (.openEntries list hitem) _ _ fun items bracket => .pure _

include hi in
theorem closed_block (inFunction : Bool) : Closed more finish (block inner inFunction) :=
  .thenExpect ((hi.statement inFunction).untilBracket (hi.consumes inFunction)) _ _
    fun stmts _ => .pure stmts

theorem closed_importStatement : Closed more finish importStatement := by
  refine .bind (.expect _ _) fun module => ?_
  refine .bind (.expect _ _) fun _ => ?_
  exact .bind (closed_entries _ (.expect _ _)) fun names => .pure _

include hi in
theorem closed_returnStatement (inFunction : Bool) (keyword : Token) :
    Closed more finish (returnStatement inner inFunction keyword) := by
  have hvalue : Closed more finish (returnValue inner keyword) :=
    .thenExpect (parallel_exprBefore hi _) _ _ fun value _ => .pure _
  cases inFunction with
  | true => exact hvalue
  | false => exact .bind (.report _ _) fun _ => hvalue

include hi hs in
theorem closed_guarded (inFunction : Bool) : Closed more finish (guarded inner inFunction) := by
  refine .bind (.expect _ _) fun _ => ?_
  refine .thenExpect hi.expression _ _ fun condition _ => ?_
  exact .bind (hs inFunction) fun consequence => .pure _

include hmore hi hs in
theorem closed_ifStatement (inFunction : Bool) :
    Closed more finish (ifStatement inner inFunction) := by
  have hguarded := closed_guarded hi hs inFunction
  rw [ifStatement_eq]
  refine .bind hguarded fun arm => .bind (.loop (fun arms => ?_) ?_ ?_ #[]) fun arms => ?_
  · refine .bind (.accept fun t ht => by simpa using (hmore t ht).1) fun o => ?_
    cases o with
    | none => exact .pure _
    | some _ => exact .bind hguarded fun arm => .pure _
  · exact advances_whenNext fun arms _ =>
      bind_leadsTo hguarded.leadsTo fun _ c => .refl c
  · intro arms c hc
    exact bind_of_some (show accept? [.elifKw] c = (some none, c) by simp [accept?, hc])
  · refine .bind (.bind (.accept fun t ht => by simpa using (hmore t ht).2) fun o => ?_)
      fun otherwise => .pure _
    cases o with
    | none => exact .pure _
    | some _ => exact .map some (hs inFunction)

include hi in
theorem closed_forStatement (inFunction : Bool) (keyword : Token) :
    Closed more finish (forStatement inner inFunction keyword) := by
  refine .bind (.expect _ _) fun _ => ?_
  refine .thenExpect (parallel_exprBefore hi _) _ _ fun initializer _ => ?_
  refine .thenExpect (parallel_exprBefore hi _) _ _ fun condition _ => ?_
  refine .thenExpect (parallel_exprBefore hi _) _ _ fun increment _ => ?_
  refine .bind (.expect _ _) fun _ => ?_
  refine .bind (closed_block hi inFunction) fun body => ?_
  exact .bind (.noteLoop _) fun _ => .pure _

include hi in
theorem closed_whileStatement (inFunction : Bool) (keyword : Token) :
    Closed more finish (whileStatement inner inFunction keyword) := by
  refine .bind (.expect _ _) fun _ => ?_
  refine .thenExpect hi.expression _ _ fun condition _ => ?_
  refine .bind (.expect _ _) fun _ => ?_
  exact .bind (closed_block hi inFunction) fun body => .pure _

include hi in
theorem closed_matchStatement (inFunction : Bool) (keyword : Token) :
    Closed more finish (matchStatement inner inFunction keyword) := by
  obtain ⟨hcase, hconsumes⟩ := parallel_matchCase hi inFunction
  refine .bind (.expect _ _) fun _ => ?_
  refine .thenExpect hi.expression _ _ fun subject _ => ?_
  refine .bind (.expect _ _) fun _ => ?_
  refine .bind (.expect _ _) fun _ => ?_
  exact .thenExpect (hcase.untilBracket hconsumes) _ _ fun cases _ => .pure _

include hi in
theorem closed_expressionStatement : Closed more finish (expressionStatement inner) :=
  .thenExpect hi.expression _ _ fun _ _ => .pure _

include hmore hi hs in
theorem closed_announced (inFunction : Bool) (t : Token) :
    Closed more finish (announced inner inFunction t) := by
  unfold announced
  cases t.kind
  case importKw => exact closed_importStatement
  case returnKw => exact closed_returnStatement hi inFunction t
  case ifKw => exact closed_ifStatement hmore hi hs inFunction
  case forKw => exact closed_forStatement hi inFunction t
  case whileKw => exact closed_whileStatement hi inFunction t
  case matchKw => exact closed_matchStatement hi inFunction t
  all_goals exact .map _ (closed_block hi inFunction)

include hmore hi hs in
theorem closed_statement (inFunction : Bool) :
    Closed more finish (statement inner inFunction) where
  leadsTo := (parallel_statement keepsText_id hi inFunction).leadsTo
  keeps := (parallel_statement keepsText_id hi inFunction).keeps
  extend c hfinish hend := by
    have hparallel := parallel_statement keepsText_id hi inFunction
    -- A statement takes a token, so it cannot begin at the end.
    have hrest : c.rest ≠ [] := by
      intro hrest
      have hnone : (statement inner inFunction c).1 = none := by
        rcases h : statement inner inFunction c with ⟨_ | s, c'⟩
        · rfl
        · have hlt := consumes_statement keepsText_id hi inFunction c s c' h
          simp [hrest] at hlt
      have hne := hparallel.rest_ne_nil_of_gaveUp hfinish hend hnone
      exact (hparallel.leadsTo c).rest_ne_nil hne hrest
    refine Closed.bind_extend ?_ (fun _ => accept?_extend hrest) (fun o => ?_) hend
    · rw [((Parallel.accept (f := id) _).leadsTo c).finish, hfinish]
    · cases o with
      | none => exact closed_expressionStatement hi
      | some t => exact closed_announced hmore hi hs inFunction t

end Productions

theorem closed_level {more : List Token} {finish : Token}
    (hmore : ∀ t ∈ more.head?, t.kind ≠ .elifKw ∧ t.kind ≠ .elseKw) (n : Nat) :
    ∀ inFunction, Closed more finish ((level n).statement inFunction) := by
  induction n with
  | zero => exact fun _ => .fail _
  | succ n ih => exact closed_statement hmore (uniform_level keepsText_id n) ih

/-! ### Resuming -/

theorem getLast?_of_suffix {P : Token → Prop} {part tokens : List Token} (h : part <:+ tokens)
    (hlast : ∀ t ∈ tokens.getLast?, P t) : ∀ t ∈ part.getLast?, P t := by
  obtain ⟨before, rfl⟩ := h
  intro t ht
  refine hlast t ?_
  rw [List.getLast?_append, Option.mem_def.mp ht]
  rfl

theorem skip_suffix (last : Kind) (tokens : List Token) : skip last tokens <:+ tokens := by
  induction tokens generalizing last with
  | nil => exact List.suffix_refl _
  | cons t rest ih =>
      unfold skip
      split
      · exact List.suffix_refl _
      · exact (ih t.kind).trans (List.suffix_cons t rest)

theorem length_resume_lt {tokens : List Token} (h : tokens ≠ []) :
    (resume tokens).length < tokens.length := by
  obtain ⟨t, rest, rfl⟩ := List.exists_cons_of_ne_nil h
  have hle := (skip_suffix t.kind rest).length_le
  simp only [resume, List.length_cons]
  omega

theorem resume_suffix (tokens : List Token) : resume tokens <:+ tokens := by
  cases tokens with
  | nil => exact List.suffix_refl _
  | cons t rest => exact (skip_suffix t.kind rest).trans (List.suffix_cons t rest)

/-- Skipping does not go past a semicolon that is the last token. -/
theorem skip_append {last : Kind} {tokens more : List Token}
    (h : ∀ t ∈ tokens.getLast?, t.kind = .semicolon) (hnil : tokens = [] → last = .semicolon) :
    skip last (tokens ++ more) = skip last tokens ++ more := by
  induction tokens generalizing last with
  | nil =>
      have hlast := hnil rfl
      cases more with
      | nil => rfl
      | cons t rest => simp [skip, hlast]
  | cons t rest ih =>
      simp only [List.cons_append, skip]
      split
      · rfl
      · cases rest with
        | nil => exact ih (by simp) fun _ => h t (by simp)
        | cons u rest => exact ih (by simpa using h) (by simp)

theorem resume_append {tokens more : List Token} (hne : tokens ≠ [])
    (h : ∀ t ∈ tokens.getLast?, t.kind = .semicolon) :
    resume (tokens ++ more) = resume tokens ++ more := by
  obtain ⟨t, rest, rfl⟩ := List.exists_cons_of_ne_nil hne
  cases rest with
  | nil => exact skip_append (by simp) fun _ => h t (by simp)
  | cons u rest => exact skip_append (by simpa using h) (by simp)

/-! ### Statement after statement -/

/-- Where reading goes on after a statement with faults. -/
def resumed (c : Cursor) : Cursor :=
  { c with rest := resume c.rest }

section Statements

variable {one : Reader Stmt} {n : Nat} {done : Array Stmt} {c d : Cursor} {s : Stmt}

theorem statements_of_nil (hrest : c.rest = []) : statements one n done c = (done, c) := by
  cases n <;> simp [statements, hrest]

theorem statements_of_some (hrest : c.rest ≠ []) (h : one c = (some s, d)) :
    statements one (n + 1) done c = statements one n (done.push s) d := by
  simp [statements, hrest, h]

theorem statements_of_none (hrest : c.rest ≠ []) (h : one c = (none, d)) :
    statements one (n + 1) done c = statements one n done (resumed d) := by
  simp [statements, hrest, h, resumed]

/-- A round of reading statements: nothing is left, a statement is read, or one
is given up. -/
theorem round_cases (one : Reader Stmt) (c : Cursor) :
    c.rest = [] ∨ c.rest ≠ [] ∧ ((∃ s d, one c = (some s, d)) ∨ ∃ d, one c = (none, d)) := by
  by_cases hrest : c.rest = []
  · exact Or.inl hrest
  · rcases one c with ⟨_ | s, d⟩
    · exact Or.inr ⟨hrest, Or.inr ⟨d, rfl⟩⟩
    · exact Or.inr ⟨hrest, Or.inl ⟨s, d, rfl⟩⟩

end Statements

section Statements

variable {one : Reader Stmt} {g : Stmt → Stmt} (hone : Parallel id g one one)
variable (hconsumes : Consumes one)

include hone in
/-- Giving a statement up takes at least one token too. -/
theorem length_resumed_lt {c d : Cursor} (hrest : c.rest ≠ []) (h : one c = (none, d)) :
    (resumed d).rest.length < c.rest.length := by
  have hleads := hone.leadsTo c
  rw [h] at hleads
  have hle := hleads.rest.length_le
  have hpos := List.length_pos_iff.mpr hrest
  by_cases hd : d.rest = []
  · simpa [resumed, hd, resume] using hpos
  · exact Nat.lt_of_lt_of_le (length_resume_lt hd) hle

include hone hconsumes in
/-- Any number of rounds that suffices gives the same. -/
theorem statements_bound (n m : Nat) (done : Array Stmt) (c : Cursor)
    (hn : c.rest.length ≤ n) (hm : c.rest.length ≤ m) :
    statements one n done c = statements one m done c := by
  induction n generalizing m done c with
  | zero =>
      have hrest := List.eq_nil_of_length_eq_zero (Nat.le_zero.mp hn)
      rw [statements_of_nil hrest, statements_of_nil hrest]
  | succ n ih =>
      rcases round_cases one c with hrest | ⟨hrest, ⟨s, d, h⟩ | ⟨d, h⟩⟩
      · rw [statements_of_nil hrest, statements_of_nil hrest]
      · have hlt := hconsumes c s d h
        obtain ⟨m, rfl⟩ : ∃ k, m = k + 1 := ⟨m - 1, by omega⟩
        rw [statements_of_some hrest h, statements_of_some hrest h]
        exact ih m _ d (by omega) (by omega)
      · have hlt := length_resumed_lt hone hrest h
        obtain ⟨m, rfl⟩ : ∃ k, m = k + 1 := ⟨m - 1, by omega⟩
        rw [statements_of_none hrest h, statements_of_none hrest h]
        exact ih m _ _ (by omega) (by omega)

include hone hconsumes in
/-- With enough rounds all tokens are read. -/
theorem statements_rest (n : Nat) (done : Array Stmt) (c : Cursor) (hn : c.rest.length ≤ n) :
    (statements one n done c).2.rest = [] := by
  induction n generalizing done c with
  | zero =>
      have hrest := List.eq_nil_of_length_eq_zero (Nat.le_zero.mp hn)
      rw [statements_of_nil hrest, hrest]
  | succ n ih =>
      rcases round_cases one c with hrest | ⟨hrest, ⟨s, d, h⟩ | ⟨d, h⟩⟩
      · rw [statements_of_nil hrest, hrest]
      · have hlt := hconsumes c s d h
        rw [statements_of_some hrest h]
        exact ih _ d (by omega)
      · have hlt := length_resumed_lt hone hrest h
        rw [statements_of_none hrest h]
        exact ih _ _ (by omega)

include hone in
/-- What was noted before plays no part. -/
theorem statements_frame (n : Nat) (done : Array Stmt) (c : Cursor) :
    statements one n done c =
      (done ++ (statements one n #[] c.fresh).1, c.after (statements one n #[] c.fresh).2) := by
  induction n generalizing done c with
  | zero => simp [statements]
  | succ n ih =>
      by_cases hrest : c.rest = []
      · rw [statements_of_nil hrest, statements_of_nil (c := c.fresh) hrest]
        simp
      · have hfresh : c.fresh.rest ≠ [] := hrest
        have hframe := hone.frame c
        rcases h : one c.fresh with ⟨_ | s, d⟩
        · rw [h] at hframe
          have hresumed : resumed (c.after d) = c.after (resumed d) := rfl
          rw [statements_of_none hrest hframe, statements_of_none hfresh h, hresumed,
            ih done (c.after (resumed d)), ih #[] (resumed d)]
          simp [Cursor.after_after]
        · rw [h] at hframe
          rw [statements_of_some hrest hframe, statements_of_some hfresh h,
            ih (done.push s) (c.after d), ih (#[].push s) d]
          simp [Cursor.after_after]

include hone in
theorem statements_keeps (n : Nat) (done : Array Stmt) (c : Cursor) :
    ∀ e ∈ c.errors, e ∈ (statements one n done c).2.errors := by
  intro e he
  rw [statements_frame hone]
  simp [Cursor.after, he]

include hone hconsumes in
/-- Reading tokens and more tokens is reading the tokens and then, in the state
that this left, the others. -/
theorem statements_extend {more : List Token} {finish : Token} (hclosed : Closed more finish one)
    (n m : Nat) (done : Array Stmt) (c : Cursor) (hfinish : c.finish.kind = .eof)
    (hn : c.rest.length ≤ n) (hm : c.rest.length + more.length ≤ m)
    (hend : (statements one n done c).2.NoEndFault)
    (hcut : (statements one n done c).2.errors = #[] ∨
      ∀ t ∈ c.rest.getLast?, t.kind = .semicolon) :
    ∃ k, more.length ≤ k ∧
      statements one m done (c.extend more finish) =
        statements one k (statements one n done c).1
          ((statements one n done c).2.extend more finish) := by
  induction n generalizing m done c with
  | zero =>
      have hrest := List.eq_nil_of_length_eq_zero (Nat.le_zero.mp hn)
      exact ⟨m, by omega, by rw [statements_of_nil hrest]⟩
  | succ n ih =>
      rcases round_cases one c with hrest | ⟨hrest, ⟨s, d, h⟩ | ⟨d, h⟩⟩
      · exact ⟨m, by omega, by rw [statements_of_nil hrest]⟩
      · rw [statements_of_some hrest h] at hend hcut ⊢
        have hlt := hconsumes c s d h
        have hleads := hone.leadsTo c
        have hextend := hclosed.extend c hfinish
        rw [h] at hleads hextend
        have hdend : d.NoEndFault := fun e he => hend e (statements_keeps hone n _ d e he)
        obtain ⟨m, rfl⟩ : ∃ k, m = k + 1 := ⟨m - 1, by omega⟩
        rw [statements_of_some (by simp [hrest]) (hextend hdend)]
        refine ih m _ d (by rw [hleads.finish, hfinish]) (by omega) (by omega) hend ?_
        exact hcut.imp_right fun hlast => getLast?_of_suffix hleads.rest hlast
      · rw [statements_of_none hrest h] at hend hcut ⊢
        have hlt := length_resumed_lt hone hrest h
        have hleads := hone.leadsTo c
        have hextend := hclosed.extend c hfinish
        have hkeeps := statements_keeps hone n done (resumed d)
        have hdend : d.NoEndFault := fun e he => hend e (hkeeps e he)
        have hdrest := hone.rest_ne_nil_of_gaveUp hfinish (by rwa [h]) (by rw [h])
        obtain ⟨fault, hfault⟩ := hone.gaveUp c (by rw [h])
        rw [h] at hleads hextend hdrest hfault
        obtain ⟨m, rfl⟩ : ∃ k, m = k + 1 := ⟨m - 1, by omega⟩
        rw [statements_of_none (by simp [hrest]) (hextend hdend)]
        -- A statement was given up, so the first alternative is out.
        have hlast : ∀ t ∈ d.rest.getLast?, t.kind = .semicolon := by
          rcases hcut with hnone | hlast
          · exact absurd (hkeeps _ hfault) (by simp [hnone])
          · exact getLast?_of_suffix hleads.rest hlast
        have hresumed : resumed (d.extend more finish) = (resumed d).extend more finish := by
          simp [resumed, Cursor.extend, resume_append hdrest hlast]
        rw [hresumed]
        refine ih m done (resumed d) (by rw [← hfinish, ← hleads.finish]; rfl) (by omega)
          (by omega) hend (Or.inr ?_)
        exact getLast?_of_suffix (resume_suffix d.rest) hlast

end Statements

/-- The statements of all tokens at a cursor. -/
def program (c : Cursor) : Array Stmt × Cursor :=
  statements ((level maxNesting).statement false) c.rest.length #[] c

theorem parallel_top :
    Parallel id (Stmt.mapTokens id) ((level maxNesting).statement false)
      ((level maxNesting).statement false) :=
  (uniform_level keepsText_id maxNesting).statement false

theorem consumes_top : Consumes ((level maxNesting).statement false) :=
  (uniform_level keepsText_id maxNesting).consumes false

/-- Reading on behind a first part that is closed there adds up. -/
theorem program_extend {c : Cursor} {more : List Token} {finish : Token}
    (hfinish : c.finish.kind = .eof)
    (hmore : ∀ t ∈ more.head?, t.kind ≠ .elifKw ∧ t.kind ≠ .elseKw)
    (hend : (program c).2.NoEndFault)
    (hcut : (program c).2.errors = #[] ∨ ∀ t ∈ c.rest.getLast?, t.kind = .semicolon) :
    program (c.extend more finish) =
      ((program c).1 ++ (program ⟨more, finish, #[], #[]⟩).1,
        (program c).2.after (program ⟨more, finish, #[], #[]⟩).2) := by
  obtain ⟨k, hk, hrun⟩ := statements_extend parallel_top consumes_top
    (closed_level hmore maxNesting false) _ (c.extend more finish).rest.length #[] c hfinish
    (Nat.le_refl _) (by simp) hend hcut
  have hrest : (program c).2.rest = [] :=
    statements_rest parallel_top consumes_top _ #[] c (Nat.le_refl _)
  have hnew : ((program c).2.extend more finish).fresh = ⟨more, finish, #[], #[]⟩ := by
    simp [Cursor.fresh, Cursor.extend, hrest]
  have hbound := statements_bound parallel_top consumes_top k more.length (program c).1
    ((program c).2.extend more finish) (by simpa [hrest] using hk) (by simp [hrest])
  calc program (c.extend more finish)
      = statements _ k (program c).1 ((program c).2.extend more finish) := hrun
    _ = statements _ more.length (program c).1 ((program c).2.extend more finish) := hbound
    _ = _ := by
        rw [statements_frame parallel_top, hnew]
        rfl

end Grammar

open Grammar

theorem parse_eq (tokens : List Token) :
    parse tokens =
      if (program (Cursor.ofTokens tokens)).2.errors.isEmpty then
        .ok (program (Cursor.ofTokens tokens)).1.toList
      else .error (program (Cursor.ofTokens tokens)).2.errors.toList := rfl

theorem faults_parse (tokens : List Token) :
    faults (parse tokens) = (program (Cursor.ofTokens tokens)).2.errors.toList := by
  rw [parse_eq]
  by_cases h : (program (Cursor.ofTokens tokens)).2.errors = #[] <;> simp [h, faults]

theorem parse_eq_ok_iff {tokens : List Token} {trees : List Stmt} :
    parse tokens = .ok trees ↔
      (program (Cursor.ofTokens tokens)).2.errors = #[] ∧
        (program (Cursor.ofTokens tokens)).1.toList = trees := by
  rw [parse_eq]
  by_cases h : (program (Cursor.ofTokens tokens)).2.errors = #[] <;> simp [h]

theorem Cursor.ofTokens_of_noEof {tokens : List Token} (h : ∀ t ∈ tokens, t.kind ≠ .eof) :
    Cursor.ofTokens tokens =
      ⟨tokens, Token.eof ((tokens.getLast?.map Token.line).getD 1), #[], #[]⟩ := by
  have hrest : tokens.takeWhile (fun t => t.kind ≠ .eof) = tokens := by
    have hall : ∀ t ∈ tokens, (fun t : Token => decide (t.kind ≠ .eof)) t = true := by
      simpa using h
    simpa using (List.takeWhile_append_of_pos hall : List.takeWhile _ (tokens ++ []) = _)
  have hfind : tokens.find? (fun t => t.kind = .eof) = none := by
    simpa [List.find?_eq_none] using h
  simp only [Cursor.ofTokens, hrest, hfind, Option.getD_none]

theorem Cursor.ofTokens_append {first second : List Token} (hfirst : ∀ t ∈ first, t.kind ≠ .eof)
    (hsecond : ∀ t ∈ second, t.kind ≠ .eof) (hne : second ≠ []) :
    Cursor.ofTokens (first ++ second) =
      (Cursor.ofTokens first).extend second (Cursor.ofTokens second).finish := by
  have hboth : ∀ t ∈ first ++ second, t.kind ≠ .eof := by
    intro t ht
    rcases List.mem_append.mp ht with h | h
    · exact hfirst t h
    · exact hsecond t h
  have hlast : (first ++ second).getLast? = second.getLast? := by
    rw [List.getLast?_append, List.getLast?_eq_some_getLast hne]
    rfl
  rw [ofTokens_of_noEof hboth, ofTokens_of_noEof hfirst, ofTokens_of_noEof hsecond, hlast]
  rfl

theorem program_ofTokens_append {first second : List Token}
    (hfirst : ∀ t ∈ first, t.kind ≠ .eof) (hsecond : ∀ t ∈ second, t.kind ≠ .eof)
    (hne : second ≠ []) (hstart : ∀ t ∈ second.head?, t.kind ≠ .elifKw ∧ t.kind ≠ .elseKw)
    (hend : (program (Cursor.ofTokens first)).2.NoEndFault)
    (hcut : (program (Cursor.ofTokens first)).2.errors = #[] ∨
      ∀ t ∈ first.getLast?, t.kind = .semicolon) :
    program (Cursor.ofTokens (first ++ second)) =
      ((program (Cursor.ofTokens first)).1 ++ (program (Cursor.ofTokens second)).1,
        (program (Cursor.ofTokens first)).2.after (program (Cursor.ofTokens second)).2) := by
  have hnew : Cursor.ofTokens second = ⟨second, (Cursor.ofTokens second).finish, #[], #[]⟩ := by
    rw [Cursor.ofTokens_of_noEof hsecond]
  have hrest : (Cursor.ofTokens first).rest = first := by
    rw [Cursor.ofTokens_of_noEof hfirst]
  have hfinish : (Cursor.ofTokens first).finish.kind = .eof := by
    rw [Cursor.ofTokens_of_noEof hfirst]
    rfl
  rw [Cursor.ofTokens_append hfirst hsecond hne,
    program_extend hfinish hstart hend (by rwa [hrest]), ← hnew]

/-- Reading composes at statement boundaries, error recovery included. -/
theorem parse_append (first second : List Token) (hfirst : ∀ t ∈ first, t.kind ≠ .eof)
    (hsecond : ∀ t ∈ second, t.kind ≠ .eof)
    (hstart : ∀ t ∈ second.head?, t.kind ≠ .elifKw ∧ t.kind ≠ .elseKw)
    (hcut : (∃ trees, parse first = .ok trees) ∨
      (∃ t, first.getLast? = some t ∧ t.kind = .semicolon) ∧
        ∀ e ∈ faults (parse first), e.location ≠ .atEnd) :
    faults (parse (first ++ second)) = faults (parse first) ++ faults (parse second) ∧
      ∀ trees₁ trees₂, parse first = .ok trees₁ → parse second = .ok trees₂ →
        parse (first ++ second) = .ok (trees₁ ++ trees₂) := by
  by_cases hne : second = []
  · subst hne
    have hempty : parse [] = .ok [] := rfl
    refine ⟨by simp [hempty, faults], ?_⟩
    intro trees₁ trees₂ h₁ h₂
    rw [hempty] at h₂
    cases h₂
    simpa using h₁
  · have hend : (program (Cursor.ofTokens first)).2.NoEndFault := by
      intro e he
      rw [← Array.mem_toList_iff, ← faults_parse] at he
      rcases hcut with ⟨trees, hok⟩ | ⟨-, hend⟩
      · simp [hok, faults] at he
      · exact hend e he
    have hboundary : (program (Cursor.ofTokens first)).2.errors = #[] ∨
        ∀ t ∈ first.getLast?, t.kind = .semicolon := by
      rcases hcut with ⟨trees, hok⟩ | ⟨⟨t, ht, hkind⟩, -⟩
      · exact Or.inl (parse_eq_ok_iff.mp hok).1
      · exact Or.inr fun u hu => by simp_all
    have hprogram := program_ofTokens_append hfirst hsecond hne hstart hend hboundary
    constructor
    · rw [faults_parse, faults_parse, faults_parse, hprogram]
      simp [Cursor.after]
    · intro trees₁ trees₂ h₁ h₂
      rw [parse_eq_ok_iff] at h₁ h₂ ⊢
      rw [hprogram]
      simp [Cursor.after, h₁, h₂]

/-- A unit with a fault in it, `x := ;`, before one without, `y;`. -/
theorem parse_append_after_fault :
    faults (parse ([⟨.identifier, "x", none, 1⟩, ⟨.walrus, ":=", none, 1⟩,
        ⟨.semicolon, ";", none, 1⟩] ++
        [⟨.identifier, "y", none, 2⟩, ⟨.semicolon, ";", none, 2⟩])) =
      [⟨1, .lexeme ";", .noExpression⟩] := by
  have h := (parse_append
    [⟨.identifier, "x", none, 1⟩, ⟨.walrus, ":=", none, 1⟩, ⟨.semicolon, ";", none, 1⟩]
    [⟨.identifier, "y", none, 2⟩, ⟨.semicolon, ";", none, 2⟩]
    (by decide) (by decide) (by decide) (Or.inr ⟨⟨_, rfl, rfl⟩, by decide⟩)).1
  rw [h]
  decide

end BracketScript
