import BracketScript.Proofs.Grammar.ForLoops
import BracketScript.Proofs.Session.LineNumbers

/-!
# Running a `for` loop is running the `while` loop it stands for

The tree of a `for` loop is the one of a `while` loop, but for the keyword, of
which only the line is ever looked at.  So the loop and its hand-written form do
the same, wherever both are accepted (`forText_means_whileText`).
-/

namespace BracketScript

open Grammar Reader

/-! ### Reading, whatever the lines are -/

/-- The tokens are read as the statement, somewhere in a text without faults. -/
def Accepted (inFunction : Bool) (tokens : List Token) (s : Stmt) : Prop :=
  ∃ n c c', (level n).statement inFunction c = (some s, c') ∧ c.rest = tokens ++ c'.rest ∧
    c.errors = #[] ∧ c'.errors = #[]

/-- What tokens are read as, tokens that agree in all but their lines are read as
too, apart from lines. -/
theorem read_sameText {n : Nat} {inFunction : Bool} {c c' : Cursor} {s : Stmt}
    {text tokens after : List Token} (htext : List.Forall₂ Token.SameText text tokens)
    (hrest : c.rest = tokens ++ after) (herrors : c.errors = #[])
    (hread : (level n).statement inFunction c = (some s, c')) (herrors' : c'.errors = #[]) :
    ∃ d d' s₀, d.rest = text ++ after ∧ (level n).statement inFunction d = (some s₀, d') ∧
      d'.errors.size = d.errors.size ∧ d'.rest.length = c'.rest.length ∧
      s.mapTokens Token.sansLine = s₀.mapTokens Token.sansLine := by
  have hparallel := (uniform_level keepsText_sansLine n).statement inFunction
  let e : Cursor := ⟨c.rest.map Token.sansLine, c.finish.sansLine, #[], #[]⟩
  let d : Cursor := ⟨text ++ after, c.finish, #[], #[]⟩
  have hc : c.Alike Token.sansLine e := ⟨rfl, rfl, by rw [herrors]; exact .nil⟩
  have hd : d.Alike Token.sansLine e := by
    refine ⟨?_, rfl, .nil⟩
    simp only [e, d, hrest, List.map_append, map_sansLine_eq htext]
  obtain ⟨hvalue, hcursor⟩ := hparallel.alike keepsText_sansLine hc
  obtain ⟨hvalue', hcursor'⟩ := hparallel.alike keepsText_sansLine hd
  rw [hread] at hvalue hcursor
  obtain ⟨s₀, hs₀, hsame⟩ := Option.map_eq_some_iff.mp (hvalue'.symm.trans hvalue)
  refine ⟨d, ((level n).statement inFunction d).2, s₀, rfl, Prod.ext hs₀ rfl, ?_, ?_, hsame.symm⟩
  · have hfaults := hcursor.faults.length_eq
    have hfaults' := hcursor'.faults.length_eq
    simp only [herrors', Array.toList_empty, List.length_nil, Array.length_toList] at hfaults hfaults'
    rw [hfaults', ← hfaults]
    rfl
  · have hlength := congrArg List.length hcursor.rest
    have hlength' := congrArg List.length hcursor'.rest
    simp only [List.length_map] at hlength hlength'
    exact hlength'.symm.trans hlength

/-- The first statement of a program without faults. -/
theorem exists_first_of_parse {tokens : List Token} (hne : tokens ≠ [])
    (heof : ∀ t ∈ tokens, t.kind ≠ .eof) {line : Nat} {trees : List Stmt}
    (h : parse (tokens ++ [Token.eof line]) = .ok trees) :
    ∃ s c', (level maxNesting).statement false ⟨tokens, Token.eof line, #[], #[]⟩ = (some s, c') ∧
      c'.errors = #[] ∧ (c'.rest = [] → trees = [s]) := by
  obtain ⟨hquiet, htrees⟩ := parse_eq_ok_iff.mp h
  rw [Cursor.ofTokens_eof heof] at hquiet htrees
  obtain ⟨n, hn⟩ : ∃ n, tokens.length = n + 1 :=
    ⟨tokens.length - 1, by have := List.length_pos_iff.mpr hne; omega⟩
  simp only [program, hn] at hquiet htrees
  rcases round_cases ((level maxNesting).statement false) ⟨tokens, Token.eof line, #[], #[]⟩ with
    hrest | ⟨hrest, ⟨s, d, hd⟩ | ⟨d, hd⟩⟩
  · exact absurd hrest hne
  · rw [statements_of_some hrest hd] at hquiet htrees
    have hkeeps := statements_keeps parallel_top n (#[].push s) d
    rw [hquiet] at hkeeps
    refine ⟨s, d, hd, Array.eq_empty_iff_forall_not_mem.mpr fun e he => by simpa using hkeeps e he,
      fun hnil => ?_⟩
    rw [statements_of_nil hnil] at htrees
    simpa using htrees.symm
  · rw [statements_of_none hrest hd] at hquiet
    obtain ⟨fault, hfault⟩ := parallel_top.gaveUp ⟨tokens, Token.eof line, #[], #[]⟩ (by rw [hd])
    rw [hd] at hfault
    have hkept := statements_keeps parallel_top n #[] (resumed d) _ hfault
    rw [hquiet] at hkept
    simp at hkept

theorem exists_of_isOk {ε α : Type} {r : Except ε α} (h : r.isOk = true) : ∃ a, r = .ok a := by
  cases r with
  | error e => cases h
  | ok a => exact ⟨a, rfl⟩

/-! ### Running -/

section Agreement

variable {first second third : Except Unwind Value} {p q r : Run Unwind Value}

theorem Ends.symm (h : Ends Unwind.sansLines Value.Alike first second) :
    Ends Unwind.sansLines Value.Alike second first := by
  cases h with
  | ok hv => exact .ok (Eq.symm hv)
  | error he => exact .error he.symm

theorem Ends.trans (h : Ends Unwind.sansLines Value.Alike first second)
    (h' : Ends Unwind.sansLines Value.Alike second third) :
    Ends Unwind.sansLines Value.Alike first third := by
  cases h with
  | ok hv =>
      cases h' with
      | ok hv' => exact .ok (Eq.trans hv hv')
  | error he =>
      cases h' with
      | error he' => exact .error (he.trans he')

theorem Ends.eq_exhausted
    (h : Ends Unwind.sansLines Value.Alike first (.error (.stopped .exhausted))) :
    first = .error (.stopped .exhausted) := by
  cases h with
  | @error e _ he =>
      rcases e with v | stop
      · cases he
      · cases stop <;> cases he
        rfl

/-- Agreement is transitive. -/
theorem ExecsAgree.trans (hp : ExecsAgree true Value.Alike p q)
    (hq : ExecsAgree true Value.Alike q r) : ExecsAgree true Value.Alike p r where
  onward := hp.onward
  total := hp.total
  agree {m m'} halike hends _ := by
    obtain ⟨hfirst, hmachine, -⟩ := hp.agree (Machine.Alike.refl true m) hends (Or.inl rfl)
    have hends' : (q m).1 ≠ .error (.stopped .exhausted) := by
      intro hlost
      rw [hlost] at hfirst
      exact hends hfirst.eq_exhausted
    obtain ⟨hsecond, hmachine', -⟩ := hq.agree halike hends' (Or.inl rfl)
    exact ⟨hfirst.trans hsecond, hmachine.trans hmachine', nofun⟩

end Agreement

/-- The keyword of a loop does not matter to what the loop does. -/
theorem agrees_execWhile (setup : Setup) (t u : Token) (e : Expr) (s : Stmt) (n : Nat)
    {v w : Value} (h : v.Alike w) :
    ExecsAgree true Value.Alike (execWhile setup n t e s v) (execWhile setup n u e s w) := by
  induction n generalizing v w with
  | zero =>
      rw [execWhile]
      exact .exhausted _
  | succ n ih =>
      have hfuel : AtFuel Token.sansLine .any setup setup (lineRelations true) n n :=
        agrees_atFuel setup (Nat.le_refl n)
      rw [execWhile, execWhile]
      refine .bind (hfuel.eval e.everyNode_any rfl).eval fun c c' hc => ?_
      rw [alike_isTruthy hc]
      split
      · refine .bind (agrees_poll t u).eval fun _ _ _ => ?_
        exact .bind (hfuel.exec (s.everyNode_any false) rfl) fun _ _ hv => ih hv
      · exact .pure h

theorem agrees_whileLoop (setup : Setup) (t u : Token) (e : Expr) (s : Stmt) (n : Nat) :
    ExecsAgree true Value.Alike (exec setup n (.whileLoop t e s))
      (exec setup n (.whileLoop u e s)) := by
  cases n with
  | zero =>
      rw [exec]
      exact .exhausted _
  | succ n =>
      rw [exec, exec]
      exact agrees_execWhile setup t u e s n (Value.Alike.refl .null)

/-- Statements that agree also agree behind another statement. -/
theorem agrees_block_pair {setup : Setup} {s₁ s s' : Stmt}
    (h : ∀ n, ExecsAgree true Value.Alike (exec setup n s) (exec setup n s')) (n : Nat) :
    ExecsAgree true Value.Alike (exec setup n (.block [s₁, s])) (exec setup n (.block [s₁, s'])) := by
  have hlast (n : Nat) (v w : Value) :
      ExecsAgree true Value.Alike (execAll setup n [s] v) (execAll setup n [s'] w) := by
    cases n with
    | zero =>
        rw [execAll]
        exact .exhausted _
    | succ n =>
        rw [execAll, execAll]
        refine .bind (h n) fun a b hab => ?_
        cases n with
        | zero =>
            rw [execAll]
            exact .exhausted _
        | succ n =>
            rw [execAll, execAll]
            exact .pure hab
  cases n with
  | zero =>
      rw [exec]
      exact .exhausted _
  | succ n =>
      rw [exec, exec]
      refine .inBlock ?_
      cases n with
      | zero =>
          rw [execAll]
          exact .exhausted _
      | succ n =>
          have hfuel : AtFuel Token.sansLine .any setup setup (lineRelations true) n n :=
            agrees_atFuel setup (Nat.le_refl n)
          rw [execAll, execAll]
          exact .bind (hfuel.exec (s₁.everyNode_any false) rfl) fun a b _ => hlast n a b

theorem agrees_forLoop (setup : Setup) (t u : Token) (init test step : Option Expr)
    (body : List Stmt) (n : Nat) :
    ExecsAgree true Value.Alike (exec setup n (forLoop t init test step body))
      (exec setup n (forLoop u init test step body)) := by
  cases init with
  | none => exact agrees_whileLoop setup t u _ _ n
  | some e => exact agrees_block_pair (agrees_whileLoop setup t u _ _) n

/-- The statements are the same loop, apart from its keyword and from lines. -/
def SameLoop (s s' : Stmt) : Prop :=
  ∃ init test step body,
    s.mapTokens Token.sansLine =
      (forLoop (mark .forKw "for") init test step body).mapTokens Token.sansLine ∧
    s'.mapTokens Token.sansLine =
      (forLoop (mark .whileKw "while") init test step body).mapTokens Token.sansLine

/-- From machines that are alike, the statements run to the same end: to a value,
to a `return`, or to a fault.  They leave machines that are alike, with the same
output, unless they do not end at all. -/
def RunAlike (s s' : Stmt) : Prop :=
  ∀ (setup : Setup) (fuel : Nat) (m m' : Machine), m.Alike true m' →
    Ends Unwind.sansLines Value.Alike (exec setup fuel s m).1 (exec setup fuel s' m').1 ∧
      ((exec setup fuel s m).1 ≠ .error (.stopped .exhausted) →
        (exec setup fuel s m).2.Alike true (exec setup fuel s' m').2)

theorem RunAlike.of_agrees {s s' : Stmt}
    (h : ∀ setup n, ExecsAgree true Value.Alike (exec setup n s) (exec setup n s'))
    (h' : ∀ setup n, ExecsAgree true Value.Alike (exec setup n s') (exec setup n s)) :
    RunAlike s s' := by
  intro setup fuel m m' halike
  by_cases hends : (exec setup fuel s m).1 = .error (.stopped .exhausted)
  · refine ⟨?_, fun hnot => absurd hends hnot⟩
    by_cases hends' : (exec setup fuel s' m').1 = .error (.stopped .exhausted)
    · rw [hends, hends']
      exact .error rfl
    · -- If the second run had an end, then the first would have the same.
      exact ((h' setup fuel).agree halike.symm hends' (Or.inl rfl)).ends.symm
  · have hout := (h setup fuel).agree halike hends (Or.inl rfl)
    exact ⟨hout.ends, fun _ => hout.machine⟩

theorem SameLoop.runAlike {s s' : Stmt} (h : SameLoop s s') : RunAlike s s' := by
  obtain ⟨init, test, step, body, hs, hs'⟩ := h
  have hlines {s s' : Stmt} (h : s.mapTokens Token.sansLine = s'.mapTokens Token.sansLine)
      (setup : Setup) (n : Nat) :
      ExecsAgree true Value.Alike (exec setup n s) (exec setup n s') :=
    (agrees_atFuel setup (Nat.le_refl n)).exec (s.everyNode_any false) h
  refine .of_agrees (fun setup n => ?_) (fun setup n => ?_)
  · exact ((hlines hs setup n).trans (agrees_forLoop setup _ _ init test step body n)).trans
      (hlines hs'.symm setup n)
  · exact ((hlines hs' setup n).trans (agrees_forLoop setup _ _ init test step body n)).trans
      (hlines hs.symm setup n)

/-! ### The loop and its hand-written form -/

section Texts

variable {init test step body tokens others : List Token}

theorem sameLoop_of_read (hinit : Enclosed separators init) (htest : Enclosed separators test)
    (hstep : Enclosed separators step) (hbody : Enclosed [] body)
    (htokens : List.Forall₂ Token.SameText (forText init test step body) tokens)
    (hothers : List.Forall₂ Token.SameText (whileText init test step body) others)
    {n n' : Nat} {inFunction : Bool} {c c' d d' : Cursor} {s s' : Stmt} {after after' : List Token}
    (hc : c.rest = tokens ++ after) (herrors : c.errors = #[])
    (hread : (level n).statement inFunction c = (some s, c')) (hquiet : c'.errors = #[])
    (hd : d.rest = others ++ after') (herrors' : d.errors = #[])
    (hread' : (level n').statement inFunction d = (some s', d')) (hquiet' : d'.errors = #[]) :
    c'.rest.length = after.length ∧ d'.rest.length = after'.length ∧ SameLoop s s' := by
  obtain ⟨c₀, c₀', s₀, hc₀, hread₀, hquiet₀, hlength, hs⟩ :=
    read_sameText htokens hc herrors hread hquiet
  obtain ⟨d₀, d₀', s₀', hd₀, hread₀', hquiet₀', hlength', hs'⟩ :=
    read_sameText hothers hd herrors' hread' hquiet'
  obtain ⟨hrest, hrest', i, t, e, stmts, hfor, hwhile⟩ :=
    forText_whileText hinit htest hstep hbody hc₀ hread₀ hquiet₀ hd₀ hread₀' hquiet₀'
  refine ⟨hlength ▸ congrArg List.length hrest, hlength' ▸ congrArg List.length hrest', i, t, e,
    stmts, ?_, ?_⟩
  · rw [hs, hfor]
  · rw [hs', hwhile]

theorem enclosed_mark {stops : List Kind} {kind : Kind} (lexeme : String)
    (h : kind ∉ .leftBracket :: .rightBracket :: .eof :: stops) :
    Enclosed stops [mark kind lexeme] :=
  .single h

theorem enclosed_brackets {stops : List Kind} {w : List Token} (h : Enclosed [] w) :
    Enclosed stops (brackets w) :=
  .within ⟨rfl, rfl⟩ h

theorem forText_enclosed (hinit : Enclosed [] init) (htest : Enclosed [] test)
    (hstep : Enclosed [] step) (hbody : Enclosed [] body) :
    Enclosed [] (forText init test step body) := by
  have hclauses : Enclosed [] (init ++ mark .comma "," :: (test ++ mark .comma "," :: step)) :=
    .append hinit (.append (enclosed_mark "," (by decide))
      (.append htest (.append (enclosed_mark "," (by decide)) hstep)))
  exact .append (enclosed_mark "for" (by decide))
    (.append (enclosed_brackets hclauses) (enclosed_brackets hbody))

theorem whileText_enclosed (hinit : Enclosed [] init) (htest : Enclosed [] test)
    (hstep : Enclosed [] step) (hbody : Enclosed [] body) :
    Enclosed [] (whileText init test step body) := by
  have htest' : Enclosed [] (testText test) := by
    unfold testText
    split
    · exact enclosed_mark "true" (by decide)
    · exact htest
  have hround : Enclosed [] (roundText step body) := by
    unfold roundText
    split
    · exact hbody
    · exact .append (enclosed_brackets hbody) (.append hstep (enclosed_mark ";" (by decide)))
  have hloop : Enclosed [] (loopText test step body) :=
    .append (enclosed_mark "while" (by decide))
      (.append (enclosed_brackets htest') (enclosed_brackets hround))
  unfold whileText
  split
  · exact hloop
  · exact enclosed_brackets (.append hinit (.append (enclosed_mark ";" (by decide)) hloop))

theorem kind_ne_eof_of_sameText (h : List.Forall₂ Token.SameText tokens others)
    (heof : ∀ t ∈ tokens, t.kind ≠ .eof) : ∀ t ∈ others, t.kind ≠ .eof := by
  induction h with
  | nil => simp
  | cons hhead _ ih =>
      obtain ⟨hfirst, hrest⟩ := List.forall_mem_cons.mp heof
      exact List.forall_mem_cons.mpr ⟨hhead.kind ▸ hfirst, ih hrest⟩

end Texts

/-- A `for` loop means a `while` loop.  Take expressions, each of which may be
left out, and any body in which brackets match.  Whenever `for [init, test, step]
[body]` and the hand-written `[init; while [test] [[body] step;]]` are accepted,
as programs or somewhere in a program, their trees are the same apart from the
loop's keyword and from lines.  And from any machine they run to the same end and
leave the same machine. -/
theorem forText_means_whileText {init test step body tokens others : List Token} {d₁ d₂ d₃ : Nat}
    {i t e : Option Expr} (hinit : Clause d₁ init i) (htest : Clause d₂ test t)
    (hstep : Clause d₃ step e) (hbody : Enclosed [] body)
    (htokens : List.Forall₂ Token.SameText (forText init test step body) tokens)
    (hothers : List.Forall₂ Token.SameText (whileText init test step body) others) :
    (∀ line line' trees trees', parse (tokens ++ [Token.eof line]) = .ok trees →
      parse (others ++ [Token.eof line']) = .ok trees' →
        ∃ s s', trees = [s] ∧ trees' = [s'] ∧ SameLoop s s' ∧ RunAlike s s') ∧
    ∀ inFunction s s', Accepted inFunction tokens s → Accepted inFunction others s' →
      SameLoop s s' ∧ RunAlike s s' := by
  have hsame := @sameLoop_of_read _ _ _ _ _ _ hinit.enclosed htest.enclosed hstep.enclosed hbody
    htokens hothers
  constructor
  · intro line line' trees trees' hparse hparse'
    have hclause {d : Nat} {w : List Token} {o : Option Expr} (h : Clause d w o) : Enclosed [] w :=
      h.enclosed.mono (List.nil_subset _)
    have hfor := forText_enclosed (hclause hinit) (hclause htest) (hclause hstep) hbody
    have hwhile := whileText_enclosed (hclause hinit) (hclause htest) (hclause hstep) hbody
    have hne : tokens ≠ [] := by
      rintro rfl
      cases htokens
    have hne' : others ≠ [] := by
      rintro rfl
      have hnil := List.forall₂_nil_right_iff.mp hothers
      unfold whileText loopText at hnil
      split at hnil <;> cases hnil
    obtain ⟨s, c', hread, hquiet, htrees⟩ :=
      exists_first_of_parse hne (kind_ne_eof_of_sameText htokens hfor.kind_ne_eof) hparse
    obtain ⟨s', d', hread', hquiet', htrees'⟩ :=
      exists_first_of_parse hne' (kind_ne_eof_of_sameText hothers hwhile.kind_ne_eof) hparse'
    obtain ⟨hrest, hrest', hloop⟩ := hsame (List.append_nil _).symm rfl hread hquiet
      (List.append_nil _).symm rfl hread' hquiet'
    exact ⟨s, s', htrees (List.length_eq_zero_iff.mp hrest),
      htrees' (List.length_eq_zero_iff.mp hrest'), hloop, hloop.runAlike⟩
  · rintro inFunction s s' ⟨n, c, c', hread, hrest, herrors, hquiet⟩
      ⟨n', d, d', hread', hrest', herrors', hquiet'⟩
    obtain ⟨-, -, hloop⟩ :=
      hsame hrest herrors hread hquiet hrest' herrors' hread' hquiet'
    exact ⟨hloop, hloop.runAlike⟩

/-- The loop `for [i, i, i] [i;]` and its hand-written form. -/
theorem forText_means_whileText_names :
    let i : Token := ⟨.identifier, "i", none, 1⟩
    let body := [i, mark .semicolon ";"]
    ∃ s s', parse (forText [i] [i] [i] body ++ [Token.eof 1]) = .ok [s] ∧
      parse (whileText [i] [i] [i] body ++ [Token.eof 1]) = .ok [s'] ∧ SameLoop s s' ∧
      RunAlike s s' := by
  intro i body
  have hname : Clause 1 [i] (some (.variable i)) := by
    refine .present (.value ?_)
    iterate 10 refine .tighter (by decide) ?_
    exact .name (Or.inl rfl)
  have hbody : Enclosed [] body := .append (w := [i]) (.single (by decide)) (.single (by decide))
  have hrefl (tokens : List Token) : List.Forall₂ Token.SameText tokens tokens :=
    List.forall₂_same.mpr fun _ _ => ⟨rfl, rfl, rfl⟩
  have hfor : (parse (forText [i] [i] [i] body ++ [Token.eof 1])).isOk = true := by decide +kernel
  have hwhile : (parse (whileText [i] [i] [i] body ++ [Token.eof 1])).isOk = true := by
    decide +kernel
  obtain ⟨trees, hparse⟩ := exists_of_isOk hfor
  obtain ⟨trees', hparse'⟩ := exists_of_isOk hwhile
  obtain ⟨s, s', rfl, rfl, hloop⟩ := (forText_means_whileText hname hname hname hbody
    (hrefl _) (hrefl _)).1 1 1 trees trees' hparse hparse'
  exact ⟨s, s', hparse, hparse', hloop⟩

end BracketScript
