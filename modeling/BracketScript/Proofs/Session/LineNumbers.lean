import BracketScript.Proofs.Session.Units

/-!
# Lines do not influence what programs do

Tokens know their lines, and so do trees, functions and structs; diagnostics
report them.  Nothing else depends on them.  If two lists of tokens differ in
lines only, then they are read as the same trees up to lines, or with the same
faults at the same lexemes, and running them on machines that are alike gives
the same output and the same answers (`Session.runTokens_sansLines`).
-/

namespace BracketScript

open Grammar

/-- The tokens agree in everything but their lines. -/
structure Token.SameText (t u : Token) : Prop where
  kind : t.kind = u.kind
  lexeme : t.lexeme = u.lexeme
  literal : t.literal = u.literal

theorem Token.SameText.sansLine_eq {t u : Token} (h : t.SameText u) : t.sansLine = u.sansLine := by
  obtain ⟨kind, lexeme, literal, line⟩ := t
  obtain ⟨hkind, hlexeme, hliteral⟩ := h
  dsimp only at hkind hlexeme hliteral
  rw [hkind, hlexeme, hliteral]
  rfl

theorem map_sansLine_eq {tokens others : List Token}
    (h : List.Forall₂ Token.SameText tokens others) :
    tokens.map Token.sansLine = others.map Token.sansLine := by
  induction h with
  | nil => rfl
  | cons h _ ih => rw [List.map_cons, List.map_cons, h.sansLine_eq, ih]

/-! ### Reading -/

/-- What came of reading, lines left out. -/
def readingSansLines : Except (List SyntaxError) (List Stmt) →
    Except (List (Location × SyntaxFault)) (List Stmt)
  | .error errors => .error (errors.map SyntaxError.sansLine)
  | .ok trees => .ok (trees.map (Stmt.mapTokens Token.sansLine))

/-- A list of tokens is read like the same tokens with their lines left out. -/
theorem Cursor.ofTokens_alike (tokens : List Token) :
    (Cursor.ofTokens tokens).Alike Token.sansLine
      ⟨(tokens.map Token.sansLine).takeWhile fun t => t.kind ≠ .eof,
        ((tokens.map Token.sansLine).find? fun t => t.kind = .eof).getD (Token.eof 0), #[], #[]⟩ := by
  constructor
  · rw [List.takeWhile_map]
    rfl
  · rw [List.find?_map]
    show _ = Token.sansLine ((tokens.find? fun t => t.kind = .eof).getD _)
    have hkind : (fun t : Token => decide (t.kind = .eof)) ∘ Token.sansLine =
        fun t => decide (t.kind = .eof) := rfl
    rw [hkind]
    cases tokens.find? fun t => t.kind = .eof <;> rfl
  · exact .nil

theorem parse_sansLines {tokens others : List Token}
    (h : tokens.map Token.sansLine = others.map Token.sansLine) :
    readingSansLines (parse tokens) = readingSansLines (parse others) := by
  have hfirst := program_alike keepsText_sansLine (Cursor.ofTokens_alike tokens)
  have hsecond := program_alike keepsText_sansLine (Cursor.ofTokens_alike others)
  rw [← h] at hsecond
  have htrees := hfirst.1.symm.trans hsecond.1
  have herrors := (hfirst.2.errors keepsText_sansLine).symm.trans
    (hsecond.2.errors keepsText_sansLine)
  rw [parse_eq, parse_eq]
  by_cases hnone : (program (Cursor.ofTokens tokens)).2.errors = #[]
  · have hnone' : (program (Cursor.ofTokens others)).2.errors = #[] := by
      rw [hnone, Array.map_empty] at herrors
      simpa using herrors.symm
    simp only [hnone, hnone', Array.isEmpty_empty, if_true, readingSansLines, ← Array.toList_map,
      htrees]
  · have hnone' : (program (Cursor.ofTokens others)).2.errors ≠ #[] := by
      intro hnone'
      rw [hnone', Array.map_empty] at herrors
      exact hnone (by simpa using herrors)
    simp only [Array.isEmpty_iff, hnone, hnone', if_false, readingSansLines, ← Array.toList_map,
      herrors]

/-! ### Running -/

/-- The failure without the lines it is reported on. -/
def Failure.sansLines : Failure → Failure
  | .source errors => .source (errors.map fun e => { e with line := 0 })
  | .runtime e => .runtime { e with line := 0 }
  | f => f

theorem Failure.sansLines_ofStop {e e' : Stop} (h : e.sansLine = e'.sansLine) :
    (Failure.ofStop e).sansLines = (Failure.ofStop e').sansLines := by
  cases e <;> cases e' <;> simp only [Stop.sansLine, reduceCtorEq, Stop.error.injEq] at h
  · exact congrArg Failure.runtime h
  · rfl
  · rfl

theorem Failure.sansLines_source {errors errors' : List SyntaxError}
    (h : errors.map SyntaxError.sansLine = errors'.map SyntaxError.sansLine) :
    (Failure.source errors).sansLines = (Failure.source errors').sansLines := by
  have hline : (fun e : SyntaxError => { e with line := 0 }) =
      (fun e => ⟨0, e.1, e.2⟩) ∘ SyntaxError.sansLine := rfl
  simp only [Failure.sansLines, hline, ← List.map_map, h]

namespace Session

/-- What a unit gives to see, lines left out: the text of its value, or why it
failed. -/
def answer : Except Failure Value → Except Failure String
  | .error e => .error e.sansLines
  | .ok v => .ok v.display

theorem answer_eq_exhausted {r : Except Failure Value} :
    answer r = .error .exhausted ↔ r = .error .exhausted := by
  rcases r with e | v
  · cases e <;> simp [answer, Failure.sansLines]
  · simp [answer]

variable {options : SessionOptions} {fuel : Nat}

/-- Programs that differ in lines only give the same answer and leave machines
that are alike, unless the first is out of fuel. -/
theorem runProgram_alike {trees trees' : List Stmt}
    (h : trees.map (Stmt.mapTokens Token.sansLine) = trees'.map (Stmt.mapTokens Token.sansLine))
    {m m' : Machine} (halike : m.Alike true m')
    (hends : (runProgram options fuel trees m).1 ≠ .error .exhausted) :
    answer (runProgram options fuel trees m).1 = answer (runProgram options fuel trees' m').1 ∧
      (runProgram options fuel trees m).2.Alike true (runProgram options fuel trees' m').2 := by
  have hfuel : AtFuel Token.sansLine .any options.setup options.setup (lineRelations true) fuel
      fuel := agrees_atFuel options.setup (Nat.le_refl fuel)
  have hagrees := hfuel.execAll (fun s _ => s.everyNode_any false) h (Value.Alike.refl .null)
  unfold runProgram interpret at hends ⊢
  have hlost : (execAll options.setup fuel trees .null m).1 ≠ .error (.stopped .exhausted) := by
    intro hlost
    rcases hexec : execAll options.setup fuel trees .null m with ⟨r, m₁⟩
    rw [hexec] at hlost hends
    obtain rfl : r = .error (.stopped .exhausted) := hlost
    exact hends rfl
  have hout := hagrees.agree halike hlost (Or.inl rfl)
  rcases hexec : execAll options.setup fuel trees .null m with ⟨r, m₁⟩
  rcases hexec' : execAll options.setup fuel trees' .null m' with ⟨r', m₁'⟩
  rw [hexec, hexec'] at hout
  obtain ⟨hended, hmachine, -⟩ := hout
  cases hended with
  | ok hv => exact ⟨congrArg Except.ok (alike_display hv).symm, hmachine⟩
  | @error e e' he =>
      cases e <;> cases e' <;> simp only [Unwind.sansLines, reduceCtorEq, Unwind.returned.injEq,
        Unwind.stopped.injEq] at he
      · exact ⟨congrArg Except.ok (alike_display he).symm, hmachine⟩
      · exact ⟨congrArg Except.error (Failure.sansLines_ofStop he), { hmachine with depth := rfl }⟩

/-- Running tokens is running what they are read as; that they were read shows
in the log only. -/
theorem runTokens_apply (hemit : options.emit = none) (fuel : Nat) (tokens : List Token)
    (m : Machine) :
    ∃ log, runTokens options fuel tokens m =
      match parse tokens with
      | .error errors => (.error (.source errors), { m with log := log })
      | .ok trees => runProgram options fuel trees { m with log := log } := by
  cases hparse : parse tokens with
  | error errors =>
      have houtcome : (Parse.ofTokens tokens).outcome = .error errors := hparse
      refine ⟨m.log ++ (Parse.ofTokens tokens).loops.map Event.loopRead, ?_⟩
      simp [runTokens, houtcome, bind, Run.andThen, Run.update, Run.stop]
  | ok trees =>
      have houtcome : (Parse.ofTokens tokens).outcome = .ok trees := hparse
      refine ⟨((m.log ++ (Parse.ofTokens tokens).loops.map Event.loopRead).push
        (.parsed trees.length)).push (.executing trees.length), ?_⟩
      simp [runTokens, houtcome, hemit, bind, Run.andThen, Run.note, Run.update]

/-- Tokens that differ in lines only give the same answer and leave machines
that are alike, unless the first are out of fuel. -/
theorem runTokens_alike (hemit : options.emit = none) {tokens others : List Token}
    (h : tokens.map Token.sansLine = others.map Token.sansLine) {m m' : Machine}
    (halike : m.Alike true m')
    (hends : (runTokens options fuel tokens m).1 ≠ .error .exhausted) :
    answer (runTokens options fuel tokens m).1 = answer (runTokens options fuel others m').1 ∧
      (runTokens options fuel tokens m).2.Alike true (runTokens options fuel others m').2 := by
  have hparse := parse_sansLines h
  obtain ⟨log, hrun⟩ := runTokens_apply hemit fuel tokens m
  obtain ⟨log', hrun'⟩ := runTokens_apply hemit fuel others m'
  have hstart : Machine.Alike true { m with log := log } { m' with log := log' } :=
    { halike with }
  rw [hrun] at hends ⊢
  rw [hrun']
  cases hread : parse tokens <;> cases hread' : parse others <;>
    simp only [hread, hread', readingSansLines, reduceCtorEq, Except.error.injEq,
      Except.ok.injEq] at hparse
  · exact ⟨congrArg Except.error (Failure.sansLines_source hparse), hstart⟩
  · rw [hread] at hends
    exact runProgram_alike hparse hstart hends

/-- Two lists of tokens that agree in everything but their lines.  They are read
as the same trees up to lines, or with the same faults at the same places.  Run
on machines that are alike, for instance of two new sessions with the same input,
they give the same answer: a value with the same text, the same faults, or the
same runtime fault.  And they leave machines that are alike, with the same
output, unless the program does not end at all. -/
theorem runTokens_sansLines (options : SessionOptions) (hemit : options.emit = none)
    (tokens others : List Token) (h : List.Forall₂ Token.SameText tokens others) :
    readingSansLines (parse tokens) = readingSansLines (parse others) ∧
      ∀ (fuel : Nat) (m m' : Machine), m.Alike true m' →
        answer (runTokens options fuel tokens m).1 =
            answer (runTokens options fuel others m').1 ∧
          ((runTokens options fuel tokens m).1 ≠ .error .exhausted →
            (runTokens options fuel tokens m).2.Alike true
              (runTokens options fuel others m').2) := by
  have hlines := map_sansLine_eq h
  refine ⟨parse_sansLines hlines, ?_⟩
  intro fuel m m' halike
  by_cases hends : (runTokens options fuel tokens m).1 = .error .exhausted
  · -- If the second run had an end, then the first would have the same.
    have hends' : (runTokens options fuel others m').1 = .error .exhausted := by
      by_contra hother
      have hback := (runTokens_alike hemit hlines.symm halike.symm hother).1
      rw [hends, answer_eq_exhausted.mpr rfl, answer_eq_exhausted] at hback
      exact hother hback
    rw [hends, hends']
    exact ⟨rfl, fun hnot => absurd rfl hnot⟩
  · obtain ⟨hanswer, hmachine⟩ := runTokens_alike hemit hlines halike hends
    exact ⟨hanswer, fun _ => hmachine⟩

/-- The tokens of `print['hi']; x;`, with the call and the name on given lines. -/
def greeting (call name : Nat) : List Token :=
  [⟨.identifier, "print", none, call⟩, ⟨.leftBracket, "[", none, call⟩,
    ⟨.str, "'hi'", some (.str "hi"), call⟩, ⟨.rightBracket, "]", none, call⟩,
    ⟨.semicolon, ";", none, call⟩, ⟨.identifier, "x", none, name⟩, ⟨.semicolon, ";", none, name⟩,
    .eof name]

/-- After the greeting there is an unknown name: it is reported on another line,
and everything else is the same. -/
theorem runTokens_sansLines_greeting :
    let m := start (.ofInput [] none) []
    let first := runTokens bareOptions 12 (greeting 1 1) m
    let second := runTokens bareOptions 12 (greeting 2 7) m
    List.Forall₂ Token.SameText (greeting 1 1) (greeting 2 7) ∧
      first.1 = .error (.runtime ⟨.undefinedVariable "x", 1⟩) ∧
      first.2.console.written = "hi\n".toUTF8 ∧
      answer second.1 = .error (.runtime ⟨.undefinedVariable "x", 0⟩) ∧
      second.2.console.written = "hi\n".toUTF8 := by
  intro m first second
  have htexts : List.Forall₂ Token.SameText (greeting 1 1) (greeting 2 7) := by
    unfold greeting
    repeat' constructor
  have hfirst : first.1 = .error (.runtime ⟨.undefinedVariable "x", 1⟩) := rfl
  have hwritten : first.2.console.written = "hi\n".toUTF8 := rfl
  obtain ⟨hanswer, hmachine⟩ := (runTokens_sansLines bareOptions rfl _ _ htexts).2 12 m m
    (Machine.Alike.refl true m)
  have hends : first.1 ≠ .error .exhausted := by
    rw [hfirst]
    exact nofun
  refine ⟨htexts, hfirst, hwritten, ?_, ?_⟩
  · rw [← hanswer]
    exact congrArg answer hfirst
  · rw [← (hmachine hends).written]
    exact hwritten

end Session

end BracketScript
