import BracketScript.Proofs.Grammar.Lines
import BracketScript.Proofs.Session.Termination
import BracketScript.Proofs.Token.Layout

/-!
# Diagnostics point into the source

Whatever a unit of source text fails with, the line it is reported on is a line
of the text (`Session.runSource_diagnostics`).  There are three places to look
at.

* Scanning notes its faults on the lines it comes to, which only grow.
* Reading notes its faults at tokens, and these are tokens of the source: a
  reader has no others.  That follows from the shape of readers alone.  If the
  lines of all other tokens are changed, reading goes on in the same way and
  takes the tokens of its faults along (`program_alike`); but nothing that is
  read has changed, so the faults are the same ones as before.
* Running reports faults at tokens kept in the tree or in a closure, and the
  closures of a new session come from its tree.
-/

namespace BracketScript

open Grammar

/-! ### Scanning -/

theorem Token.scan_eq_error_iff {source : String} {errors : List SyntaxError} :
    Token.scan source = .error errors ↔
      (Scan.ofSource source).errors ≠ #[] ∧ errors = (Scan.ofSource source).errors.toList := by
  rw [Token.scan_eq_finish, Scan.finish]
  by_cases h : (Scan.ofSource source).errors = #[]
  · simp [h]
  · rw [if_neg (by simpa using h)]
    exact ⟨fun heq => ⟨h, (Except.error.inj heq).symm⟩, fun heq => congrArg _ heq.2.symm⟩

theorem Scan.ofSource_inOrder (source : String) : (Scan.ofSource source).InOrder :=
  Scan.inOrder_start.foldl _

/-- The number of a line of the text. -/
def IsLineOf (source : String) (line : Nat) : Prop :=
  1 ≤ line ∧ line ≤ 1 + source.toList.count '\n'

theorem Token.isLineOf {source : String} {tokens : List Token}
    (h : Token.scan source = .ok tokens) : ∀ t ∈ tokens, IsLineOf source t.line := by
  obtain ⟨-, rfl⟩ := Token.scan_eq_ok_iff.mp h
  have horder := Scan.ofSource_inOrder source
  intro t ht
  unfold IsLineOf
  rw [← Scan.line_ofSource]
  rcases List.mem_append.mp ht with ht | ht
  · exact ⟨horder.tokensBegun t ht, horder.passed t ht⟩
  · obtain rfl := List.mem_singleton.mp ht
    exact ⟨horder.begun, Nat.le_refl _⟩

/-! ### Reading -/

/-- Moves the tokens that are not in a list to another line. -/
def movedUnless (tokens : List Token) (t : Token) : Token :=
  if t ∈ tokens then t else { t with line := t.line + 1 }

theorem keepsText_movedUnless (tokens : List Token) : KeepsText (movedUnless tokens) := by
  constructor <;> intro t <;> unfold movedUnless <;> split <;> rfl

theorem movedUnless_of_mem {tokens : List Token} {t : Token} (h : t ∈ tokens) :
    movedUnless tokens t = t :=
  if_pos h

theorem mem_of_line_movedUnless {tokens : List Token} {t : Token}
    (h : (movedUnless tokens t).line = t.line) : t ∈ tokens := by
  by_contra hmem
  simp [movedUnless, hmem] at h

namespace Grammar

/-- Faults are noted at tokens that were there to be read. -/
theorem program_faults {c : Cursor} (h : c.errors = #[]) :
    ∀ e ∈ (program c).2.errors.toList,
      ∃ t ∈ c.finish :: c.rest, ∃ fault, e = SyntaxError.atToken t fault := by
  have hsame : c.Alike (movedUnless (c.finish :: c.rest)) c := by
    refine ⟨?_, (movedUnless_of_mem List.mem_cons_self).symm, ?_⟩
    · have hrest : ∀ t ∈ c.rest, movedUnless (c.finish :: c.rest) t = id t :=
        fun t ht => movedUnless_of_mem (List.mem_cons_of_mem _ ht)
      rw [List.map_congr_left hrest, List.map_id]
    · rw [h]
      exact .nil
  obtain ⟨-, hread⟩ := program_alike (keepsText_movedUnless _) hsame
  intro e he
  obtain ⟨t, fault, hfrom, hto⟩ := List.forall₂_same.mp hread.faults e he
  have hline : t.line = (movedUnless (c.finish :: c.rest) t).line :=
    congrArg SyntaxError.line (hfrom.symm.trans hto)
  exact ⟨t, mem_of_line_movedUnless hline.symm, fault, hfrom⟩

end Grammar

/-- Faults of reading are noted at tokens of the source. -/
theorem parse_faults {source : String} {tokens : List Token} {errors : List SyntaxError}
    (hscan : Token.scan source = .ok tokens) (hparse : parse tokens = .error errors) :
    errors ≠ [] ∧ ∀ e ∈ errors, ∃ t ∈ tokens, ∃ fault, e = SyntaxError.atToken t fault := by
  obtain ⟨-, rfl⟩ := Token.scan_eq_ok_iff.mp hscan
  rw [parse_eq, Cursor.ofTokens_eof (by simpa using Scan.kind_ne_eof source)] at hparse
  split at hparse
  · cases hparse
  · next hsome =>
      obtain rfl := Except.error.inj hparse
      refine ⟨by simpa using hsome, fun e he => ?_⟩
      obtain ⟨t, ht, hfault⟩ := program_faults rfl e he
      refine ⟨t, ?_, hfault⟩
      rcases List.mem_cons.mp ht with rfl | ht
      · simp
      · exact List.mem_append_left _ ht

/-! ### Running -/

namespace Allowance

/-- Code all of whose tokens stand on certain lines. -/
def onLines (Q : Nat → Prop) : Allowance :=
  { ofCode (tokensLaw fun t => Q t.line) (fun _ _ _ => True) True with line := Q }

theorem onLines_laws (setup : Setup) (Q : Nat → Prop) : (onLines Q).Laws setup :=
  { @ofCode_laws setup (tokensLaw fun t => Q t.line) (fun _ _ _ => True) True (fun _ => trivial)
      (fun _ _ => trivial) (fun _ _ => trivial) (fun _ _ _ => trivial) (fun _ _ _ => trivial) with
    exprLine := by
      intro e hlaw t ht
      cases e with
      | «variable» | selfRef | unary | binary | call | «attribute» =>
          obtain rfl := List.mem_singleton.mp ht
          exact hlaw.1
      | assign target value =>
          cases target with
          | «variable» => cases ht
          | selfField keyword name =>
              rcases List.mem_pair.mp ht with rfl | rfl
              · exact hlaw.1.1
              · exact hlaw.2.1
      | _ => cases ht
    stmtLine := by
      intro inFunction s hlaw t ht
      cases s with
      | whileLoop =>
          obtain rfl := List.mem_singleton.mp ht
          exact hlaw.1
      | importing module names =>
          rcases List.mem_cons.mp ht with rfl | ht
          · exact hlaw.1.1
          · exact (hlaw.2 t ht).1
      | _ => cases ht }

end Allowance

namespace Session

variable {options : SessionOptions} {fuel : Nat} {source : String} {m : Machine}

/-- Why a unit fails: for faults of scanning or reading, for want of a place to
show it at, or because its statements are stopped. -/
inductive Fails (options : SessionOptions) (fuel : Nat) (source : String) (m : Machine) :
    Failure → Prop
  | scanning {errors : List SyntaxError} (hscan : Token.scan source = .error errors) :
    Fails options fuel source m (.source errors)
  | reading {tokens : List Token} {errors : List SyntaxError}
    (hscan : Token.scan source = .ok tokens) (hparse : parse tokens = .error errors) :
    Fails options fuel source m (.source errors)
  | showing (e : IoError) : Fails options fuel source m (.io e)
  | running {tokens : List Token} {trees : List Stmt} {stop : Stop}
    (hscan : Token.scan source = .ok tokens) (hparse : parse tokens = .ok trees)
    (hexec : (execAll options.setup fuel trees .null (loaded m tokens trees)).1 =
      .error (.stopped stop)) : Fails options fuel source m (.ofStop stop)

theorem writeLine_error (text : String) {failure : Failure}
    (h : ((writeLine text >>= fun _ => pure Value.null : Run Failure Value) m).1 =
      .error failure) : ∃ e, failure = .io e := by
  have hwrite := writeLine_apply text m
  rcases hend : (m.console.writeLine text).1 with e | _ <;> rw [hend] at hwrite
  · rw [Run.bind_of_error hwrite] at h
    exact ⟨e, (Except.error.inj h).symm⟩
  · rw [Run.bind_of_ok hwrite] at h
    cases h

theorem fails_of_runSource {failure : Failure}
    (h : (runSource options fuel source m).1 = .error failure) :
    Fails options fuel source m failure := by
  cases hscan : Token.scan source with
  | error errors =>
      rw [runSource_of_scan_error hscan] at h
      cases h
      exact .scanning hscan
  | ok tokens =>
      by_cases htokens : options.emit = some .tokens
      · simp only [runSource, hscan, htokens, if_true] at h
        obtain ⟨e, rfl⟩ := writeLine_error (tokensText options.json tokens)
          (m := { m with log := m.log.push (.scanned tokens.length) }) h
        exact .showing e
      · cases hparse : parse tokens with
        | error errors =>
            rw [runSource_of_parse_error htokens hscan hparse] at h
            cases h
            exact .reading hscan hparse
        | ok trees =>
            by_cases htree : options.emit = some .tree
            · have houtcome : (Parse.ofTokens tokens).outcome = .ok trees := hparse
              simp only [runSource, hscan, runTokens, houtcome, htree, if_true] at h
              obtain ⟨e, rfl⟩ := writeLine_error (treeText options.json trees)
                (m := { m with log := (m.log.push (.scanned tokens.length) ++
                  (Parse.ofTokens tokens).loops.map Event.loopRead).push (.parsed trees.length) }) h
              exact .showing e
            · have hemit : options.emit = none := by
                cases hemit : options.emit with
                | none => rfl
                | some emit => cases emit <;> simp_all
              rw [runSource_loaded hemit hscan hparse, runProgram_eq_conclude] at h
              rcases hexec : execAll options.setup fuel trees .null (loaded m tokens trees) with
                ⟨(v | stop) | v, m'⟩ <;> rw [hexec] at h <;> cases h
              exact .running hscan hparse (by rw [hexec])

theorem Fails.of_source {errors : List SyntaxError}
    (h : Fails options fuel source m (.source errors)) :
    Token.scan source = .error errors ∨
      ∃ tokens, Token.scan source = .ok tokens ∧ parse tokens = .error errors := by
  generalize hfailure : Failure.source errors = failure at h
  cases h with
  | scanning hscan =>
      obtain rfl := Failure.source.inj hfailure
      exact .inl hscan
  | reading hscan hparse =>
      obtain rfl := Failure.source.inj hfailure
      exact .inr ⟨_, hscan, hparse⟩
  | showing => cases hfailure
  | @running _ _ stop => cases stop <;> cases hfailure

theorem Fails.of_runtime {e : RuntimeError} (h : Fails options fuel source m (.runtime e)) :
    ∃ tokens trees, Token.scan source = .ok tokens ∧ parse tokens = .ok trees ∧
      (execAll options.setup fuel trees .null (loaded m tokens trees)).1 =
        .error (.stopped (.error e)) := by
  generalize hfailure : Failure.runtime e = failure at h
  cases h with
  | scanning | reading | showing => cases hfailure
  | @running tokens trees stop hscan hparse hexec =>
      cases stop <;> cases hfailure
      exact ⟨tokens, trees, hscan, hparse, hexec⟩

/-- A unit of a new session that fails while it runs reports a line on which one
of its tokens stands. -/
theorem line_of_runtime {console : Console} {names : List String} {e : RuntimeError}
    (h : (runSource options fuel source (start console names)).1 = .error (.runtime e)) :
    ∃ tokens, Token.scan source = .ok tokens ∧ ∃ t ∈ tokens, e.line = t.line := by
  obtain ⟨tokens, trees, hscan, hparse, hexec⟩ := (fails_of_runSource h).of_runtime
  refine ⟨tokens, hscan, ?_⟩
  let Q : Nat → Prop := fun line => ∃ t ∈ tokens, line = t.line
  have laws := Allowance.regime_laws (Allowance.onLines_laws options.setup Q)
  have hrests : (Allowance.onLines Q).regime.Rests (start console names) :=
    Allowance.rests_start console names trivial trivial ⟨trivial, trivial⟩
  have hlaw := everyNode_tokensLaw_of_parse (Q := fun t => Q t.line) hparse
    fun t ht => ⟨t, ht, rfl⟩
  have hready : (Allowance.onLines Q).regime.Ready fuel (sizeOf trees)
      (loaded (start console names) tokens trees) := ⟨hrests.inv, hrests.place, trivial⟩
  have hruns := (laws.atFuel fuel).execAll hlaw (laws.constant _ .null) hready
  exact (hruns.error hexec).2

/-- Whatever a unit of a new session fails with, its diagnostics point into the
source.  Faults of the source are at least one.  Those of scanning come in the
order of their lines; those of reading stand at a token of the source, at its
lexeme or, for the end marker, at the end.  A runtime error is reported on the
line of a token of the source. -/
theorem runSource_diagnostics (options : SessionOptions) (fuel : Nat) (source : String)
    (console : Console) (names : List String) :
    (∀ errors,
      (runSource options fuel source (start console names)).1 = .error (.source errors) →
        errors ≠ [] ∧
        (∀ e ∈ errors, 1 ≤ e.line ∧ e.line ≤ 1 + source.toList.count '\n') ∧
        (Token.scan source = .error errors ∧ errors.Pairwise (fun e e' => e.line ≤ e'.line) ∨
          ∃ tokens, Token.scan source = .ok tokens ∧ parse tokens = .error errors ∧
            ∀ e ∈ errors, ∃ t ∈ tokens, e.line = t.line ∧
              e.location = if t.kind = .eof then .atEnd else .lexeme t.lexeme)) ∧
    ∀ e, (runSource options fuel source (start console names)).1 = .error (.runtime e) →
      (1 ≤ e.line ∧ e.line ≤ 1 + source.toList.count '\n') ∧
      ∃ tokens, Token.scan source = .ok tokens ∧ ∃ t ∈ tokens, e.line = t.line := by
  constructor
  · intro errors h
    rcases (fails_of_runSource h).of_source with hscan | ⟨tokens, hscan, hparse⟩
    · obtain ⟨hsome, rfl⟩ := Token.scan_eq_error_iff.mp hscan
      have horder := Scan.ofSource_inOrder source
      refine ⟨by simpa using hsome, fun e he => ⟨horder.faultsBegun e he, ?_⟩,
        .inl ⟨hscan, horder.faultsSorted⟩⟩
      rw [← Scan.line_ofSource]
      exact horder.faultsPassed e he
    · obtain ⟨hsome, hfaults⟩ := parse_faults hscan hparse
      refine ⟨hsome, fun e he => ?_, .inr ⟨tokens, hscan, hparse, fun e he => ?_⟩⟩
      · obtain ⟨t, ht, fault, rfl⟩ := hfaults e he
        exact Token.isLineOf hscan t ht
      · obtain ⟨t, ht, fault, rfl⟩ := hfaults e he
        exact ⟨t, ht, rfl, rfl⟩
  · intro e h
    obtain ⟨tokens, hscan, t, ht, hline⟩ := line_of_runtime h
    refine ⟨?_, tokens, hscan, t, ht, hline⟩
    rw [hline]
    exact Token.isLineOf hscan t ht

/-- An operand that is missing on the second line, and a name that is not known
there. -/
theorem runSource_diagnostics_second_line :
    (∃ errors,
      (runSource bareOptions 12 "a;\nb + ;" (start (.ofInput [] none) [])).1 =
          .error (.source errors) ∧
        errors ≠ [] ∧ ∀ e ∈ errors, 1 ≤ e.line ∧ e.line ≤ 2) ∧
    ∃ e,
      (runSource bareOptions 12 "null;\nb;" (start (.ofInput [] none) [])).1 =
          .error (.runtime e) ∧
        1 ≤ e.line ∧ e.line ≤ 2 := by
  have hsyntax : (runSource bareOptions 12 "a;\nb + ;" (start (.ofInput [] none) [])).1 =
      .error (.source [⟨2, .lexeme ";", .noExpression⟩]) := by
    have hscan : Token.scan "a;\nb + ;" =
        .ok [⟨.identifier, "a", none, 1⟩, ⟨.semicolon, ";", none, 1⟩,
          ⟨.identifier, "b", none, 2⟩, ⟨.plus, "+", none, 2⟩, ⟨.semicolon, ";", none, 2⟩,
          .eof 2] := rfl
    have hemit : bareOptions.emit ≠ some .tokens := by decide
    have hparse : parse [⟨.identifier, "a", none, 1⟩, ⟨.semicolon, ";", none, 1⟩,
        ⟨.identifier, "b", none, 2⟩, ⟨.plus, "+", none, 2⟩, ⟨.semicolon, ";", none, 2⟩,
        .eof 2] = .error [⟨2, .lexeme ";", .noExpression⟩] := rfl
    rw [runSource_of_parse_error hemit hscan hparse]
  have hruntime : (runSource bareOptions 12 "null;\nb;" (start (.ofInput [] none) [])).1 =
      .error (.runtime ⟨.undefinedVariable "b", 2⟩) := by
    have hscan : Token.scan "null;\nb;" =
        .ok [⟨.nullKw, "null", none, 1⟩, ⟨.semicolon, ";", none, 1⟩,
          ⟨.identifier, "b", none, 2⟩, ⟨.semicolon, ";", none, 2⟩, .eof 2] := rfl
    rw [runSource_loaded rfl hscan rfl]
    rfl
  refine ⟨⟨_, hsyntax, ?_⟩, ⟨_, hruntime, ?_⟩⟩
  · obtain ⟨hsome, hlines, -⟩ :=
      (runSource_diagnostics bareOptions 12 "a;\nb + ;" (.ofInput [] none) []).1 _ hsyntax
    exact ⟨hsome, hlines⟩
  · exact ((runSource_diagnostics bareOptions 12 "null;\nb;" (.ofInput [] none) []).2 _ hruntime).1

end Session

end BracketScript
