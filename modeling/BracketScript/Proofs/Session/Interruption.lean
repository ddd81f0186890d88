import BracketScript.Proofs.Eval.Interruption
import BracketScript.Proofs.Session.Termination
import BracketScript.Proofs.Session.Units

/-!
# Units that are asked to stop

A request to stop that is there before a unit starts is answered at the first
call or round of a loop; until then the unit does what it does without the
request, and it does not print (`Session.runSource_asked`).  An interactive
session withdraws the request before each line it runs, so to it a request made
in advance makes no difference.
-/

namespace BracketScript

namespace Session

variable {options : SessionOptions} {fuel : Nat} {m : Machine}

/-- The unit can be read, and a run of it looks at the request to stop. -/
def ReachesPoll (options : SessionOptions) (fuel : Nat) (source : String) (m : Machine) : Prop :=
  ∃ tokens trees, Token.scan source = .ok tokens ∧ parse tokens = .ok trees ∧
    Polls options.setup fuel (.stmts trees .null) (loaded m tokens trees)

theorem conclude_calm (x : Except Unwind Value × Machine) :
    conclude (x.1, x.2.calm) = ((conclude x).1, (conclude x).2.calm) := by
  rcases x with ⟨(v | s) | v, m⟩ <;> rfl

theorem runProgram_heeds (trees : List Stmt) (hm : m.interrupted = true) :
    (runProgram options fuel trees).Heeds Failure.ofStop
      (Polls options.setup fuel (.stmts trees .null) m) (sizeOf trees < fuel) m := by
  cases (heeding options.setup fuel).execAll trees .null hm with
  | answered line m' reached run flag quiet =>
      refine .answered line { m' with depth := 0 } reached ?_ flag quiet
      rw [runProgram_eq_conclude, run]
      rfl
  | unasked flag quiet calm ends =>
      generalize hx : execAll options.setup fuel trees .null m = x at flag quiet calm ends
      refine .unasked ?_ ?_ ?_ ?_
      · rw [runProgram_eq_conclude, hx]
        rcases x with ⟨(v | s) | v, m'⟩ <;> exact flag
      · rw [runProgram_eq_conclude, hx]
        rcases x with ⟨(v | s) | v, m'⟩ <;> exact quiet
      · rw [runProgram_eq_conclude, runProgram_eq_conclude, calm, hx, conclude_calm]
      · rw [runProgram_eq_conclude, hx]
        intro henough hend
        rcases x with ⟨(v | s) | v, m'⟩
        · cases hend
        · cases s <;> cases hend
          exact ends henough rfl
        · cases hend

theorem runSource_heeds (hemit : options.emit = none) (source : String)
    (hm : m.interrupted = true) :
    (runSource options fuel source).Heeds Failure.ofStop (ReachesPoll options fuel source m)
      (unitSize source < fuel) m := by
  cases hscan : Token.scan source with
  | error errors =>
      have hrun := @runSource_of_scan_error options fuel source errors hscan
      refine .unasked ?_ ?_ ?_ ?_ <;> rw [hrun]
      · exact hm
      · rw [hrun]
      · exact nofun
  | ok tokens =>
      cases hparse : parse tokens with
      | error errors =>
          have hrun := @runSource_of_parse_error options fuel (by rw [hemit]; exact nofun) source
            tokens errors hscan hparse
          refine .unasked ?_ ?_ ?_ ?_ <;> rw [hrun]
          · exact hm
          · rw [hrun]
            rfl
          · exact nofun
      | ok trees =>
          have hrun := runSource_loaded hemit hscan hparse fuel
          have hcalm : loaded m.calm tokens trees = (loaded m tokens trees).calm := rfl
          rw [unitSize_of_parse hscan hparse]
          have hloaded : (loaded m tokens trees).interrupted = true := hm
          cases @runProgram_heeds options fuel _ trees hloaded with
          | answered line m' reached run flag quiet =>
              have hreached : ReachesPoll options fuel source m :=
                ⟨tokens, trees, hscan, hparse, reached⟩
              exact .answered line m' hreached ((hrun m).trans run) flag quiet
          | unasked flag quiet calm ends =>
              refine .unasked ?_ ?_ ?_ ?_ <;> rw [hrun]
              · exact flag
              · exact quiet
              · rw [hrun, hcalm]
                exact calm
              · exact ends

/-- A unit that looks at the request answers it. -/
theorem ReachesPoll.flag {source : String} (hemit : options.emit = none)
    (h : ReachesPoll options fuel source m) (hm : m.interrupted = true) :
    (runSource options fuel source m).2.interrupted = false := by
  obtain ⟨tokens, trees, hscan, hparse, hpolls⟩ := h
  obtain ⟨line, m', hrun, hflag⟩ := hpolls.answers hm
  rw [runSource_loaded hemit hscan hparse, runProgram_eq_conclude, hrun]
  exact hflag

/-! ### Interactive sessions -/

/-- A part of a session to which a request to stop makes no difference. -/
def Heedless {α : Type} (p : Run Failure α) : Prop :=
  ∀ m m' : Machine, m.calm = m'.calm → (p m).1 = (p m').1 ∧ (p m).2.calm = (p m').2.calm

namespace Heedless

variable {α β : Type}

theorem of_calm {p : Run Failure α}
    (h : ∀ m : Machine, (p m.calm).1 = (p m).1 ∧ (p m.calm).2.calm = (p m).2.calm) :
    Heedless p := by
  intro m m' hcalm
  obtain ⟨hend, hmachine⟩ := h m
  rw [← hend, ← hmachine, hcalm]
  exact h m'

theorem pure (a : α) : Heedless (pure a) :=
  of_calm fun _ => ⟨rfl, rfl⟩

theorem note (event : Event) : Heedless (Run.note event) :=
  of_calm fun _ => ⟨rfl, rfl⟩

theorem bind {p : Run Failure α} {k : α → Run Failure β} (hp : Heedless p)
    (hk : ∀ a, Heedless (k a)) : Heedless (p >>= k) := by
  intro m m' hcalm
  obtain ⟨hend, hmachine⟩ := hp m m' hcalm
  rcases hpm : p m with ⟨e | a, m₁⟩ <;> rcases hpm' : p m' with ⟨e' | a', m₁'⟩ <;>
    rw [hpm, hpm'] at hend hmachine <;> cases hend
  · rw [Run.bind_of_error hpm, Run.bind_of_error hpm']
    exact ⟨rfl, hmachine⟩
  · rw [Run.bind_of_ok hpm, Run.bind_of_ok hpm']
    exact hk a m₁ m₁' hmachine

theorem write (text : String) : Heedless (Session.write text) := by
  apply of_calm
  intro m
  unfold Session.write Machine.calm
  dsimp only
  rcases m.console.write text with ⟨_ | _, console⟩ <;> exact ⟨rfl, rfl⟩

theorem readLine : Heedless Session.readLine := by
  apply of_calm
  intro m
  unfold Session.readLine Machine.calm
  dsimp only
  rcases m.console.readLine with ⟨_ | _, console⟩ <;> exact ⟨rfl, rfl⟩

/-- The request is withdrawn before a line is run. -/
theorem runLine (options : SessionOptions) (fuel : Nat) (line : String) :
    Heedless (Session.runLine options fuel line) :=
  of_calm fun _ => ⟨rfl, rfl⟩

theorem interact (options : SessionOptions) (fuel : Nat) (prompt : Option String) :
    Heedless (Session.interact options fuel prompt) := by
  intro m m' hcalm
  have hlines : ∀ lines, Heedless (Session.interactWithin options fuel prompt lines) :=
    interactWithin_of_steps (P := Heedless) prompt (pure ()) bind write readLine
      (note .endOfInput) (runLine options fuel)
  have hinput : m.console.input = m'.console.input := congrArg (·.console.input) hcalm
  unfold Session.interact
  rw [hinput]
  exact hlines _ m m' hcalm

end Heedless

/-- Let a machine be asked to stop before a unit is run on it.  The unit comes to
an end and prints nothing.  If it gets to a place where the request is looked at,
then it is interrupted there, and the request is answered; if it does not, then
it has the value or the failure that it has without the request, and leaves the
same machine behind, with the request still open.  An interactive session writes
and reports what it does without the request. -/
theorem runSource_asked (options : SessionOptions) (source : String) (m : Machine)
    (hm : m.interrupted = true) :
    (options.emit = none →
      (∃ enough, ∀ fuel, enough ≤ fuel →
        (runSource options fuel source m).1 ≠ .error .exhausted) ∧
      ∀ fuel,
        let asked := runSource options fuel source m
        let plain := runSource options fuel source m.calm
        asked.2.console = m.console ∧
          (ReachesPoll options fuel source m ∧ asked.2.interrupted = false ∧
              (∃ e, asked.1 = .error (.runtime e) ∧ e.fault.message = "Interrupted.") ∨
            ¬ReachesPoll options fuel source m ∧ asked.2.interrupted = true ∧
              asked.1 = plain.1 ∧ asked.2.calm = plain.2)) ∧
    ∀ fuel prompt,
      let asked := interact options fuel prompt m
      let plain := interact options fuel prompt m.calm
      asked.1 = plain.1 ∧ asked.2.calm = plain.2.calm := by
  refine ⟨fun hemit => ⟨⟨unitSize source + 1, fun fuel hfuel => ?_⟩, fun fuel => ?_⟩, ?_⟩
  · cases @runSource_heeds options fuel m hemit source hm with
    | answered line m' reached run flag quiet =>
        rw [run]
        exact nofun
    | unasked flag quiet calm ends => exact ends hfuel
  · dsimp only
    cases @runSource_heeds options fuel m hemit source hm with
    | answered line m' reached run flag quiet =>
        rw [run]
        exact ⟨quiet, .inl ⟨reached, flag, _, rfl, rfl⟩⟩
    | unasked flag quiet calm ends =>
        have hunreached : ¬ReachesPoll options fuel source m := by
          intro hreached
          rw [hreached.flag hemit hm] at flag
          cases flag
        rw [calm]
        exact ⟨quiet, .inr ⟨hunreached, flag, rfl, rfl⟩⟩
  · intro fuel prompt
    exact Heedless.interact options fuel prompt m m.calm rfl

/-- A call of `print` is interrupted before it prints. -/
theorem runSource_asked_print :
    let m := { start (.ofInput [] none) [] with interrupted := true }
    m.interrupted = true ∧
      (runSource bareOptions 12 "print[null];" m).2.console = m.console ∧
      ReachesPoll bareOptions 12 "print[null];" m ∧
      ∃ e, (runSource bareOptions 12 "print[null];" m).1 = .error (.runtime e) ∧
        e.fault.message = "Interrupted." := by
  obtain ⟨hrun, -⟩ := runSource_asked bareOptions "print[null];"
    { start (.ofInput [] none) [] with interrupted := true } rfl
  obtain ⟨hquiet, hends⟩ := (hrun rfl).2 12
  have hflag : (runSource bareOptions 12 "print[null];"
      { start (.ofInput [] none) [] with interrupted := true }).2.interrupted = false := by
    decide +kernel
  refine ⟨rfl, hquiet, ?_⟩
  rcases hends with ⟨hreached, -, hmessage⟩ | ⟨-, hopen, -⟩
  · exact ⟨hreached, hmessage⟩
  · exact absurd (hflag.symm.trans hopen) Bool.false_ne_true

end Session

end BracketScript
