import BracketScript.Proofs.Eval.Sequence
import BracketScript.Session

/-!
# Units of a session

What a unit of source text does once it is read is what its statements do; that
it was read shows in the log only (`runSource_of_parse`, `runSource_ok`).  With
this, a unit does the same on machines that are alike, and leaves the input
alone if it does not call `input` (`runSource_agrees`).  `runUnits` runs units
one after the other.
-/

namespace BracketScript
namespace Session

variable {options : SessionOptions} {fuel : Nat}

/-- Nothing to import, and a clock that stands still. -/
def bareOptions : SessionOptions where
  setup := { maxDepth := 255, modules := [], clock := fun _ => ⟨0, ""⟩ }
  emit := none
  json := false

theorem scan_printNull : Token.scan "print[null];" =
    .ok [⟨.identifier, "print", none, 1⟩, ⟨.leftBracket, "[", none, 1⟩,
      ⟨.nullKw, "null", none, 1⟩, ⟨.rightBracket, "]", none, 1⟩, ⟨.semicolon, ";", none, 1⟩,
      .eof 1] := rfl

/-- Runs units one after the other, as long as none fails. -/
def runUnits (options : SessionOptions) (fuel : Nat) : List String → Run Failure Unit
  | [] => pure ()
  | source :: sources => do
    let _ ← runSource options fuel source
    runUnits options fuel sources

/-- The machine with more events in its log, none of them a report or a call of
`input`. -/
structure Noted (m m' : Machine) : Prop where
  eq : ∃ log, m' = { m with log := log }
  onward : m.Onward m'
  inputCalls : m'.inputCalls = m.inputCalls

theorem Noted.alike {m m' : Machine} (h : Noted m m') : m.Alike false m' := by
  obtain ⟨log, rfl⟩ := h.eq
  exact { Machine.Alike.refl false m with }

theorem Noted.input {m m' : Machine} (h : Noted m m') : m'.console.input = m.console.input := by
  obtain ⟨log, rfl⟩ := h.eq
  rfl

theorem Noted.of_events {m : Machine} {events : List Event}
    (h : ∀ e ∈ events, e.reported? = none ∧ e.isInputCall = false) :
    Noted m { m with log := m.log ++ events.toArray } := by
  refine ⟨⟨_, rfl⟩, ⟨⟨events, by simp, fun e he => (h e he).1⟩, id⟩, ?_⟩
  have hnone : events.countP Event.isInputCall = 0 := by
    rw [List.countP_eq_zero]
    intro e he
    simp [(h e he).2]
  simp [Machine.inputCalls, hnone]

/-- What is noted while a unit is read. -/
def loadEvents (tokens : List Token) (trees : List Stmt) : List Event :=
  [.scanned tokens.length] ++ (Parse.ofTokens tokens).loops.map Event.loopRead ++
    [.parsed trees.length, .executing trees.length]

/-- The machine that has noted how a unit was read. -/
def loaded (m : Machine) (tokens : List Token) (trees : List Stmt) : Machine :=
  { m with log := m.log ++ (loadEvents tokens trees).toArray }

theorem runSource_loaded (hemit : options.emit = none) {source : String} {tokens : List Token}
    {trees : List Stmt} (hscan : Token.scan source = .ok tokens)
    (hparse : parse tokens = .ok trees) (fuel : Nat) (m : Machine) :
    runSource options fuel source m = runProgram options fuel trees (loaded m tokens trees) := by
  have houtcome : (Parse.ofTokens tokens).outcome = .ok trees := hparse
  have hlog : ((m.log.push (.scanned tokens.length) ++
      (Parse.ofTokens tokens).loops.map Event.loopRead).push (.parsed trees.length)).push
        (.executing trees.length) = m.log ++ (loadEvents tokens trees).toArray := by
    apply Array.toList_inj.mp
    simp [loadEvents]
  rw [loaded, ← hlog]
  simp [runSource, hscan, hemit, runTokens, houtcome, bind, Run.andThen, Run.note, Run.update]

theorem runSource_of_parse (hemit : options.emit = none) {source : String} {tokens : List Token}
    {trees : List Stmt} (hscan : Token.scan source = .ok tokens)
    (hparse : parse tokens = .ok trees) (fuel : Nat) (m : Machine) :
    ∃ m', Noted m m' ∧ runSource options fuel source m = runProgram options fuel trees m' := by
  have hevents : ∀ e ∈ loadEvents tokens trees, e.reported? = none ∧ e.isInputCall = false := by
    intro e he
    simp only [loadEvents, List.mem_append, List.mem_cons, List.mem_map, List.not_mem_nil,
      or_false] at he
    rcases he with (rfl | ⟨line, -, rfl⟩) | rfl | rfl <;> exact ⟨rfl, rfl⟩
  exact ⟨loaded m tokens trees, .of_events hevents, runSource_loaded hemit hscan hparse fuel m⟩

theorem runSource_of_scan_error {source : String} {errors : List SyntaxError}
    (hscan : Token.scan source = .error errors) (m : Machine) :
    runSource options fuel source m = (.error (.source errors), m) := by
  simp [runSource, hscan, Run.stop]

theorem runSource_of_parse_error (hemit : options.emit ≠ some .tokens) {source : String}
    {tokens : List Token} {errors : List SyntaxError} (hscan : Token.scan source = .ok tokens)
    (hparse : parse tokens = .error errors) (m : Machine) :
    runSource options fuel source m = (.error (.source errors),
      { m with log := m.log.push (.scanned tokens.length) ++
        (Parse.ofTokens tokens).loops.map Event.loopRead }) := by
  have houtcome : (Parse.ofTokens tokens).outcome = .error errors := hparse
  simp [runSource, hscan, hemit, runTokens, houtcome, bind, Run.andThen, Run.note, Run.update,
    Run.stop]

theorem runProgram_of_execAll {trees : List Stmt} {m m₁ : Machine} {v : Value}
    (h : execAll options.setup fuel trees .null m = (.ok v, m₁)) :
    runProgram options fuel trees m = (.ok v, m₁) := by
  simp only [runProgram, interpret, h]

/-- A unit that has a value was read, and its statements have run. -/
theorem runSource_ok (hemit : options.emit = none) {source : String} {m m₁ : Machine} {v : Value}
    (h : runSource options fuel source m = (.ok v, m₁)) :
    ∃ tokens trees m', Token.scan source = .ok tokens ∧ parse tokens = .ok trees ∧ Noted m m' ∧
      execAll options.setup fuel trees .null m' = (.ok v, m₁) := by
  cases hscan : Token.scan source with
  | error errors =>
      simp [runSource, hscan, Run.stop] at h
  | ok tokens =>
      cases hparse : parse tokens with
      | error errors =>
          have houtcome : (Parse.ofTokens tokens).outcome = .error errors := hparse
          simp [runSource, hscan, hemit, runTokens, houtcome, bind, Run.andThen, Run.note,
            Run.update, Run.stop] at h
      | ok trees =>
          obtain ⟨m', hnoted, hrun⟩ := runSource_of_parse hemit hscan hparse fuel m
          refine ⟨tokens, trees, m', rfl, hparse, hnoted, ?_⟩
          rw [hrun] at h
          rcases hexec : execAll options.setup fuel trees .null m' with ⟨(w | e) | w, m''⟩
          · exact absurd (by rw [hexec]) (execAll_noReturn hparse options.setup fuel .null m' w)
          · simp [runProgram, interpret, hexec] at h
          · rw [runProgram_of_execAll hexec] at h
            obtain ⟨hvalue, hmachine⟩ := Prod.mk.inj h
            rw [Except.ok.inj hvalue, hmachine]

section Unit

variable (hemit : options.emit = none) {source : String} {m m₁ : Machine} {v : Value}
  (hrun : runSource options fuel source m = (.ok v, m₁))

include hemit hrun in
theorem runSource_onward : m.Onward m₁ := by
  obtain ⟨tokens, trees, m', -, -, hnoted, hexec⟩ := runSource_ok hemit hrun
  have honward := execAll_onward options.setup fuel trees .null m'
  rw [hexec] at honward
  exact hnoted.onward.trans honward

include hemit hrun in
/-- A unit does the same on a machine that is alike and with more fuel. -/
theorem runSource_agrees (hquiet : m₁.inputCalls = m.inputCalls) {m' : Machine}
    (halike : m.Alike false m') {fuel' : Nat} (hfuel : fuel ≤ fuel') :
    ∃ v' m₁', runSource options fuel' source m' = (.ok v', m₁') ∧ m₁.Alike false m₁' ∧
      m₁'.console.input = m'.console.input := by
  obtain ⟨tokens, trees, m₀, hscan, hparse, hnoted, hexec⟩ := runSource_ok hemit hrun
  obtain ⟨m₀', hnoted', hrun'⟩ := runSource_of_parse hemit hscan hparse fuel' m'
  have hagrees : AtFuel Token.sansLine .any options.setup options.setup (lineRelations false)
      fuel fuel' := agrees_atFuel options.setup hfuel
  have hprogram := hagrees.execAll (fun s _ => s.everyNode_any false)
    (rfl : trees.map _ = trees.map _) (Value.Alike.refl .null)
  have hstart : m₀.Alike false m₀' := hnoted.alike.symm.trans (halike.trans hnoted'.alike)
  have hout := hprogram.agree hstart (by rw [hexec]; exact nofun)
    (Or.inr (by rw [hexec, hnoted.inputCalls]; exact hquiet))
  rcases hexec' : execAll options.setup fuel' trees .null m₀' with ⟨e | v', m₁'⟩ <;>
    rw [hexec, hexec'] at hout
  · cases hout.ends
  · refine ⟨v', m₁', ?_, hout.machine, (hout.input rfl).trans hnoted'.input⟩
    rw [hrun', runProgram_of_execAll hexec']

include hemit hrun in
/-- A blank unit does nothing. -/
theorem runSource_blank (hblank : Text.allBlank source = true) : m.Alike false m₁ := by
  obtain ⟨tokens, trees, m', hscan, hparse, hnoted, hexec⟩ := runSource_ok hemit hrun
  obtain ⟨-, rfl⟩ := Token.scan_eq_ok_iff.mp hscan
  rw [Scan.tokens_of_allBlank hblank] at hparse
  have hempty : ∀ line, parse [Token.eof line] = .ok [] := fun _ => rfl
  obtain rfl : [] = trees := Except.ok.inj ((hempty _).symm.trans hparse)
  cases fuel with
  | zero =>
      rw [execAll] at hexec
      cases hexec
  | succ fuel =>
      rw [execAll] at hexec
      obtain ⟨-, rfl⟩ := Prod.mk.inj hexec
      exact hnoted.alike

end Unit

theorem runUnits_cons_ok {source : String} {sources : List String} {m m₁ : Machine}
    (h : runUnits options fuel (source :: sources) m = (.ok (), m₁)) :
    ∃ v m', runSource options fuel source m = (.ok v, m') ∧
      runUnits options fuel sources m' = (.ok (), m₁) := by
  rw [runUnits] at h
  rcases hrun : runSource options fuel source m with ⟨e | v, m'⟩
  · rw [Run.bind_of_error hrun] at h
    cases h
  · rw [Run.bind_of_ok hrun] at h
    exact ⟨v, m', rfl, h⟩

theorem runUnits_onward (hemit : options.emit = none) {sources : List String} {m m₁ : Machine}
    (h : runUnits options fuel sources m = (.ok (), m₁)) : m.Onward m₁ := by
  induction sources generalizing m with
  | nil =>
      obtain ⟨-, rfl⟩ := Prod.mk.inj h
      exact .refl m
  | cons source sources ih =>
      obtain ⟨v, m', hrun, hrest⟩ := runUnits_cons_ok h
      exact (runSource_onward hemit hrun).trans (ih hrest)

/-- If none of the units calls `input`, then neither the first nor the others
do. -/
theorem runUnits_cons_quiet (hemit : options.emit = none) {source : String}
    {sources : List String} {m m' m₁ : Machine} {v : Value}
    (hrun : runSource options fuel source m = (.ok v, m'))
    (hrest : runUnits options fuel sources m' = (.ok (), m₁))
    (hquiet : m₁.inputCalls = m.inputCalls) :
    m'.inputCalls = m.inputCalls ∧ m₁.inputCalls = m'.inputCalls := by
  have hfirst := (runSource_onward hemit hrun).inputCalls_le
  have hsecond := (runUnits_onward hemit hrest).inputCalls_le
  constructor <;> omega

/-- What holds of the steps of an interactive session, and of one computation
and then another if it holds of both, holds of the session. -/
theorem interactWithin_of_steps {P : {α : Type} → Run Failure α → Prop} (prompt : Option String)
    (pure : P (pure () : Run Failure Unit))
    (bind : ∀ {α β : Type} {p : Run Failure α} {k : α → Run Failure β}, P p → (∀ a, P (k a)) →
      P (p >>= k))
    (write : ∀ text, P (write text)) (readLine : P readLine)
    (note : P (Run.note .endOfInput : Run Failure Unit))
    (runLine : ∀ line, P (runLine options fuel line)) (n : Nat) :
    P (interactWithin options fuel prompt n) := by
  induction n with
  | zero => exact pure
  | succ n ih =>
      -- What follows the prompt, whatever there is to read.
      have hround : ∀ next : Option String → Run Failure Unit, next none = Run.note .endOfInput →
          (∀ line, next (some line) =
            if !Text.allBlank line then do
              Session.runLine options fuel line
              interactWithin options fuel prompt n
            else interactWithin options fuel prompt n) →
          P (Session.readLine >>= next) := by
        intro next hnone hsome
        apply bind readLine
        intro line
        cases line with
        | none =>
            rw [hnone]
            exact note
        | some line =>
            rw [hsome]
            split
            · exact bind (runLine line) fun _ => ih
            · exact ih
      unfold interactWithin
      cases prompt with
      | none => exact hround _ rfl fun _ => rfl
      | some text => exact bind (write text) fun _ => hround _ rfl fun _ => rfl

end Session
end BracketScript
