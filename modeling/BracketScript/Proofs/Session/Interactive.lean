import BracketScript.Proofs.Console
import BracketScript.Proofs.Session.Units

/-!
# Interactive sessions

An interactive session over the lines of a text does what one run of the whole
text does (`interact_joinLines`), if each line is a unit of its own and the
units run without a fault.  Both are compared with a third run, of the units one
after the other on one machine:

* `interactWithin_agrees`: the session takes the lines off the input one by one,
  skips the blank ones and runs the others;
* `execAll_joinLines`: the statements of the text are those of its lines, with
  other line numbers, and run in the same order.
-/

namespace BracketScript
namespace Session

variable {options : SessionOptions} {fuel fuel' : Nat}

/-! ### The session -/

/-- A text that neither ends a line nor goes back to its start. -/
def OneLine (line : String) : Prop :=
  '\n' ∉ line.toList ∧ '\r' ∉ line.toList

theorem bytes_joinLines_cons (line : String) {lines : List String} (h : lines ≠ []) :
    Console.bytes (joinLines (line :: lines)) =
      Console.bytes line ++ 10 :: Console.bytes (joinLines lines) := by
  rw [joinLines_cons line h, Console.bytes_append, Console.bytes_append, List.append_assoc]
  rfl

theorem eq_of_bytes_joinLines_eq_nil {line : String} {lines : List String}
    (h : Console.bytes (joinLines (line :: lines)) = []) : line = "" ∧ lines = [] := by
  by_cases hlines : lines = []
  · subst hlines
    constructor
    · by_contra hne
      exact Console.bytes_ne_nil hne h
    · rfl
  · rw [bytes_joinLines_cons line hlines] at h
    simp at h

/-- The first line comes off the input, and the other lines are left. -/
theorem readLine_joinLines {line : String} {lines : List String} (hline : OneLine line)
    {m : Machine} (hinput : m.console.input = Console.bytes (joinLines (line :: lines)))
    (hne : m.console.input ≠ []) :
    readLine m =
      (.ok (some line),
        { m with console := { m.console with input := Console.bytes (joinLines lines) } }) ∧
      (Console.bytes (joinLines lines)).length < m.console.input.length := by
  by_cases hlines : lines = []
  · subst hlines
    rw [joinLines_singleton] at hinput
    have hnonempty : line ≠ "" := by
      rintro rfl
      exact hne hinput
    constructor
    · rw [readLine, Console.readLine_last hline hnonempty hinput]
      rfl
    · exact List.length_pos_iff.mpr hne
  · rw [bytes_joinLines_cons line hlines] at hinput
    constructor
    · rw [readLine, Console.readLine_line hline hinput]
    · rw [hinput, List.length_append, List.length_cons]
      omega

theorem interactWithin_end {n : Nat} {m : Machine} (h : m.console.input = []) :
    ∃ m', Noted m m' ∧ interactWithin options fuel none (n + 1) m = (.ok (), m') := by
  have hread : readLine m = (.ok none, m) := by
    rw [readLine, Console.readLine_of_nil h]
  have hquiet : ∀ e ∈ [Event.endOfInput], e.reported? = none ∧ e.isInputCall = false := by
    intro e he
    obtain rfl := List.mem_singleton.mp he
    exact ⟨rfl, rfl⟩
  refine ⟨_, .of_events hquiet, ?_⟩
  rw [interactWithin]
  simp [bind, Run.andThen, hread, Run.note, Run.update]

theorem interactWithin_line {n : Nat} {m m' : Machine} {line : String}
    (h : readLine m = (.ok (some line), m')) :
    interactWithin options fuel none (n + 1) m =
      ((if Text.allBlank line then pure () else runLine options fuel line) >>= fun _ =>
        interactWithin options fuel none n) m' := by
  rw [interactWithin]
  cases hblank : Text.allBlank line <;>
    simp [bind, Run.andThen, pure, Run.done, h, hblank]

theorem runLine_of_ok {line : String} {m m₁ : Machine} {v : Value} (hflag : m.interrupted = false)
    (h : runSource options fuel line m = (.ok v, m₁)) :
    runLine options fuel line m = (.ok (), m₁) := by
  have hreset : { m with interrupted := false } = m := by rw [← hflag]
  rw [runLine, hreset, h]

/-- Running a line in a session does what running it as a unit does, also if it
is blank and so not run at all. -/
theorem runLine_agrees (hemit : options.emit = none) (hfuel : fuel ≤ fuel') {line : String}
    {m m₁ m' : Machine} {v : Value} (hflag : m.interrupted = false)
    (hrun : runSource options fuel line m = (.ok v, m₁)) (hquiet : m₁.inputCalls = m.inputCalls)
    (halike : m.Alike false m') :
    ∃ m₁', (if Text.allBlank line then pure () else runLine options fuel' line : Run Failure Unit)
        m' = (.ok (), m₁') ∧
      m₁.Alike false m₁' ∧ m₁'.console.input = m'.console.input ∧ m₁'.reports = m'.reports := by
  by_cases hblank : Text.allBlank line = true
  · have hsame : m.Alike false m₁ := runSource_blank hemit hrun hblank
    rw [if_pos hblank]
    exact ⟨m', rfl, hsame.symm.trans halike, rfl, rfl⟩
  · obtain ⟨v', m₁', hrun', halike₁, hinput⟩ := runSource_agrees hemit hrun hquiet halike hfuel
    have hflag' : m'.interrupted = false := by rw [← halike.interrupted, hflag]
    rw [if_neg hblank]
    exact ⟨m₁', runLine_of_ok hflag' hrun', halike₁, hinput,
      (runSource_onward hemit hrun').reports_eq⟩

/-- A session over lines that run one after the other without a fault does what
they do, and reports nothing. -/
theorem interactWithin_agrees (hemit : options.emit = none) (hfuel : fuel ≤ fuel')
    {lines : List String} (hlines : ∀ line ∈ lines, OneLine line) {m m₁ m' : Machine} {n : Nat}
    (hflag : m.interrupted = false) (hrun : runUnits options fuel lines m = (.ok (), m₁))
    (hquiet : m₁.inputCalls = m.inputCalls) (halike : m.Alike false m')
    (hinput : m'.console.input = Console.bytes (joinLines lines))
    (hn : m'.console.input.length < n) :
    ∃ m₁', interactWithin options fuel' none n m' = (.ok (), m₁') ∧ m₁.Alike false m₁' ∧
      m₁'.reports = m'.reports := by
  induction lines generalizing m m' n with
  | nil =>
      obtain ⟨n, rfl⟩ : ∃ k, n = k + 1 := ⟨n - 1, by omega⟩
      obtain ⟨-, rfl⟩ := Prod.mk.inj hrun
      obtain ⟨m₁', hnoted, hend⟩ := interactWithin_end hinput
      exact ⟨m₁', hend, halike.trans hnoted.alike, hnoted.onward.reports_eq⟩
  | cons line lines ih =>
      obtain ⟨n, rfl⟩ : ∃ k, n = k + 1 := ⟨n - 1, by omega⟩
      obtain ⟨v, m₂, hfirst, hrest⟩ := runUnits_cons_ok hrun
      obtain ⟨hquiet₁, hquiet₂⟩ := runUnits_cons_quiet hemit hfirst hrest hquiet
      by_cases hempty : m'.console.input = []
      · -- An empty text is one empty line, which the session never gets to read.
        obtain ⟨rfl, rfl⟩ := eq_of_bytes_joinLines_eq_nil (hinput.symm.trans hempty)
        obtain ⟨-, rfl⟩ := Prod.mk.inj hrest
        have hsame : m.Alike false m₂ := runSource_blank hemit hfirst rfl
        obtain ⟨m₁', hnoted, hend⟩ := interactWithin_end hempty
        exact ⟨m₁', hend, hsame.symm.trans (halike.trans hnoted.alike),
          hnoted.onward.reports_eq⟩
      · obtain ⟨hread, hshorter⟩ :=
          readLine_joinLines (hlines line List.mem_cons_self) hinput hempty
        obtain ⟨m₂', hline, halike₂, hleft, hreports⟩ :=
          runLine_agrees hemit hfuel hflag hfirst hquiet₁
            (halike.withInput (Console.bytes (joinLines lines)))
        have hflag₂ : m₂.interrupted = false := by
          cases hraised : m₂.interrupted with
          | false => rfl
          | true =>
              have hbefore := (runSource_onward hemit hfirst).interrupted hraised
              rw [hflag] at hbefore
              cases hbefore
        -- The line read took bytes off the input, so the rounds left suffice.
        have hrounds : m₂'.console.input.length < n := by
          rw [hleft]
          show (Console.bytes (joinLines lines)).length < n
          omega
        obtain ⟨m₁', hgo, halike₁, hreports₁⟩ :=
          ih (fun l hl => hlines l (List.mem_cons_of_mem _ hl)) hflag₂ hrest hquiet₂ halike₂ hleft
            hrounds
        refine ⟨m₁', ?_, halike₁, hreports₁.trans hreports⟩
        rw [interactWithin_line hread, Run.bind_of_ok hline, hgo]

/-! ### The text as a whole -/

/-- The first token does not go on with a conditional. -/
def StartsAfresh (line : String) : Prop :=
  ∀ tokens, Token.scan line = .ok tokens →
    ∀ t ∈ tokens.head?, t.kind ≠ .elifKw ∧ t.kind ≠ .elseKw

/-- The statements of the whole text are those of the lines, and do what the
lines do one after the other.  Every statement takes one unit of fuel from those
behind it. -/
theorem execAll_joinLines (hemit : options.emit = none) {lines : List String}
    (hstart : ∀ line ∈ lines, StartsAfresh line) {m m₁ : Machine}
    (hrun : runUnits options fuel lines m = (.ok (), m₁))
    (hquiet : m₁.inputCalls = m.inputCalls) :
    ∃ trees, IsUnit (joinLines lines) trees ∧
      ∀ found : List Stmt, found.map (Stmt.mapTokens Token.sansLine) = trees →
        ∀ k, fuel + found.length < k → ∀ (m' : Machine) (v : Value), m.Alike false m' →
          ∃ last m₁', execAll options.setup k found v m' = (.ok last, m₁') ∧
            m₁.Alike false m₁' := by
  induction lines generalizing m with
  | nil =>
      obtain ⟨-, rfl⟩ := Prod.mk.inj hrun
      refine ⟨[], .empty, ?_⟩
      intro found hfound k hk m' v halike
      obtain rfl := List.map_eq_nil_iff.mp hfound
      obtain ⟨k, rfl⟩ : ∃ j, k = j + 1 := ⟨k - 1, by omega⟩
      exact ⟨v, m', by rw [execAll]; rfl, halike⟩
  | cons line lines ih =>
      obtain ⟨v₂, m₂, hfirst, hrest⟩ := runUnits_cons_ok hrun
      obtain ⟨hquiet₁, hquiet₂⟩ := runUnits_cons_quiet hemit hfirst hrest hquiet
      obtain ⟨tokens, trees, m₀, hscan, hparse, hnoted, hexec⟩ := runSource_ok hemit hfirst
      obtain ⟨others, hothers, hgo⟩ :=
        ih (fun l hl => hstart l (List.mem_cons_of_mem _ hl)) hrest hquiet₂
      have hunit := IsUnit.of_parse hscan hparse (hstart line List.mem_cons_self tokens hscan)
      refine ⟨_, hunit.joinLines_cons hothers, ?_⟩
      intro found hfound k hk m' v halike
      obtain ⟨found₁, found₂, rfl, hfound₁, hfound₂⟩ := List.map_eq_append_iff.mp hfound
      have hlength : trees.length = found₁.length := by
        simpa using congrArg List.length hfound₁.symm
      rw [List.length_append] at hk
      have hstep := execAll_append_agrees found₂ (show fuel ≤ k by omega) hfound₁.symm
        (hnoted.alike.symm.trans halike) hexec (by rw [hquiet₁, hnoted.inputCalls]) (w := v)
      obtain ⟨last, m₂', hsplit, halike₂, -⟩ := hstep
      obtain ⟨last', m₁', hend, halike₁⟩ :=
        hgo found₂ hfound₂ (k - trees.length) (by omega) m₂' last halike₂
      exact ⟨last', m₁', hsplit.trans hend, halike₁⟩

/-! ### Both together -/

/-- For lines that run as units of their own without a fault, a call of `input`
or an interrupt, an interactive session over the lines and one run of the whole
text write the same, report nothing, read the clock the same number of times and
leave the same bindings and objects.  Functions keep the lines they were read
on, so objects are the same up to lines. -/
theorem interact_joinLines (hemit : options.emit = none) {lines : List String}
    (hlines : ∀ line ∈ lines, OneLine line) (hstart : ∀ line ∈ lines, StartsAfresh line)
    {m m₁ : Machine} (hflag : m.interrupted = false)
    (hinput : m.console.input = Console.bytes (joinLines lines))
    (hrun : runUnits options fuel lines m = (.ok (), m₁))
    (hquiet : m₁.inputCalls = m.inputCalls) :
    ∃ enough, ∀ fuel' ≥ enough, ∃ session file value,
      interact options fuel' none m = (.ok (), session) ∧
      runSource options fuel' (joinLines lines) m = (.ok value, file) ∧
      session.console.written = file.console.written ∧
      session.reports = m.reports ∧ file.reports = m.reports ∧
      session.store.Alike file.store ∧ session.scope = file.scope ∧
      session.depth = file.depth ∧ session.readings = file.readings := by
  obtain ⟨trees, hunit, hexec⟩ := execAll_joinLines hemit hstart hrun hquiet
  obtain ⟨tokens, found, hscan, hparse, hfound⟩ := hunit.exists_parse
  refine ⟨fuel + found.length + 1, ?_⟩
  intro fuel' hfuel'
  obtain ⟨session, hsession, hleft, hreports⟩ :=
    interactWithin_agrees hemit (show fuel ≤ fuel' by omega) hlines hflag hrun hquiet
      (.refl false m) hinput (Nat.lt_succ_self _)
  obtain ⟨m₀, hnoted, hsource⟩ := runSource_of_parse hemit hscan hparse fuel' m
  obtain ⟨value, file, hprogram, hright⟩ :=
    hexec found hfound fuel' (by omega) m₀ .null hnoted.alike
  have hfile : runSource options fuel' (joinLines lines) m = (.ok value, file) := by
    rw [hsource, runProgram_of_execAll hprogram]
  have hsame : session.Alike false file := hleft.symm.trans hright
  exact ⟨session, file, value, hsession, hfile, hsame.written, hreports,
    (runSource_onward hemit hfile).reports_eq, hsame.store, hsame.scope, hsame.depth,
    hsame.readings⟩

/-! A session over a blank line, a function and a use of it.  In the whole text
the function stands on the second line, in the session on the first. -/

def functionLines : List String :=
  ["", "f := func [] [return null;];", "print[f];"]

def functionSession : Machine :=
  Machine.start (.ofInput (Console.bytes (joinLines functionLines)) none)

/-- The function, as its line makes it. -/
def nullFunction : Closure :=
  ⟨0, [], [.returning ⟨.returnKw, "return", none, 1⟩ (some (.literal .null))], 0⟩

def functionStore : Store :=
  { functionSession.store.define 0 "f" (.func nullFunction) with fresh := 1 }

theorem scan_functionLine : Token.scan "f := func [] [return null;];" =
    .ok [⟨.identifier, "f", none, 1⟩, ⟨.walrus, ":=", none, 1⟩, ⟨.funcKw, "func", none, 1⟩,
      ⟨.leftBracket, "[", none, 1⟩, ⟨.rightBracket, "]", none, 1⟩,
      ⟨.leftBracket, "[", none, 1⟩, ⟨.returnKw, "return", none, 1⟩,
      ⟨.nullKw, "null", none, 1⟩, ⟨.semicolon, ";", none, 1⟩, ⟨.rightBracket, "]", none, 1⟩,
      ⟨.semicolon, ";", none, 1⟩, .eof 1] := rfl

theorem scan_printLine : Token.scan "print[f];" =
    .ok [⟨.identifier, "print", none, 1⟩, ⟨.leftBracket, "[", none, 1⟩,
      ⟨.identifier, "f", none, 1⟩, ⟨.rightBracket, "]", none, 1⟩,
      ⟨.semicolon, ";", none, 1⟩, .eof 1] := rfl

theorem execAll_functionLine (log : Array Event) :
    execAll bareOptions.setup 12
        [.expression (.assign (.variable ⟨.identifier, "f", none, 1⟩)
          (.func ⟨.funcKw, "func", none, 1⟩ [] nullFunction.body))] .null
        { functionSession with log := log } =
      (.ok (.func nullFunction), { functionSession with store := functionStore, log := log }) :=
  rfl

theorem execAll_printLine (log : Array Event) :
    execAll bareOptions.setup 12
        [.expression (.call (.variable ⟨.identifier, "print", none, 1⟩)
          ⟨.rightBracket, "]", none, 1⟩ [.variable ⟨.identifier, "f", none, 1⟩])] .null
        { functionSession with store := functionStore, log := log } =
      (.ok .null, { functionSession with
        store := functionStore
        console := (functionSession.console.writeLine "<func []>").2
        log := log.push (.called (.native .print) 0) }) :=
  rfl

/-- The lines run without a fault and without a call of `input`. -/
theorem runUnits_functionLines :
    ∃ m₁, runUnits bareOptions 12 functionLines functionSession = (.ok (), m₁) ∧
      m₁.inputCalls = functionSession.inputCalls := by
  have hemit : bareOptions.emit = none := rfl
  have hblank : Token.scan "" = .ok [.eof 1] := rfl
  -- The log stays symbolic: each line only has to be run from the store before it.
  obtain ⟨m, hnoted, hrun⟩ := runSource_of_parse hemit hblank rfl 12 functionSession
  obtain ⟨log, rfl⟩ := hnoted.eq
  obtain ⟨m, hnoted₂, hrun₂⟩ := runSource_of_parse hemit scan_functionLine rfl 12
    { functionSession with log := log }
  obtain ⟨log₂, rfl⟩ := hnoted₂.eq
  obtain ⟨m, hnoted₃, hrun₃⟩ := runSource_of_parse hemit scan_printLine rfl 12
    { functionSession with store := functionStore, log := log₂ }
  obtain ⟨log₃, rfl⟩ := hnoted₃.eq
  have hfirst : runSource bareOptions 12 "" functionSession =
      (.ok .null, { functionSession with log := log }) := hrun.trans (runProgram_of_execAll rfl)
  have hsecond := hrun₂.trans (runProgram_of_execAll (execAll_functionLine log₂))
  have hthird := hrun₃.trans (runProgram_of_execAll (execAll_printLine log₃))
  have hunits : runUnits bareOptions 12 functionLines functionSession =
      (.ok (), { functionSession with
        store := functionStore
        console := (functionSession.console.writeLine "<func []>").2
        log := log₃.push (.called (.native .print) 0) }) := by
    rw [functionLines, runUnits, Run.bind_of_ok hfirst, runUnits, Run.bind_of_ok hsecond,
      runUnits, Run.bind_of_ok hthird]
    rfl
  refine ⟨_, hunits, ?_⟩
  have hprint : Event.isInputCall (.called (.native .print) 0) = false := rfl
  calc (log₃.push (.called (.native .print) 0)).toList.countP Event.isInputCall
    _ = log₃.toList.countP Event.isInputCall := by simp [hprint]
    _ = log₂.toList.countP Event.isInputCall := hnoted₃.inputCalls
    _ = log.toList.countP Event.isInputCall := hnoted₂.inputCalls
    _ = functionSession.inputCalls := hnoted.inputCalls

theorem interact_joinLines_function :
    ∃ enough, ∀ fuel' ≥ enough, ∃ session file value,
      interact bareOptions fuel' none functionSession = (.ok (), session) ∧
      runSource bareOptions fuel' (joinLines functionLines) functionSession = (.ok value, file) ∧
      session.console.written = file.console.written ∧
      session.reports = functionSession.reports ∧ file.reports = functionSession.reports ∧
      session.store.Alike file.store ∧ session.scope = file.scope ∧
      session.depth = file.depth ∧ session.readings = file.readings := by
  have hlines : ∀ line ∈ functionLines, OneLine line := by
    unfold functionLines OneLine
    decide
  have hstart : ∀ line ∈ functionLines, StartsAfresh line := by
    intro line hline tokens hscan
    simp only [functionLines, List.mem_cons, List.not_mem_nil, or_false] at hline
    rcases hline with rfl | rfl | rfl
    · obtain rfl : [Token.eof 1] = tokens := Except.ok.inj hscan
      decide
    · rw [scan_functionLine] at hscan
      obtain rfl := Except.ok.inj hscan
      simp
    · rw [scan_printLine] at hscan
      obtain rfl := Except.ok.inj hscan
      simp
  obtain ⟨m₁, hrun, hquiet⟩ := runUnits_functionLines
  exact interact_joinLines rfl hlines hstart rfl rfl hrun hquiet

end Session
end BracketScript
