import BracketScript.Proofs.Session.Sources

/-!
# Modules that are not enabled are out of reach

A session is created with the names of the modules that can be imported.  All
built-in functions and modules that it ever holds are the global ones or belong
to these modules (`Session.runNew_confined`).  Since `input` is a member of the
module `IO` and of no other, a session without it never reads: what it does and
answers is the same for all inputs.
-/

namespace BracketScript

/-- The values that a session with the given modules may hold: among built-in
functions the global ones and members of these modules, and among modules only
these.  Other values are not asked about. -/
def Value.GrantedBy (names : List String) : Value → Prop
  | .native f =>
    (∃ name, (name, .native f) ∈ builtinGlobals) ∨
      ∃ g : Module, g.name ∈ names ∧ ∃ name, g.member? name = some (.native f)
  | .module g => g.name ∈ names
  | _ => True

/-- What the modules of the given names allow a program to have to do with. -/
def Allowance.granted (names : List String) : Allowance where
  law := .any
  bindable _ := True
  native f := (Value.native f).GrantedBy names
  module g := (Value.module g).GrantedBy names
  fault _ := True
  enough _ _ _ := True
  mayExhaust := True

theorem Module.name_of_ofName? {name : String} {g : Module} (h : Module.ofName? name = some g) :
    g.name = name := by
  simpa using List.find?_some h

namespace Session

theorem name_mem_of_enabled {names : List String} {g : Module} (h : g ∈ enabledModules names) :
    g.name ∈ names := by
  obtain ⟨name, hname, hfound⟩ := List.mem_filterMap.mp h
  rw [Module.name_of_ofName? hfound]
  exact hname

end Session

theorem Allowance.granted_laws {names : List String} {setup : Setup}
    (hmodules : setup.modules = Session.enabledModules names) :
    (Allowance.granted names).Laws setup where
  exhausted _ := trivial
  part _ _ := trivial
  again _ _ := trivial
  functionBody _ _ _ := trivial
  structBody _ _ _ := trivial
  functionParams _ _ _ := trivial
  structParams _ _ _ := trivial
  structFields _ _ _ := trivial
  assigned _ := trivial
  moduleName _ := trivial
  memberName _ := trivial
  module h := Session.name_mem_of_enabled (hmodules ▸ h)
  member {g name _} hg h := Or.inr ⟨g, hg, name, h⟩
  foreseen _ := trivial
  unary _ _ := trivial
  binary _ _ := trivial
  self _ := Or.inr trivial

theorem Allowance.grantedBy_of_value {names : List String} {v : Value}
    (h : (Allowance.granted names).value v) : v.GrantedBy names := by
  cases v with
  | native f => exact h
  | module g => exact h
  | _ => exact trivial

/-- `input` is to be had from the module `IO` only. -/
theorem Value.not_grantedBy_input {names : List String} (h : "IO" ∉ names) :
    ¬(Value.native .input).GrantedBy names := by
  rintro (⟨name, hglobal⟩ | ⟨g, hg, name, hmember⟩)
  · simp [builtinGlobals] at hglobal
  · have hmem := Allowance.mem_members hmember
    cases g with
    | math => simp [Module.members] at hmem
    | time => simp [Module.members] at hmem
    | io => exact h hg

/-- The options with the modules of the given names to import. -/
def SessionOptions.withModules (options : SessionOptions) (names : List String) : SessionOptions :=
  { options with setup := { options.setup with modules := Session.enabledModules names } }

namespace Session

/-- Runs units in a new session with the given modules. -/
def runNew (options : SessionOptions) (fuel : Nat) (names : List String) (console : Console)
    (sources : List String) : List (Except Failure Value) × Machine :=
  runEach (options.withModules names) fuel sources (start console names)

section Granted

variable (options : SessionOptions) (fuel : Nat) (names : List String) (console : Console)
  (sources : List String)

theorem granted_start : (Allowance.granted names).regime.Rests (start console names) :=
  Allowance.rests_start console names (Or.inl ⟨"clock", by simp [builtinGlobals]⟩)
    (Or.inl ⟨"print", by simp [builtinGlobals]⟩) ⟨trivial, trivial⟩

theorem admits_any (source : String) : (Allowance.granted names).regime.Admits fuel source :=
  fun _ _ _ _ => ⟨fun s _ => s.everyNode_any false, trivial⟩

/-- In a session with the given modules, every built-in function and every
module that is held in a scope, in a field or by an answer is global or comes
with one of these modules.  Without the module `IO` the session leaves its input
alone, and does and answers the same whatever there is to read. -/
theorem runNew_confined :
    (∀ v ∈ (runNew options fuel names console sources).2.store.values, v.GrantedBy names) ∧
      (∀ v, .ok v ∈ (runNew options fuel names console sources).1 → v.GrantedBy names) ∧
      ("IO" ∉ names →
        (runNew options fuel names console sources).2.console.input = console.input ∧
        ∀ input, runNew options fuel names { console with input := input } sources =
          ((runNew options fuel names console sources).1,
            (runNew options fuel names console sources).2.withInput input)) := by
  have laws : (Allowance.granted names).regime.Laws (options.withModules names).setup :=
    Allowance.regime_laws (Allowance.granted_laws rfl)
  have hadmits : ∀ source ∈ sources, (Allowance.granted names).regime.Admits fuel source :=
    fun source _ => admits_any fuel names source
  have hkept := laws.kept_runEach (granted_start names console) hadmits
  refine ⟨?_, ?_, ?_⟩
  · intro v hv
    have hvalue := hkept.rests.inv.of_mem_values (fun _ _ h => h.1) hv
    exact Allowance.grantedBy_of_value hvalue
  · intro v hv
    exact Allowance.grantedBy_of_value (hkept.ok hv)
  · intro hio
    have hdeaf : (Allowance.granted names).regime.Deaf := fun _ => Value.not_grantedBy_input hio
    have hinput := laws.runEach_withInput hdeaf (granted_start names console) hadmits
    constructor
    · -- With the input that is there anyway, the two runs are one and the same.
      have hsame := congrArg (fun out => out.2.console.input) (hinput console.input)
      exact hsame
    · exact hinput

end Granted

theorem scan_importInput : Token.scan "import IO [input]" =
    .ok [⟨.importKw, "import", none, 1⟩, ⟨.identifier, "IO", none, 1⟩,
      ⟨.leftBracket, "[", none, 1⟩, ⟨.identifier, "input", none, 1⟩,
      ⟨.rightBracket, "]", none, 1⟩, .eof 1] := rfl

/-- A session with `Math` alone does not get hold of `input`, and the line it
could have read is still there. -/
theorem runNew_confined_math :
    "IO" ∉ ["Math"] ∧
      (runNew bareOptions 12 ["Math"] (.ofInput [55, 10] none) ["import IO [input]"]).1 =
        [.error (.runtime ⟨.undefinedModule "IO", 1⟩)] ∧
      (runNew bareOptions 12 ["Math"] (.ofInput [55, 10] none)
        ["import IO [input]"]).2.console.input = [55, 10] := by
  have hconfined := runNew_confined bareOptions 12 ["Math"] (.ofInput [55, 10] none)
    ["import IO [input]"]
  refine ⟨by decide, ?_, (hconfined.2.2 (by decide)).1⟩
  have hemit : (bareOptions.withModules ["Math"]).emit = none := rfl
  obtain ⟨m, hnoted, hrun⟩ := runSource_of_parse hemit scan_importInput rfl 12
    (start (.ofInput [55, 10] none) ["Math"])
  obtain ⟨log, rfl⟩ := hnoted.eq
  show [(runSource _ 12 "import IO [input]" (start (.ofInput [55, 10] none) ["Math"])).1] = _
  rw [hrun]
  rfl

end Session

end BracketScript
