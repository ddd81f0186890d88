import BracketScript.Proofs.Eval.Holdings
import BracketScript.Proofs.Session.Units

/-!
# Sessions under a regime

A session runs units of source text one after the other, whatever becomes of
each (`Session.runEach`).  If a regime admits the units, then it is kept up by
each of them (`Regime.Laws.keeps_runSource`) and so by the whole session
(`Regime.Laws.kept_runEach`).
-/

namespace BracketScript

namespace Session

/-- Runs units one after the other, whatever becomes of each, and tells what
became of them. -/
def runEach (options : SessionOptions) (fuel : Nat) :
    List String → Machine → List (Except Failure Value) × Machine
  | [], m => ([], m)
  | source :: sources, m =>
    let first := runSource options fuel source m
    let rest := runEach options fuel sources first.2
    (first.1 :: rest.1, rest.2)

/-- What becomes of a unit, from the end of its statements. -/
def programEnd : Except Unwind Value → Except Failure Value
  | .ok v => .ok v
  | .error (.returned v) => .ok v
  | .error (.stopped e) => .error (.ofStop e)

/-- At the end of a program no call is open, so that none has to be given up. -/
theorem runProgram_apply {options : SessionOptions} {fuel : Nat} {trees : List Stmt} {m : Machine}
    (h : (execAll options.setup fuel trees .null m).2.depth = 0) :
    runProgram options fuel trees m =
      (programEnd (execAll options.setup fuel trees .null m).1,
        (execAll options.setup fuel trees .null m).2) := by
  unfold runProgram interpret
  rcases hexec : execAll options.setup fuel trees .null m with ⟨(v | e) | v, m'⟩
  · rfl
  · rw [hexec] at h
    dsimp only [programEnd] at h ⊢
    rw [← h]
  · rfl

theorem writeLine_apply (text : String) (m : Machine) :
    writeLine text m =
      ((m.console.writeLine text).1.mapError .io,
        { m with console := (m.console.writeLine text).2 }) := by
  unfold writeLine
  rcases m.console.writeLine text with ⟨_ | _, c⟩ <;> rfl

end Session

namespace Regime

variable {R : Regime}

/-- The reasons for which a unit can fail. -/
def failure (R : Regime) (_ : Store) : Failure → Prop
  | .runtime e => R.fault e.fault
  | .exhausted => R.mayExhaust
  | .broken => False
  | .source _ | .script _ _ | .config _ _ | .io _ => True

theorem failure_ofStop {s : Store} {e : Stop} (h : R.stop e) : R.failure s (.ofStop e) := by
  cases e with
  | error e => exact h.1
  | exhausted => exact h
  | broken => exact h

/-- The units that a regime admits, with some fuel. -/
def Admits (R : Regime) (fuel : Nat) (source : String) : Prop :=
  ∀ tokens trees, Token.scan source = .ok tokens → parse tokens = .ok trees →
    (∀ s ∈ trees, s.EveryNode R.law false) ∧ R.enough fuel (sizeOf trees) 0

/-- A machine between two units. -/
structure Rests (R : Regime) (m : Machine) : Prop where
  inv : R.inv m.store
  place : R.place m.store m.scope
  depth : m.depth = 0

/-- What running units from a machine comes to. -/
structure Kept (R : Regime) (m : Machine) (out : List (Except Failure Value) × Machine) :
    Prop where
  rests : R.Rests out.2
  moves : R.moves m.store out.2.store
  ok {v : Value} (h : .ok v ∈ out.1) : R.value out.2.store v
  error {e : Failure} (h : .error e ∈ out.1) : R.failure out.2.store e

namespace Laws

variable {options : SessionOptions} (laws : R.Laws options.setup) {fuel : Nat} {m : Machine}

include laws

theorem keeps_writeLine (text : String) (hinv : R.inv m.store) :
    R.Keeps R.failure (fun _ _ => True) (Session.writeLine text) m := by
  apply laws.keeps_aside hinv
  · rw [Session.writeLine_apply]
    exact ⟨rfl, rfl, rfl⟩
  · exact fun _ _ => trivial
  · rw [Session.writeLine_apply]
    intro e he
    rcases hend : (m.console.writeLine text).1 with e | _ <;> rw [hend] at he <;> cases he
    exact trivial
  · intro _ input
    rw [Session.writeLine_apply, Session.writeLine_apply]
    simp only [Machine.withInput, Console.writeLine, Console.write_withInput]

theorem keeps_runProgram {trees : List Stmt} (hlaw : ∀ s ∈ trees, s.EveryNode R.law false)
    (h : R.Rests m) (henough : R.enough fuel (sizeOf trees) 0) :
    R.Keeps R.failure R.value (Session.runProgram options fuel trees) m := by
  have hready : R.Ready fuel (sizeOf trees) m := ⟨h.inv, h.place, by rw [h.depth]; exact henough⟩
  have hexec : R.Execs R.value (execAll options.setup fuel trees .null) m :=
    (laws.atFuel fuel).execAll hlaw (laws.constant m.store .null) hready
  have hdepth := hexec.reaches.depth.trans h.depth
  have happly := Session.runProgram_apply hdepth
  constructor
  · rw [happly]
    exact hexec.reaches
  · intro v hv
    rw [happly] at hv ⊢
    rcases hend : (execAll options.setup fuel trees .null m).1 with (w | e) | w <;>
      rw [hend] at hv <;> cases hv
    · exact hexec.error hend
    · exact hexec.ok hend
  · intro e he
    rw [happly] at he ⊢
    rcases hend : (execAll options.setup fuel trees .null m).1 with (w | stop) | w <;>
      rw [hend] at he <;> cases he
    exact failure_ofStop (hexec.error hend)
  · intro hdeaf input
    have hblind := hexec.blind hdeaf input
    rw [happly, Session.runProgram_apply, hblind]
    rw [hblind]
    exact hdepth

theorem keeps_runTokens {tokens : List Token} (h : R.Rests m)
    (htrees : ∀ trees, parse tokens = .ok trees →
      (∀ s ∈ trees, s.EveryNode R.law false) ∧ R.enough fuel (sizeOf trees) 0) :
    R.Keeps R.failure R.value (Session.runTokens options fuel tokens) m := by
  -- Between the units and their statements only the log changes.
  have hrests : ∀ {m'}, R.Reaches m m' → R.Rests m' := fun hm' =>
    ⟨hm'.inv, hm'.place laws h.place, hm'.depth.trans h.depth⟩
  apply laws.keeps_bind (P := fun _ _ => True)
  · apply laws.keeps_aside h.inv ⟨rfl, rfl, rfl⟩
    · exact fun _ _ => trivial
    · nofun
    · exact fun _ _ => rfl
  intro _ m₁ hm₁ _
  cases houtcome : (Parse.ofTokens tokens).outcome with
  | error errors => exact laws.keeps_stop hm₁.inv trivial
  | ok trees =>
      obtain ⟨hlaw, henough⟩ := htrees trees houtcome
      apply laws.keeps_bind (laws.keeps_note _ hm₁.inv)
      intro _ m₂ hm₂ _
      split
      · apply laws.keeps_bind (laws.keeps_writeLine _ hm₂.inv)
        intro _ m₃ hm₃ _
        exact laws.keeps_pure hm₃.inv (laws.constant m₃.store .null)
      · apply laws.keeps_bind (laws.keeps_note _ hm₂.inv)
        intro _ m₃ hm₃ _
        exact laws.keeps_runProgram hlaw
          (hrests ((hm₁.trans laws hm₂).trans laws hm₃)) henough

/-- A unit keeps the regime up. -/
theorem keeps_runSource {source : String} (h : R.Rests m) (hsource : R.Admits fuel source) :
    R.Keeps R.failure R.value (Session.runSource options fuel source) m := by
  unfold Session.runSource
  cases hscan : Token.scan source with
  | error errors => exact laws.keeps_stop h.inv trivial
  | ok tokens =>
      apply laws.keeps_bind (laws.keeps_note _ h.inv)
      intro _ m₁ hm₁ _
      split
      · apply laws.keeps_bind (laws.keeps_writeLine _ hm₁.inv)
        intro _ m₂ hm₂ _
        exact laws.keeps_pure hm₂.inv (laws.constant m₂.store .null)
      · apply laws.keeps_runTokens
        · exact ⟨hm₁.inv, hm₁.place laws h.place, hm₁.depth.trans h.depth⟩
        · exact fun trees hparse => hsource tokens trees hscan hparse

theorem rests_runSource {source : String} (h : R.Rests m) (hsource : R.Admits fuel source) :
    R.Rests (Session.runSource options fuel source m).2 := by
  have hreaches := (laws.keeps_runSource h hsource).reaches
  exact ⟨hreaches.inv, hreaches.place laws h.place, hreaches.depth.trans h.depth⟩

/-- A session keeps the regime up. -/
theorem kept_runEach {sources : List String} (h : R.Rests m)
    (hsources : ∀ source ∈ sources, R.Admits fuel source) :
    R.Kept m (Session.runEach options fuel sources m) := by
  induction sources generalizing m with
  | nil => exact ⟨h, laws.refl m.store, nofun, nofun⟩
  | cons source sources ih =>
      rw [List.forall_mem_cons] at hsources
      have hfirst := laws.keeps_runSource h hsources.1
      have hrest := ih (laws.rests_runSource h hsources.1) hsources.2
      constructor
      · exact hrest.rests
      · exact laws.trans hfirst.reaches.moves hrest.moves
      · intro v hv
        rcases List.mem_cons.mp hv with heq | hv
        · exact laws.mono hrest.moves (hfirst.ok heq.symm)
        · exact hrest.ok hv
      · intro e he
        rcases List.mem_cons.mp he with heq | he
        · exact hfirst.error heq.symm
        · exact hrest.error he

/-- A session that cannot get at `input` does the same whatever there is to
read, and leaves it all there. -/
theorem runEach_withInput {sources : List String} (hdeaf : R.Deaf) (h : R.Rests m)
    (hsources : ∀ source ∈ sources, R.Admits fuel source) (input : List UInt8) :
    Session.runEach options fuel sources (m.withInput input) =
      ((Session.runEach options fuel sources m).1,
        (Session.runEach options fuel sources m).2.withInput input) := by
  induction sources generalizing m with
  | nil => rfl
  | cons source sources ih =>
      rw [List.forall_mem_cons] at hsources
      have hfirst := (laws.keeps_runSource h hsources.1).blind hdeaf input
      have hrest := ih (laws.rests_runSource h hsources.1) hsources.2
      unfold Session.runEach
      dsimp only
      rw [hfirst, hrest]

end Laws

end Regime

/-- A new session rests with every allowance for the built-in functions. -/
theorem Allowance.rests_start {A : Allowance} (console : Console) (names : List String)
    (hclock : A.native .clock) (hprint : A.native .print)
    (hnames : A.bindable "clock" ∧ A.bindable "print") :
    A.regime.Rests (Session.start console names) where
  inv := holds_start console hclock hprint hnames
  place := trivial
  depth := rfl

end BracketScript
