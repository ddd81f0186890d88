import BracketScript.Proofs.Eval.Comparison
import BracketScript.Session

/-!
# Units in different surroundings

What holds of two runs of a program in different surroundings holds of two runs
of a unit: that a unit is read first does not meet the world, unless its tokens
or its tree are to be shown (`Comparison.Laws.runSource`).
-/

namespace BracketScript

/-- The reason why a unit was stopped while it ran. -/
def Failure.stop? : Failure → Option Stop
  | .runtime e => some (.error e)
  | .exhausted => some .exhausted
  | .broken => some .broken
  | _ => none

theorem Failure.stop?_ofStop (s : Stop) : (Failure.ofStop s).stop? = some s := by
  cases s <;> rfl

theorem Failure.eq_ofStop {e : Failure} {s : Stop} (h : e.stop? = some s) : e = .ofStop s := by
  cases e <;> cases h <;> rfl

/-- The same options with another limit of depth. -/
def SessionOptions.withLimit (options : SessionOptions) (limit : Nat) : SessionOptions :=
  { options with setup := options.setup.withLimit limit }

@[simp] theorem SessionOptions.withLimit_emit (options : SessionOptions) (limit : Nat) :
    (options.withLimit limit).emit = options.emit :=
  rfl

namespace Session

variable {options : SessionOptions} {n k : Nat}

/-- What a program comes to, from what its statements come to. -/
def conclude : Except Unwind Value × Machine → Except Failure Value × Machine
  | (.ok v, m) => (.ok v, m)
  | (.error (.returned v), m) => (.ok v, m)
  | (.error (.stopped s), m) => (.error (.ofStop s), { m with depth := 0 })

theorem runProgram_eq_conclude (trees : List Stmt) (m : Machine) :
    runProgram options n trees m = conclude (execAll options.setup n trees .null m) := by
  unfold runProgram interpret
  rcases execAll options.setup n trees .null m with ⟨(v | s) | v, m₁⟩ <;> rfl

theorem conclude_surroundings (x : Except Unwind Value × Machine) :
    (conclude x).2.surroundings = x.2.surroundings := by
  rcases x with ⟨(v | s) | v, m⟩ <;> rfl

end Session

namespace Comparison

open Session

variable {C : Comparison}

/-- A unit of which nothing is asked was stopped for a reason that says so. -/
theorem exists_of_lost {α : Type} {r : Except Failure α} (h : C.Lost Failure.stop? r) :
    ∃ s, C.lost s ∧ r = .error (.ofStop s) := by
  cases r with
  | ok a => exact h.elim
  | error e =>
      obtain ⟨s, he, hs⟩ := h
      exact ⟨s, hs, congrArg Except.error (Failure.eq_ofStop he)⟩

theorem lost_conclude {x : Except Unwind Value × Machine} (h : C.Lost Unwind.stop? x.1) :
    C.Lost Failure.stop? (conclude x).1 := by
  rcases x with ⟨(v | s) | v, m⟩
  · obtain ⟨_, hnone, -⟩ := h
    cases hnone
  · obtain ⟨_, hsome, hs⟩ := h
    obtain rfl := Option.some.inj hsome
    exact ⟨s, Failure.stop?_ofStop s, hs⟩
  · exact h

theorem Outcome.conclude {x y : Except Unwind Value × Machine}
    (h : C.Outcome Unwind.stop? Eq x y) :
    C.Outcome Failure.stop? Eq (conclude x) (conclude y) := by
  cases h with
  | @together _ _ m _ ends hnow =>
      cases ends with
      | ok hv => exact .together (.ok hv) hnow
      | @error e e' he =>
          obtain rfl : e = e' := he
          cases e with
          | returned v => exact .together (.ok rfl) hnow
          | stopped s => exact .together (m := { m with depth := 0 }) (.error rfl) hnow
  | @parted r m m' e s he hapart =>
      cases e with
      | returned v => cases he
      | stopped s' =>
          obtain rfl := Option.some.inj he
          have hend := Failure.stop?_ofStop s'
          rw [← conclude_surroundings (r, m)] at hapart
          exact .parted hend hapart

namespace Laws

variable {options : SessionOptions} {limit n k : Nat}
variable (laws : C.Laws options.setup limit) (hk : n ≤ k)

include laws hk in
theorem runProgram (trees : List Stmt) :
    C.Follows Failure.stop? Eq (runProgram options n trees)
      (runProgram (options.withLimit limit) k trees) where
  onward m := by
    rw [runProgram_eq_conclude, conclude_surroundings]
    exact (laws.execAll hk trees .null).onward m
  total {_ v} _ := ⟨v, rfl⟩
  follow halike hends := by
    rw [runProgram_eq_conclude] at hends ⊢
    rw [runProgram_eq_conclude]
    exact ((laws.execAll hk trees .null).follow halike fun h => hends (lost_conclude h)).conclude

variable (hshow : options.emit = none ∨
  ∀ text, C.Follows Failure.stop? Eq (writeLine text) (writeLine text))

include hshow in
/-- Where something is shown instead of run, the output has to be compared as
well. -/
theorem showing {emit : Emit} (hemit : options.emit = some emit) (text : String) :
    C.Follows Failure.stop? Eq (do writeLine text; pure Value.null)
      (do writeLine text; pure Value.null) := by
  rcases hshow with hnone | hwrite
  · cases hemit.symm.trans hnone
  · exact .bind (hwrite text) fun _ _ _ => .pure rfl

include laws hk hshow in
theorem runTokens (tokens : List Token) :
    C.Follows Failure.stop? Eq (runTokens options n tokens)
      (runTokens (options.withLimit limit) k tokens) := by
  have hnoted : (Run.update fun m => { m with
      log := m.log ++ (Parse.ofTokens tokens).loops.map Event.loopRead } : Run Failure Unit).Aloof :=
    ⟨fun _ _ => rfl, fun _ => rfl⟩
  apply Follows.bind (.aloof hnoted)
  intro _ _ _
  cases (Parse.ofTokens tokens).outcome with
  | error errors => exact .stop _
  | ok trees =>
      apply Follows.bind (.aloof (.note _))
      intro _ _ _
      rw [SessionOptions.withLimit_emit]
      by_cases hemit : options.emit = some .tree
      · rw [if_pos hemit, if_pos hemit]
        exact showing hshow hemit _
      · rw [if_neg hemit, if_neg hemit]
        apply Follows.bind (.aloof (.note _))
        intro _ _ _
        exact laws.runProgram hk trees

include laws hk hshow in
/-- Units follow themselves, with more fuel. -/
theorem runSource (source : String) :
    C.Follows Failure.stop? Eq (runSource options n source)
      (runSource (options.withLimit limit) k source) := by
  unfold Session.runSource
  cases Token.scan source with
  | error errors => exact .stop _
  | ok tokens =>
      apply Follows.bind (.aloof (.note _))
      intro _ _ _
      rw [SessionOptions.withLimit_emit]
      by_cases hemit : options.emit = some .tokens
      · rw [if_pos hemit, if_pos hemit]
        exact showing hshow hemit _
      · rw [if_neg hemit, if_neg hemit]
        exact laws.runTokens hk hshow tokens

end Laws

end Comparison

end BracketScript
