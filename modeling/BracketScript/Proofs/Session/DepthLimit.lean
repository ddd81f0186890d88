import BracketScript.Proofs.Eval.Points
import BracketScript.Proofs.Session.Comparison
import BracketScript.Proofs.Session.Units

/-!
# The limit of depth

The limit of depth cuts runs off and does nothing else.  A unit that ends within
the limit, other than by exceeding it, does the same under every greater limit,
down to the last entry in the log; and while it runs, the depth of calls is never
greater than the limit (`Session.runSource_withLimit`).
-/

namespace BracketScript

/-- Runs of which the second may go deeper and may have more fuel. -/
def Comparison.depth : Comparison :=
  .same fun s => s = .exhausted ∨ ∃ line, s = .error ⟨.stackOverflow, line⟩

theorem Comparison.depth_laws {setup : Setup} {limit : Nat} (h : setup.maxDepth ≤ limit) :
    Comparison.depth.Laws setup limit :=
  same_laws (Or.inl rfl) (Or.inr ⟨h, fun line => Or.inr ⟨line, rfl⟩⟩)

/-- Calls noted in a run are made below the limit. -/
theorem interpret_calls {setup : Setup} {fuel : Nat} {program : List Stmt} {m : Machine}
    (hstart : m.depth ≤ setup.maxDepth) {callee : Value} {depth : Nat}
    (h : Event.called callee depth ∈ (interpret setup fuel program m).2.log) :
    Event.called callee depth ∈ m.log ∨ depth < setup.maxDepth := by
  have hlog : (interpret setup fuel program m).2.log =
      (execAll setup fuel program .null m).2.log := by
    unfold interpret
    rcases execAll setup fuel program .null m with ⟨(v | s) | v, m₁⟩ <;> rfl
  rw [hlog] at h
  rcases Job.told setup fuel (.stmts program .null) m callee depth h with hbefore | ⟨m', hpoint, heq⟩
  · exact Or.inl hbefore
  · have hle := hpoint.depth_le hstart
    exact Or.inr (by omega)

namespace Session

/-- A greater limit of depth changes nothing for a unit that comes to an end
other than by exceeding the lower one: the end is the same and so is the machine,
with its output.  And the limit holds: while statements are run from a machine
within the limit, for instance between two units, all points of the run are within
the limit, and all calls are made below it. -/
theorem runSource_withLimit (options : SessionOptions) (limit : Nat)
    (hlimit : options.setup.maxDepth ≤ limit) (fuel : Nat) (m : Machine)
    (hdepth : m.depth ≤ options.setup.maxDepth) :
    (∀ source, (runSource options fuel source m).1 ≠ .error .exhausted →
      (∀ line, (runSource options fuel source m).1 ≠ .error (.runtime ⟨.stackOverflow, line⟩)) →
        ∀ fuel', fuel ≤ fuel' →
          runSource (options.withLimit limit) fuel' source m = runSource options fuel source m) ∧
      ∀ program,
        (∀ m', Point options.setup fuel (.stmts program .null) m m' →
          m'.depth ≤ options.setup.maxDepth) ∧
        ∀ callee depth,
          Event.called callee depth ∈ (interpret options.setup fuel program m).2.log →
            Event.called callee depth ∈ m.log ∨ depth < options.setup.maxDepth := by
  constructor
  · intro source hexhausted hoverflow fuel' hfuel
    have hshow : ∀ text,
        Comparison.depth.Follows Failure.stop? Eq (writeLine text) (writeLine text) :=
      fun _ => Comparison.same_refl _
    apply Comparison.same_apply_eq
      ((Comparison.depth_laws hlimit).runSource hfuel (Or.inr hshow) source)
    intro hlost
    obtain ⟨s, rfl | ⟨line, rfl⟩, hend⟩ := Comparison.exists_of_lost hlost
    · exact hexhausted hend
    · exact hoverflow line hend
  · intro program
    constructor
    · intro m' hpoint
      exact hpoint.depth_le hdepth
    · intro callee depth
      exact interpret_calls hdepth

/-- With one call at a time allowed, `print[null];` is at depth 1 while it
prints, and does the same as with 255. -/
theorem runSource_withLimit_print :
    let options := bareOptions.withLimit 1
    let m := start (.ofInput [] none) []
    let call := Expr.call (.variable ⟨.identifier, "print", none, 1⟩) ⟨.rightBracket, "]", none, 1⟩
      [.literal .null]
    (runSource options 12 "print[null];" m).1 = .ok .null ∧
      runSource bareOptions 12 "print[null];" m = runSource options 12 "print[null];" m ∧
      ∃ m', Point options.setup 12 (.stmts [.expression call] .null) m m' ∧ m'.depth = 1 ∧
        m'.depth ≤ options.setup.maxDepth := by
  intro options m call
  have hend : (runSource options 12 "print[null];" m).1 = .ok .null := by
    obtain ⟨m', hnoted, hrun⟩ := runSource_of_parse (show options.emit = none from rfl)
      scan_printNull rfl 12 m
    obtain ⟨log, rfl⟩ := hnoted.eq
    rw [hrun]
    rfl
  obtain ⟨hsame, hwithin⟩ := runSource_withLimit options 255 (by decide) 12 m (by decide)
  have hpoint : Point options.setup 12 (.stmts [.expression call] .null) m
      (m.called (.native .print)) := by
    apply Point.inside .first
    apply Point.inside .expression
    apply Point.inside (.call rfl rfl)
    exact .inside (.builtin rfl rfl (by decide)) .start
  refine ⟨hend, ?_, _, hpoint, rfl, (hwithin _).1 _ hpoint⟩
  apply hsame
  · rw [hend]
    exact nofun
  · rw [hend]
    exact nofun
  · exact Nat.le_refl 12

end Session

end BracketScript
