import BracketScript.Proofs.Eval.Comparison

/-!
# More fuel changes nothing

A run that is not out of fuel does exactly the same with more fuel: it ends in
the same way and leaves the same machine (`Refines.apply_eq`).  So what a program
does is well defined by the runs that have fuel enough, and to show that it ends
it suffices to find one of them.

The two runs are compared in the same surroundings, with nothing asked of the
first if it is out of fuel (`Comparison.fuel`).
-/

namespace BracketScript

/-- The second computation ends in the same way as the first, with values in a
relation, and leaves the same machine, unless the first ends with `lost`. -/
structure Refines {ε α : Type} (lost : ε) (R : α → α → Prop) (p q : Run ε α) : Prop where
  ends {m : Machine} (h : (p m).1 ≠ .error lost) : Ends id R (p m).1 (q m).1
  machine {m : Machine} (h : (p m).1 ≠ .error lost) : (q m).2 = (p m).2

namespace Refines

variable {ε α : Type} {lost : ε} {p q : Run ε α}

theorem of_apply_eq (h : ∀ m, (p m).1 ≠ .error lost → q m = p m) : Refines lost Eq p q where
  ends {m} hlost := by
    rw [h m hlost]
    cases (p m).1 with
    | error e => exact .error rfl
    | ok a => exact .ok rfl
  machine {m} hlost := by rw [h m hlost]

theorem apply_eq (h : Refines lost Eq p q) {m : Machine} (hlost : (p m).1 ≠ .error lost) :
    q m = p m := by
  have hends := h.ends hlost
  have hmachine := h.machine hlost
  rcases hp : p m with ⟨r, m₁⟩
  rcases hq : q m with ⟨r', m₂⟩
  rw [hp, hq] at hends hmachine
  obtain rfl : m₂ = m₁ := hmachine
  cases hends with
  | ok heq => rw [heq]
  | @error e e' heq => rw [show e = e' from heq]

end Refines

/-- Runs of which the second may have more fuel. -/
def Comparison.fuel : Comparison :=
  .same (· = .exhausted)

theorem Comparison.fuel_laws (setup : Setup) : Comparison.fuel.Laws setup setup.maxDepth :=
  same_laws rfl (Or.inl rfl)

/-- Here `lost` is the one end that means being out of fuel. -/
theorem Comparison.fuel_refines {ε α : Type} {stop? : ε → Option Stop} {lost : ε}
    {p q : Run ε α} (h : Comparison.fuel.Follows stop? Eq p q)
    (hlost : ∀ e, stop? e = some .exhausted → e = lost) : Refines lost Eq p q := by
  apply Refines.of_apply_eq
  intro m hends
  apply same_apply_eq h
  intro hexhausted
  cases hend : (p m).1 with
  | ok a =>
      rw [hend] at hexhausted
      exact hexhausted
  | error e =>
      rw [hend] at hexhausted
      obtain ⟨s, he, rfl⟩ := hexhausted
      exact hends (hend.trans (congrArg Except.error (hlost e he)))

end BracketScript
