import BracketScript.Proofs.Eval.Lines
import BracketScript.Proofs.Grammar.Soundness

/-!
# Statements one after the other

Statements that stand outside functions do not end with a `return`
(`execAll_noReturn`), since reading refuses `return` there.  So units run one
after the other and their statements run as one program come to the same: a
program that begins with statements alike to those of a unit gets through them
as the unit does, and goes on from there (`execAll_append_agrees`).
-/

namespace BracketScript

namespace Run

variable {α β : Type}

/-- The execution never ends with a `return`. -/
def NoReturn (x : Run Unwind α) : Prop :=
  ∀ m v, (x m).1 ≠ .error (.returned v)

theorem NoReturn.pure (a : α) : NoReturn (pure a : Run Unwind α) :=
  fun _ _ => nofun

theorem NoReturn.stopped (e : Stop) : NoReturn (Run.stop (.stopped e) : Run Unwind α) :=
  fun _ _ => nofun

theorem NoReturn.note (event : Event) : NoReturn (Run.note event : Run Unwind Unit) :=
  fun _ _ => nofun

theorem NoReturn.eval (x : Run Stop α) : NoReturn (Run.eval x) := by
  intro m v
  rcases hx : x m with ⟨_ | _, _⟩ <;> simp [Run.eval, hx]

theorem NoReturn.bind {x : Run Unwind α} {f : α → Run Unwind β} (hx : NoReturn x)
    (hf : ∀ a, NoReturn (f a)) : NoReturn (x >>= f) := by
  intro m v
  rcases hxm : x m with ⟨e | a, m₁⟩
  · rw [bind_of_error hxm]
    intro heq
    exact hx m v (by rw [hxm, Except.error.inj heq])
  · rw [bind_of_ok hxm]
    exact hf a m₁ v

theorem NoReturn.inBlock {x : Run Unwind α} (hx : NoReturn x) : NoReturn (Run.inBlock x) :=
  fun _ v => hx _ v

end Run

section NoReturn

open Run

variable (setup : Setup) {law : NodeLaw} (hlaw : ∀ t value, ¬law.stmt false (.returning t value))

/-- Executions with fuel `n` outside functions do not end with a `return`. -/
structure NoReturnAt (law : NodeLaw) (n : Nat) : Prop where
  exec {s : Stmt} (h : s.EveryNode law false) : NoReturn (exec setup n s)
  execAll {ss : List Stmt} (h : ∀ s ∈ ss, s.EveryNode law false) (v : Value) :
    NoReturn (execAll setup n ss v)
  execWhile {s : Stmt} (h : s.EveryNode law false) (t : Token) (e : Expr) (v : Value) :
    NoReturn (execWhile setup n t e s v)
  execCases {cases : List MatchCase} (h : ∀ entry ∈ cases, entry.consequence.EveryNode law false)
    (t : Token) (v : Value) : NoReturn (execCases setup n t v cases)

variable {setup} {n : Nat}

include hlaw in
theorem exec_noReturn (ih : NoReturnAt setup law n) {s : Stmt} (h : s.EveryNode law false) :
    NoReturn (exec setup (n + 1) s) := by
  cases s with
  | expression e =>
      rw [exec]
      exact .eval _
  | block stmts =>
      rw [exec]
      exact (ih.execAll (stmtsEveryNode_iff.mp h.2) .null).inBlock
  | conditional condition consequence otherwise =>
      obtain ⟨-, -, hconsequence, hotherwise⟩ := Stmt.everyNode_conditional.mp h
      rw [exec_conditional]
      refine .bind (.eval _) fun c => ?_
      split
      · exact ih.exec hconsequence
      · cases otherwise with
        | none => exact .pure _
        | some s => exact ih.exec (hotherwise s rfl)
  | whileLoop t e body =>
      rw [exec]
      exact ih.execWhile h.2.2 t e .null
  | matching t e cases =>
      rw [exec]
      refine .bind (.eval _) fun v => ?_
      exact ih.execCases (fun entry hentry => (casesEveryNode_iff.mp h.2.2 entry hentry).2) t v
  | importing t names =>
      rw [exec]
      exact .bind (.eval _) fun _ => .pure _
  | returning t value => exact absurd (Stmt.everyNode_returning.mp h).1 (hlaw t value)

include hlaw in
theorem noReturnAt (n : Nat) : NoReturnAt setup law n := by
  induction n with
  | zero =>
      refine ⟨fun _ => ?_, fun _ _ => ?_, fun _ _ _ _ => ?_, fun _ _ _ => ?_⟩
      · rw [exec]
        exact .stopped _
      · rw [execAll]
        exact .stopped _
      · rw [execWhile]
        exact .stopped _
      · rw [execCases]
        exact .stopped _
  | succ n ih =>
      refine ⟨exec_noReturn hlaw ih, fun {ss} h v => ?_, fun h t e v => ?_, fun {cases} h t v => ?_⟩
      · cases ss with
        | nil =>
            rw [execAll]
            exact .pure v
        | cons s ss =>
            rw [List.forall_mem_cons] at h
            rw [execAll]
            exact .bind (ih.exec h.1) fun v => ih.execAll h.2 v
      · rw [execWhile]
        refine .bind (.eval _) fun c => ?_
        split
        · refine .bind (.eval _) fun _ => ?_
          exact .bind (ih.exec h) fun v => ih.execWhile h t e v
        · exact .pure v
      · cases cases with
        | nil =>
            rw [execCases]
            exact .pure _
        | cons entry cases =>
            obtain ⟨pattern, consequence⟩ := entry
            rw [List.forall_mem_cons] at h
            have hgo : ∀ fits : Bool, NoReturn (if fits = true then do
                Run.note (.caseSelected t.line)
                exec setup n consequence
              else execCases setup n t v cases) := by
              intro fits
              split
              · exact .bind (.note _) fun _ => ih.exec h.1
              · exact ih.execCases h.2 t v
            rw [execCases]
            split
            · exact hgo true
            · exact .bind (.eval _) fun w => hgo (w.isEqual v)

end NoReturn

/-- A program that was read ends with its last statement, or with a fault. -/
theorem execAll_noReturn {tokens : List Token} {trees : List Stmt} (h : parse tokens = .ok trees)
    (setup : Setup) (n : Nat) (v : Value) : Run.NoReturn (execAll setup n trees v) := by
  have hlaw : ∀ t value, ¬Grammar.limits.stmt false (.returning t value) :=
    fun _ _ => Bool.false_ne_true
  exact (noReturnAt hlaw n).execAll (everyNode_of_parse h) v

section Append

variable {setup : Setup}

theorem execAll_cons_ok {n : Nat} {s : Stmt} {ss : List Stmt} {v last : Value} {m m₁ : Machine}
    (h : execAll setup (n + 1) (s :: ss) v m = (.ok last, m₁)) :
    ∃ w m', exec setup n s m = (.ok w, m') ∧ execAll setup n ss w m' = (.ok last, m₁) := by
  rw [execAll] at h
  rcases hs : exec setup n s m with ⟨e | w, m'⟩
  · rw [Run.bind_of_error hs] at h
    cases h
  · rw [Run.bind_of_ok hs] at h
    exact ⟨w, m', rfl, h⟩

/-- A program that begins with statements alike to those of another gets
through them as the other does. -/
theorem execAll_append_agrees {first first' : List Stmt} (rest : List Stmt) {n k : Nat}
    (hk : n ≤ k)
    (hfirst : first.map (Stmt.mapTokens Token.sansLine) =
      first'.map (Stmt.mapTokens Token.sansLine))
    {v w last : Value} {m m' m₁ : Machine} (halike : m.Alike false m')
    (hrun : execAll setup n first v m = (.ok last, m₁)) (hquiet : m₁.inputCalls = m.inputCalls) :
    ∃ last' m₁', execAll setup k (first' ++ rest) w m' =
        execAll setup (k - first.length) rest last' m₁' ∧
      m₁.Alike false m₁' ∧ m₁'.console.input = m'.console.input := by
  induction first generalizing first' n k v w m m' with
  | nil =>
      obtain rfl := List.map_eq_nil_iff.mp hfirst.symm
      cases n with
      | zero =>
          rw [execAll] at hrun
          cases hrun
      | succ n =>
          rw [execAll] at hrun
          obtain ⟨-, rfl⟩ := Prod.mk.inj hrun
          exact ⟨w, m', rfl, halike, rfl⟩
  | cons s first ih =>
      obtain ⟨s', first', rfl, hs, hrest⟩ := List.map_eq_cons_iff.mp hfirst.symm
      cases n with
      | zero =>
          rw [execAll] at hrun
          cases hrun
      | succ n =>
          obtain ⟨k, rfl⟩ : ∃ j, k = j + 1 := ⟨k - 1, by omega⟩
          obtain ⟨v', m₂, hexec, hrun⟩ := execAll_cons_ok hrun
          have hfuel : AtFuel Token.sansLine .any setup setup (lineRelations false) n k :=
            agrees_atFuel setup (Nat.le_of_succ_le_succ hk)
          have hstep := hfuel.exec (s.everyNode_any false) hs.symm
          -- Neither the statement nor those behind it call `input`.
          have hcalls : m₂.inputCalls = m.inputCalls := by
            have hle := (hstep.onward m).inputCalls_le
            have hle' := (execAll_onward setup n first v' m₂).inputCalls_le
            rw [hexec] at hle
            rw [hrun] at hle'
            simp only at hle hle'
            omega
          have hout := hstep.agree halike (by simp [hexec])
            (Or.inr (by rw [hexec]; exact hcalls))
          rcases hexec' : exec setup k s' m' with ⟨e | w', m₂'⟩ <;> rw [hexec, hexec'] at hout
          · cases hout.ends
          · obtain ⟨last', m₁', hgo, hmachine, hinput⟩ :=
              ih (Nat.le_of_succ_le_succ hk) hrest.symm (w := w') hout.machine hrun
                (by rw [hquiet, hcalls])
            refine ⟨last', m₁', ?_, hmachine, hinput.trans (hout.input rfl)⟩
            rw [List.cons_append, execAll, Run.bind_of_ok hexec', hgo, List.length_cons,
              Nat.add_sub_add_right]

end Append

end BracketScript
