import BracketScript.Proofs.Eval.Regime

/-!
# Whole runs keep a regime up

From the steps of evaluation to evaluation itself: whatever is run from a
machine on which the regime holds, with enough fuel, keeps the regime up
(`Regime.Laws.atFuel`).  The proof is an induction on the fuel.  The size of
code is the `sizeOf` of its tree, so that the parts of a node are smaller than
the node.
-/

namespace BracketScript

/-! ### The values of operators -/

namespace Operator

theorem onNumbers_ok {f : Float → Float → Value} {left right v : Value}
    (h : onNumbers f left right = .ok v) : ∃ a b, v = f a b := by
  unfold onNumbers at h
  split at h <;> cases h
  exact ⟨_, _, rfl⟩

theorem unary_ok {op : Token} {right v : Value} (h : unary op right = .ok v) :
    ∃ c : Constant, v = c.value := by
  unfold unary at h
  split at h <;> cases h
  · exact ⟨.bool _, rfl⟩
  · exact ⟨.num _, rfl⟩
  · exact ⟨.num _, rfl⟩

theorem add_ok {left right v : Value} (h : add left right = .ok v) :
    ∃ c : Constant, v = c.value := by
  unfold add at h
  split at h <;> cases h
  · exact ⟨.num _, rfl⟩
  · exact ⟨.str _, rfl⟩

theorem binary_ok {op : Token} {left right v : Value} (h : binary left op right = .ok v) :
    ∃ c : Constant, v = c.value := by
  have hnum : ∀ f : Float → Float → Float,
      onNumbers (fun a b => .num (f a b)) left right = .ok v → ∃ c : Constant, v = c.value := by
    intro f hf
    obtain ⟨a, b, rfl⟩ := onNumbers_ok hf
    exact ⟨.num _, rfl⟩
  have hbool : ∀ f : Float → Float → Bool,
      onNumbers (fun a b => .bool (f a b)) left right = .ok v → ∃ c : Constant, v = c.value := by
    intro f hf
    obtain ⟨a, b, rfl⟩ := onNumbers_ok hf
    exact ⟨.bool _, rfl⟩
  unfold binary at h
  split at h
  case h_1 => exact add_ok h
  case h_2 | h_3 | h_4 | h_5 | h_6 => exact hnum _ h
  case h_7 | h_8 | h_9 | h_10 => exact hbool _ h
  case h_11 | h_12 | h_13 =>
    cases h
    exact ⟨.bool _, rfl⟩
  case h_14 => cases h

end Operator

namespace Regime

variable {R : Regime} {setup : Setup} {m m' : Machine}

/-- Code of a size can be run on a machine with some fuel. -/
structure Ready (R : Regime) (n size : Nat) (m : Machine) : Prop where
  inv : R.inv m.store
  place : R.place m.store m.scope
  enough : R.enough n size m.depth

theorem Ready.after (laws : R.Laws setup) {n size : Nat} (h : R.Ready n size m)
    (hm : R.Reaches m m') : R.Ready n size m' := by
  refine ⟨hm.inv, hm.place laws h.place, ?_⟩
  rw [hm.depth]
  exact h.enough

/-- Part of the code can be run with one unit of fuel less. -/
theorem Ready.part (laws : R.Laws setup) {n size size' : Nat} (h : R.Ready (n + 1) size m)
    (hsize : size' < size) : R.Ready n size' m :=
  ⟨h.inv, h.place, laws.part hsize h.enough⟩

/-- Runs with fuel `n` keep the regime up. -/
structure AtFuel (R : Regime) (setup : Setup) (n : Nat) : Prop where
  eval {e : Expr} {m : Machine} (hlaw : e.EveryNode R.law) (h : R.Ready n (sizeOf e) m) :
    R.Evals R.value (eval setup n e) m
  evalAll {es : List Expr} {m : Machine} (hlaw : ∀ e ∈ es, e.EveryNode R.law)
    (h : R.Ready n (sizeOf es) m) :
    R.Evals (fun s vs => ∀ v ∈ vs, R.value s v) (evalAll setup n es) m
  call {callee : Value} {args : List Value} {m : Machine} (size : Nat) (bracket : Token)
    (hcallee : R.value m.store callee) (hargs : ∀ v ∈ args, R.value m.store v)
    (hinv : R.inv m.store) (henough : R.enough n size m.depth)
    (hline : R.line bracket.line := by trivial) :
    R.Evals R.value (call setup n callee args bracket) m
  initFields {fields : List FieldInit} {m : Machine} (id : InstanceId)
    (hlaw : ∀ entry ∈ fields, entry.value.EveryNode R.law ∧ R.bindable entry.name.lexeme)
    (h : R.Ready n (sizeOf fields) m) (hid : R.object m.store id := by trivial) :
    R.Evals (fun _ _ => True) (initFields setup n id fields) m
  exec {inFunction : Bool} {s : Stmt} {m : Machine} (hlaw : s.EveryNode R.law inFunction)
    (h : R.Ready n (sizeOf s) m) : R.Execs R.value (exec setup n s) m
  execAll {inFunction : Bool} {ss : List Stmt} {v : Value} {m : Machine}
    (hlaw : ∀ s ∈ ss, s.EveryNode R.law inFunction) (hv : R.value m.store v)
    (h : R.Ready n (sizeOf ss) m) : R.Execs R.value (execAll setup n ss v) m
  execWhile {inFunction : Bool} {t : Token} {e : Expr} {s : Stmt} {v : Value} {m : Machine}
    (hlaw : (Stmt.whileLoop t e s).EveryNode R.law inFunction) (hv : R.value m.store v)
    (h : R.Ready n (sizeOf (Stmt.whileLoop t e s)) m) :
    R.Execs R.value (execWhile setup n t e s v) m
  execCases {inFunction : Bool} {v : Value} {cases : List MatchCase} {m : Machine} (t : Token)
    (hlaw : ∀ entry ∈ cases,
      entry.pattern.EveryNode R.law ∧ entry.consequence.EveryNode R.law inFunction)
    (h : R.Ready n (sizeOf cases) m) : R.Execs R.value (execCases setup n t v cases) m

namespace Laws

variable (laws : R.Laws setup)

include laws

theorem atFuel_zero : R.AtFuel setup 0 where
  eval _ h := by
    rw [eval]
    exact laws.keeps_stop h.inv (laws.exhausted h.enough)
  evalAll _ h := by
    rw [evalAll]
    exact laws.keeps_stop h.inv (laws.exhausted h.enough)
  call _ _ _ _ hinv henough _ := by
    rw [call]
    exact laws.keeps_stop hinv (laws.exhausted henough)
  initFields _ _ h _ := by
    rw [initFields]
    exact laws.keeps_stop h.inv (laws.exhausted h.enough)
  exec _ h := by
    rw [exec]
    exact laws.keeps_stop h.inv (laws.exhausted h.enough)
  execAll _ _ h := by
    rw [execAll]
    exact laws.keeps_stop h.inv (laws.exhausted h.enough)
  execWhile _ _ h := by
    rw [execWhile]
    exact laws.keeps_stop h.inv (laws.exhausted h.enough)
  execCases _ _ h := by
    rw [execCases]
    exact laws.keeps_stop h.inv (laws.exhausted h.enough)

variable {n : Nat} (ih : R.AtFuel setup n)

include ih

theorem eval_succ {e : Expr} (hlaw : e.EveryNode R.law) (h : R.Ready (n + 1) (sizeOf e) m) :
    R.Evals R.value (eval setup (n + 1) e) m := by
  cases e with
  | literal c =>
      rw [eval_literal]
      exact laws.keeps_pure h.inv (laws.constant m.store c)
  | «variable» t =>
      rw [eval]
      exact (laws.evals_lookup (laws.exprLine hlaw t (by simp [Expr.places])) h.inv).weaken
        fun _ _ hv => hv.1
  | selfRef t =>
      rw [eval]
      exact (laws.evals_lookup (laws.exprLine hlaw t (by simp [Expr.places])) h.inv).weaken
        fun _ _ hv => hv.1
  | grouping inner =>
      rw [eval]
      exact ih.eval hlaw.2 (h.part laws (by simp))
  | assign target value =>
      rw [eval]
      apply laws.keeps_bind (ih.eval hlaw.2 (h.part laws (by simp +arith)))
      intro v m₁ hm₁ hv
      apply laws.keeps_bind (laws.evals_assignTo hlaw.1 hm₁.inv (hm₁.place laws h.place) hv)
      intro _ m₂ hm₂ _
      exact laws.keeps_pure hm₂.inv (laws.mono hm₂.moves hv)
  | unary op right =>
      rw [eval_unary]
      apply laws.keeps_bind (ih.eval hlaw.2 (h.part laws (by simp +arith)))
      intro v m₁ hm₁ hv
      have hline := laws.exprLine hlaw.1 op (by simp [Expr.places])
      exact laws.evals_orRaise hline hm₁.inv (fun _ => Operator.unary_ok) fun _ =>
        laws.unary hlaw.1
  | binary left op right =>
      rw [eval_binary]
      apply laws.keeps_bind (ih.eval hlaw.2.1 (h.part laws (by simp +arith)))
      intro v m₁ hm₁ hv
      apply laws.keeps_bind (ih.eval hlaw.2.2 ((h.part laws (by simp +arith)).after laws hm₁))
      intro w m₂ hm₂ hw
      have hline := laws.exprLine hlaw.1 op (by simp [Expr.places])
      exact laws.evals_orRaise hline hm₂.inv (fun _ => Operator.binary_ok) fun _ =>
        laws.binary hlaw.1
  | logical left op right =>
      rw [eval]
      apply laws.keeps_bind (ih.eval hlaw.2.1 (h.part laws (by simp +arith)))
      intro v m₁ hm₁ hv
      have hright := ih.eval hlaw.2.2 ((h.part laws (by simp +arith)).after laws hm₁)
      have hleft : R.Evals R.value (pure v) m₁ := laws.keeps_pure hm₁.inv hv
      split
      · split
        · exact hleft
        · exact hright
      · split
        · exact hright
        · exact hleft
  | call callee bracket args =>
      rw [eval]
      apply laws.keeps_bind (ih.eval hlaw.2.1 (h.part laws (by simp +arith)))
      intro f m₁ hm₁ hf
      have hargs := ih.evalAll (exprsEveryNode_iff.mp hlaw.2.2)
        ((h.part laws (by simp +arith)).after laws hm₁)
      apply laws.keeps_bind hargs
      intro vs m₂ hm₂ hvs
      have henough : R.enough n 0 m.depth := laws.part (by simp +arith) h.enough
      refine ih.call 0 bracket (laws.mono hm₂.moves hf) hvs hm₂.inv ?_ ?_
      · rw [hm₂.depth, hm₁.depth]
        exact henough
      · exact laws.exprLine hlaw.1 bracket (by simp [Expr.places])
  | «attribute» object t =>
      rw [eval]
      apply laws.keeps_bind (ih.eval hlaw.2 (h.part laws (by simp +arith)))
      intro v m₁ hm₁ hv
      exact laws.evals_readAttribute (laws.exprLine hlaw.1 t (by simp [Expr.places])) hm₁.inv hv
  | func t params body =>
      rw [eval_func]
      exact laws.evals_makeFunction h.inv h.place hlaw
  | struct t params body =>
      rw [eval_struct]
      exact laws.evals_makeStruct h.inv h.place hlaw

theorem evalAll_succ {es : List Expr} (hlaw : ∀ e ∈ es, e.EveryNode R.law)
    (h : R.Ready (n + 1) (sizeOf es) m) :
    R.Evals (fun s vs => ∀ v ∈ vs, R.value s v) (evalAll setup (n + 1) es) m := by
  cases es with
  | nil =>
      rw [evalAll]
      exact laws.keeps_pure h.inv (by simp)
  | cons e es =>
      rw [List.forall_mem_cons] at hlaw
      rw [evalAll]
      apply laws.keeps_bind (ih.eval hlaw.1 (h.part laws (by simp +arith)))
      intro v m₁ hm₁ hv
      apply laws.keeps_bind (ih.evalAll hlaw.2 ((h.part laws (by simp +arith)).after laws hm₁))
      intro vs m₂ hm₂ hvs
      exact laws.keeps_pure hm₂.inv (List.forall_mem_cons.mpr ⟨laws.mono hm₂.moves hv, hvs⟩)

/-- What a value does when it is called, one call deeper. -/
theorem evals_invoke {callee : Value} {args : List Value} (size : Nat) {bracket : Token}
    (hline : R.line bracket.line) (hfits : callee.arity? = some args.length)
    (hcallee : R.value m.store callee) (hargs : ∀ v ∈ args, R.value m.store v) (hinv : R.inv m.store)
    (henough : R.enough (n + 1) size m.depth) (hdepth : m.depth < setup.maxDepth) :
    R.Evals R.value (invoke setup n callee args bracket) { m with depth := m.depth + 1 } := by
  cases callee with
  | func c =>
      apply laws.evals_enterFunction (m := { m with depth := m.depth + 1 }) hinv hcallee hargs
      intro m₁ hinv₁ hscope hm₁
      apply ih.execAll (laws.functionLaw hcallee) (laws.constant m₁.store .null)
      refine ⟨hinv₁, hscope, ?_⟩
      rw [hm₁]
      exact laws.functionBody hcallee hdepth henough
  | native f =>
      have harity : args.length = f.arity := (Option.some.inj hfits).symm
      exact laws.evals_apply (m := { m with depth := m.depth + 1 }) hline hinv hcallee harity
  | struct d =>
      apply laws.evals_enterStruct (m := { m with depth := m.depth + 1 }) hinv hcallee hargs
      intro id m₁ hinv₁ hscope hid hm₁
      refine ih.initFields id (laws.structLaw hcallee) ⟨hinv₁, hscope, ?_⟩ hid
      rw [hm₁]
      exact laws.structBody hcallee hdepth henough
  | _ => simp [Value.arity?] at hfits

theorem call_succ {callee : Value} {args : List Value} (size : Nat) (bracket : Token)
    (hcallee : R.value m.store callee) (hargs : ∀ v ∈ args, R.value m.store v)
    (hinv : R.inv m.store) (henough : R.enough (n + 1) size m.depth)
    (hline : R.line bracket.line) :
    R.Evals R.value (call setup (n + 1) callee args bracket) m := by
  by_cases hfits : callee.arity? = some args.length
  · rw [call_of_arity setup n bracket hfits]
    apply laws.keeps_bind (laws.evals_poll hline hinv)
    intro _ m₁ hm₁ _
    apply laws.evals_enterCall callee hline hm₁.inv
    intro m₂ hm₂ hdepth
    have hmoves : R.moves m.store m₂.store := laws.trans hm₁.moves hm₂.moves
    apply laws.evals_invoke ih size hline hfits
    · exact laws.mono hmoves hcallee
    · exact fun v hv => laws.mono hmoves (hargs v hv)
    · exact hm₂.inv
    · rw [hm₂.depth, hm₁.depth]
      exact henough
    · rw [hm₂.depth]
      exact hdepth
  · rw [call_of_misfit setup n bracket hfits]
    exact laws.evals_raise hline hinv (laws.foreseen (callee.unforeseen_misfit _))

theorem initFields_succ {fields : List FieldInit} (id : InstanceId)
    (hlaw : ∀ entry ∈ fields, entry.value.EveryNode R.law ∧ R.bindable entry.name.lexeme)
    (h : R.Ready (n + 1) (sizeOf fields) m) (hid : R.object m.store id) :
    R.Evals (fun _ _ => True) (initFields setup (n + 1) id fields) m := by
  cases fields with
  | nil =>
      rw [initFields]
      exact laws.keeps_pure h.inv trivial
  | cons entry fields =>
      obtain ⟨t, e⟩ := entry
      rw [List.forall_mem_cons] at hlaw
      rw [initFields_cons]
      apply laws.keeps_bind (ih.eval hlaw.1.1 (h.part laws (by simp +arith)))
      intro v m₁ hm₁ hv
      have hid₁ := laws.last hm₁.moves hid
      apply laws.keeps_bind
        (laws.evals_bindField hm₁.inv (hm₁.place laws h.place) hid₁ hlaw.1.2 hv)
      intro _ m₂ hm₂ _
      exact ih.initFields id hlaw.2 (((h.part laws (by simp +arith)).after laws hm₁).after laws hm₂)
        (laws.last hm₂.moves hid₁)

theorem exec_succ {inFunction : Bool} {s : Stmt} (hlaw : s.EveryNode R.law inFunction)
    (h : R.Ready (n + 1) (sizeOf s) m) : R.Execs R.value (exec setup (n + 1) s) m := by
  have hnull : ∀ m', R.inv m'.store → R.Execs R.value (pure .null) m' :=
    fun m' hinv => laws.keeps_pure hinv (laws.constant m'.store .null)
  cases s with
  | expression e =>
      rw [exec]
      exact (ih.eval hlaw.2 (h.part laws (by simp))).exec
  | block stmts =>
      rw [exec]
      apply laws.keeps_inBlock h.inv h.place
      intro m₁ hinv hscope hdepth
      apply ih.execAll (stmtsEveryNode_iff.mp hlaw.2) (laws.constant m₁.store .null)
      refine ⟨hinv, hscope, ?_⟩
      rw [hdepth]
      exact laws.part (by simp) h.enough
  | conditional condition consequence otherwise =>
      obtain ⟨-, hcondition, hconsequence, hotherwise⟩ := Stmt.everyNode_conditional.mp hlaw
      rw [exec_conditional]
      apply laws.keeps_bind (ih.eval hcondition (h.part laws (by simp +arith))).exec
      intro c m₁ hm₁ _
      split
      · exact ih.exec hconsequence ((h.part laws (by simp +arith)).after laws hm₁)
      · cases otherwise with
        | none => exact hnull m₁ hm₁.inv
        | some s => exact ih.exec (hotherwise s rfl) ((h.part laws (by simp +arith)).after laws hm₁)
  | whileLoop t e body =>
      have hnode := hlaw.1
      rw [exec]
      have hagain := laws.again hnode h.enough
      exact ih.execWhile hlaw (laws.constant m.store .null) ⟨h.inv, h.place, hagain⟩
  | matching t e cases =>
      rw [exec]
      apply laws.keeps_bind (ih.eval hlaw.2.1 (h.part laws (by simp +arith))).exec
      intro v m₁ hm₁ _
      exact ih.execCases t (casesEveryNode_iff.mp hlaw.2.2)
        ((h.part laws (by simp +arith)).after laws hm₁)
  | importing t names =>
      rw [exec]
      apply laws.keeps_bind (laws.evals_importModule (laws.stmtLine hlaw) h.inv h.place).exec
      intro _ m₁ hm₁ _
      exact hnull m₁ hm₁.inv
  | returning t value =>
      obtain ⟨-, hvalue⟩ := Stmt.everyNode_returning.mp hlaw
      rw [exec_returning]
      apply laws.keeps_bind (P := R.value)
      · cases value with
        | none => exact hnull m h.inv
        | some e => exact (ih.eval (hvalue e rfl) (h.part laws (by simp +arith))).exec
      · intro v m₁ hm₁ hv
        exact laws.keeps_stop hm₁.inv hv

theorem execAll_succ {inFunction : Bool} {ss : List Stmt} {v : Value}
    (hlaw : ∀ s ∈ ss, s.EveryNode R.law inFunction) (hv : R.value m.store v)
    (h : R.Ready (n + 1) (sizeOf ss) m) : R.Execs R.value (execAll setup (n + 1) ss v) m := by
  cases ss with
  | nil =>
      rw [execAll]
      exact laws.keeps_pure h.inv hv
  | cons s ss =>
      rw [List.forall_mem_cons] at hlaw
      rw [execAll]
      apply laws.keeps_bind (ih.exec hlaw.1 (h.part laws (by simp +arith)))
      intro w m₁ hm₁ hw
      exact ih.execAll hlaw.2 hw ((h.part laws (by simp +arith)).after laws hm₁)

theorem execWhile_succ {inFunction : Bool} {t : Token} {e : Expr} {s : Stmt} {v : Value}
    (hlaw : (Stmt.whileLoop t e s).EveryNode R.law inFunction) (hv : R.value m.store v)
    (h : R.Ready (n + 1) (sizeOf (Stmt.whileLoop t e s)) m) :
    R.Execs R.value (execWhile setup (n + 1) t e s v) m := by
  obtain ⟨hnode, he, hs⟩ := hlaw
  rw [execWhile]
  apply laws.keeps_bind (ih.eval he (h.part laws (by simp +arith))).exec
  intro c m₁ hm₁ _
  split
  · have hline := laws.stmtLine hnode t (by simp [Stmt.places])
    apply laws.keeps_bind (laws.evals_poll hline hm₁.inv).exec
    intro _ m₂ hm₂ _
    have hbody : R.Ready n (sizeOf s) m := h.part laws (by simp +arith)
    apply laws.keeps_bind (ih.exec hs ((hbody.after laws hm₁).after laws hm₂))
    intro w m₃ hm₃ hw
    -- The loop is as large as before, so that it is up to the regime to allow another round.
    have hagain : R.Ready n (sizeOf (Stmt.whileLoop t e s)) m :=
      ⟨h.inv, h.place, laws.again hnode h.enough⟩
    exact ih.execWhile ⟨hnode, he, hs⟩ hw (((hagain.after laws hm₁).after laws hm₂).after laws hm₃)
  · exact laws.keeps_pure hm₁.inv (laws.mono hm₁.moves hv)

theorem execCases_succ {inFunction : Bool} {v : Value} {cases : List MatchCase} (t : Token)
    (hlaw : ∀ entry ∈ cases,
      entry.pattern.EveryNode R.law ∧ entry.consequence.EveryNode R.law inFunction)
    (h : R.Ready (n + 1) (sizeOf cases) m) :
    R.Execs R.value (execCases setup (n + 1) t v cases) m := by
  cases cases with
  | nil =>
      rw [execCases]
      exact laws.keeps_pure h.inv (laws.constant m.store .null)
  | cons entry cases =>
      obtain ⟨pattern, consequence⟩ := entry
      rw [List.forall_mem_cons] at hlaw
      -- What follows once it is known whether the first case fits.
      have hgo : ∀ (fits : Bool) m₁, R.Reaches m m₁ → R.Execs R.value
          (if fits = true then do
            Run.note (.caseSelected t.line)
            exec setup n consequence
          else execCases setup n t v cases) m₁ := by
        intro fits m₁ hm₁
        split
        · apply laws.keeps_bind (laws.keeps_note _ hm₁.inv)
          intro _ m₂ hm₂ _
          exact ih.exec hlaw.1.2 (((h.part laws (by simp +arith)).after laws hm₁).after laws hm₂)
        · exact ih.execCases t hlaw.2 ((h.part laws (by simp +arith)).after laws hm₁)
      rw [execCases]
      split
      · exact hgo true m (laws.reaches_of_eq h.inv rfl rfl rfl)
      · apply laws.keeps_bind (P := fun _ _ => True)
        · exact (ih.eval hlaw.1.1 (h.part laws (by simp +arith))).exec.weaken fun _ _ _ => trivial
        · intro w m₁ hm₁ _
          exact hgo (w.isEqual v) m₁ hm₁

omit ih

/-- Runs keep the regime up, whatever the fuel. -/
theorem atFuel (n : Nat) : R.AtFuel setup n := by
  induction n with
  | zero => exact laws.atFuel_zero
  | succ n ih =>
      exact
        { eval := laws.eval_succ ih
          evalAll := laws.evalAll_succ ih
          call := laws.call_succ ih
          initFields := laws.initFields_succ ih
          exec := laws.exec_succ ih
          execAll := laws.execAll_succ ih
          execWhile := laws.execWhile_succ ih
          execCases := laws.execCases_succ ih }

end Laws

end Regime

end BracketScript
