import BracketScript.Eval
import BracketScript.Proofs.Reading.Parallel
import BracketScript.Proofs.Tree.Traversal
import Mathlib.Data.List.Forall2

/-!
# Two runs side by side

Statements about whole runs relate what two evaluations do: of one program with
more and with less fuel, of programs that differ in lines, of a program on
machines that differ in some respect.  `EvalSteps` lists what has to be shown
of the single steps of such a pair of runs; from it follows that the whole runs
are related (`EvalSteps.atFuel`), by one induction on the fuel of the first.

The two programs are the same up to a map of tokens, `key`, and the first obeys
a law at each of its nodes.  The first run may have less fuel than the second:
a run that is out of fuel is related to everything.

The first part gives names to the steps, and equations that tell evaluation in
terms of them.
-/

namespace BracketScript

namespace Run

variable {ε α β : Type} {x : Run ε α} {f : α → Run ε β} {m m' : Machine}

theorem bind_of_ok {a : α} (h : x m = (.ok a, m')) : (x >>= f) m = f a m' := by
  simp only [bind, andThen, h]

theorem bind_of_error {e : ε} (h : x m = (.error e, m')) : (x >>= f) m = (.error e, m') := by
  simp only [bind, andThen, h]

end Run

/-! ### The steps -/

/-- The value that a constant denotes. -/
def Constant.value : Constant → Value
  | .null => .null
  | .bool b => .bool b
  | .num x => .num x
  | .str s => .str s

/-- The value of an operation, or its fault at a token. -/
def orRaise (place : Token) : Except RuntimeFault Value → Run Stop Value
  | .ok v => pure v
  | .error fault => Run.raise place fault

/-- A new function. -/
def makeFunction (params : List Token) (body : List Stmt) : Run Stop Value :=
  fun m =>
    (.ok (.func ⟨m.store.freshId.1, params, body, m.scope⟩), { m with store := m.store.freshId.2 })

/-- A new struct. -/
def makeStruct (params : List Token) (body : List FieldInit) : Run Stop Value :=
  fun m =>
    (.ok (.struct ⟨m.store.freshId.1, params, body, m.scope⟩),
      { m with store := m.store.freshId.2 })

/-- A call within the limit of depth. -/
def enterCall (setup : Setup) (callee : Value) (bracket : Token) (x : Run Stop Value) :
    Run Stop Value := do
  let depth ← Run.get Machine.depth
  if setup.maxDepth ≤ depth then Run.raise bracket .stackOverflow
  else do
    Run.note (.called callee depth)
    Run.deeper x

/-- The run of a function's body in a scope of its own. -/
def enterFunction (closure : Closure) (args : List Value) (x : Run Unwind Value) :
    Run Stop Value := do
  let scope ← openCall closure.scope closure.params args
  Run.body (Run.inScope scope x)

/-- The making of an instance, its fields in a scope of their own. -/
def enterStruct (definition : StructDef) (args : List Value) (x : InstanceId → Run Stop Unit) :
    Run Stop Value := do
  let scope ← openCall definition.scope definition.params args
  let id ← openInstance definition.params args
  Run.inScope scope (x id)
  pure (.inst id definition)

/-- A field of a struct's body, bound as a name and set in the instance. -/
def bindField (id : InstanceId) (name : Token) (v : Value) : Run Stop Unit := do
  Run.define name.lexeme v
  Run.update fun m => { m with store := m.store.setField id name.lexeme v }

section Equations

variable (setup : Setup) (n : Nat)

theorem eval_literal (c : Constant) : eval setup (n + 1) (.literal c) = pure c.value := by
  cases c <;> rfl

theorem eval_unary (op : Token) (right : Expr) :
    eval setup (n + 1) (.unary op right) =
      eval setup n right >>= fun v => orRaise op (Operator.unary op v) :=
  rfl

theorem eval_binary (left : Expr) (op : Token) (right : Expr) :
    eval setup (n + 1) (.binary left op right) =
      eval setup n left >>= fun l =>
        eval setup n right >>= fun r => orRaise op (Operator.binary l op r) :=
  rfl

theorem eval_func (keyword : Token) (params : List Token) (body : List Stmt) :
    eval setup (n + 1) (.func keyword params body) = makeFunction params body :=
  rfl

theorem eval_struct (keyword : Token) (params : List Token) (body : List FieldInit) :
    eval setup (n + 1) (.struct keyword params body) = makeStruct params body :=
  rfl

/-- What a value does when it is called. -/
def invoke (callee : Value) (args : List Value) (bracket : Token) : Run Stop Value :=
  match callee with
  | .func closure => enterFunction closure args (execAll setup n closure.body .null)
  | .native function => Native.apply setup function args bracket
  | .struct definition =>
    enterStruct definition args fun id => initFields setup n id definition.body
  | _ => Run.stop .broken

theorem call_of_arity {callee : Value} {args : List Value} (bracket : Token)
    (h : callee.arity? = some args.length) :
    call setup (n + 1) callee args bracket =
      Run.poll bracket >>= fun _ =>
        enterCall setup callee bracket (invoke setup n callee args bracket) := by
  unfold call
  simp only [h, ne_eq, not_true, if_false]
  cases callee <;> rfl

/-- What is wrong with a call that a value does not fit. -/
def Value.misfit (callee : Value) (got : Nat) : RuntimeFault :=
  match callee.arity? with
  | none => .notCallable
  | some arity => .wrongArity arity got

/-- What cannot be called like this is reported before anything happens. -/
theorem call_of_misfit {callee : Value} {args : List Value} (bracket : Token)
    (h : callee.arity? ≠ some args.length) :
    call setup (n + 1) callee args bracket = Run.raise bracket (callee.misfit args.length) := by
  unfold call Value.misfit
  cases harity : callee.arity? with
  | none => rfl
  | some arity =>
      have hwrong : args.length ≠ arity := fun heq => h (by rw [harity, heq])
      simp only [hwrong, ne_eq, not_false_iff, if_true]

theorem enterCall_of_full {callee : Value} {bracket : Token} {x : Run Stop Value} {m : Machine}
    (h : setup.maxDepth ≤ m.depth) :
    enterCall setup callee bracket x m = Run.raise bracket .stackOverflow m := by
  show (if setup.maxDepth ≤ m.depth then _ else _ : Run Stop Value) m = _
  rw [if_pos h]

theorem enterCall_of_lt {callee : Value} {bracket : Token} {x : Run Stop Value} {m : Machine}
    (h : m.depth < setup.maxDepth) :
    enterCall setup callee bracket x m =
      Run.deeper x { m with log := m.log.push (.called callee m.depth) } := by
  show (if setup.maxDepth ≤ m.depth then _ else _ : Run Stop Value) m = _
  rw [if_neg (Nat.not_le.mpr h)]
  rfl

theorem initFields_cons (id : InstanceId) (name : Token) (value : Expr) (fields : List FieldInit) :
    initFields setup (n + 1) id (⟨name, value⟩ :: fields) =
      eval setup n value >>= fun v =>
        bindField id name v >>= fun _ => initFields setup n id fields :=
  rfl

theorem exec_conditional (condition : Expr) (consequence : Stmt) (otherwise : Option Stmt) :
    exec setup (n + 1) (.conditional condition consequence otherwise) =
      Run.eval (eval setup n condition) >>= fun c =>
        if c.isTruthy then exec setup n consequence
        else otherwise.elim (pure .null) (exec setup n) := by
  cases otherwise <;> rfl

theorem exec_returning (keyword : Token) (value : Option Expr) :
    exec setup (n + 1) (.returning keyword value) =
      value.elim (pure .null) (fun e => Run.eval (eval setup n e)) >>= fun v =>
        Run.stop (.returned v) := by
  cases value <;> rfl

end Equations

/-! ### What to show of the steps -/

/-- How two runs are compared: by the values they work with, and as evaluations
and executions that yield values in a relation.  `field` is what the law says
of the names of fields. -/
structure RunRelations where
  value : Value → Value → Prop
  field : Token → Prop
  evals {α : Type} : (α → α → Prop) → Run Stop α → Run Stop α → Prop
  execs {α : Type} : (α → α → Prop) → Run Unwind α → Run Unwind α → Prop

/-- The steps of two runs are related. -/
structure EvalSteps (key : Token → Token) (law : NodeLaw) (setup setup' : Setup)
    (rel : RunRelations) : Prop where
  key_keepsText : KeepsText key
  -- Computations in general.
  evals_pure {α : Type} {R : α → α → Prop} {a b : α} (h : R a b) : rel.evals R (pure a) (pure b)
  evals_bind {α β : Type} {R : α → α → Prop} {T : β → β → Prop} {p q : Run Stop α}
    {k l : α → Run Stop β} (hp : rel.evals R p q)
    (hk : ∀ a b, R a b → rel.evals T (k a) (l b)) : rel.evals T (p >>= k) (q >>= l)
  evals_exhausted {α : Type} {R : α → α → Prop} (q : Run Stop α) :
    rel.evals R (Run.stop .exhausted) q
  evals_raise {α : Type} {R : α → α → Prop} {t u : Token} (ht : key t = key u)
    (fault : RuntimeFault) : rel.evals R (Run.raise t fault) (Run.raise u fault)
  execs_pure {α : Type} {R : α → α → Prop} {a b : α} (h : R a b) : rel.execs R (pure a) (pure b)
  execs_bind {α β : Type} {R : α → α → Prop} {T : β → β → Prop} {p q : Run Unwind α}
    {k l : α → Run Unwind β} (hp : rel.execs R p q)
    (hk : ∀ a b, R a b → rel.execs T (k a) (l b)) : rel.execs T (p >>= k) (q >>= l)
  execs_exhausted {α : Type} {R : α → α → Prop} (q : Run Unwind α) :
    rel.execs R (Run.stop (.stopped .exhausted)) q
  execs_returned {α : Type} {R : α → α → Prop} {v w : Value} (h : rel.value v w) :
    rel.execs R (Run.stop (.returned v)) (Run.stop (.returned w))
  execs_eval {α : Type} {R : α → α → Prop} {p q : Run Stop α} (h : rel.evals R p q) :
    rel.execs R (Run.eval p) (Run.eval q)
  execs_block {p q : Run Unwind Value} (h : rel.execs rel.value p q) :
    rel.execs rel.value (Run.inBlock p) (Run.inBlock q)
  -- Values.
  constant (c : Constant) : rel.value c.value c.value
  isTruthy {v w : Value} (h : rel.value v w) : w.isTruthy = v.isTruthy
  isEqual {v w v' w' : Value} (h : rel.value v w) (h' : rel.value v' w') :
    w.isEqual w' = v.isEqual v'
  arity {v w : Value} (h : rel.value v w) : w.arity? = v.arity?
  -- Expressions.
  name {t u : Token} (hlaw : law.expr (.variable t)) (ht : key t = key u) :
    rel.evals rel.value (Run.lookup t) (Run.lookup u)
  self {t u : Token} (hlaw : law.expr (.selfRef t)) (ht : key t = key u) :
    rel.evals rel.value (Run.lookup t) (Run.lookup u)
  assign {target target' : Target} {e : Expr} {v w : Value} (hlaw : law.expr (.assign target e))
    (htarget : target.mapTokens key = target'.mapTokens key) (h : rel.value v w) :
    rel.evals Eq (assignTo target v) (assignTo target' w)
  unary {t u : Token} {e : Expr} {v w : Value} (hlaw : law.expr (.unary t e)) (ht : key t = key u)
    (h : rel.value v w) :
    rel.evals rel.value (orRaise t (Operator.unary t v)) (orRaise u (Operator.unary u w))
  binary {t u : Token} {e e' : Expr} {v w v' w' : Value} (hlaw : law.expr (.binary e t e'))
    (ht : key t = key u) (h : rel.value v w) (h' : rel.value v' w') :
    rel.evals rel.value (orRaise t (Operator.binary v t v')) (orRaise u (Operator.binary w u w'))
  member {t u : Token} {e : Expr} {v w : Value} (hlaw : law.expr (.attribute e t))
    (ht : key t = key u) (h : rel.value v w) :
    rel.evals rel.value (readAttribute v t) (readAttribute w u)
  function {keyword : Token} {params params' : List Token} {body body' : List Stmt}
    (hlaw : (Expr.func keyword params body).EveryNode law)
    (hparams : params.map key = params'.map key)
    (hbody : body.map (Stmt.mapTokens key) = body'.map (Stmt.mapTokens key)) :
    rel.evals rel.value (makeFunction params body) (makeFunction params' body')
  struct {keyword : Token} {params params' : List Token} {body body' : List FieldInit}
    (hlaw : (Expr.struct keyword params body).EveryNode law)
    (hparams : params.map key = params'.map key)
    (hbody : body.map (FieldInit.mapTokens key) = body'.map (FieldInit.mapTokens key)) :
    rel.evals rel.value (makeStruct params body) (makeStruct params' body')
  -- Calls.
  poll {t u : Token} (ht : key t = key u) : rel.evals Eq (Run.poll t) (Run.poll u)
  callFunction {c : Closure} {w : Value} {args args' : List Value} {t u : Token}
    (h : rel.value (.func c) w) (hargs : List.Forall₂ rel.value args args') (ht : key t = key u)
    (harity : args.length = c.params.length) :
    ∃ c', w = .func c' ∧ (∀ s ∈ c.body, s.EveryNode law true) ∧
      c.body.map (Stmt.mapTokens key) = c'.body.map (Stmt.mapTokens key) ∧
      ∀ p q, rel.execs rel.value p q →
        rel.evals rel.value (enterCall setup (.func c) t (enterFunction c args p))
          (enterCall setup' (.func c') u (enterFunction c' args' q))
  callStruct {d : StructDef} {w : Value} {args args' : List Value} {t u : Token}
    (h : rel.value (.struct d) w) (hargs : List.Forall₂ rel.value args args') (ht : key t = key u)
    (harity : args.length = d.params.length) :
    ∃ d', w = .struct d' ∧ (∀ entry ∈ d.body, entry.value.EveryNode law ∧ rel.field entry.name) ∧
      d.body.map (FieldInit.mapTokens key) = d'.body.map (FieldInit.mapTokens key) ∧
      ∀ p q, (∀ id, rel.evals Eq (p id) (q id)) →
        rel.evals rel.value (enterCall setup (.struct d) t (enterStruct d args p))
          (enterCall setup' (.struct d') u (enterStruct d' args' q))
  callNative {f : Native} {w : Value} {args args' : List Value} {t u : Token}
    (h : rel.value (.native f) w) (hargs : List.Forall₂ rel.value args args') (ht : key t = key u)
    (harity : args.length = f.arity) :
    w = .native f ∧
      rel.evals rel.value (enterCall setup (.native f) t (Native.apply setup f args t))
        (enterCall setup' (.native f) u (Native.apply setup' f args' u))
  bindField {t u : Token} {v w : Value} (id : InstanceId) (hlaw : rel.field t) (ht : key t = key u)
    (h : rel.value v w) : rel.evals Eq (bindField id t v) (bindField id u w)
  -- Statements.
  importing {inFunction : Bool} {t u : Token} {names names' : List Token}
    (hlaw : law.stmt inFunction (.importing t names)) (ht : key t = key u)
    (hnames : names.map key = names'.map key) :
    rel.evals Eq (importModule setup t names) (importModule setup' u names')
  selected {t u : Token} (ht : key t = key u) :
    rel.execs Eq (Run.note (.caseSelected t.line)) (Run.note (.caseSelected u.line))

/-! ### What follows for whole runs -/

/-- Evaluations with fuel `n` and `m` are related. -/
structure AtFuel (key : Token → Token) (law : NodeLaw) (setup setup' : Setup)
    (rel : RunRelations) (n m : Nat) : Prop where
  eval {e e' : Expr} (hlaw : e.EveryNode law) (he : e.mapTokens key = e'.mapTokens key) :
    rel.evals rel.value (eval setup n e) (eval setup' m e')
  evalAll {es es' : List Expr} (hlaw : ∀ e ∈ es, e.EveryNode law)
    (hes : es.map (Expr.mapTokens key) = es'.map (Expr.mapTokens key)) :
    rel.evals (List.Forall₂ rel.value) (evalAll setup n es) (evalAll setup' m es')
  call {v w : Value} {args args' : List Value} {t u : Token} (h : rel.value v w)
    (hargs : List.Forall₂ rel.value args args') (ht : key t = key u) :
    rel.evals rel.value (call setup n v args t) (call setup' m w args' u)
  initFields {fields fields' : List FieldInit} (id : InstanceId)
    (hlaw : ∀ entry ∈ fields, entry.value.EveryNode law ∧ rel.field entry.name)
    (hfields : fields.map (FieldInit.mapTokens key) = fields'.map (FieldInit.mapTokens key)) :
    rel.evals Eq (initFields setup n id fields) (initFields setup' m id fields')
  exec {inFunction : Bool} {s s' : Stmt} (hlaw : s.EveryNode law inFunction)
    (hs : s.mapTokens key = s'.mapTokens key) :
    rel.execs rel.value (exec setup n s) (exec setup' m s')
  execAll {inFunction : Bool} {ss ss' : List Stmt} {v w : Value}
    (hlaw : ∀ s ∈ ss, s.EveryNode law inFunction)
    (hss : ss.map (Stmt.mapTokens key) = ss'.map (Stmt.mapTokens key)) (h : rel.value v w) :
    rel.execs rel.value (execAll setup n ss v) (execAll setup' m ss' w)
  execWhile {inFunction : Bool} {t u : Token} {e e' : Expr} {s s' : Stmt} {v w : Value}
    (ht : key t = key u) (hlaw : e.EveryNode law) (he : e.mapTokens key = e'.mapTokens key)
    (hlaw' : s.EveryNode law inFunction) (hs : s.mapTokens key = s'.mapTokens key)
    (h : rel.value v w) :
    rel.execs rel.value (execWhile setup n t e s v) (execWhile setup' m u e' s' w)
  execCases {inFunction : Bool} {t u : Token} {v w : Value} {cases cases' : List MatchCase}
    (ht : key t = key u) (h : rel.value v w)
    (hlaw : ∀ entry ∈ cases,
      entry.pattern.EveryNode law ∧ entry.consequence.EveryNode law inFunction)
    (hcases : cases.map (MatchCase.mapTokens key) = cases'.map (MatchCase.mapTokens key)) :
    rel.execs rel.value (execCases setup n t v cases) (execCases setup' m u w cases')

namespace EvalSteps

variable {key : Token → Token} {law : NodeLaw} {setup setup' : Setup} {rel : RunRelations}
variable (steps : EvalSteps key law setup setup' rel) {n m : Nat}

include steps in
theorem atFuel_zero : AtFuel key law setup setup' rel 0 m where
  eval _ _ := by rw [eval]; exact steps.evals_exhausted _
  evalAll _ _ := by rw [evalAll]; exact steps.evals_exhausted _
  call _ _ _ := by rw [call]; exact steps.evals_exhausted _
  initFields _ _ _ := by rw [initFields]; exact steps.evals_exhausted _
  exec _ _ := by rw [exec]; exact steps.execs_exhausted _
  execAll _ _ _ := by rw [execAll]; exact steps.execs_exhausted _
  execWhile _ _ _ _ _ _ := by rw [execWhile]; exact steps.execs_exhausted _
  execCases _ _ _ _ := by rw [execCases]; exact steps.execs_exhausted _

section Succ

variable (ih : AtFuel key law setup setup' rel n m)

include steps ih in
theorem eval_succ {e e' : Expr} (hlaw : e.EveryNode law)
    (he : e.mapTokens key = e'.mapTokens key) :
    rel.evals rel.value (eval setup (n + 1) e) (eval setup' (m + 1) e') := by
  cases e with
  | literal c =>
      cases e' <;> simp only [Expr.mapTokens, reduceCtorEq, Expr.literal.injEq] at he
      subst he
      rw [eval_literal, eval_literal]
      exact steps.evals_pure (steps.constant c)
  | «variable» t =>
      cases e' <;> simp only [Expr.mapTokens, reduceCtorEq, Expr.variable.injEq] at he
      rw [eval, eval]
      exact steps.name hlaw he
  | selfRef t =>
      cases e' <;> simp only [Expr.mapTokens, reduceCtorEq, Expr.selfRef.injEq] at he
      rw [eval, eval]
      exact steps.self hlaw he
  | grouping inner =>
      cases e' <;> simp only [Expr.mapTokens, reduceCtorEq, Expr.grouping.injEq] at he
      rw [eval, eval]
      exact ih.eval hlaw.2 he
  | assign target value =>
      cases e' <;> simp only [Expr.mapTokens, reduceCtorEq, Expr.assign.injEq] at he
      rw [eval, eval]
      refine steps.evals_bind (ih.eval hlaw.2 he.2) fun v w h => ?_
      exact steps.evals_bind (steps.assign hlaw.1 he.1 h) fun _ _ _ => steps.evals_pure h
  | unary op right =>
      cases e' <;> simp only [Expr.mapTokens, reduceCtorEq, Expr.unary.injEq] at he
      rw [eval_unary, eval_unary]
      exact steps.evals_bind (ih.eval hlaw.2 he.2) fun v w h => steps.unary hlaw.1 he.1 h
  | binary left op right =>
      cases e' <;> simp only [Expr.mapTokens, reduceCtorEq, Expr.binary.injEq] at he
      rw [eval_binary, eval_binary]
      refine steps.evals_bind (ih.eval hlaw.2.1 he.1) fun v w h => ?_
      refine steps.evals_bind (ih.eval hlaw.2.2 he.2.2) fun v' w' h' => ?_
      exact steps.binary hlaw.1 he.2.1 h h'
  | logical left op right =>
      cases e' <;> simp only [Expr.mapTokens, reduceCtorEq, Expr.logical.injEq] at he
      next left' op' right' =>
      have hkind : op'.kind = op.kind := by
        rw [← steps.key_keepsText.kind op', ← he.2.1, steps.key_keepsText.kind]
      rw [eval, eval]
      refine steps.evals_bind (ih.eval hlaw.2.1 he.1) fun v w h => ?_
      have hright := ih.eval hlaw.2.2 he.2.2
      rw [hkind, steps.isTruthy h]
      split
      · split
        · exact steps.evals_pure h
        · exact hright
      · split
        · exact hright
        · exact steps.evals_pure h
  | call callee bracket args =>
      cases e' <;> simp only [Expr.mapTokens, exprsMapTokens_eq_map, reduceCtorEq,
        Expr.call.injEq] at he
      rw [eval, eval]
      refine steps.evals_bind (ih.eval hlaw.2.1 he.1) fun v w h => ?_
      have hargs := ih.evalAll (exprsEveryNode_iff.mp hlaw.2.2) he.2.2
      refine steps.evals_bind hargs fun vs ws hs => ?_
      exact ih.call h hs he.2.1
  | «attribute» object t =>
      cases e' <;> simp only [Expr.mapTokens, reduceCtorEq, Expr.attribute.injEq] at he
      rw [eval, eval]
      exact steps.evals_bind (ih.eval hlaw.2 he.1) fun v w h => steps.member hlaw.1 he.2 h
  | func keyword params body =>
      cases e' <;> simp only [Expr.mapTokens, stmtsMapTokens_eq_map, reduceCtorEq,
        Expr.func.injEq] at he
      rw [eval_func, eval_func]
      exact steps.function hlaw he.2.1 he.2.2
  | struct keyword params body =>
      cases e' <;> simp only [Expr.mapTokens, fieldsMapTokens_eq_map, reduceCtorEq,
        Expr.struct.injEq] at he
      rw [eval_struct, eval_struct]
      exact steps.struct hlaw he.2.1 he.2.2

include steps ih in
theorem evalAll_succ {es es' : List Expr} (hlaw : ∀ e ∈ es, e.EveryNode law)
    (hes : es.map (Expr.mapTokens key) = es'.map (Expr.mapTokens key)) :
    rel.evals (List.Forall₂ rel.value) (evalAll setup (n + 1) es) (evalAll setup' (m + 1) es') := by
  cases es with
  | nil =>
      obtain rfl := List.map_eq_nil_iff.mp hes.symm
      rw [evalAll, evalAll]
      exact steps.evals_pure .nil
  | cons e es =>
      obtain ⟨e', rest, rfl, he, hrest⟩ := List.map_eq_cons_iff.mp hes.symm
      rw [List.forall_mem_cons] at hlaw
      rw [evalAll, evalAll]
      refine steps.evals_bind (ih.eval hlaw.1 he.symm) fun v w h => ?_
      refine steps.evals_bind (ih.evalAll hlaw.2 hrest.symm) fun vs ws hs => ?_
      exact steps.evals_pure (.cons h hs)

include steps ih in
theorem call_succ {v w : Value} {args args' : List Value} {t u : Token} (h : rel.value v w)
    (hargs : List.Forall₂ rel.value args args') (ht : key t = key u) :
    rel.evals rel.value (call setup (n + 1) v args t) (call setup' (m + 1) w args' u) := by
  have harity := steps.arity h
  have hlength := hargs.length_eq
  by_cases hfits : v.arity? = some args.length
  · rw [call_of_arity setup n t hfits, call_of_arity setup' m u (by rw [harity, hfits, hlength])]
    refine steps.evals_bind (steps.poll ht) fun _ _ _ => ?_
    cases v with
    | func c =>
        have hparams : args.length = c.params.length := (Option.some.inj hfits).symm
        obtain ⟨c', rfl, hlaw, hbody, hcall⟩ := steps.callFunction h hargs ht hparams
        exact hcall _ _ (ih.execAll hlaw hbody (steps.constant .null))
    | native f =>
        have hparams : args.length = f.arity := (Option.some.inj hfits).symm
        obtain ⟨rfl, hcall⟩ := steps.callNative h hargs ht hparams
        exact hcall
    | struct d =>
        have hparams : args.length = d.params.length := (Option.some.inj hfits).symm
        obtain ⟨d', rfl, hlaw, hbody, hcall⟩ := steps.callStruct h hargs ht hparams
        exact hcall _ _ fun id => ih.initFields id hlaw hbody
    | _ => simp [Value.arity?] at hfits
  · have hmisfit : w.misfit args'.length = v.misfit args.length := by
      rw [Value.misfit, Value.misfit, harity, hlength]
    rw [call_of_misfit setup n t hfits, call_of_misfit setup' m u (by rwa [harity, ← hlength]),
      hmisfit]
    exact steps.evals_raise ht _

include steps ih in
theorem initFields_succ {fields fields' : List FieldInit} (id : InstanceId)
    (hlaw : ∀ entry ∈ fields, entry.value.EveryNode law ∧ rel.field entry.name)
    (hfields : fields.map (FieldInit.mapTokens key) = fields'.map (FieldInit.mapTokens key)) :
    rel.evals Eq (initFields setup (n + 1) id fields) (initFields setup' (m + 1) id fields') := by
  cases fields with
  | nil =>
      obtain rfl := List.map_eq_nil_iff.mp hfields.symm
      rw [initFields, initFields]
      exact steps.evals_pure rfl
  | cons entry fields =>
      obtain ⟨entry', rest, rfl, hentry, hrest⟩ := List.map_eq_cons_iff.mp hfields.symm
      rw [List.forall_mem_cons] at hlaw
      obtain ⟨t, e⟩ := entry
      obtain ⟨u, e'⟩ := entry'
      simp only [FieldInit.mapTokens, FieldInit.mk.injEq] at hentry
      rw [initFields_cons, initFields_cons]
      refine steps.evals_bind (ih.eval hlaw.1.1 hentry.2.symm) fun v w h => ?_
      refine steps.evals_bind (steps.bindField id hlaw.1.2 hentry.1.symm h) fun _ _ _ => ?_
      exact ih.initFields id hlaw.2 hrest.symm

include steps ih in
theorem exec_succ {inFunction : Bool} {s s' : Stmt} (hlaw : s.EveryNode law inFunction)
    (hs : s.mapTokens key = s'.mapTokens key) :
    rel.execs rel.value (exec setup (n + 1) s) (exec setup' (m + 1) s') := by
  cases s with
  | expression e =>
      cases s' <;> simp only [Stmt.mapTokens, Stmt.mapTokens_conditional,
        Stmt.mapTokens_returning, reduceCtorEq, Stmt.expression.injEq] at hs
      rw [exec, exec]
      exact steps.execs_eval (ih.eval hlaw.2 hs)
  | block stmts =>
      cases s' <;> simp only [Stmt.mapTokens, Stmt.mapTokens_conditional, stmtsMapTokens_eq_map,
        Stmt.mapTokens_returning, reduceCtorEq, Stmt.block.injEq] at hs
      rw [exec, exec]
      exact steps.execs_block
        (ih.execAll (stmtsEveryNode_iff.mp hlaw.2) hs (steps.constant .null))
  | conditional condition consequence otherwise =>
      cases s' <;> simp only [Stmt.mapTokens, Stmt.mapTokens_conditional,
        Stmt.mapTokens_returning, reduceCtorEq, Stmt.conditional.injEq] at hs
      next condition' consequence' otherwise' =>
      obtain ⟨-, hcondition, hconsequence, hotherwise⟩ := Stmt.everyNode_conditional.mp hlaw
      rw [exec_conditional, exec_conditional]
      refine steps.execs_bind (steps.execs_eval (ih.eval hcondition hs.1)) fun v w h => ?_
      rw [steps.isTruthy h]
      split
      · exact ih.exec hconsequence hs.2.1
      · cases otherwise with
        | none =>
            cases otherwise' with
            | none => exact steps.execs_pure (steps.constant .null)
            | some s' => simp at hs
        | some s =>
            cases otherwise' with
            | none => simp at hs
            | some s' => exact ih.exec (hotherwise s rfl) (Option.some.inj hs.2.2)
  | whileLoop keyword condition body =>
      cases s' <;> simp only [Stmt.mapTokens, Stmt.mapTokens_conditional,
        Stmt.mapTokens_returning, reduceCtorEq, Stmt.whileLoop.injEq] at hs
      rw [exec, exec]
      exact ih.execWhile hs.1 hlaw.2.1 hs.2.1 hlaw.2.2 hs.2.2 (steps.constant .null)
  | matching keyword subject cases =>
      cases s' <;> simp only [Stmt.mapTokens, Stmt.mapTokens_conditional, casesMapTokens_eq_map,
        Stmt.mapTokens_returning, reduceCtorEq, Stmt.matching.injEq] at hs
      rw [exec, exec]
      refine steps.execs_bind (steps.execs_eval (ih.eval hlaw.2.1 hs.2.1)) fun v w h => ?_
      exact ih.execCases hs.1 h (casesEveryNode_iff.mp hlaw.2.2) hs.2.2
  | importing module names =>
      cases s' <;> simp only [Stmt.mapTokens, Stmt.mapTokens_conditional,
        Stmt.mapTokens_returning, reduceCtorEq, Stmt.importing.injEq] at hs
      rw [exec, exec]
      refine steps.execs_bind (steps.execs_eval (steps.importing hlaw hs.1 hs.2)) fun _ _ _ => ?_
      exact steps.execs_pure (steps.constant .null)
  | returning keyword value =>
      cases s' <;> simp only [Stmt.mapTokens, Stmt.mapTokens_conditional,
        Stmt.mapTokens_returning, reduceCtorEq, Stmt.returning.injEq] at hs
      next keyword' value' =>
      obtain ⟨-, hvalue⟩ := Stmt.everyNode_returning.mp hlaw
      rw [exec_returning, exec_returning]
      refine steps.execs_bind (R := rel.value) ?_ fun v w h => steps.execs_returned h
      cases value with
      | none =>
          cases value' with
          | none => exact steps.execs_pure (steps.constant .null)
          | some e' => simp at hs
      | some e =>
          cases value' with
          | none => simp at hs
          | some e' => exact steps.execs_eval (ih.eval (hvalue e rfl) (Option.some.inj hs.2))

include steps ih in
theorem execAll_succ {inFunction : Bool} {ss ss' : List Stmt} {v w : Value}
    (hlaw : ∀ s ∈ ss, s.EveryNode law inFunction)
    (hss : ss.map (Stmt.mapTokens key) = ss'.map (Stmt.mapTokens key)) (h : rel.value v w) :
    rel.execs rel.value (execAll setup (n + 1) ss v) (execAll setup' (m + 1) ss' w) := by
  cases ss with
  | nil =>
      obtain rfl := List.map_eq_nil_iff.mp hss.symm
      rw [execAll, execAll]
      exact steps.execs_pure h
  | cons s ss =>
      obtain ⟨s', rest, rfl, hs, hrest⟩ := List.map_eq_cons_iff.mp hss.symm
      rw [List.forall_mem_cons] at hlaw
      rw [execAll, execAll]
      exact steps.execs_bind (ih.exec hlaw.1 hs.symm) fun v w h => ih.execAll hlaw.2 hrest.symm h

include steps ih in
theorem execWhile_succ {inFunction : Bool} {t u : Token} {e e' : Expr} {s s' : Stmt} {v w : Value}
    (ht : key t = key u) (hlaw : e.EveryNode law) (he : e.mapTokens key = e'.mapTokens key)
    (hlaw' : s.EveryNode law inFunction) (hs : s.mapTokens key = s'.mapTokens key)
    (h : rel.value v w) :
    rel.execs rel.value (execWhile setup (n + 1) t e s v) (execWhile setup' (m + 1) u e' s' w) := by
  rw [execWhile, execWhile]
  refine steps.execs_bind (steps.execs_eval (ih.eval hlaw he)) fun c c' hc => ?_
  rw [steps.isTruthy hc]
  split
  · refine steps.execs_bind (steps.execs_eval (steps.poll ht)) fun _ _ _ => ?_
    refine steps.execs_bind (ih.exec hlaw' hs) fun v w h => ?_
    exact ih.execWhile ht hlaw he hlaw' hs h
  · exact steps.execs_pure h

include steps in
theorem isWildcard_eq {e e' : Expr} (he : e.mapTokens key = e'.mapTokens key) :
    e'.isWildcard = e.isWildcard := by
  cases e <;> cases e' <;> simp only [Expr.mapTokens, reduceCtorEq, Expr.variable.injEq] at he
  all_goals first | rfl | skip
  next t u =>
  simp only [Expr.isWildcard]
  rw [← steps.key_keepsText.lexeme u, ← he, steps.key_keepsText.lexeme]

include steps ih in
theorem execCases_succ {inFunction : Bool} {t u : Token} {v w : Value}
    {cases cases' : List MatchCase} (ht : key t = key u) (h : rel.value v w)
    (hlaw : ∀ entry ∈ cases,
      entry.pattern.EveryNode law ∧ entry.consequence.EveryNode law inFunction)
    (hcases : cases.map (MatchCase.mapTokens key) = cases'.map (MatchCase.mapTokens key)) :
    rel.execs rel.value (execCases setup (n + 1) t v cases)
      (execCases setup' (m + 1) u w cases') := by
  cases cases with
  | nil =>
      obtain rfl := List.map_eq_nil_iff.mp hcases.symm
      rw [execCases, execCases]
      exact steps.execs_pure (steps.constant .null)
  | cons entry cases =>
      obtain ⟨entry', rest, rfl, hentry, hrest⟩ := List.map_eq_cons_iff.mp hcases.symm
      rw [List.forall_mem_cons] at hlaw
      obtain ⟨pattern, consequence⟩ := entry
      obtain ⟨pattern', consequence'⟩ := entry'
      simp only [MatchCase.mapTokens, MatchCase.mk.injEq] at hentry
      -- What follows once it is known whether the first case fits.
      have hgo : ∀ fits : Bool, rel.execs rel.value
          (if fits = true then do
            Run.note (.caseSelected t.line)
            exec setup n consequence
          else execCases setup n t v cases)
          (if fits = true then do
            Run.note (.caseSelected u.line)
            exec setup' m consequence'
          else execCases setup' m u w rest) := by
        intro fits
        split
        · exact steps.execs_bind (steps.selected ht) fun _ _ _ => ih.exec hlaw.1.2 hentry.2.symm
        · exact ih.execCases ht h hlaw.2 hrest.symm
      rw [execCases, execCases, steps.isWildcard_eq hentry.1.symm]
      split
      · exact hgo true
      · refine steps.execs_bind (steps.execs_eval (ih.eval hlaw.1.1 hentry.1.symm)) fun p q hp => ?_
        rw [steps.isEqual hp h]
        exact hgo (p.isEqual v)

end Succ

include steps in
/-- Runs whose steps are related are related as a whole. -/
theorem atFuel (h : n ≤ m) : AtFuel key law setup setup' rel n m := by
  induction n generalizing m with
  | zero => exact steps.atFuel_zero
  | succ n ih =>
      obtain ⟨m, rfl⟩ : ∃ k, m = k + 1 := ⟨m - 1, by omega⟩
      have hless := ih (Nat.le_of_succ_le_succ h)
      exact
        { eval := steps.eval_succ hless
          evalAll := steps.evalAll_succ hless
          call := steps.call_succ hless
          initFields := steps.initFields_succ hless
          exec := steps.exec_succ hless
          execAll := steps.execAll_succ hless
          execWhile := steps.execWhile_succ hless
          execCases := steps.execCases_succ hless }

end EvalSteps

end BracketScript
