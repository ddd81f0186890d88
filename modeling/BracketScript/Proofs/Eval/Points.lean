import BracketScript.Proofs.Eval.Inner
import BracketScript.Proofs.Eval.Restoration

/-!
# The points of a run

Statements about what holds all along a run need a name for the machines that a
run goes through.  A run is occupied with a job, and parts of it are jobs of
their own: the operands of an operator, the body of a function that is called,
the rounds of a loop.  `Part` says which jobs begin while another one is done and
on which machines; its rules follow the equations of evaluation one by one, and a
job begins only where the ones before it have ended with a value.  The points of
a run are the machines on which its parts begin and end (`Point`).

What holds where a run starts and is handed on from a job to its parts holds at
all points: the depth of calls stays within the limit (`Point.depth_le`).  That
the rules leave no call out is a statement of its own (`Job.told`).
-/

namespace BracketScript

/-- The machine inside a call. -/
def Machine.called (m : Machine) (callee : Value) : Machine :=
  { m with depth := m.depth + 1, log := m.log.push (.called callee m.depth) }

/-- The machine that has noted the choice of a case. -/
def Machine.selected (m : Machine) (keyword : Token) : Machine :=
  { m with log := m.log.push (.caseSelected keyword.line) }

/-- While the first job is done from the first machine, with fuel `n + 1`, the
second begins on the second machine, with fuel `n`. -/
inductive Part (setup : Setup) (n : Nat) : Job → Machine → Job → Machine → Prop
  -- Expressions.
  | grouping {e : Expr} {m : Machine} : Part setup n (.expr (.grouping e)) m (.expr e) m
  | assigned {target : Target} {e : Expr} {m : Machine} :
    Part setup n (.expr (.assign target e)) m (.expr e) m
  | operand {op : Token} {e : Expr} {m : Machine} :
    Part setup n (.expr (.unary op e)) m (.expr e) m
  | left {e₁ e₂ : Expr} {op : Token} {m : Machine} :
    Part setup n (.expr (.binary e₁ op e₂)) m (.expr e₁) m
  | right {e₁ e₂ : Expr} {op : Token} {v : Value} {m m₁ : Machine}
    (h : eval setup n e₁ m = (.ok v, m₁)) :
    Part setup n (.expr (.binary e₁ op e₂)) m (.expr e₂) m₁
  | deciding {e₁ e₂ : Expr} {op : Token} {m : Machine} :
    Part setup n (.expr (.logical e₁ op e₂)) m (.expr e₁) m
  | undecided {e₁ e₂ : Expr} {op : Token} {v : Value} {m m₁ : Machine}
    (h : eval setup n e₁ m = (.ok v, m₁)) (hopen : op.kind = .orKw ↔ ¬v.isTruthy) :
    Part setup n (.expr (.logical e₁ op e₂)) m (.expr e₂) m₁
  | callee {e : Expr} {bracket : Token} {es : List Expr} {m : Machine} :
    Part setup n (.expr (.call e bracket es)) m (.expr e) m
  | arguments {e : Expr} {bracket : Token} {es : List Expr} {f : Value} {m m₁ : Machine}
    (h : eval setup n e m = (.ok f, m₁)) :
    Part setup n (.expr (.call e bracket es)) m (.exprs es) m₁
  | call {e : Expr} {bracket : Token} {es : List Expr} {f : Value} {vs : List Value}
    {m m₁ m₂ : Machine} (h : eval setup n e m = (.ok f, m₁))
    (h' : evalAll setup n es m₁ = (.ok vs, m₂)) :
    Part setup n (.expr (.call e bracket es)) m (.call f vs bracket) m₂
  | object {e : Expr} {name : Token} {m : Machine} :
    Part setup n (.expr (.attribute e name)) m (.expr e) m
  | head {e : Expr} {es : List Expr} {m : Machine} :
    Part setup n (.exprs (e :: es)) m (.expr e) m
  | tail {e : Expr} {es : List Expr} {v : Value} {m m₁ : Machine}
    (h : eval setup n e m = (.ok v, m₁)) : Part setup n (.exprs (e :: es)) m (.exprs es) m₁
  -- Calls, if there is no request to stop and the limit of depth is not reached.
  | body {c : Closure} {args : List Value} {bracket : Token} {scope : ScopeId} {m m₁ : Machine}
    (fits : args.length = c.params.length) (hpoll : m.interrupted = false)
    (hdepth : m.depth < setup.maxDepth)
    (h : openCall c.scope c.params args (m.called (.func c)) = (.ok scope, m₁)) :
    Part setup n (.call (.func c) args bracket) m (.stmts c.body .null) { m₁ with scope := scope }
  | builtin {f : Native} {args : List Value} {bracket : Token} {m : Machine}
    (fits : args.length = f.arity) (hpoll : m.interrupted = false)
    (hdepth : m.depth < setup.maxDepth) :
    Part setup n (.call (.native f) args bracket) m (.native f args bracket fits)
      (m.called (.native f))
  | instance {d : StructDef} {args : List Value} {bracket : Token} {scope : ScopeId}
    {id : InstanceId} {m m₁ m₂ : Machine}
    (fits : args.length = d.params.length) (hpoll : m.interrupted = false)
    (hdepth : m.depth < setup.maxDepth)
    (h : openCall d.scope d.params args (m.called (.struct d)) = (.ok scope, m₁))
    (h' : openInstance d.params args m₁ = (.ok id, m₂)) :
    Part setup n (.call (.struct d) args bracket) m (.fields id d.body) { m₂ with scope := scope }
  | field {id : InstanceId} {name : Token} {e : Expr} {entries : List FieldInit} {m : Machine} :
    Part setup n (.fields id (⟨name, e⟩ :: entries)) m (.expr e) m
  | fields {id : InstanceId} {name : Token} {e : Expr} {entries : List FieldInit} {v : Value}
    {m m₁ m₂ : Machine} (h : eval setup n e m = (.ok v, m₁))
    (h' : bindField id name v m₁ = (.ok (), m₂)) :
    Part setup n (.fields id (⟨name, e⟩ :: entries)) m (.fields id entries) m₂
  -- Statements.
  | expression {e : Expr} {m : Machine} : Part setup n (.stmt (.expression e)) m (.expr e) m
  | block {ss : List Stmt} {scope : ScopeId} {store : Store} {m : Machine}
    (h : m.store.child m.scope .block = (scope, store)) :
    Part setup n (.stmt (.block ss)) m (.stmts ss .null) { m with store := store, scope := scope }
  | question {e : Expr} {s : Stmt} {otherwise : Option Stmt} {m : Machine} :
    Part setup n (.stmt (.conditional e s otherwise)) m (.expr e) m
  | consequence {e : Expr} {s : Stmt} {otherwise : Option Stmt} {v : Value} {m m₁ : Machine}
    (h : eval setup n e m = (.ok v, m₁)) (hv : v.isTruthy = true) :
    Part setup n (.stmt (.conditional e s otherwise)) m (.stmt s) m₁
  | otherwise {e : Expr} {s s' : Stmt} {v : Value} {m m₁ : Machine}
    (h : eval setup n e m = (.ok v, m₁)) (hv : v.isTruthy = false) :
    Part setup n (.stmt (.conditional e s (some s'))) m (.stmt s') m₁
  | loop {keyword : Token} {e : Expr} {s : Stmt} {m : Machine} :
    Part setup n (.stmt (.whileLoop keyword e s)) m (.rounds keyword e s .null) m
  | subject {keyword : Token} {e : Expr} {entries : List MatchCase} {m : Machine} :
    Part setup n (.stmt (.matching keyword e entries)) m (.expr e) m
  | cases {keyword : Token} {e : Expr} {entries : List MatchCase} {v : Value} {m m₁ : Machine}
    (h : eval setup n e m = (.ok v, m₁)) :
    Part setup n (.stmt (.matching keyword e entries)) m (.cases keyword v entries) m₁
  | returned {keyword : Token} {e : Expr} {m : Machine} :
    Part setup n (.stmt (.returning keyword (some e))) m (.expr e) m
  | first {s : Stmt} {ss : List Stmt} {last : Value} {m : Machine} :
    Part setup n (.stmts (s :: ss) last) m (.stmt s) m
  | rest {s : Stmt} {ss : List Stmt} {last v : Value} {m m₁ : Machine}
    (h : exec setup n s m = (.ok v, m₁)) :
    Part setup n (.stmts (s :: ss) last) m (.stmts ss v) m₁
  -- Loops, if there is no request to stop.
  | guard {keyword : Token} {e : Expr} {s : Stmt} {last : Value} {m : Machine} :
    Part setup n (.rounds keyword e s last) m (.expr e) m
  | round {keyword : Token} {e : Expr} {s : Stmt} {last v : Value} {m m₁ : Machine}
    (h : eval setup n e m = (.ok v, m₁)) (hv : v.isTruthy = true)
    (hpoll : m₁.interrupted = false) :
    Part setup n (.rounds keyword e s last) m (.stmt s) m₁
  | rounds {keyword : Token} {e : Expr} {s : Stmt} {last v w : Value} {m m₁ m₂ : Machine}
    (h : eval setup n e m = (.ok v, m₁)) (hv : v.isTruthy = true)
    (hpoll : m₁.interrupted = false) (h' : exec setup n s m₁ = (.ok w, m₂)) :
    Part setup n (.rounds keyword e s last) m (.rounds keyword e s w) m₂
  -- Cases.
  | wildcard {keyword : Token} {subject : Value} {e : Expr} {s : Stmt} {entries : List MatchCase}
    {m : Machine} (he : e.isWildcard = true) :
    Part setup n (.cases keyword subject (⟨e, s⟩ :: entries)) m (.stmt s) (m.selected keyword)
  | pattern {keyword : Token} {subject : Value} {e : Expr} {s : Stmt} {entries : List MatchCase}
    {m : Machine} (he : e.isWildcard = false) :
    Part setup n (.cases keyword subject (⟨e, s⟩ :: entries)) m (.expr e) m
  | fitting {keyword : Token} {subject v : Value} {e : Expr} {s : Stmt}
    {entries : List MatchCase} {m m₁ : Machine} (he : e.isWildcard = false)
    (h : eval setup n e m = (.ok v, m₁)) (hv : v.isEqual subject = true) :
    Part setup n (.cases keyword subject (⟨e, s⟩ :: entries)) m (.stmt s) (m₁.selected keyword)
  | unfitting {keyword : Token} {subject v : Value} {e : Expr} {s : Stmt}
    {entries : List MatchCase} {m m₁ : Machine} (he : e.isWildcard = false)
    (h : eval setup n e m = (.ok v, m₁)) (hv : v.isEqual subject = false) :
    Part setup n (.cases keyword subject (⟨e, s⟩ :: entries)) m (.cases keyword subject entries) m₁

/-- The machines that a run goes through, from where it starts to where it ends:
the run does a job from the first machine, and the second is one on which a part
of the job begins or ends. -/
inductive Point (setup : Setup) : Nat → Job → Machine → Machine → Prop
  | start {n : Nat} {job : Job} {m : Machine} : Point setup n job m m
  | finish {n : Nat} {job : Job} {m : Machine} : Point setup n job m (job.after setup n m)
  | inside {n : Nat} {job job' : Job} {m m' m'' : Machine} (h : Part setup n job m job' m')
    (h' : Point setup n job' m' m'') : Point setup (n + 1) job m m''

/-! ### Scopes and depth -/

section Depth

variable {setup : Setup} {n : Nat} {m m' : Machine}

theorem restored_of_eval {e : Expr} {r : Except Stop Value} (h : eval setup n e m = (r, m')) :
    m.Restored m' := by
  have hrestored := (Job.expr e).restored setup n m
  rwa [Job.after, h] at hrestored

theorem restored_of_evalAll {es : List Expr} {r : Except Stop (List Value)}
    (h : evalAll setup n es m = (r, m')) : m.Restored m' := by
  have hrestored := (Job.exprs es).restored setup n m
  rwa [Job.after, h] at hrestored

theorem restored_of_exec {s : Stmt} {r : Except Unwind Value} (h : exec setup n s m = (r, m')) :
    m.Restored m' := by
  have hrestored := (Job.stmt s).restored setup n m
  rwa [Job.after, h] at hrestored

theorem restored_of_openCall {outer scope : ScopeId} {params : List Token} {args : List Value}
    (h : openCall outer params args m = (.ok scope, m')) : m.Restored m' := by
  obtain ⟨-, rfl⟩ := Prod.mk.inj h
  exact ⟨rfl, rfl⟩

theorem restored_of_openInstance {params : List Token} {args : List Value} {id : InstanceId}
    (h : openInstance params args m = (.ok id, m')) : m.Restored m' := by
  obtain ⟨-, rfl⟩ := Prod.mk.inj h
  exact ⟨rfl, rfl⟩

theorem restored_of_bindField {id : InstanceId} {name : Token} {v : Value}
    (h : bindField id name v m = (.ok (), m')) : m.Restored m' := by
  obtain ⟨-, rfl⟩ := Prod.mk.inj h
  exact ⟨rfl, rfl⟩

def Job.isCall : Job → Bool
  | .call _ _ _ => true
  | _ => false

/-- A part of a job other than a call begins where the job does, or in a new block
inside of that scope. -/
theorem Part.place {job job' : Job} (h : Part setup n job m job' m') (hjob : job.isCall = false) :
    m.Restored m' ∨ m' = { m with
      store := (m.store.child m.scope .block).2, scope := (m.store.child m.scope .block).1 } := by
  cases h with
  | right h | undecided h | arguments h | tail h | consequence h | otherwise h | cases h
  | round h | unfitting _ h => exact Or.inl (restored_of_eval h)
  | fitting _ h => exact Or.inl ⟨(restored_of_eval h).scope, (restored_of_eval h).depth⟩
  | call h h' => exact Or.inl ((restored_of_eval h).trans (restored_of_evalAll h'))
  | fields h h' => exact Or.inl ((restored_of_eval h).trans (restored_of_bindField h'))
  | rest h => exact Or.inl (restored_of_exec h)
  | rounds h _ _ h' => exact Or.inl ((restored_of_eval h).trans (restored_of_exec h'))
  | block h =>
      rw [h]
      exact Or.inr rfl
  | body | builtin | «instance» => cases hjob
  | _ => exact Or.inl ⟨rfl, rfl⟩

/-- A part of a job begins at the depth of the job, or one deeper and still
within the limit. -/
theorem Part.depth {job job' : Job} (h : Part setup n job m job' m') :
    m'.depth = m.depth ∨ m.depth < setup.maxDepth ∧ m'.depth = m.depth + 1 := by
  cases hjob : job.isCall with
  | false =>
      left
      rcases h.place hjob with hrestored | rfl
      · exact hrestored.depth
      · rfl
  | true =>
      cases h with
      | body _ _ hdepth h => exact Or.inr ⟨hdepth, (restored_of_openCall h).depth⟩
      | builtin _ _ hdepth => exact Or.inr ⟨hdepth, rfl⟩
      | «instance» _ _ hdepth h h' =>
          have hopened := (restored_of_openCall h).trans (restored_of_openInstance h')
          exact Or.inr ⟨hdepth, hopened.depth⟩
      | _ => cases hjob

/-- The depth of calls stays within the limit at all points of a run. -/
theorem Point.depth_le {job : Job} (h : Point setup n job m m')
    (hstart : m.depth ≤ setup.maxDepth) : m'.depth ≤ setup.maxDepth := by
  induction h with
  | start => exact hstart
  | finish =>
      rw [(Job.restored ..).depth]
      exact hstart
  | inside hpart _ ih =>
      apply ih
      rcases hpart.depth with hsame | ⟨hbelow, hdeeper⟩
      · rwa [hsame]
      · rwa [hdeeper]

end Depth

/-! ### Calls

Every call is noted in the log, with the depth at which it is made.  For each of
them there is a point inside the call, so the rules of `Part` leave none out. -/

/-- The calls that a computation notes are made at depths with a property. -/
def Run.Tells {ε α : Type} (P : Nat → Prop) (p : Run ε α) (m : Machine) : Prop :=
  ∀ callee depth, Event.called callee depth ∈ (p m).2.log →
    Event.called callee depth ∈ m.log ∨ P depth

theorem Run.poll_ok {t : Token} {a : Unit} {m m₁ : Machine} (h : Run.poll t m = (.ok a, m₁)) :
    m.interrupted = false ∧ m₁ = m := by
  unfold Run.poll at h
  split at h
  · cases h
  · next hflag =>
      cases h
      exact ⟨eq_false_of_ne_true hflag, rfl⟩

theorem Run.eval_ok {α : Type} {x : Run Stop α} {a : α} {m m₁ : Machine}
    (h : Run.eval x m = (.ok a, m₁)) : x m = (.ok a, m₁) := by
  rcases hxm : x m with ⟨e | b, m₂⟩ <;> rw [Run.eval_apply, hxm] at h <;> cases h
  rfl

namespace Run.Tells

variable {ε α β : Type} {P : Nat → Prop} {m : Machine}

theorem of_log_eq {p : Run ε α} (h : (p m).2.log = m.log) : p.Tells P m := by
  intro callee depth hmem
  rw [h] at hmem
  exact Or.inl hmem

theorem inner {p : Run ε α} (h : p.Inner) : p.Tells P m :=
  of_log_eq (h.log_eq m)

theorem bind {p : Run ε α} {k : α → Run ε β} (hp : p.Tells P m)
    (hk : ∀ a m₁, p m = (.ok a, m₁) → (k a).Tells P m₁) : (p >>= k).Tells P m := by
  intro callee depth hmem
  have hfirst := hp callee depth
  rcases hpm : p m with ⟨e | a, m₁⟩ <;> rw [hpm] at hfirst
  · rw [Run.bind_of_error hpm] at hmem
    exact hfirst hmem
  · rw [Run.bind_of_ok hpm] at hmem
    rcases hk a m₁ hpm callee depth hmem with hbefore | hnew
    · exact hfirst hbefore
    · exact Or.inr hnew

theorem note {event : Event} (h : ∀ callee depth, event ≠ .called callee depth) :
    (Run.note event : Run ε Unit).Tells P m := by
  intro callee depth hmem
  rcases Array.mem_push.mp hmem with hbefore | hnew
  · exact Or.inl hbefore
  · exact absurd hnew.symm (h callee depth)

theorem eval {x : Run Stop α} (hx : x.Tells P m) : (Run.eval x).Tells P m := by
  intro callee depth hmem
  rw [Run.eval_apply] at hmem
  exact hx callee depth hmem

theorem evalThen {x : Run Stop α} {k : α → Run Unwind β} (hx : x.Tells P m)
    (hk : ∀ a m₁, x m = (.ok a, m₁) → (k a).Tells P m₁) : (Run.eval x >>= k).Tells P m := by
  apply bind hx.eval
  intro a m₁ heval
  exact hk a m₁ (Run.eval_ok heval)

theorem body {x : Run Unwind Value} (hx : x.Tells P m) : (Run.body x).Tells P m := by
  intro callee depth hmem
  rw [Run.body_apply] at hmem
  exact hx callee depth hmem

theorem poll (t : Token) : (Run.poll t).Tells P m := by
  apply of_log_eq
  rw [Run.poll_apply]

theorem inScope {x : Run ε α} {scope : ScopeId} (hx : x.Tells P { m with scope := scope }) :
    (Run.inScope scope x).Tells P m :=
  hx

theorem enterCall {setup : Setup} {callee : Value} {x : Run Stop Value} (t : Token)
    (hx : m.depth < setup.maxDepth → P m.depth ∧ x.Tells P (m.called callee)) :
    (enterCall setup callee t x).Tells P m := by
  by_cases hdeep : setup.maxDepth ≤ m.depth
  · apply of_log_eq
    rw [enterCall_of_full setup hdeep]
    rfl
  · have hbelow := Nat.lt_of_not_le hdeep
    obtain ⟨hdepth, hinside⟩ := hx hbelow
    intro other depth hmem
    rw [enterCall_of_lt setup hbelow] at hmem
    rcases hinside other depth hmem with hbefore | hnew
    · rcases Array.mem_push.mp hbefore with hbefore | hthis
      · exact Or.inl hbefore
      · obtain ⟨-, rfl⟩ := Event.called.inj hthis
        exact Or.inr hdepth
    · exact Or.inr hnew

end Run.Tells

/-- A run has a point one call deeper than the given depth. -/
def Job.Opens (setup : Setup) (n : Nat) (job : Job) (m : Machine) (depth : Nat) : Prop :=
  ∃ m', Point setup n job m m' ∧ m'.depth = depth + 1

/-- For every call noted while a job is done there is a point inside of it. -/
def Job.Told (setup : Setup) (n : Nat) (job : Job) (m : Machine) : Prop :=
  ∀ callee depth, Event.called callee depth ∈ (job.after setup n m).log →
    Event.called callee depth ∈ m.log ∨ job.Opens setup n m depth

namespace Job

variable {setup : Setup} {n : Nat} {m : Machine}

theorem told_native (f : Native) (args : List Value) (t : Token)
    (fits : args.length = f.arity) : (Job.native f args t fits).Told setup n m := by
  apply Run.Tells.of_log_eq (p := Native.apply setup f args t)
  rcases Native.apply_cases setup f args t with ⟨v, hprint⟩ | hinput | hinner
  · rw [hprint, printLine_apply]
  · rw [hinput, inputLine_apply]
  · exact hinner.log_eq m

theorem told_zero (job : Job) : job.Told setup 0 m := by
  have hstop : ∀ callee depth, Event.called callee depth ∈ m.log →
      Event.called callee depth ∈ m.log ∨ job.Opens setup 0 m depth := fun _ _ => Or.inl
  cases job with
  | native f args t fits => exact told_native f args t fits
  | expr e => rw [Told, after, eval]; exact hstop
  | exprs es => rw [Told, after, evalAll]; exact hstop
  | call callee args t => rw [Told, after, BracketScript.call]; exact hstop
  | fields id entries => rw [Told, after, initFields]; exact hstop
  | stmt s => rw [Told, after, exec]; exact hstop
  | stmts ss last => rw [Told, after, execAll]; exact hstop
  | rounds t e s last => rw [Told, after, execWhile]; exact hstop
  | cases t v entries => rw [Told, after, execCases]; exact hstop

section Succ

variable (ih : ∀ (job : Job) (m : Machine), job.Told setup n m)

include ih in
/-- What is told of a part is told of the whole. -/
theorem told_part {job job' : Job} {m' : Machine} (h : Part setup n job m job' m')
    (callee : Value) (depth : Nat)
    (hmem : Event.called callee depth ∈ (job'.after setup n m').log) :
    Event.called callee depth ∈ m'.log ∨ job.Opens setup (n + 1) m depth := by
  rcases ih job' m' callee depth hmem with hbefore | ⟨m'', hpoint, hdepth⟩
  · exact Or.inl hbefore
  · exact Or.inr ⟨m'', .inside h hpoint, hdepth⟩

include ih in
theorem told_expr (e : Expr) : (Job.expr e).Told setup (n + 1) m := by
  have hpart := @told_part setup n m ih (.expr e)
  show (eval setup (n + 1) e).Tells ((Job.expr e).Opens setup (n + 1) m) m
  cases e with
  | literal c =>
      rw [eval_literal]
      exact .inner (.pure _)
  | «variable» t =>
      rw [eval]
      exact .inner (.lookup t)
  | selfRef t =>
      rw [eval]
      exact .inner (.lookup t)
  | grouping e =>
      rw [eval]
      exact hpart .grouping
  | assign target e =>
      rw [eval]
      apply Run.Tells.bind (hpart .assigned)
      intro v m₁ _
      exact .inner (.bind (.assignTo target v) fun _ => .pure v)
  | unary op e =>
      rw [eval_unary]
      apply Run.Tells.bind (hpart .operand)
      intro v m₁ _
      exact .inner (.orRaise op _)
  | binary e₁ op e₂ =>
      rw [eval_binary]
      apply Run.Tells.bind (hpart .left)
      intro v m₁ h
      apply Run.Tells.bind (hpart (.right h))
      intro w m₂ _
      exact .inner (.orRaise op _)
  | logical e₁ op e₂ =>
      rw [eval]
      apply Run.Tells.bind (hpart .deciding)
      intro v m₁ h
      split
      · next hor =>
          split
          · exact .inner (.pure v)
          · next hfalse => exact hpart (.undecided h (iff_of_true hor hfalse))
      · next hor =>
          split
          · next htrue => exact hpart (.undecided h (iff_of_false hor (not_not_intro htrue)))
          · exact .inner (.pure v)
  | call e t es =>
      rw [eval]
      apply Run.Tells.bind (hpart .callee)
      intro f m₁ h
      apply Run.Tells.bind (hpart (.arguments h))
      intro vs m₂ h'
      exact hpart (.call h h')
  | «attribute» e t =>
      rw [eval]
      apply Run.Tells.bind (hpart .object)
      intro v m₁ _
      exact .inner (.readAttribute v t)
  | func t params body =>
      rw [eval_func]
      exact .inner (.makeFunction params body)
  | struct t params body =>
      rw [eval_struct]
      exact .inner (.makeStruct params body)

include ih in
theorem told_exprs (es : List Expr) : (Job.exprs es).Told setup (n + 1) m := by
  have hpart := @told_part setup n m ih (.exprs es)
  show (evalAll setup (n + 1) es).Tells ((Job.exprs es).Opens setup (n + 1) m) m
  cases es with
  | nil =>
      rw [evalAll]
      exact .inner (.pure _)
  | cons e es =>
      rw [evalAll]
      apply Run.Tells.bind (hpart .head)
      intro v m₁ h
      apply Run.Tells.bind (hpart (.tail h))
      intro vs m₂ _
      exact .inner (.pure _)

include ih in
theorem told_call (callee : Value) (args : List Value) (t : Token) :
    (Job.call callee args t).Told setup (n + 1) m := by
  have hpart := @told_part setup n m ih (.call callee args t)
  show (BracketScript.call setup (n + 1) callee args t).Tells
    ((Job.call callee args t).Opens setup (n + 1) m) m
  by_cases hfits : callee.arity? = some args.length
  · rw [call_of_arity setup n t hfits]
    apply Run.Tells.bind (.poll t)
    intro _ m₁ hok
    obtain ⟨hpoll, rfl⟩ := Run.poll_ok hok
    apply Run.Tells.enterCall
    intro hdepth
    cases callee with
    | func c =>
        have fits := (Option.some.inj hfits).symm
        have hbody : Part setup n (.call (.func c) args t) m₁ _ _ := .body fits hpoll hdepth rfl
        refine ⟨⟨_, .inside hbody .start, rfl⟩, ?_⟩
        apply Run.Tells.bind (.inner (.openCall _ _ _))
        intro scope m₂ hopen
        exact .body (.inScope (hpart (.body fits hpoll hdepth hopen)))
    | native f =>
        have hbuiltin : Part setup n (.call (.native f) args t) m₁ _ _ :=
          .builtin (Option.some.inj hfits).symm hpoll hdepth
        exact ⟨⟨_, .inside hbuiltin .start, rfl⟩, hpart hbuiltin⟩
    | struct d =>
        have fits := (Option.some.inj hfits).symm
        have hfields : Part setup n (.call (.struct d) args t) m₁ _ _ :=
          .instance fits hpoll hdepth rfl rfl
        refine ⟨⟨_, .inside hfields .start, rfl⟩, ?_⟩
        apply Run.Tells.bind (.inner (.openCall _ _ _))
        intro scope m₂ hopen
        apply Run.Tells.bind (.inner (.openInstance _ _))
        intro id m₃ hopen'
        apply Run.Tells.bind (.inScope (hpart (.instance fits hpoll hdepth hopen hopen')))
        intro _ m₄ _
        exact .inner (.pure _)
    | _ => cases hfits
  · rw [call_of_misfit setup n t hfits]
    exact .inner (.raise t _)

include ih in
theorem told_fields (id : InstanceId) (entries : List FieldInit) :
    (Job.fields id entries).Told setup (n + 1) m := by
  have hpart := @told_part setup n m ih (.fields id entries)
  show (initFields setup (n + 1) id entries).Tells
    ((Job.fields id entries).Opens setup (n + 1) m) m
  cases entries with
  | nil =>
      rw [initFields]
      exact .inner (.pure _)
  | cons entry entries =>
      obtain ⟨name, e⟩ := entry
      rw [initFields_cons]
      apply Run.Tells.bind (hpart .field)
      intro v m₁ h
      apply Run.Tells.bind (.inner (.bindField id _ v))
      intro _ m₂ h'
      exact hpart (.fields h h')

include ih in
theorem told_stmt (s : Stmt) : (Job.stmt s).Told setup (n + 1) m := by
  have hpart := @told_part setup n m ih (.stmt s)
  show (exec setup (n + 1) s).Tells ((Job.stmt s).Opens setup (n + 1) m) m
  cases s with
  | expression e =>
      rw [exec]
      exact .eval (hpart .expression)
  | block ss =>
      rw [exec, Run.inBlock_eq_bind]
      apply Run.Tells.bind (.inner (.atScope _))
      intro scope m₁ hopen
      obtain ⟨hscope, rfl⟩ := Prod.mk.inj hopen
      obtain rfl := Except.ok.inj hscope
      exact .inScope (hpart (.block rfl))
  | conditional e s otherwise =>
      rw [exec_conditional]
      apply Run.Tells.evalThen (hpart .question)
      intro v m₁ h
      split
      · next htrue => exact hpart (.consequence h htrue)
      · next hfalse =>
          cases otherwise with
          | none => exact .inner (.pure _)
          | some s' => exact hpart (.otherwise h (eq_false_of_ne_true hfalse))
  | whileLoop t e s =>
      rw [exec]
      exact hpart .loop
  | matching t e entries =>
      rw [exec]
      apply Run.Tells.evalThen (hpart .subject)
      intro v m₁ h
      exact hpart (.cases h)
  | importing t names =>
      rw [exec]
      have himport : (importModule setup t names).Tells
          ((Job.stmt (.importing t names)).Opens setup (n + 1) m) m := by
        unfold importModule
        split
        · exact .inner (.raise t _)
        · split
          · exact .inner (.define _ _)
          · apply Run.Tells.bind (.inner (.importMembers _ names))
            intro _ m₁ _
            apply Run.Tells.note
            intro callee depth h
            cases h
      apply Run.Tells.evalThen himport
      intro _ m₁ _
      exact .inner (.pure _)
  | returning t value =>
      rw [exec_returning]
      cases value with
      | none =>
          apply Run.Tells.bind (.inner (.pure _))
          intro v m₁ _
          exact .inner (.stop _)
      | some e =>
          apply Run.Tells.evalThen (hpart .returned)
          intro v m₁ _
          exact .inner (.stop _)

include ih in
theorem told_stmts (ss : List Stmt) (last : Value) :
    (Job.stmts ss last).Told setup (n + 1) m := by
  have hpart := @told_part setup n m ih (.stmts ss last)
  show (execAll setup (n + 1) ss last).Tells ((Job.stmts ss last).Opens setup (n + 1) m) m
  cases ss with
  | nil =>
      rw [execAll]
      exact .inner (.pure _)
  | cons s ss =>
      rw [execAll]
      apply Run.Tells.bind (hpart .first)
      intro v m₁ h
      exact hpart (.rest h)

include ih in
theorem told_rounds (t : Token) (e : Expr) (s : Stmt) (last : Value) :
    (Job.rounds t e s last).Told setup (n + 1) m := by
  have hpart := @told_part setup n m ih (.rounds t e s last)
  show (execWhile setup (n + 1) t e s last).Tells
    ((Job.rounds t e s last).Opens setup (n + 1) m) m
  rw [execWhile]
  apply Run.Tells.evalThen (hpart .guard)
  intro v m₁ h
  split
  · next htrue =>
      apply Run.Tells.evalThen (.poll t)
      intro _ m₂ hok
      obtain ⟨hpoll, rfl⟩ := Run.poll_ok hok
      apply Run.Tells.bind (hpart (.round h htrue hpoll))
      intro w m₃ h'
      exact hpart (.rounds h htrue hpoll h')
  · exact .inner (.pure _)

include ih in
theorem told_cases (t : Token) (v : Value) (entries : List MatchCase) :
    (Job.cases t v entries).Told setup (n + 1) m := by
  have hpart := @told_part setup n m ih (.cases t v entries)
  show (execCases setup (n + 1) t v entries).Tells
    ((Job.cases t v entries).Opens setup (n + 1) m) m
  cases entries with
  | nil =>
      rw [execCases]
      exact .inner (.pure _)
  | cons entry entries =>
      obtain ⟨e, s⟩ := entry
      have hselected : ∀ m₁, (exec setup n s).Tells
          ((Job.cases t v (⟨e, s⟩ :: entries)).Opens setup (n + 1) m) (m₁.selected t) →
          (Run.note (.caseSelected t.line) >>= fun _ => exec setup n s).Tells
            ((Job.cases t v (⟨e, s⟩ :: entries)).Opens setup (n + 1) m) m₁ := by
        intro m₁ h
        have hquiet : ∀ callee depth, Event.caseSelected t.line ≠ .called callee depth := by
          intro callee depth h
          cases h
        apply Run.Tells.bind (.note hquiet)
        intro _ m₂ hnoted
        obtain ⟨-, rfl⟩ := Prod.mk.inj hnoted
        exact h
      rw [execCases]
      split
      · next hwild => exact hselected m (hpart (.wildcard hwild))
      · next hwild =>
          have hplain := eq_false_of_ne_true hwild
          apply Run.Tells.evalThen (hpart (.pattern hplain))
          intro w m₁ h
          cases hfits : w.isEqual v with
          | true => exact hselected m₁ (hpart (.fitting hplain h hfits))
          | false => exact hpart (.unfitting hplain h hfits)

end Succ

/-- For every call noted in a run there is a point inside of it. -/
theorem told (setup : Setup) (n : Nat) (job : Job) (m : Machine) : job.Told setup n m := by
  induction n generalizing job m with
  | zero => exact told_zero job
  | succ n ih =>
      cases job with
      | expr e => exact told_expr ih e
      | exprs es => exact told_exprs ih es
      | call callee args t => exact told_call ih callee args t
      | native f args t fits => exact told_native f args t fits
      | fields id entries => exact told_fields ih id entries
      | stmt s => exact told_stmt ih s
      | stmts ss last => exact told_stmts ih ss last
      | rounds t e s last => exact told_rounds ih t e s last
      | cases t v entries => exact told_cases ih t v entries

end Job

end BracketScript
