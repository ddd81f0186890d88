import BracketScript.Proofs.Eval.Points

/-!
# Requests to stop

A run looks at the request to stop in two places only: when a value is called
with as many arguments as it takes, and before each round of a loop.  `Polls`
says that a run gets to one of them.

On a machine that has been asked to stop, the first such place answers the
request, and the run stops there.  Up to it nothing is printed or read, since
what prints and reads are calls.  So a run that was asked to stop is interrupted
if it polls, and otherwise it is the run that was not asked
(`heeding`, `Polls.answers`).  In both cases it comes to an end, for neither
calls nor loops are entered: fuel greater than the size of the code is enough.
-/

namespace BracketScript

/-- The machine without a request to stop. -/
def Machine.calm (m : Machine) : Machine :=
  { m with interrupted := false }

/-! ### Reaching a poll -/

/-- While a job is done from a machine, the request to stop is looked at. -/
inductive Polls (setup : Setup) : Nat → Job → Machine → Prop
  | call {n : Nat} {callee : Value} {args : List Value} {bracket : Token} {m : Machine}
    (fits : callee.arity? = some args.length) :
    Polls setup (n + 1) (.call callee args bracket) m
  | round {n : Nat} {keyword : Token} {e : Expr} {s : Stmt} {last v : Value} {m m₁ : Machine}
    (h : eval setup n e m = (.ok v, m₁)) (hv : v.isTruthy = true) :
    Polls setup (n + 1) (.rounds keyword e s last) m
  | inside {n : Nat} {job job' : Job} {m m' : Machine} (h : Part setup n job m job' m')
    (h' : Polls setup n job' m') : Polls setup (n + 1) job m

/-- The size of the code that a job works through before any call. -/
noncomputable def Job.size : Job → Nat
  | .expr e => sizeOf e
  | .exprs es => sizeOf es
  | .call _ _ _ | .native _ _ _ _ => 0
  | .fields _ entries => sizeOf entries
  | .stmt s => sizeOf s
  | .stmts ss _ => sizeOf ss
  | .rounds _ e s _ => sizeOf e + sizeOf s
  | .cases _ _ entries => sizeOf entries

/-- Calls and loops, which look at the request to stop themselves. -/
def Job.isPolling : Job → Bool
  | .call _ _ _ | .rounds _ _ _ _ => true
  | _ => false

/-- Where the request to stop is not looked at, the code of a part is smaller. -/
theorem Part.size_lt {setup : Setup} {n : Nat} {job job' : Job} {m m' : Machine}
    (h : Part setup n job m job' m') (hplain : job.isPolling = false) :
    job'.size < job.size := by
  cases h with
  | body | builtin | «instance» | guard | round | rounds => cases hplain
  | _ => simp [Job.size] <;> omega

/-! ### Computations that have been asked to stop -/

/-- What becomes of a computation on a machine that has been asked to stop:
either it polls and is interrupted there, or it does what it does without the
request, and does not run out of fuel if there was enough.  `halt` is how a stop
shows in the outcome. -/
inductive Run.Heeds {ε α : Type} (halt : Stop → ε) (polls enough : Prop) (p : Run ε α)
    (m : Machine) : Prop
  | answered (line : Nat) (m' : Machine) (reached : polls)
    (run : p m = (.error (halt (.error ⟨.interrupted, line⟩)), m'))
    (flag : m'.interrupted = false) (quiet : m'.console = m.console)
  | unasked (flag : (p m).2.interrupted = true) (quiet : (p m).2.console = m.console)
    (calm : p m.calm = ((p m).1, (p m).2.calm))
    (ends : enough → (p m).1 ≠ .error (halt .exhausted))

namespace Run.Heeds

variable {ε α β : Type} {halt : Stop → ε} {polls enough : Prop} {m : Machine}

/-- A part that polls is a poll of the whole, and needs less fuel. -/
theorem part {setup : Setup} {n : Nat} {job job' : Job} {m' : Machine} {p : Run ε α}
    (h : Part setup n job m job' m') (hsize : job'.size < job.size)
    (hp : p.Heeds halt (Polls setup n job' m') (job'.size < n) m') :
    p.Heeds halt (Polls setup (n + 1) job m) (job.size < n + 1) m' := by
  cases hp with
  | answered line m'' reached run flag quiet =>
      exact .answered line m'' (.inside h reached) run flag quiet
  | unasked flag quiet calm ends =>
      exact .unasked flag quiet calm fun henough => ends (by omega)

theorem inner {p : Run ε α} (h : p.Inner) (hm : m.interrupted = true)
    (hends : (p m).1 ≠ .error (halt .exhausted)) : p.Heeds halt polls enough m := by
  obtain ⟨f, hf⟩ := h
  refine .unasked ?_ ?_ ?_ fun _ => hends
  · rw [hf]
    exact hm
  · rw [hf]
  · rw [hf, hf]
    rfl

theorem pure (a : α) (hm : m.interrupted = true) :
    (pure a : Run ε α).Heeds halt polls enough m :=
  inner (.pure a) hm nofun

theorem raise (t : Token) (fault : RuntimeFault) (hm : m.interrupted = true) :
    (Run.raise t fault : Run Stop α).Heeds id polls enough m :=
  inner (.raise t fault) hm nofun

theorem note (event : Event) (hm : m.interrupted = true) :
    (Run.note event : Run ε Unit).Heeds halt polls enough m :=
  .unasked hm rfl rfl nofun

theorem poll (t : Token) (hm : m.interrupted = true) (hpolls : polls) :
    (Run.poll t).Heeds id polls enough m := by
  refine .answered t.line m.calm hpolls ?_ rfl rfl
  rw [Run.poll, if_pos hm]
  rfl

theorem bind {p : Run ε α} {k : α → Run ε β} (hp : p.Heeds halt polls enough m)
    (hk : ∀ a m₁, p m = (.ok a, m₁) → m₁.interrupted = true →
      (k a).Heeds halt polls enough m₁) : (p >>= k).Heeds halt polls enough m := by
  cases hp with
  | answered line m' reached run flag quiet =>
      exact .answered line m' reached (Run.bind_of_error run) flag quiet
  | unasked flag quiet calm ends =>
      rcases hpm : p m with ⟨e | a, m₁⟩ <;> rw [hpm] at flag quiet calm ends
      · refine .unasked ?_ ?_ ?_ ?_ <;> rw [Run.bind_of_error hpm]
        · exact flag
        · exact quiet
        · exact Run.bind_of_error calm
        · intro henough hend
          exact ends henough (congrArg _ (Except.error.inj hend))
      · cases hk a m₁ hpm flag with
        | answered line m' reached run flag' quiet' =>
            refine .answered line m' reached ?_ flag' (quiet'.trans quiet)
            rw [Run.bind_of_ok hpm]
            exact run
        | unasked flag' quiet' calm' ends' =>
            refine .unasked ?_ ?_ ?_ ?_ <;> rw [Run.bind_of_ok hpm]
            · exact flag'
            · exact quiet'.trans quiet
            · rw [Run.bind_of_ok calm]
              exact calm'
            · exact ends'

theorem eval {x : Run Stop α} (hx : x.Heeds id polls enough m) :
    (Run.eval x).Heeds Unwind.stopped polls enough m := by
  cases hx with
  | answered line m' reached run flag quiet =>
      refine .answered line m' reached ?_ flag quiet
      rw [Run.eval_apply, run]
      rfl
  | unasked flag quiet calm ends =>
      refine .unasked ?_ ?_ ?_ ?_ <;> rw [Run.eval_apply]
      · exact flag
      · exact quiet
      · rw [Run.eval_apply, calm]
      · intro henough hend
        rcases hxm : (x m).1 with e | a <;> rw [hxm] at hend <;> cases hend
        exact ends henough hxm

theorem evalThen {x : Run Stop α} {k : α → Run Unwind β} (hx : x.Heeds id polls enough m)
    (hk : ∀ a m₁, x m = (.ok a, m₁) → m₁.interrupted = true →
      (k a).Heeds Unwind.stopped polls enough m₁) :
    (Run.eval x >>= k).Heeds Unwind.stopped polls enough m := by
  apply bind hx.eval
  intro a m₁ heval
  exact hk a m₁ (Run.eval_ok heval)

theorem inBlock {x : Run ε α} {scope : ScopeId} {store : Store}
    (h : m.store.child m.scope .block = (scope, store))
    (hx : x.Heeds halt polls enough { m with store := store, scope := scope }) :
    (Run.inBlock x).Heeds halt polls enough m := by
  have happly : ∀ m₁ : Machine, m₁.store = m.store → m₁.scope = m.scope → Run.inBlock x m₁ =
      ((x { m₁ with store := store, scope := scope }).1,
        { (x { m₁ with store := store, scope := scope }).2 with scope := m.scope }) := by
    intro m₁ hstore hscope
    simp only [Run.inBlock, Run.inScope, hstore, hscope, h]
  cases hx with
  | answered line m' reached run flag quiet =>
      refine .answered line { m' with scope := m.scope } reached ?_ flag quiet
      rw [happly m rfl rfl, run]
  | unasked flag quiet calm ends =>
      refine .unasked ?_ ?_ ?_ ?_ <;> rw [happly m rfl rfl]
      · exact flag
      · exact quiet
      · rw [happly m.calm rfl rfl]
        exact congrArg (fun r => (r.1, { r.2 with scope := m.scope })) calm
      · exact ends

end Run.Heeds

/-! ### Steps that take no fuel -/

section Steps

variable {m : Machine}

theorem lookup_ne_exhausted (t : Token) : (Run.lookup t m).1 ≠ .error .exhausted := by
  unfold Run.lookup
  split <;> exact nofun

theorem orRaise_ne_exhausted (t : Token) (r : Except RuntimeFault Value) :
    (orRaise t r m).1 ≠ .error .exhausted := by
  cases r <;> exact nofun

theorem assignTo_ne_exhausted (target : Target) (v : Value) :
    (assignTo target v m).1 ≠ .error .exhausted := by
  cases target with
  | «variable» name =>
      intro hend
      cases hend
  | selfField keyword name =>
      have hlookup := lookup_ne_exhausted (m := m) keyword
      rcases hm : Run.lookup keyword m with ⟨e | object, m₁⟩ <;> rw [hm] at hlookup
      · rw [assignTo, Run.bind_of_error hm]
        exact fun hend => hlookup (congrArg _ (Except.error.inj hend))
      · rw [assignTo, Run.bind_of_ok hm]
        intro hend
        cases object <;> cases hend

theorem readAttribute_ne_exhausted (object : Value) (name : Token) :
    (readAttribute object name m).1 ≠ .error .exhausted := by
  cases object with
  | inst id definition =>
      unfold readAttribute
      dsimp only
      split <;> exact nofun
  | module g =>
      rw [readAttribute_module]
      cases g.member? name.lexeme <;> exact nofun
  | _ => exact nofun

theorem importMembers_ne_exhausted (g : Module) (names : List Token) :
    (importMembers g names m).1 ≠ .error .exhausted := by
  induction names generalizing m with
  | nil =>
      intro hend
      cases hend
  | cons name names ih =>
      unfold importMembers
      cases g.member? name.lexeme with
      | some v => exact ih
      | none =>
          intro hend
          cases hend

theorem importModule_heeds (setup : Setup) (t : Token) (names : List Token) {polls enough : Prop}
    (hm : m.interrupted = true) :
    (importModule setup t names).Heeds id polls enough m := by
  unfold importModule
  split
  · exact .raise t _ hm
  · split
    · exact .inner (.define _ _) hm nofun
    · apply Run.Heeds.bind (.inner (.importMembers _ names) hm (importMembers_ne_exhausted _ names))
      intro _ m₁ _ hm₁
      exact .note _ hm₁

end Steps

/-! ### Whole runs -/

/-- Runs with some fuel heed a request to stop. -/
structure Heeding (setup : Setup) (n : Nat) : Prop where
  eval (e : Expr) {m : Machine} (hm : m.interrupted = true) :
    (eval setup n e).Heeds id (Polls setup n (.expr e) m) ((Job.expr e).size < n) m
  evalAll (es : List Expr) {m : Machine} (hm : m.interrupted = true) :
    (evalAll setup n es).Heeds id (Polls setup n (.exprs es) m) ((Job.exprs es).size < n) m
  call (callee : Value) (args : List Value) (t : Token) {m : Machine}
    (hm : m.interrupted = true) :
    (call setup n callee args t).Heeds id (Polls setup n (.call callee args t) m)
      ((Job.call callee args t).size < n) m
  exec (s : Stmt) {m : Machine} (hm : m.interrupted = true) :
    (exec setup n s).Heeds Unwind.stopped (Polls setup n (.stmt s) m)
      ((Job.stmt s).size < n) m
  execAll (ss : List Stmt) (last : Value) {m : Machine} (hm : m.interrupted = true) :
    (execAll setup n ss last).Heeds Unwind.stopped (Polls setup n (.stmts ss last) m)
      ((Job.stmts ss last).size < n) m
  execWhile (t : Token) (e : Expr) (s : Stmt) (last : Value) {m : Machine}
    (hm : m.interrupted = true) :
    (execWhile setup n t e s last).Heeds Unwind.stopped (Polls setup n (.rounds t e s last) m)
      ((Job.rounds t e s last).size < n) m
  execCases (t : Token) (v : Value) (entries : List MatchCase) {m : Machine}
    (hm : m.interrupted = true) :
    (execCases setup n t v entries).Heeds Unwind.stopped (Polls setup n (.cases t v entries) m)
      ((Job.cases t v entries).size < n) m

namespace Heeding

variable {setup : Setup} {n : Nat}

/-- Without fuel nothing is done, and no fuel is enough. -/
theorem zero_heeds {ε α : Type} {halt : Stop → ε} {polls : Prop} {size : Nat} {m : Machine}
    (hm : m.interrupted = true) :
    (Run.stop (halt .exhausted) : Run ε α).Heeds halt polls (size < 0) m :=
  .unasked hm rfl rfl fun henough => absurd henough (Nat.not_lt_zero _)

theorem zero : Heeding setup 0 where
  eval _ _ hm := by rw [BracketScript.eval]; exact zero_heeds hm
  evalAll _ _ hm := by rw [BracketScript.evalAll]; exact zero_heeds hm
  call _ _ _ _ hm := by rw [BracketScript.call]; exact zero_heeds hm
  exec _ _ hm := by rw [BracketScript.exec]; exact zero_heeds hm
  execAll _ _ _ hm := by rw [BracketScript.execAll]; exact zero_heeds hm
  execWhile _ _ _ _ _ hm := by rw [BracketScript.execWhile]; exact zero_heeds hm
  execCases _ _ _ _ hm := by rw [BracketScript.execCases]; exact zero_heeds hm

section Succ

variable (ih : Heeding setup n) {m : Machine} (hm : m.interrupted = true)

include ih hm in
theorem eval_succ (e : Expr) :
    (BracketScript.eval setup (n + 1) e).Heeds id (Polls setup (n + 1) (.expr e) m)
      ((Job.expr e).size < n + 1) m := by
  have hsize {job' m'} (h : Part setup n (.expr e) m job' m') : job'.size < (Job.expr e).size :=
    h.size_lt rfl
  have hpart {e' m'} (h : Part setup n (.expr e) m (.expr e') m') (hm' : m'.interrupted = true) :=
    (ih.eval e' hm').part h (hsize h)
  cases e with
  | literal c =>
      rw [eval_literal]
      exact .pure _ hm
  | «variable» t =>
      rw [BracketScript.eval]
      exact .inner (.lookup t) hm (lookup_ne_exhausted t)
  | selfRef t =>
      rw [BracketScript.eval]
      exact .inner (.lookup t) hm (lookup_ne_exhausted t)
  | grouping e =>
      rw [BracketScript.eval]
      exact hpart .grouping hm
  | assign target e =>
      rw [BracketScript.eval]
      apply Run.Heeds.bind (hpart .assigned hm)
      intro v m₁ _ hm₁
      apply Run.Heeds.bind (.inner (.assignTo target v) hm₁ (assignTo_ne_exhausted target v))
      intro _ m₂ _ hm₂
      exact .pure v hm₂
  | unary op e =>
      rw [eval_unary]
      apply Run.Heeds.bind (hpart .operand hm)
      intro v m₁ _ hm₁
      exact .inner (.orRaise op _) hm₁ (orRaise_ne_exhausted op _)
  | binary e₁ op e₂ =>
      rw [eval_binary]
      apply Run.Heeds.bind (hpart .left hm)
      intro v m₁ h hm₁
      apply Run.Heeds.bind (hpart (.right h) hm₁)
      intro w m₂ _ hm₂
      exact .inner (.orRaise op _) hm₂ (orRaise_ne_exhausted op _)
  | logical e₁ op e₂ =>
      rw [BracketScript.eval]
      apply Run.Heeds.bind (hpart .deciding hm)
      intro v m₁ h hm₁
      split
      · next hor =>
          split
          · exact .pure v hm₁
          · next hfalse => exact hpart (.undecided h (iff_of_true hor hfalse)) hm₁
      · next hor =>
          split
          · next htrue => exact hpart (.undecided h (iff_of_false hor (not_not_intro htrue))) hm₁
          · exact .pure v hm₁
  | call e t es =>
      rw [BracketScript.eval]
      apply Run.Heeds.bind (hpart .callee hm)
      intro f m₁ h hm₁
      have hargs : Part setup n (.expr (.call e t es)) m _ _ := .arguments h
      apply Run.Heeds.bind ((ih.evalAll es hm₁).part hargs (hsize hargs))
      intro vs m₂ h' hm₂
      have hcall : Part setup n (.expr (.call e t es)) m _ _ := .call h h'
      exact (ih.call f vs t hm₂).part hcall (hsize hcall)
  | «attribute» e t =>
      rw [BracketScript.eval]
      apply Run.Heeds.bind (hpart .object hm)
      intro v m₁ _ hm₁
      exact .inner (.readAttribute v t) hm₁ (readAttribute_ne_exhausted v t)
  | func t params body =>
      rw [eval_func]
      exact .inner (.makeFunction params body) hm fun hend => by cases hend
  | struct t params body =>
      rw [eval_struct]
      exact .inner (.makeStruct params body) hm fun hend => by cases hend

include ih hm in
theorem evalAll_succ (es : List Expr) :
    (BracketScript.evalAll setup (n + 1) es).Heeds id (Polls setup (n + 1) (.exprs es) m)
      ((Job.exprs es).size < n + 1) m := by
  cases es with
  | nil =>
      rw [BracketScript.evalAll]
      exact .pure _ hm
  | cons e es =>
      rw [BracketScript.evalAll]
      have hhead : Part setup n (.exprs (e :: es)) m _ _ := .head
      apply Run.Heeds.bind ((ih.eval e hm).part hhead (hhead.size_lt rfl))
      intro v m₁ h hm₁
      have htail : Part setup n (.exprs (e :: es)) m _ _ := .tail h
      apply Run.Heeds.bind ((ih.evalAll es hm₁).part htail (htail.size_lt rfl))
      intro vs m₂ _ hm₂
      exact .pure _ hm₂

include hm in
/-- A call answers the request before it is made. -/
theorem call_succ (callee : Value) (args : List Value) (t : Token) :
    (BracketScript.call setup (n + 1) callee args t).Heeds id
      (Polls setup (n + 1) (.call callee args t) m) ((Job.call callee args t).size < n + 1) m := by
  by_cases hfits : callee.arity? = some args.length
  · rw [call_of_arity setup n t hfits]
    apply Run.Heeds.bind (.poll t hm (.call hfits))
    intro _ m₁ hok
    have hcalm := (Run.poll_ok hok).1
    rw [hm] at hcalm
    cases hcalm
  · rw [call_of_misfit setup n t hfits]
    exact .raise t _ hm

include ih hm in
theorem exec_succ (s : Stmt) :
    (BracketScript.exec setup (n + 1) s).Heeds Unwind.stopped (Polls setup (n + 1) (.stmt s) m)
      ((Job.stmt s).size < n + 1) m := by
  have hsize {job' m'} (h : Part setup n (.stmt s) m job' m') : job'.size < (Job.stmt s).size :=
    h.size_lt rfl
  have hexpr {e m'} (h : Part setup n (.stmt s) m (.expr e) m') (hm' : m'.interrupted = true) :=
    (ih.eval e hm').part h (hsize h)
  have hstmt {s' m'} (h : Part setup n (.stmt s) m (.stmt s') m') (hm' : m'.interrupted = true) :=
    (ih.exec s' hm').part h (hsize h)
  cases s with
  | expression e =>
      rw [BracketScript.exec]
      exact .eval (hexpr .expression hm)
  | block ss =>
      rw [BracketScript.exec]
      have hblock : Part setup n (.stmt (.block ss)) m _ _ := .block rfl
      apply Run.Heeds.inBlock rfl
      exact (ih.execAll ss .null (by exact hm)).part hblock (hsize hblock)
  | conditional e s otherwise =>
      rw [exec_conditional]
      apply Run.Heeds.evalThen (hexpr .question hm)
      intro v m₁ h hm₁
      split
      · next htrue => exact hstmt (.consequence h htrue) hm₁
      · next hfalse =>
          cases otherwise with
          | none => exact .pure _ hm₁
          | some s' => exact hstmt (.otherwise h (eq_false_of_ne_true hfalse)) hm₁
  | whileLoop t e s =>
      rw [BracketScript.exec]
      have hloop : Part setup n (.stmt (.whileLoop t e s)) m _ _ := .loop
      exact (ih.execWhile t e s .null hm).part hloop (hsize hloop)
  | matching t e entries =>
      rw [BracketScript.exec]
      apply Run.Heeds.evalThen (hexpr .subject hm)
      intro v m₁ h hm₁
      have hcases : Part setup n (.stmt (.matching t e entries)) m _ _ := .cases h
      exact (ih.execCases t v entries hm₁).part hcases (hsize hcases)
  | importing t names =>
      rw [BracketScript.exec]
      apply Run.Heeds.evalThen (importModule_heeds setup t names hm)
      intro _ m₁ _ hm₁
      exact .pure _ hm₁
  | returning t value =>
      rw [exec_returning]
      have hreturn : ∀ v m₁, m₁.interrupted = true →
          (Run.stop (.returned v) : Run Unwind Value).Heeds Unwind.stopped
            (Polls setup (n + 1) (.stmt (.returning t value)) m)
            ((Job.stmt (.returning t value)).size < n + 1) m₁ :=
        fun v m₁ hm₁ => .inner (.stop _) hm₁ fun hend => by cases hend
      cases value with
      | none =>
          apply Run.Heeds.bind (.pure _ hm)
          intro v m₁ _ hm₁
          exact hreturn v m₁ hm₁
      | some e =>
          apply Run.Heeds.evalThen (hexpr .returned hm)
          intro v m₁ _ hm₁
          exact hreturn v m₁ hm₁

include ih hm in
theorem execAll_succ (ss : List Stmt) (last : Value) :
    (BracketScript.execAll setup (n + 1) ss last).Heeds Unwind.stopped
      (Polls setup (n + 1) (.stmts ss last) m) ((Job.stmts ss last).size < n + 1) m := by
  cases ss with
  | nil =>
      rw [BracketScript.execAll]
      exact .pure _ hm
  | cons s ss =>
      rw [BracketScript.execAll]
      have hfirst : Part setup n (.stmts (s :: ss) last) m _ _ := .first
      apply Run.Heeds.bind ((ih.exec s hm).part hfirst (hfirst.size_lt rfl))
      intro v m₁ h hm₁
      have hrest : Part setup n (.stmts (s :: ss) last) m _ _ := .rest h
      exact (ih.execAll ss v hm₁).part hrest (hrest.size_lt rfl)

include ih hm in
/-- A loop answers the request before its first round. -/
theorem execWhile_succ (t : Token) (e : Expr) (s : Stmt) (last : Value) :
    (BracketScript.execWhile setup (n + 1) t e s last).Heeds Unwind.stopped
      (Polls setup (n + 1) (.rounds t e s last) m) ((Job.rounds t e s last).size < n + 1) m := by
  rw [BracketScript.execWhile]
  have hbody : sizeOf s ≠ 0 := by cases s <;> simp
  have hsize : (Job.expr e).size < (Job.rounds t e s last).size :=
    Nat.lt_add_of_pos_right (Nat.pos_of_ne_zero hbody)
  apply Run.Heeds.evalThen ((ih.eval e hm).part .guard hsize)
  intro v m₁ h hm₁
  split
  · next htrue =>
      apply Run.Heeds.evalThen (.poll t hm₁ (.round h htrue))
      intro _ m₂ hok
      have hcalm := (Run.poll_ok hok).1
      rw [hm₁] at hcalm
      cases hcalm
  · exact .pure _ hm₁

include ih hm in
theorem execCases_succ (t : Token) (v : Value) (entries : List MatchCase) :
    (BracketScript.execCases setup (n + 1) t v entries).Heeds Unwind.stopped
      (Polls setup (n + 1) (.cases t v entries) m) ((Job.cases t v entries).size < n + 1) m := by
  cases entries with
  | nil =>
      rw [BracketScript.execCases]
      exact .pure _ hm
  | cons entry entries =>
      obtain ⟨e, s⟩ := entry
      have hsize {job' m'} (h : Part setup n (.cases t v (⟨e, s⟩ :: entries)) m job' m') :=
        h.size_lt rfl
      have hselected : ∀ m₁, m₁.interrupted = true →
          Part setup n (.cases t v (⟨e, s⟩ :: entries)) m (.stmt s) (m₁.selected t) →
          (Run.note (.caseSelected t.line) >>= fun _ => BracketScript.exec setup n s).Heeds
            Unwind.stopped (Polls setup (n + 1) (.cases t v (⟨e, s⟩ :: entries)) m)
            ((Job.cases t v (⟨e, s⟩ :: entries)).size < n + 1) m₁ := by
        intro m₁ hm₁ h
        apply Run.Heeds.bind (.note _ hm₁)
        intro _ m₂ hnoted hm₂
        obtain ⟨-, rfl⟩ := Prod.mk.inj hnoted
        exact (ih.exec s hm₂).part h (hsize h)
      rw [BracketScript.execCases]
      split
      · next hwild => exact hselected m hm (.wildcard hwild)
      · next hwild =>
          have hplain := eq_false_of_ne_true hwild
          have hpattern : Part setup n (.cases t v (⟨e, s⟩ :: entries)) m _ _ := .pattern hplain
          apply Run.Heeds.evalThen ((ih.eval e hm).part hpattern (hsize hpattern))
          intro w m₁ h hm₁
          cases hfits : w.isEqual v with
          | true => exact hselected m₁ hm₁ (.fitting hplain h hfits)
          | false =>
              have hnext : Part setup n (.cases t v (⟨e, s⟩ :: entries)) m _ _ :=
                .unfitting hplain h hfits
              exact (ih.execCases t v entries hm₁).part hnext (hsize hnext)

end Succ

end Heeding

/-- All runs heed a request to stop. -/
theorem heeding (setup : Setup) (n : Nat) : Heeding setup n := by
  induction n with
  | zero => exact .zero
  | succ n ih =>
      exact
        { eval := fun e _ hm => ih.eval_succ hm e
          evalAll := fun es _ hm => ih.evalAll_succ hm es
          call := fun callee args t _ hm => Heeding.call_succ hm callee args t
          exec := fun s _ hm => ih.exec_succ hm s
          execAll := fun ss last _ hm => ih.execAll_succ hm ss last
          execWhile := fun t e s last _ hm => ih.execWhile_succ hm t e s last
          execCases := fun t v entries _ hm => ih.execCases_succ hm t v entries }

/-! ### A poll answers the request -/

/-- The computation is interrupted, which answers the request to stop. -/
def Run.Answers {ε α : Type} (halt : Stop → ε) (p : Run ε α) (m : Machine) : Prop :=
  ∃ line m', p m = (.error (halt (.error ⟨.interrupted, line⟩)), m') ∧ m'.interrupted = false

namespace Run.Answers

variable {ε α β : Type} {halt : Stop → ε} {m m₁ : Machine}

theorem poll (t : Token) (hm : m.interrupted = true) : (Run.poll t).Answers id m := by
  refine ⟨t.line, m.calm, ?_, rfl⟩
  rw [Run.poll, if_pos hm]
  rfl

theorem first {p : Run ε α} {k : α → Run ε β} (hp : p.Answers halt m) :
    (p >>= k).Answers halt m := by
  obtain ⟨line, m', hrun, hflag⟩ := hp
  exact ⟨line, m', Run.bind_of_error hrun, hflag⟩

theorem next {p : Run ε α} {k : α → Run ε β} {a : α} (h : p m = (.ok a, m₁))
    (hk : (k a).Answers halt m₁) : (p >>= k).Answers halt m := by
  obtain ⟨line, m', hrun, hflag⟩ := hk
  exact ⟨line, m', (Run.bind_of_ok h).trans hrun, hflag⟩

theorem eval {x : Run Stop α} (hx : x.Answers id m) : (Run.eval x).Answers Unwind.stopped m := by
  obtain ⟨line, m', hrun, hflag⟩ := hx
  refine ⟨line, m', ?_, hflag⟩
  rw [Run.eval_apply, hrun]
  rfl

theorem nextEval {x : Run Stop α} {k : α → Run Unwind β} {a : α} (h : x m = (.ok a, m₁))
    (hk : (k a).Answers Unwind.stopped m₁) : (Run.eval x >>= k).Answers Unwind.stopped m :=
  next (by rw [Run.eval_apply, h]; rfl) hk

theorem inBlock {x : Run ε α} {scope : ScopeId} {store : Store}
    (h : m.store.child m.scope .block = (scope, store))
    (hx : x.Answers halt { m with store := store, scope := scope }) :
    (Run.inBlock x).Answers halt m := by
  obtain ⟨line, m', hrun, hflag⟩ := hx
  refine ⟨line, { m' with scope := m.scope }, ?_, hflag⟩
  simp only [Run.inBlock, Run.inScope, h, hrun]

end Run.Answers

/-- A job is interrupted.  Built-in functions and the entries of a struct begin
behind a poll and are left out. -/
def Job.Answers (setup : Setup) (n : Nat) (m : Machine) : Job → Prop
  | .expr e => (eval setup n e).Answers id m
  | .exprs es => (evalAll setup n es).Answers id m
  | .call callee args bracket => (BracketScript.call setup n callee args bracket).Answers id m
  | .native _ _ _ _ | .fields _ _ => True
  | .stmt s => (exec setup n s).Answers Unwind.stopped m
  | .stmts ss last => (execAll setup n ss last).Answers Unwind.stopped m
  | .rounds t e s last => (execWhile setup n t e s last).Answers Unwind.stopped m
  | .cases t v entries => (execCases setup n t v entries).Answers Unwind.stopped m

section Flag

variable {setup : Setup} {n : Nat} {m m₁ : Machine}

theorem Run.Heeds.flag_of_ok {ε α : Type} {halt : Stop → ε} {polls enough : Prop} {p : Run ε α}
    {a : α} (hp : p.Heeds halt polls enough m) (h : p m = (.ok a, m₁)) :
    m₁.interrupted = true := by
  cases hp with
  | answered line m' reached run flag quiet =>
      rw [h] at run
      cases run
  | unasked flag quiet calm ends =>
      rw [h] at flag
      exact flag

theorem flag_of_eval {e : Expr} {v : Value} (hm : m.interrupted = true)
    (h : eval setup n e m = (.ok v, m₁)) : m₁.interrupted = true :=
  ((heeding setup n).eval e hm).flag_of_ok h

/-- A part that is interrupted interrupts the whole. -/
theorem Part.answers {job job' : Job} {m' : Machine} (h : Part setup n job m job' m')
    (hm : m.interrupted = true)
    (hpart : m'.interrupted = true → job'.Answers setup n m') :
    job.Answers setup (n + 1) m := by
  have hfuel := heeding setup n
  cases h with
  | grouping => rw [Job.Answers, eval]; exact hpart hm
  | assigned => rw [Job.Answers, eval]; exact .first (hpart hm)
  | operand => rw [Job.Answers, eval_unary]; exact .first (hpart hm)
  | left => rw [Job.Answers, eval_binary]; exact .first (hpart hm)
  | right h =>
      rw [Job.Answers, eval_binary]
      exact .next h (.first (hpart (flag_of_eval hm h)))
  | deciding => rw [Job.Answers, eval]; exact .first (hpart hm)
  | @undecided e₁ e₂ op v _ _ h hopen =>
      have hright := hpart (flag_of_eval hm h)
      rw [Job.Answers, eval]
      apply Run.Answers.next h
      by_cases hor : op.kind = .orKw
      · rw [if_pos hor, if_neg (hopen.mp hor)]
        exact hright
      · rw [if_neg hor, if_pos (not_not.mp fun hfalse => hor (hopen.mpr hfalse))]
        exact hright
  | callee => rw [Job.Answers, eval]; exact .first (hpart hm)
  | arguments h =>
      rw [Job.Answers, eval]
      exact .next h (.first (hpart (flag_of_eval hm h)))
  | call h h' =>
      rw [Job.Answers, eval]
      have hm₁ := flag_of_eval hm h
      exact .next h (.next h' (hpart ((hfuel.evalAll _ hm₁).flag_of_ok h')))
  | object => rw [Job.Answers, eval]; exact .first (hpart hm)
  | head => rw [Job.Answers, evalAll]; exact .first (hpart hm)
  | tail h =>
      rw [Job.Answers, evalAll]
      exact .next h (.first (hpart (flag_of_eval hm h)))
  | body _ hpoll | builtin _ hpoll | «instance» _ hpoll =>
      rw [hm] at hpoll
      cases hpoll
  | field | fields => exact trivial
  | expression => rw [Job.Answers, exec]; exact .eval (hpart hm)
  | block h => rw [Job.Answers, exec]; exact .inBlock h (hpart hm)
  | question => rw [Job.Answers, exec_conditional]; exact .first (.eval (hpart hm))
  | consequence h hv =>
      rw [Job.Answers, exec_conditional]
      apply Run.Answers.nextEval h
      rw [if_pos hv]
      exact hpart (flag_of_eval hm h)
  | otherwise h hv =>
      rw [Job.Answers, exec_conditional]
      apply Run.Answers.nextEval h
      rw [if_neg (by rw [hv]; exact Bool.false_ne_true)]
      exact hpart (flag_of_eval hm h)
  | loop => rw [Job.Answers, exec]; exact hpart hm
  | subject => rw [Job.Answers, exec]; exact .first (.eval (hpart hm))
  | cases h =>
      rw [Job.Answers, exec]
      exact .nextEval h (hpart (flag_of_eval hm h))
  | returned => rw [Job.Answers, exec_returning]; exact .first (.eval (hpart hm))
  | first => rw [Job.Answers, execAll]; exact .first (hpart hm)
  | rest h =>
      rw [Job.Answers, execAll]
      exact .next h (hpart ((hfuel.exec _ hm).flag_of_ok h))
  | guard => rw [Job.Answers, execWhile]; exact .first (.eval (hpart hm))
  | round h hv hpoll | rounds h hv hpoll =>
      rw [flag_of_eval hm h] at hpoll
      cases hpoll
  | wildcard he =>
      rw [Job.Answers, execCases, if_pos he]
      exact .next rfl (hpart hm)
  | pattern he =>
      rw [Job.Answers, execCases, if_neg (by rw [he]; exact Bool.false_ne_true)]
      exact .first (.eval (hpart hm))
  | fitting he h hv =>
      rw [Job.Answers, execCases, if_neg (by rw [he]; exact Bool.false_ne_true)]
      apply Run.Answers.nextEval h
      have hm₁ := flag_of_eval hm h
      rw [hv]
      exact .next rfl (.next rfl (hpart hm₁))
  | unfitting he h hv =>
      rw [Job.Answers, execCases, if_neg (by rw [he]; exact Bool.false_ne_true)]
      apply Run.Answers.nextEval h
      rw [hv]
      exact .next rfl (hpart (flag_of_eval hm h))

/-- What polls is interrupted. -/
theorem Polls.answers {job : Job} (h : Polls setup n job m) (hm : m.interrupted = true) :
    job.Answers setup n m := by
  induction h with
  | call fits =>
      rw [Job.Answers, call_of_arity setup _ _ fits]
      exact .first (.poll _ hm)
  | round h hv =>
      rw [Job.Answers, execWhile]
      apply Run.Answers.nextEval h
      rw [if_pos hv]
      exact .first (.eval (.poll _ (flag_of_eval hm h)))
  | inside hpart _ ih => exact hpart.answers hm ih

end Flag

end BracketScript
