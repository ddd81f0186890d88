import BracketScript.Proofs.Eval.Points

/-!
# Regimes along a run

A regime is kept up by a run as a whole, from where it starts to where it ends.
Here it is followed into the parts of a run.  A job fits on a machine if the
regime holds there and allows the code of the job and the values in hand
(`Regime.Fits`).  Then its parts fit as well where they begin
(`Regime.Fits.part`), and the store that a part leaves behind turns into the one
that the whole job leaves behind (`Regime.Fits.remainder`).

Only regimes are considered that ask for nothing of fuel and of lines.
-/

namespace BracketScript

namespace Job

/-- The values that a job begins with. -/
def inHand : Job → List Value
  | .call callee args _ => callee :: args
  | .native function args _ _ => .native function :: args
  | .stmts _ last => [last]
  | .rounds _ _ _ last => [last]
  | .cases _ subject _ => [subject]
  | .expr _ | .exprs _ | .fields _ _ | .stmt _ => []

/-- The value is one that a job ends with, be it by `return`. -/
def Yields (setup : Setup) (n : Nat) (m : Machine) (v : Value) : Job → Prop
  | .expr e => (eval setup n e m).1 = .ok v
  | .exprs es => ∃ vs, (evalAll setup n es m).1 = .ok vs ∧ v ∈ vs
  | .call callee args bracket => (BracketScript.call setup n callee args bracket m).1 = .ok v
  | .native function args bracket _ => (Native.apply setup function args bracket m).1 = .ok v
  | .fields _ _ => False
  | .stmt s => (exec setup n s m).1 = .ok v ∨ (exec setup n s m).1 = .error (.returned v)
  | .stmts ss last =>
    (execAll setup n ss last m).1 = .ok v ∨ (execAll setup n ss last m).1 = .error (.returned v)
  | .rounds keyword condition body last =>
    (execWhile setup n keyword condition body last m).1 = .ok v ∨
      (execWhile setup n keyword condition body last m).1 = .error (.returned v)
  | .cases keyword subject entries =>
    (execCases setup n keyword subject entries m).1 = .ok v ∨
      (execCases setup n keyword subject entries m).1 = .error (.returned v)

end Job

theorem Run.poll_of_calm {t : Token} {m : Machine} (h : m.interrupted = false) :
    Run.poll t m = (.ok (), m) := by
  unfold Run.poll
  rw [h]
  rfl

theorem Run.eval_of_ok {α : Type} {x : Run Stop α} {a : α} {m m₁ : Machine}
    (h : x m = (.ok a, m₁)) : Run.eval x m = (.ok a, m₁) := by
  rw [Run.eval_apply, h]
  rfl

/-- A case with a pattern that has to be evaluated. -/
theorem execCases_of_pattern {setup : Setup} {n : Nat} {t : Token} {subject : Value} {e : Expr}
    {s : Stmt} {entries : List MatchCase} (h : e.isWildcard = false) :
    execCases setup (n + 1) t subject (⟨e, s⟩ :: entries) =
      Run.eval (eval setup n e) >>= fun v =>
        if v.isEqual subject then Run.note (.caseSelected t.line) >>= fun _ => exec setup n s
        else execCases setup n t subject entries := by
  rw [execCases, h]
  funext m
  rcases heval : eval setup n e m with ⟨e' | v, m₁⟩
  · simp [bind, Run.andThen, Run.eval, heval]
  · simp [bind, Run.andThen, Run.eval, heval]
    rfl

/-- A call that nothing stands in the way of. -/
theorem call_of_free {setup : Setup} {n : Nat} {callee : Value} {args : List Value} (t : Token)
    {m : Machine} (harity : callee.arity? = some args.length) (hpoll : m.interrupted = false)
    (hdepth : m.depth < setup.maxDepth) :
    call setup (n + 1) callee args t m =
      ((invoke setup n callee args t (m.called callee)).1,
        { (invoke setup n callee args t (m.called callee)).2 with
          depth := (invoke setup n callee args t (m.called callee)).2.depth - 1 }) := by
  rw [call_of_arity setup n t harity, Run.bind_of_ok (Run.poll_of_calm hpoll),
    enterCall_of_lt setup hdepth]
  rfl

/-- A call with a value went all the way. -/
theorem call_ok {setup : Setup} {n : Nat} {callee : Value} {args : List Value} {t : Token}
    {v : Value} {m m' : Machine} (h : call setup n callee args t m = (.ok v, m')) :
    ∃ k m₁, n = k + 1 ∧ callee.arity? = some args.length ∧ m.interrupted = false ∧
      m.depth < setup.maxDepth ∧ invoke setup k callee args t (m.called callee) = (.ok v, m₁) ∧
      m' = { m₁ with depth := m₁.depth - 1 } := by
  cases n with
  | zero =>
      rw [call] at h
      cases h
  | succ k =>
      by_cases harity : callee.arity? = some args.length
      · rcases hpoll : Run.poll t m with ⟨stop | _, m₂⟩
        · rw [call_of_arity setup k t harity, Run.bind_of_error hpoll] at h
          cases h
        · obtain ⟨hcalm, rfl⟩ := Run.poll_ok hpoll
          by_cases hdepth : m₂.depth < setup.maxDepth
          · rw [call_of_free t harity hcalm hdepth] at h
            obtain ⟨hvalue, hmachine⟩ := Prod.mk.inj h
            refine ⟨k, _, rfl, harity, hcalm, hdepth, ?_, hmachine.symm⟩
            rw [← hvalue]
          · rw [call_of_arity setup k t harity, Run.bind_of_ok hpoll,
              enterCall_of_full setup (Nat.le_of_not_lt hdepth)] at h
            cases h
      · rw [call_of_misfit setup k t harity] at h
        cases h

namespace Regime

/-- A regime that asks for nothing of fuel and of lines. -/
structure Lasting (R : Regime) : Prop where
  enough (fuel size depth : Nat) : R.enough fuel size depth
  line (line : Nat) : R.line line

/-- The regime allows the code of a job, and the instance whose fields it sets. -/
def Allows (R : Regime) (s : Store) : Job → Prop
  | .expr e => e.EveryNode R.law
  | .exprs es => ∀ e ∈ es, e.EveryNode R.law
  | .call _ _ _ | .native _ _ _ _ => True
  | .fields id entries =>
    R.object s id ∧
      ∀ entry ∈ entries, entry.value.EveryNode R.law ∧ R.bindable entry.name.lexeme
  | .stmt s => ∃ inFunction, s.EveryNode R.law inFunction
  | .stmts ss _ => ∃ inFunction, ∀ s ∈ ss, s.EveryNode R.law inFunction
  | .rounds keyword condition body _ =>
    ∃ inFunction, (Stmt.whileLoop keyword condition body).EveryNode R.law inFunction
  | .cases _ _ entries => ∃ inFunction, ∀ entry ∈ entries,
    entry.pattern.EveryNode R.law ∧ entry.consequence.EveryNode R.law inFunction

/-- A job that may be done on a machine. -/
structure Fits (R : Regime) (job : Job) (m : Machine) : Prop where
  inv : R.inv m.store
  place : R.place m.store m.scope
  inHand : ∀ v ∈ job.inHand, R.value m.store v
  code : R.Allows m.store job

/-- What doing a job comes to. -/
structure Completes (R : Regime) (setup : Setup) (n : Nat) (job : Job) (m : Machine) : Prop where
  reaches : R.Reaches m (job.after setup n m)
  yields {v : Value} (h : job.Yields setup n m v) : R.value (job.after setup n m).store v

/-- A job begins on the second machine, on the way from the first. -/
structure Begins (R : Regime) (m : Machine) (job : Job) (m' : Machine) : Prop where
  fits : R.Fits job m'
  moves : R.moves m.store m'.store

variable {R : Regime} {setup : Setup} {n : Nat} {job job' : Job} {m m' : Machine}

theorem Keeps.of_ok {ε α : Type} {stops : Store → ε → Prop} {P : Store → α → Prop}
    {p : Run ε α} {a : α} (hp : R.Keeps stops P p m) (h : p m = (.ok a, m')) :
    R.Reaches m m' ∧ P m'.store a := by
  have hreaches := hp.reaches
  have hok := hp.ok (by rw [h])
  rw [h] at hreaches hok
  exact ⟨hreaches, hok⟩

theorem Evals.completes {α : Type} {P : Store → α → Prop} {p : Run Stop α} (hp : R.Evals P p m)
    (hafter : job.after setup n m = (p m).2)
    (hyields : ∀ v, job.Yields setup n m v → ∃ a, (p m).1 = .ok a ∧
      (P (p m).2.store a → R.value (p m).2.store v)) :
    R.Completes setup n job m where
  reaches := by
    rw [hafter]
    exact hp.reaches
  yields {v} hv := by
    obtain ⟨a, ha, hvalue⟩ := hyields v hv
    rw [hafter]
    exact hvalue (hp.ok ha)

theorem Execs.completes {p : Run Unwind Value} (hp : R.Execs R.value p m)
    (hafter : job.after setup n m = (p m).2)
    (hyields : ∀ v, job.Yields setup n m v → (p m).1 = .ok v ∨ (p m).1 = .error (.returned v)) :
    R.Completes setup n job m where
  reaches := by
    rw [hafter]
    exact hp.reaches
  yields {v} hv := by
    rw [hafter]
    rcases hyields v hv with hok | hreturned
    · exact hp.ok hok
    · exact hp.error hreturned

theorem Fits.ready (h : R.Fits job m) (lasting : R.Lasting) (n size : Nat) :
    R.Ready n size m :=
  ⟨h.inv, h.place, lasting.enough n size m.depth⟩

theorem nothing (R : Regime) (s : Store) : ∀ v ∈ ([] : List Value), R.value s v :=
  List.forall_mem_nil _

theorem Laws.null (laws : R.Laws setup) {s : Store} : ∀ v ∈ [Value.null], R.value s v := by
  rw [List.forall_mem_singleton]
  exact laws.constant s .null

section Lasting

variable (laws : R.Laws setup) (lasting : R.Lasting)

include laws lasting

/-- A job that fits keeps the regime up. -/
theorem Fits.completes (h : R.Fits job m) (n : Nat) : R.Completes setup n job m := by
  have hfuel := laws.atFuel n
  have hready := h.ready lasting n
  obtain ⟨-, -, hinHand, hcode⟩ := h
  cases job with
  | expr e => exact (hfuel.eval hcode (hready _)).completes rfl fun v hv => ⟨v, hv, id⟩
  | exprs es =>
      refine (hfuel.evalAll hcode (hready _)).completes rfl ?_
      rintro v ⟨vs, hvs, hv⟩
      exact ⟨vs, hvs, fun hall => hall v hv⟩
  | call callee args bracket =>
      obtain ⟨hcallee, hargs⟩ := List.forall_mem_cons.mp hinHand
      have hcall := hfuel.call 0 bracket hcallee hargs (hready 0).inv (hready 0).enough
        (lasting.line _)
      exact hcall.completes rfl fun v hv => ⟨v, hv, id⟩
  | native function args bracket fits =>
      have hfunction := (List.forall_mem_cons.mp hinHand).1
      have happly := laws.evals_apply (lasting.line bracket.line) (hready 0).inv hfunction fits
      exact happly.completes rfl fun v hv => ⟨v, hv, id⟩
  | fields id entries =>
      exact (hfuel.initFields id hcode.2 (hready _) hcode.1).completes rfl fun _ => False.elim
  | stmt s =>
      obtain ⟨inFunction, hcode⟩ := hcode
      exact (hfuel.exec hcode (hready _)).completes rfl fun _ => id
  | stmts ss last =>
      obtain ⟨inFunction, hcode⟩ := hcode
      exact (hfuel.execAll hcode (hinHand last (by simp [Job.inHand])) (hready _)).completes rfl
        fun _ => id
  | rounds keyword condition body last =>
      obtain ⟨inFunction, hcode⟩ := hcode
      exact (hfuel.execWhile hcode (hinHand last (by simp [Job.inHand])) (hready _)).completes rfl
        fun _ => id
  | cases keyword subject entries =>
      obtain ⟨inFunction, hcode⟩ := hcode
      exact (hfuel.execCases keyword hcode (hready _)).completes rfl fun _ => id

/-! ### Where parts begin -/

omit lasting in
/-- A part that begins where the job begins. -/
theorem Fits.here (h : R.Fits job m) (hinHand : ∀ v ∈ job'.inHand, R.value m.store v)
    (hcode : R.Allows m.store job') : R.Begins m job' m :=
  ⟨⟨h.inv, h.place, hinHand, hcode⟩, laws.refl m.store⟩

omit lasting in
/-- A part that begins after others. -/
theorem Fits.there (h : R.Fits job m) (hm : R.Reaches m m')
    (hinHand : ∀ v ∈ job'.inHand, R.value m'.store v) (hcode : R.Allows m'.store job') :
    R.Begins m job' m' :=
  ⟨⟨hm.inv, hm.place laws h.place, hinHand, hcode⟩, hm.moves⟩

/-- An expression has been evaluated first. -/
theorem Fits.after_eval {e : Expr} {v : Value} (h : R.Fits job m) (he : e.EveryNode R.law)
    (heval : eval setup n e m = (.ok v, m')) : R.Reaches m m' ∧ R.value m'.store v :=
  Keeps.of_ok ((laws.atFuel n).eval he (h.ready lasting n _)) heval

/-- A statement has been executed first. -/
theorem Fits.after_exec {inFunction : Bool} {s : Stmt} {v : Value} (h : R.Fits job m)
    (hs : s.EveryNode R.law inFunction) (hexec : exec setup n s m = (.ok v, m')) :
    R.Reaches m m' ∧ R.value m'.store v :=
  Keeps.of_ok ((laws.atFuel n).exec hs (h.ready lasting n _)) hexec

/-- The parts of a job that fits do so too. -/
theorem Fits.part (h : R.Fits job m) (hpart : Part setup n job m job' m') :
    R.Begins m job' m' := by
  have hcode := h.code
  cases hpart with
  | grouping | assigned | operand | object => exact h.here laws (R.nothing _) hcode.2
  | left | deciding | callee => exact h.here laws (R.nothing _) hcode.2.1
  | right heval | undecided heval =>
      obtain ⟨hm, -⟩ := h.after_eval laws lasting hcode.2.1 heval
      exact h.there laws hm (R.nothing _) hcode.2.2
  | arguments heval =>
      obtain ⟨hm, -⟩ := h.after_eval laws lasting hcode.2.1 heval
      exact h.there laws hm (R.nothing _) (exprsEveryNode_iff.mp hcode.2.2)
  | call heval heval' =>
      obtain ⟨hm₁, hf⟩ := h.after_eval laws lasting hcode.2.1 heval
      have hes := exprsEveryNode_iff.mp hcode.2.2
      have hargs : R.Begins m (.exprs _) _ := h.there laws hm₁ (R.nothing _) hes
      have hvalues := (laws.atFuel n).evalAll hes (hargs.fits.ready lasting n _)
      obtain ⟨hm₂, hvs⟩ := hvalues.of_ok heval'
      refine h.there laws (hm₁.trans laws hm₂) ?_ trivial
      exact List.forall_mem_cons.mpr ⟨laws.mono hm₂.moves hf, hvs⟩
  | head => exact h.here laws (R.nothing _) (hcode _ (by simp))
  | tail heval =>
      obtain ⟨he, hes⟩ := List.forall_mem_cons.mp hcode
      obtain ⟨hm, -⟩ := h.after_eval laws lasting he heval
      exact h.there laws hm (R.nothing _) hes
  | @body c _ _ _ _ _ _ _ _ hopen =>
      obtain ⟨hc, hargs⟩ := List.forall_mem_cons.mp h.inHand
      have hstart := laws.evals_openCall (m := m.called (.func c)) h.inv hc rfl
        (laws.functionParams hc) hargs
      obtain ⟨hm, hscope⟩ := hstart.of_ok hopen
      exact ⟨⟨hm.inv, hscope, laws.null, true, laws.functionLaw hc⟩, hm.moves⟩
  | builtin fits => exact ⟨⟨h.inv, h.place, h.inHand, trivial⟩, laws.refl m.store⟩
  | @«instance» d _ _ _ _ _ _ _ _ _ _ hopen hopen' =>
      obtain ⟨hd, hargs⟩ := List.forall_mem_cons.mp h.inHand
      have hstart := laws.evals_openCall (m := m.called (.struct d)) h.inv hd rfl
        (laws.structParams hd) hargs
      obtain ⟨hm₁, hscope⟩ := hstart.of_ok hopen
      have hargs₁ := fun v hv => laws.mono hm₁.moves (hargs v hv)
      obtain ⟨hm₂, hid⟩ := Keeps.of_ok (laws.evals_openInstance hm₁.inv hargs₁) hopen'
      exact ⟨⟨hm₂.inv, laws.stay hm₂.moves hscope, (R.nothing _), hid, laws.structLaw hd⟩,
        laws.trans hm₁.moves hm₂.moves⟩
  | field => exact h.here laws (R.nothing _) (List.forall_mem_cons.mp hcode.2).1.1
  | fields heval hbind =>
      obtain ⟨hid, hentries⟩ := hcode
      obtain ⟨⟨he, hname⟩, hrest⟩ := List.forall_mem_cons.mp hentries
      obtain ⟨hm₁, hv⟩ := h.after_eval laws lasting he heval
      have hset := laws.evals_bindField hm₁.inv (hm₁.place laws h.place)
        (laws.last hm₁.moves hid) hname hv
      obtain ⟨hm₂, -⟩ := hset.of_ok hbind
      have hm := hm₁.trans laws hm₂
      exact h.there laws hm (R.nothing _) ⟨laws.last hm.moves hid, hrest⟩
  | expression =>
      obtain ⟨inFunction, hcode⟩ := hcode
      exact h.here laws (R.nothing _) hcode.2
  | block hchild =>
      obtain ⟨inFunction, hcode⟩ := hcode
      have hopen := laws.openBlock h.inv h.place
      rw [hchild] at hopen
      exact ⟨⟨hopen.1.inv, hopen.2, laws.null, inFunction, stmtsEveryNode_iff.mp hcode.2⟩,
        hopen.1.moves⟩
  | question =>
      obtain ⟨inFunction, hcode⟩ := hcode
      exact h.here laws (R.nothing _) (Stmt.everyNode_conditional.mp hcode).2.1
  | consequence heval =>
      obtain ⟨inFunction, hcode⟩ := hcode
      obtain ⟨-, he, hs, -⟩ := Stmt.everyNode_conditional.mp hcode
      obtain ⟨hm, -⟩ := h.after_eval laws lasting he heval
      exact h.there laws hm (R.nothing _) ⟨inFunction, hs⟩
  | otherwise heval =>
      obtain ⟨inFunction, hcode⟩ := hcode
      obtain ⟨-, he, -, hs⟩ := Stmt.everyNode_conditional.mp hcode
      obtain ⟨hm, -⟩ := h.after_eval laws lasting he heval
      exact h.there laws hm (R.nothing _) ⟨inFunction, hs _ rfl⟩
  | loop => exact h.here laws laws.null hcode
  | subject =>
      obtain ⟨inFunction, hcode⟩ := hcode
      exact h.here laws (R.nothing _) hcode.2.1
  | cases heval =>
      obtain ⟨inFunction, hcode⟩ := hcode
      obtain ⟨hm, hv⟩ := h.after_eval laws lasting hcode.2.1 heval
      exact h.there laws hm (by simpa [Job.inHand] using hv)
        ⟨inFunction, casesEveryNode_iff.mp hcode.2.2⟩
  | returned =>
      obtain ⟨inFunction, hcode⟩ := hcode
      exact h.here laws (R.nothing _) ((Stmt.everyNode_returning.mp hcode).2 _ rfl)
  | first =>
      obtain ⟨inFunction, hcode⟩ := hcode
      exact h.here laws (R.nothing _) ⟨inFunction, hcode _ (by simp)⟩
  | rest hexec =>
      obtain ⟨inFunction, hcode⟩ := hcode
      obtain ⟨hs, hss⟩ := List.forall_mem_cons.mp hcode
      obtain ⟨hm, hv⟩ := h.after_exec laws lasting hs hexec
      exact h.there laws hm (by simpa [Job.inHand] using hv) ⟨inFunction, hss⟩
  | guard =>
      obtain ⟨inFunction, hcode⟩ := hcode
      exact h.here laws (R.nothing _) hcode.2.1
  | round heval =>
      obtain ⟨inFunction, hcode⟩ := hcode
      obtain ⟨hm, -⟩ := h.after_eval laws lasting hcode.2.1 heval
      exact h.there laws hm (R.nothing _) ⟨inFunction, hcode.2.2⟩
  | rounds heval _ _ hexec =>
      obtain ⟨inFunction, hcode⟩ := hcode
      obtain ⟨hm₁, -⟩ := h.after_eval laws lasting hcode.2.1 heval
      have hbody : R.Begins m (.stmt _) _ := h.there laws hm₁ (R.nothing _) ⟨inFunction, hcode.2.2⟩
      obtain ⟨hm₂, hw⟩ := hbody.fits.after_exec laws lasting hcode.2.2 hexec
      exact h.there laws (hm₁.trans laws hm₂) (by simpa [Job.inHand] using hw)
        ⟨inFunction, hcode⟩
  | wildcard =>
      obtain ⟨inFunction, hcode⟩ := hcode
      exact h.there laws (laws.reaches_of_eq h.inv rfl rfl rfl) (R.nothing _)
        ⟨inFunction, (List.forall_mem_cons.mp hcode).1.2⟩
  | pattern =>
      obtain ⟨inFunction, hcode⟩ := hcode
      exact h.here laws (R.nothing _) (List.forall_mem_cons.mp hcode).1.1
  | fitting _ heval =>
      obtain ⟨inFunction, hcode⟩ := hcode
      obtain ⟨⟨he, hs⟩, -⟩ := List.forall_mem_cons.mp hcode
      obtain ⟨hm, -⟩ := h.after_eval laws lasting he heval
      exact h.there laws (hm.trans laws (laws.reaches_of_eq hm.inv rfl rfl rfl)) (R.nothing _)
        ⟨inFunction, hs⟩
  | unfitting _ heval =>
      obtain ⟨inFunction, hcode⟩ := hcode
      obtain ⟨⟨he, -⟩, hrest⟩ := List.forall_mem_cons.mp hcode
      obtain ⟨hm, -⟩ := h.after_eval laws lasting he heval
      exact h.there laws hm (fun v hv => laws.mono hm.moves (h.inHand v hv)) ⟨inFunction, hrest⟩

/-! ### What becomes of what parts leave behind -/

section Moves

variable {ε α β : Type}

omit lasting

theorem Laws.moves_bind {p : Run ε α} {k : α → Run ε β}
    (hk : ∀ a m₁, p m = (.ok a, m₁) → R.moves m₁.store (k a m₁).2.store) :
    R.moves (p m).2.store ((p >>= k) m).2.store := by
  rcases hpm : p m with ⟨e | a, m₁⟩
  · rw [Run.bind_of_error hpm]
    exact laws.refl m₁.store
  · rw [Run.bind_of_ok hpm]
    exact hk a m₁ hpm

theorem Laws.moves_evalThen {x : Run Stop α} {k : α → Run Unwind β}
    (hk : ∀ a m₁, x m = (.ok a, m₁) → R.moves m₁.store (k a m₁).2.store) :
    R.moves (x m).2.store ((Run.eval x >>= k) m).2.store := by
  have hbind := laws.moves_bind (p := Run.eval x) (k := k) (m := m) fun a m₁ heval =>
    hk a m₁ (Run.eval_ok heval)
  rw [Run.eval_apply] at hbind
  exact hbind

theorem Laws.moves_poll {t : Token} {k : Unit → Run Unwind β}
    (hk : m.interrupted = false → R.moves m.store (k () m).2.store) :
    R.moves m.store ((Run.eval (Run.poll t) >>= k) m).2.store := by
  have hbind := laws.moves_evalThen (x := Run.poll t) (k := k) (m := m)
  rw [Run.poll_apply] at hbind
  apply hbind
  intro a m₁ hok
  split at hok
  · cases hok
  · next hflag =>
      obtain ⟨-, rfl⟩ := Prod.mk.inj hok
      have hcalm := eq_false_of_ne_true hflag
      rw [← hcalm]
      exact hk hcalm

theorem Laws.moves_orRaise {t : Token} {r : Except RuntimeFault Value} :
    R.moves m.store (orRaise t r m).2.store := by
  cases r <;> exact laws.refl m.store

end Moves

/-- What there is when a part ends turns into what there is when the whole job
ends. -/
theorem Fits.remainder (h : R.Fits job m) (hpart : Part setup n job m job' m') :
    R.moves (job'.after setup n m').store (job.after setup (n + 1) m).store := by
  have hcode := h.code
  -- The parts that follow keep the regime up, each from where it begins.
  have hgo : ∀ {next : Job} {m₁ : Machine}, Part setup n job m next m₁ →
      R.moves m₁.store (next.after setup n m₁).store :=
    fun hnext => ((h.part laws lasting hnext).fits.completes laws lasting n).reaches.moves
  cases hpart with
  | grouping =>
      rw [Job.after, Job.after, eval]
      exact laws.refl _
  | assigned =>
      rw [Job.after, Job.after, eval]
      apply laws.moves_bind
      intro v m₁ heval
      obtain ⟨hm, hv⟩ := h.after_eval laws lasting hcode.2 heval
      have hassign := laws.evals_assignTo hcode.1 hm.inv (hm.place laws h.place) hv
      refine laws.trans hassign.reaches.moves (laws.moves_bind ?_)
      exact fun _ m₂ _ => laws.refl m₂.store
  | operand =>
      rw [Job.after, Job.after, eval_unary]
      exact laws.moves_bind fun _ _ _ => laws.moves_orRaise
  | left =>
      rw [Job.after, Job.after, eval_binary]
      apply laws.moves_bind
      intro v m₁ heval
      exact laws.trans (hgo (.right heval)) (laws.moves_bind fun _ _ _ => laws.moves_orRaise)
  | right heval =>
      rw [Job.after, Job.after, eval_binary, Run.bind_of_ok heval]
      exact laws.moves_bind fun _ _ _ => laws.moves_orRaise
  | deciding =>
      rw [Job.after, Job.after, eval]
      apply laws.moves_bind
      intro v m₁ heval
      split
      · next hor =>
          split
          · exact laws.refl m₁.store
          · next hfalse => exact hgo (.undecided heval (iff_of_true hor hfalse))
      · next hor =>
          split
          · next htrue => exact hgo (.undecided heval (iff_of_false hor (not_not_intro htrue)))
          · exact laws.refl m₁.store
  | @undecided _ _ op _ _ _ heval hopen =>
      rw [Job.after, Job.after, eval, Run.bind_of_ok heval]
      by_cases hor : op.kind = .orKw
      · rw [if_pos hor, if_neg (hopen.mp hor)]
        exact laws.refl _
      · rw [if_neg hor, if_pos (not_not.mp fun hfalse => hor (hopen.mpr hfalse))]
        exact laws.refl _
  | callee =>
      rw [Job.after, Job.after, eval]
      apply laws.moves_bind
      intro f m₁ heval
      refine laws.trans (hgo (.arguments heval)) (laws.moves_bind ?_)
      exact fun vs m₂ heval' => hgo (.call heval heval')
  | arguments heval =>
      rw [Job.after, Job.after, eval, Run.bind_of_ok heval]
      exact laws.moves_bind fun vs m₂ heval' => hgo (.call heval heval')
  | call heval heval' =>
      rw [Job.after, Job.after, eval, Run.bind_of_ok heval, Run.bind_of_ok heval']
      exact laws.refl _
  | object =>
      rw [Job.after, Job.after, eval]
      apply laws.moves_bind
      intro v m₁ heval
      obtain ⟨hm, hv⟩ := h.after_eval laws lasting hcode.2 heval
      exact (laws.evals_readAttribute (lasting.line _) hm.inv hv).reaches.moves
  | head =>
      rw [Job.after, Job.after, evalAll]
      apply laws.moves_bind
      intro v m₁ heval
      refine laws.trans (hgo (.tail heval)) (laws.moves_bind ?_)
      exact fun _ m₂ _ => laws.refl m₂.store
  | tail heval =>
      rw [Job.after, Job.after, evalAll, Run.bind_of_ok heval]
      exact laws.moves_bind fun _ m₂ _ => laws.refl m₂.store
  | body fits hpoll hdepth hopen =>
      rw [Job.after, Job.after, call_of_free _ (by rw [Value.arity?, fits]) hpoll hdepth]
      show R.moves _ (enterFunction _ _ _ _).2.store
      rw [enterFunction, Run.bind_of_ok hopen, Run.body_apply]
      exact laws.refl _
  | builtin fits hpoll hdepth =>
      rw [Job.after, Job.after, call_of_free _ (by rw [Value.arity?, fits]) hpoll hdepth]
      exact laws.refl _
  | «instance» fits hpoll hdepth hopen hopen' =>
      rw [Job.after, Job.after, call_of_free _ (by rw [Value.arity?, fits]) hpoll hdepth]
      show R.moves _ (enterStruct _ _ _ _).2.store
      rw [enterStruct, Run.bind_of_ok hopen, Run.bind_of_ok hopen']
      exact laws.moves_bind (p := Run.inScope _ _) fun _ m₂ _ => laws.refl m₂.store
  | field =>
      rw [Job.after, Job.after, initFields_cons]
      apply laws.moves_bind
      intro v m₁ heval
      obtain ⟨hm, hv⟩ := h.after_eval laws lasting (List.forall_mem_cons.mp hcode.2).1.1 heval
      have hset := laws.evals_bindField hm.inv (hm.place laws h.place)
        (laws.last hm.moves hcode.1) (List.forall_mem_cons.mp hcode.2).1.2 hv
      exact laws.trans hset.reaches.moves (laws.moves_bind fun _ _ hbind => hgo (.fields heval hbind))
  | fields heval hbind =>
      rw [Job.after, Job.after, initFields_cons, Run.bind_of_ok heval, Run.bind_of_ok hbind]
      exact laws.refl _
  | expression =>
      rw [Job.after, Job.after, exec, Run.eval_apply]
      exact laws.refl _
  | block hchild =>
      rw [Job.after, Job.after, exec, Run.inBlock, hchild]
      exact laws.refl _
  | question =>
      rw [Job.after, Job.after, exec_conditional]
      apply laws.moves_evalThen
      intro v m₁ heval
      split
      · next htrue => exact hgo (.consequence heval htrue)
      · next hfalse =>
          cases ‹Option Stmt› with
          | none => exact laws.refl m₁.store
          | some s' => exact hgo (.otherwise heval (eq_false_of_ne_true hfalse))
  | consequence heval hv =>
      rw [Job.after, Job.after, exec_conditional, Run.bind_of_ok (Run.eval_of_ok heval), if_pos hv]
      exact laws.refl _
  | otherwise heval hv =>
      rw [Job.after, Job.after, exec_conditional, Run.bind_of_ok (Run.eval_of_ok heval), hv]
      exact laws.refl _
  | loop =>
      rw [Job.after, Job.after, exec]
      exact laws.refl _
  | subject =>
      rw [Job.after, Job.after, exec]
      exact laws.moves_evalThen fun v m₁ heval => hgo (.cases heval)
  | cases heval =>
      rw [Job.after, Job.after, exec, Run.bind_of_ok (Run.eval_of_ok heval)]
      exact laws.refl _
  | returned =>
      rw [Job.after, Job.after, exec_returning]
      exact laws.moves_evalThen fun _ m₁ _ => laws.refl m₁.store
  | first =>
      rw [Job.after, Job.after, execAll]
      exact laws.moves_bind fun v m₁ hexec => hgo (.rest hexec)
  | rest hexec =>
      rw [Job.after, Job.after, execAll, Run.bind_of_ok hexec]
      exact laws.refl _
  | guard =>
      rw [Job.after, Job.after, execWhile]
      apply laws.moves_evalThen
      intro v m₁ heval
      split
      · next htrue =>
          apply laws.moves_poll
          intro hcalm
          refine laws.trans (hgo (.round heval htrue hcalm)) (laws.moves_bind ?_)
          exact fun w m₂ hexec => hgo (.rounds heval htrue hcalm hexec)
      · exact laws.refl m₁.store
  | round heval hv hcalm =>
      rw [Job.after, Job.after, execWhile, Run.bind_of_ok (Run.eval_of_ok heval), if_pos hv,
        Run.bind_of_ok (Run.eval_of_ok (Run.poll_of_calm hcalm))]
      exact laws.moves_bind fun w m₂ hexec => hgo (.rounds heval hv hcalm hexec)
  | rounds heval hv hcalm hexec =>
      rw [Job.after, Job.after, execWhile, Run.bind_of_ok (Run.eval_of_ok heval), if_pos hv,
        Run.bind_of_ok (Run.eval_of_ok (Run.poll_of_calm hcalm)), Run.bind_of_ok hexec]
      exact laws.refl _
  | wildcard he =>
      rw [Job.after, Job.after, execCases, if_pos he]
      exact laws.refl _
  | pattern he =>
      rw [Job.after, Job.after, execCases_of_pattern he]
      apply laws.moves_evalThen
      intro v m₁ heval
      split
      · next hfits => exact hgo (.fitting he heval hfits)
      · next hmiss => exact hgo (.unfitting he heval (eq_false_of_ne_true hmiss))
  | fitting he heval hv =>
      rw [Job.after, Job.after, execCases_of_pattern he,
        Run.bind_of_ok (Run.eval_of_ok heval), if_pos hv]
      exact laws.refl _
  | unfitting he heval hv =>
      rw [Job.after, Job.after, execCases_of_pattern he,
        Run.bind_of_ok (Run.eval_of_ok heval), hv]
      exact laws.refl _

end Lasting

end Regime

/-! ### Parts of parts -/

/-- While the first job is done, with some fuel from some machine, the second one
is, with the fuel and from the machine that stand behind it. -/
inductive Inside (setup : Setup) : Nat → Job → Machine → Nat → Job → Machine → Prop
  | whole {n : Nat} {job : Job} {m : Machine} : Inside setup n job m n job m
  | part {n k : Nat} {job job' job'' : Job} {m m' m'' : Machine}
    (h : Inside setup n job m (k + 1) job' m') (hpart : Part setup k job' m' job'' m'') :
    Inside setup n job m k job'' m''

theorem Inside.fits {R : Regime} {setup : Setup} (laws : R.Laws setup) (lasting : R.Lasting)
    {n k : Nat} {job job' : Job} {m m' : Machine} (h : Inside setup n job m k job' m')
    (hfits : R.Fits job m) : R.Fits job' m' := by
  induction h with
  | whole => exact hfits
  | part _ hpart ih => exact ((ih hfits).part laws lasting hpart).fits

/-- What there is when a job begins turns into what there is when part of it
does. -/
theorem Inside.moves {R : Regime} {setup : Setup} (laws : R.Laws setup) (lasting : R.Lasting)
    {n k : Nat} {job job' : Job} {m m' : Machine} (h : Inside setup n job m k job' m')
    (hfits : R.Fits job m) : R.moves m.store m'.store := by
  induction h with
  | whole => exact laws.refl _
  | part h hpart ih =>
      have hbegins := (h.fits laws lasting hfits).part laws lasting hpart
      exact laws.trans (ih hfits) hbegins.moves

end BracketScript
