import BracketScript.Proofs.Eval.Steps
import BracketScript.Proofs.Grammar.Lines
import BracketScript.Proofs.Value.Tokens

/-!
# Runs that agree up to lines

Two programs that differ in the lines of their tokens only do the same on
machines that differ in such lines only.  This module makes it precise and
proves it, by showing for each step of evaluation that two computations agree
(`Agrees`) and leaving the rest to `EvalSteps.atFuel`.

Agreement comes in two kinds.  If the two machines share their input, nothing
else is asked.  If they do not, then agreement is claimed of runs that do not
call `input`, and such a run leaves the input as it is.  That `input` is called
shows in the log, where events are only ever added (`Machine.Onward`).
-/

namespace BracketScript

/-- Equal up to lines. -/
def Value.Alike (v w : Value) : Prop :=
  v.mapTokens Token.sansLine = w.mapTokens Token.sansLine

/-- Equal up to lines. -/
def Store.Alike (store store' : Store) : Prop :=
  store.mapTokens Token.sansLine = store'.mapTokens Token.sansLine

/-- The reason for stopping without its line. -/
def Stop.sansLine : Stop → Stop
  | .error e => .error ⟨e.fault, 0⟩
  | .exhausted => .exhausted
  | .broken => .broken

/-- The reason for ending early without its lines. -/
def Unwind.sansLines : Unwind → Unwind
  | .returned v => .returned (v.mapTokens Token.sansLine)
  | .stopped s => .stopped s.sansLine

/-- Whether an event is a call of `input`. -/
def Event.isInputCall : Event → Bool
  | .called (.native .input) _ => true
  | _ => false

namespace Machine

/-- How often `input` has been called. -/
def inputCalls (m : Machine) : Nat :=
  m.log.toList.countP Event.isInputCall

/-- The failures reported to the user. -/
def reports (m : Machine) : List String :=
  m.log.toList.filterMap Event.reported?

/-- What running does to a machine in any case: events are added to the log,
none of which reports a failure, and nobody asks the program to stop. -/
structure Onward (m m' : Machine) : Prop where
  log : ∃ new, m'.log.toList = m.log.toList ++ new ∧ ∀ e ∈ new, Event.reported? e = none
  interrupted : m'.interrupted = true → m.interrupted = true

theorem Onward.refl (m : Machine) : m.Onward m :=
  ⟨⟨[], by simp⟩, id⟩

theorem Onward.trans {m m' m'' : Machine} (h : m.Onward m') (h' : m'.Onward m'') :
    m.Onward m'' := by
  obtain ⟨new, hlog, hnew⟩ := h.log
  obtain ⟨new', hlog', hnew'⟩ := h'.log
  refine ⟨⟨new ++ new', by rw [hlog', hlog, List.append_assoc], ?_⟩, h.interrupted ∘ h'.interrupted⟩
  intro e he
  rcases List.mem_append.mp he with he | he
  · exact hnew e he
  · exact hnew' e he

theorem Onward.inputCalls_le {m m' : Machine} (h : m.Onward m') : m.inputCalls ≤ m'.inputCalls := by
  obtain ⟨new, hlog, -⟩ := h.log
  rw [inputCalls, inputCalls, hlog, List.countP_append]
  omega

theorem Onward.reports_eq {m m' : Machine} (h : m.Onward m') : m'.reports = m.reports := by
  obtain ⟨new, hlog, hnew⟩ := h.log
  rw [reports, reports, hlog, List.filterMap_append, List.filterMap_eq_nil_iff.mpr hnew,
    List.append_nil]

/-- What does not touch the log and the flag. -/
theorem Onward.of_eq {m m' : Machine} (hlog : m'.log = m.log)
    (hflag : m'.interrupted = m.interrupted) : m.Onward m' :=
  ⟨⟨[], by simp [hlog]⟩, fun h => hflag ▸ h⟩

/-- Two machines that differ in lines, in the log, and possibly in what they
have to read. -/
structure Alike (shared : Bool) (m m' : Machine) : Prop where
  store : m.store.Alike m'.store
  scope : m.scope = m'.scope
  depth : m.depth = m'.depth
  interrupted : m.interrupted = m'.interrupted
  readings : m.readings = m'.readings
  written : m.console.written = m'.console.written
  room : m.console.room = m'.console.room
  input : shared = true → m.console.input = m'.console.input

theorem Alike.refl (shared : Bool) (m : Machine) : m.Alike shared m :=
  ⟨rfl, rfl, rfl, rfl, rfl, rfl, rfl, fun _ => rfl⟩

theorem Alike.symm {shared : Bool} {m m' : Machine} (h : m.Alike shared m') :
    m'.Alike shared m :=
  ⟨h.store.symm, h.scope.symm, h.depth.symm, h.interrupted.symm, h.readings.symm, h.written.symm,
    h.room.symm, fun hs => (h.input hs).symm⟩

theorem Alike.trans {shared : Bool} {m m' m'' : Machine} (h : m.Alike shared m')
    (h' : m'.Alike shared m'') : m.Alike shared m'' :=
  ⟨h.store.trans h'.store, h.scope.trans h'.scope, h.depth.trans h'.depth,
    h.interrupted.trans h'.interrupted, h.readings.trans h'.readings, h.written.trans h'.written,
    h.room.trans h'.room, fun hs => (h.input hs).trans (h'.input hs)⟩

/-- Machines that need not have the same to read stay alike whatever one of them
has to read. -/
theorem Alike.withInput {m m' : Machine} (h : m.Alike false m') (input : List UInt8) :
    m.Alike false { m' with console := { m'.console with input := input } } :=
  ⟨h.store, h.scope, h.depth, h.interrupted, h.readings, h.written, h.room, nofun⟩

end Machine

/-- Two ends: with values in a relation, or early for the same reason. -/
inductive Ends {ε α : Type} (erase : ε → ε) (R : α → α → Prop) :
    Except ε α → Except ε α → Prop
  | ok {a b : α} (h : R a b) : Ends erase R (.ok a) (.ok b)
  | error {e e' : ε} (h : erase e = erase e') : Ends erase R (.error e) (.error e')

/-- What comes of agreeing runs that started from alike machines, the second
one from `m'`. -/
structure Outcome {ε α : Type} (shared : Bool) (erase : ε → ε) (R : α → α → Prop) (m' : Machine)
    (first second : Except ε α × Machine) : Prop where
  ends : Ends erase R first.1 second.1
  machine : first.2.Alike shared second.2
  input : shared = false → second.2.console.input = m'.console.input

/-- Two computations that agree up to lines, unless the first is out of fuel
(it ends with `lost`) or calls `input` where the input is not shared. -/
structure Agrees {ε α : Type} (shared : Bool) (erase : ε → ε) (lost : ε) (R : α → α → Prop)
    (p q : Run ε α) : Prop where
  onward (m : Machine) : m.Onward (p m).2
  total {m : Machine} {a : α} (h : (p m).1 = .ok a) : ∃ b, R a b
  agree {m m' : Machine} (h : m.Alike shared m') (hends : (p m).1 ≠ .error lost)
    (hquiet : shared = true ∨ (p m).2.inputCalls = m.inputCalls) :
    Outcome shared erase R m' (p m) (q m')

/-- Agreement of evaluations. -/
abbrev EvalsAgree {α : Type} (shared : Bool) (R : α → α → Prop) (p q : Run Stop α) : Prop :=
  Agrees shared Stop.sansLine .exhausted R p q

/-- Agreement of executions. -/
abbrev ExecsAgree {α : Type} (shared : Bool) (R : α → α → Prop) (p q : Run Unwind α) : Prop :=
  Agrees shared Unwind.sansLines (.stopped .exhausted) R p q

/-! ### Computations in general -/

/-- A step that looks at the store and the current scope, and changes the store
only. -/
def Run.atScope {ε α : Type} (f : Store → ScopeId → Except ε α × Store) : Run ε α :=
  fun m => ((f m.store m.scope).1, { m with store := (f m.store m.scope).2 })

/-- The end of a function's call, from the end of its body. -/
def Unwind.ofBody : Except Unwind Value → Except Stop Value
  | .ok v => .ok v
  | .error (.returned v) => .ok v
  | .error (.stopped e) => .error e

namespace Run

theorem eval_apply {α : Type} (x : Run Stop α) (m : Machine) :
    Run.eval x m = ((x m).1.mapError .stopped, (x m).2) := by
  rcases hxm : x m with ⟨_ | _, m₁⟩ <;> simp [Run.eval, hxm, Except.mapError]

theorem body_apply (x : Run Unwind Value) (m : Machine) :
    Run.body x m = (Unwind.ofBody (x m).1, (x m).2) := by
  rcases hxm : x m with ⟨(_ | _) | _, m₁⟩ <;> simp [Run.body, hxm, Unwind.ofBody]

theorem lookup_eq_atScope (t : Token) :
    Run.lookup t = Run.atScope fun store scope =>
      ((store.lookup scope t.lexeme).elim
        (.error (.error ⟨.undefinedVariable t.lexeme, t.line⟩)) .ok, store) := by
  funext m
  cases h : m.store.lookup m.scope t.lexeme <;> simp [Run.lookup, Run.atScope, h]

theorem inBlock_eq_bind {ε α : Type} (x : Run ε α) :
    Run.inBlock x =
      Run.atScope (fun store scope => (.ok (store.child scope .block).1,
        (store.child scope .block).2)) >>= fun scope => Run.inScope scope x :=
  rfl

end Run

theorem openCall_eq_atScope (outer : ScopeId) (params : List Token) (args : List Value) :
    openCall outer params args = Run.atScope fun store _ =>
      (.ok (store.child outer .function).1,
        (params.zip args).foldl
          (fun s pair => s.define (store.child outer .function).1 pair.1.lexeme pair.2)
          (store.child outer .function).2) :=
  rfl

theorem openInstance_eq_atScope (params : List Token) (args : List Value) :
    openInstance params args = Run.atScope fun store _ =>
      (.ok store.newInstance.1,
        (params.zip args).foldl
          (fun s pair => s.setField store.newInstance.1 pair.1.lexeme pair.2)
          store.newInstance.2) :=
  rfl

namespace Agrees

variable {ε α β : Type} {shared : Bool} {erase : ε → ε} {lost : ε}
variable {R : α → α → Prop} {T : β → β → Prop} {p q : Run ε α}

theorem pure {a b : α} (h : R a b) :
    Agrees shared erase lost R (pure a : Run ε α) (pure b : Run ε α) where
  onward m := .refl m
  total hok := ⟨b, Except.ok.inj hok ▸ h⟩
  agree halike _ _ := ⟨.ok h, halike, fun _ => rfl⟩

theorem stop {e e' : ε} (h : erase e = erase e') :
    Agrees shared erase lost R (Run.stop e : Run ε α) (Run.stop e' : Run ε α) where
  onward m := .refl m
  total hok := by cases hok
  agree halike _ _ := ⟨.error h, halike, fun _ => rfl⟩

/-- A run that is out of fuel agrees with everything. -/
theorem exhausted (q : Run ε α) : Agrees shared erase lost R (Run.stop lost : Run ε α) q where
  onward m := .refl m
  total hok := by cases hok
  agree _ hends _ := absurd rfl hends

theorem bind {k l : α → Run ε β} (hp : Agrees shared erase lost R p q)
    (hk : ∀ a b, R a b → Agrees shared erase lost T (k a) (l b)) :
    Agrees shared erase lost T (p >>= k) (q >>= l) where
  onward m := by
    rcases hpm : p m with ⟨e | a, m₁⟩
    · rw [Run.bind_of_error hpm]
      simpa [hpm] using hp.onward m
    · rw [Run.bind_of_ok hpm]
      obtain ⟨b, hb⟩ := hp.total (m := m) (by rw [hpm])
      have hfirst := hp.onward m
      rw [hpm] at hfirst
      exact hfirst.trans ((hk a b hb).onward m₁)
  total {m c} hok := by
    rcases hpm : p m with ⟨e | a, m₁⟩
    · rw [Run.bind_of_error hpm] at hok
      cases hok
    · rw [Run.bind_of_ok hpm] at hok
      obtain ⟨b, hb⟩ := hp.total (m := m) (by rw [hpm])
      exact (hk a b hb).total hok
  agree {m m'} halike hends hquiet := by
    rcases hpm : p m with ⟨e | a, m₁⟩
    · rw [Run.bind_of_error hpm] at hends hquiet ⊢
      have hlost : (p m).1 ≠ .error lost := by
        rw [hpm]
        exact fun heq => hends (congrArg Except.error (Except.error.inj heq))
      have hfirst := hp.agree halike hlost (by rw [hpm]; exact hquiet)
      rcases hqm : q m' with ⟨e' | b, m₁'⟩ <;> rw [hpm, hqm] at hfirst
      · rw [Run.bind_of_error hqm]
        obtain ⟨hended, hmachine, hinput⟩ := hfirst
        cases hended with
        | error h => exact ⟨.error h, hmachine, hinput⟩
      · cases hfirst.ends
    · rw [Run.bind_of_ok hpm] at hends hquiet ⊢
      obtain ⟨b₀, hb₀⟩ := hp.total (m := m) (by rw [hpm])
      -- The first part is quiet too, since calls are never taken out of the log.
      have hquiet₁ : shared = true ∨ m₁.inputCalls = m.inputCalls := by
        refine hquiet.imp_right fun hcalls => ?_
        have hle := (hp.onward m).inputCalls_le
        have hle' := ((hk a b₀ hb₀).onward m₁).inputCalls_le
        rw [hpm] at hle
        simp only at hle
        omega
      have hfirst := hp.agree halike (by rw [hpm]; exact nofun) (by rw [hpm]; exact hquiet₁)
      rcases hqm : q m' with ⟨e' | b, m₁'⟩ <;> rw [hpm, hqm] at hfirst
      · cases hfirst.ends
      · obtain ⟨hended, hmachine, hinput⟩ := hfirst
        rw [Run.bind_of_ok hqm]
        cases hended with
        | ok hb =>
            have hquiet₂ : shared = true ∨ (k a m₁).2.inputCalls = m₁.inputCalls := by
              rcases hquiet with h | h
              · exact Or.inl h
              · rcases hquiet₁ with h₁ | h₁
                · exact Or.inl h₁
                · exact Or.inr (h.trans h₁.symm)
            have hsecond := (hk a b hb).agree hmachine hends hquiet₂
            exact ⟨hsecond.ends, hsecond.machine, fun h => (hsecond.input h).trans (hinput h)⟩

theorem atScope {f f' : Store → ScopeId → Except ε α × Store} (hrefl : ∀ a, R a a)
    (h : ∀ (store store' : Store) scope, store.Alike store' →
      Ends erase R (f store scope).1 (f' store' scope).1 ∧
        (f store scope).2.Alike (f' store' scope).2) :
    Agrees shared erase lost R (Run.atScope f) (Run.atScope f') where
  onward m := .of_eq rfl rfl
  total {m a} _ := ⟨a, hrefl a⟩
  agree {m m'} halike _ _ := by
    have hstep := h m.store m'.store m.scope halike.store
    rw [show f' m'.store m.scope = f' m'.store m'.scope by rw [halike.scope]] at hstep
    exact ⟨hstep.1, { halike with store := hstep.2 }, fun _ => rfl⟩

/-- Agreeing computations whose ends are taken for other ends. -/
theorem mapEnd {ε' : Type} {erase' : ε' → ε'} {lost' : ε'} {g : Except ε α → Except ε' β}
    {x y : Run ε' β} (hp : Agrees shared erase lost R p q)
    (hx : ∀ m, x m = (g (p m).1, (p m).2)) (hy : ∀ m, y m = (g (q m).1, (q m).2))
    (hlost : g (.error lost) = .error lost')
    (htotal : ∀ r c, g r = .ok c → (∀ a, r = .ok a → ∃ b, R a b) → ∃ d, T c d)
    (hends : ∀ r r', Ends erase R r r' → Ends erase' T (g r) (g r')) :
    Agrees shared erase' lost' T x y where
  onward m := by
    rw [hx]
    exact hp.onward m
  total {m c} hok := by
    rw [hx] at hok
    exact htotal _ c hok fun a ha => hp.total ha
  agree {m m'} halike hnot hquiet := by
    rw [hx] at hnot hquiet ⊢
    rw [hy]
    have h := hp.agree halike (fun heq => hnot (by rw [heq, hlost])) hquiet
    exact ⟨hends _ _ h.ends, h.machine, h.input⟩

theorem inScope (hp : Agrees shared erase lost R p q) (scope : ScopeId) :
    Agrees shared erase lost R (Run.inScope scope p) (Run.inScope scope q) where
  onward m := by
    have h := hp.onward { m with scope := scope }
    exact ⟨h.log, h.interrupted⟩
  total hok := hp.total hok
  agree {m m'} halike hends hquiet := by
    have hinside : Machine.Alike shared { m with scope := scope } { m' with scope := scope } :=
      { halike with scope := rfl }
    have h := hp.agree hinside hends hquiet
    exact ⟨h.ends, { h.machine with scope := halike.scope }, h.input⟩

theorem deeper (hp : Agrees shared erase lost R p q) :
    Agrees shared erase lost R (Run.deeper p) (Run.deeper q) where
  onward m := by
    have h := hp.onward { m with depth := m.depth + 1 }
    exact ⟨h.log, h.interrupted⟩
  total hok := hp.total hok
  agree {m m'} halike hends hquiet := by
    have hinside : Machine.Alike shared { m with depth := m.depth + 1 }
        { m' with depth := m'.depth + 1 } :=
      { halike with depth := congrArg (· + 1) halike.depth }
    have h := hp.agree hinside hends hquiet
    exact ⟨h.ends, { h.machine with depth := congrArg (· - 1) h.machine.depth }, h.input⟩

theorem inBlock (hp : Agrees shared erase lost R p q) :
    Agrees shared erase lost R (Run.inBlock p) (Run.inBlock q) := by
  rw [Run.inBlock_eq_bind, Run.inBlock_eq_bind]
  refine .bind (R := Eq) (.atScope (fun _ => rfl) fun store store' scope hstore => ?_) ?_
  · have hchild := congrArg (fun s => Store.child s scope .block) hstore
    simp only [Store.child_mapTokens] at hchild
    exact ⟨.ok (Prod.ext_iff.mp hchild).1, (Prod.ext_iff.mp hchild).2⟩
  · rintro scope _ rfl
    exact hp.inScope scope

/-- What is noted does not matter, as long as it is no failure. -/
theorem note {event event' : Event} (h : event.reported? = none) :
    Agrees shared erase lost Eq (Run.note event) (Run.note event') where
  onward m := ⟨⟨[event], by simp [Run.note, Run.update], by simpa using h⟩, id⟩
  total {m a} _ := ⟨a, rfl⟩
  agree halike _ _ := ⟨.ok rfl, { halike with }, fun _ => rfl⟩

end Agrees

/-- An evaluation as a part of an execution. -/
theorem EvalsAgree.eval {α : Type} {shared : Bool} {R : α → α → Prop} {p q : Run Stop α}
    (hp : EvalsAgree shared R p q) : ExecsAgree shared R (Run.eval p) (Run.eval q) := by
  refine hp.mapEnd p.eval_apply q.eval_apply rfl ?_ ?_
  · intro r c hok htotal
    cases r with
    | error e => cases hok
    | ok a => exact htotal c (congrArg Except.ok (Except.ok.inj hok))
  · intro r r' hends
    cases hends with
    | ok h => exact .ok h
    | error h => exact .error (congrArg Unwind.stopped h)

/-- The execution of a body as an evaluation. -/
theorem ExecsAgree.body {shared : Bool} {p q : Run Unwind Value}
    (hp : ExecsAgree shared Value.Alike p q) :
    EvalsAgree shared Value.Alike (Run.body p) (Run.body q) := by
  refine hp.mapEnd p.body_apply q.body_apply rfl (fun _ c _ _ => ⟨c, rfl⟩) ?_
  intro r r' hends
  cases hends with
  | ok h => exact .ok h
  | @error e e' h =>
      cases e <;> cases e' <;> simp only [Unwind.sansLines, reduceCtorEq, Unwind.returned.injEq,
        Unwind.stopped.injEq] at h
      · exact .ok h
      · exact .error h

end BracketScript
