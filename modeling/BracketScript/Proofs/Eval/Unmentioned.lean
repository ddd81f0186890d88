import BracketScript.Proofs.Eval.Inner
import BracketScript.Proofs.Eval.Region

/-!
# Runs that do not mention a global

A global that code does not mention can be bound to anything, or to nothing at
all.  A `Variation` is such a global, with what it is bound to in each of two
runs.  The two machines are the same in all other respects (`Variation.Apart`)
and stay so: each step of evaluation that obeys `NodeLaw.lacking` does the same on
both of them (`Variation.Agrees`), and leaves what the global is bound to on
either.  `Variation.evalSteps` collects these steps.

Most steps either change the store in an inert way (`Agrees.atScope`) or have
nothing to do with it (`Agrees.storeless`).
-/

namespace BracketScript

/-- The machine with another store. -/
def Machine.withStore (m : Machine) (s : Store) : Machine :=
  { m with store := s }

/-- The machine with a name bound globally, in place of what it was bound to. -/
def Machine.withGlobal (m : Machine) (name : String) (v : Value) : Machine :=
  m.withStore (m.store.define 0 name v)

/-- The machine without the global binding of a name. -/
def Machine.forget (m : Machine) (name : String) : Machine :=
  m.withStore (m.store.forget name)

/-! ### Steps that have nothing to do with the store -/

/-- A computation that neither looks at the store nor changes it, and stays in the
current scope. -/
structure Run.Storeless {ε α : Type} (p : Run ε α) : Prop where
  withStore (m : Machine) (s : Store) : p (m.withStore s) = ((p m).1, (p m).2.withStore s)
  scope (m : Machine) : (p m).2.scope = m.scope

namespace Run.Storeless

variable {ε α β : Type}

theorem store {p : Run ε α} (h : p.Storeless) (m : Machine) : (p m).2.store = m.store :=
  congrArg (fun after => after.2.store) (h.withStore m m.store)

theorem pure (a : α) : (pure a : Run ε α).Storeless :=
  ⟨fun _ _ => rfl, fun _ => rfl⟩

theorem stop (e : ε) : (Run.stop e : Run ε α).Storeless :=
  ⟨fun _ _ => rfl, fun _ => rfl⟩

theorem note (event : Event) : (Run.note event : Run ε Unit).Storeless :=
  ⟨fun _ _ => rfl, fun _ => rfl⟩

theorem depth : (Run.get Machine.depth : Run ε Nat).Storeless :=
  ⟨fun _ _ => rfl, fun _ => rfl⟩

theorem poll (t : Token) : (Run.poll t).Storeless := by
  constructor
  · intro m s
    rw [Run.poll_apply, Run.poll_apply]
    rfl
  · intro m
    rw [Run.poll_apply]

theorem printLine (t : Token) (v : Value) : (Native.printLine t v).Storeless := by
  constructor
  · intro m s
    rw [printLine_apply, printLine_apply]
    rfl
  · intro m
    rw [printLine_apply]

theorem inputLine (t : Token) : (Native.inputLine t).Storeless := by
  constructor
  · intro m s
    rw [inputLine_apply, inputLine_apply]
    rfl
  · intro m
    rw [inputLine_apply]

theorem onNumber (name : String) (f : Float → Float) (t : Token) (v : Value) :
    (Native.onNumber name f t v).Storeless := by
  cases v with
  | num x => exact pure _
  | _ => exact stop _

theorem onNumbers (name : String) (f : Float → Float → Float) (t : Token) (v w : Value) :
    (Native.onNumbers name f t v w).Storeless := by
  unfold Native.onNumbers
  split
  · exact pure _
  · exact stop _

theorem native (setup : Setup) (f : Native) (args : List Value) (t : Token) :
    (Native.apply setup f args t).Storeless := by
  unfold Native.apply
  split
  case h_1 | h_2 | h_3 => exact ⟨fun _ _ => rfl, fun _ => rfl⟩
  case h_4 => exact inputLine t
  case h_5 | h_6 => exact printLine t _
  case h_7 | h_8 | h_9 | h_10 => exact onNumber _ _ t _
  case h_11 | h_12 | h_13 => exact onNumbers _ _ t _ _
  case h_14 => exact stop _

end Run.Storeless

/-- What built-in functions yield could have been written as a constant. -/
theorem Native.apply_ok {setup : Setup} {f : Native} {args : List Value} {t : Token} {m : Machine}
    {v : Value} (h : (Native.apply setup f args t m).1 = .ok v) : ∃ c : Constant, v = c.value := by
  have hnumber : ∀ name g w, (Native.onNumber name g t w m).1 = .ok v → ∃ x, v = .num x := by
    intro name g w hw
    cases w <;> cases hw
    exact ⟨_, rfl⟩
  have hnumbers : ∀ name g w w', (Native.onNumbers name g t w w' m).1 = .ok v → ∃ x, v = .num x := by
    intro name g w w' hw
    unfold Native.onNumbers at hw
    split at hw <;> cases hw
    exact ⟨_, rfl⟩
  unfold Native.apply at h
  split at h
  case h_1 | h_2 =>
    cases h
    exact ⟨.num _, rfl⟩
  case h_3 =>
    cases h
    exact ⟨.str _, rfl⟩
  case h_4 =>
    rw [inputLine_apply] at h
    rcases hend : m.console.readLine.1 with e | (_ | line) <;> rw [hend] at h <;> cases h
    · exact ⟨.null, rfl⟩
    · exact ⟨.str line, rfl⟩
  case h_5 w _ | h_6 w _ =>
    rw [printLine_apply] at h
    rcases hend : (m.console.writeLine w.display).1 with e | _ <;> rw [hend] at h <;> cases h
    exact ⟨.null, rfl⟩
  case h_7 | h_8 | h_9 | h_10 =>
    obtain ⟨x, rfl⟩ := hnumber _ _ _ h
    exact ⟨.num x, rfl⟩
  case h_11 | h_12 | h_13 =>
    obtain ⟨x, rfl⟩ := hnumbers _ _ _ _ h
    exact ⟨.num x, rfl⟩
  case h_14 => cases h

/-! ### Machines and computations -/

/-- A global that two runs do not mention: its name, what it is bound to in the
first and in the second, and the region that the runs are confined to. -/
structure Variation where
  name : String
  first : Option Value
  second : Option Value
  region : Region

namespace Variation

/-- The values that can turn up. -/
def Admits (V : Variation) (v : Value) : Prop :=
  V.region.Admits V.name v

/-- The values in which the runs agree. -/
def Same (V : Variation) (v w : Value) : Prop :=
  w = v ∧ V.Admits v

/-- The reasons for which an execution can end early. -/
def unwind (V : Variation) : Unwind → Prop
  | .returned v => V.Admits v
  | .stopped _ => True

/-- The machine, and the same with another store, differ in what the global is
bound to. -/
structure Apart (V : Variation) (m : Machine) (s : Store) : Prop where
  store : s.forget V.name = m.store.forget V.name
  closed : V.region.Closed V.name m.store
  scope : V.region.scope m.scope
  first : m.store.own? 0 V.name = V.first
  second : s.own? 0 V.name = V.second

/-- What comes of two runs that agree. -/
inductive Outcome {ε α : Type} (V : Variation) (early : ε → Prop) (R : α → α → Prop) :
    Except ε α × Machine → Except ε α × Machine → Prop
  | intro {r r' : Except ε α} {m : Machine} {s : Store} (ends : Ends id R r r')
    (hearly : ∀ e, r = .error e → early e) (apart : V.Apart m s) :
    Outcome V early R (r, m) (r', m.withStore s)

/-- The computations do the same whatever the global is bound to, unless the
first is out of fuel (it ends with `lost`). -/
def Agrees {ε α : Type} (V : Variation) (lost : ε) (early : ε → Prop) (R : α → α → Prop)
    (p q : Run ε α) : Prop :=
  ∀ m s, V.Apart m s → (p m).1 ≠ .error lost → V.Outcome early R (p m) (q (m.withStore s))

/-- Evaluations that agree. -/
abbrev Evals {α : Type} (V : Variation) (R : α → α → Prop) (p q : Run Stop α) : Prop :=
  V.Agrees .exhausted (fun _ => True) R p q

/-- Executions that agree. -/
abbrev Execs {α : Type} (V : Variation) (R : α → α → Prop) (p q : Run Unwind α) : Prop :=
  V.Agrees (.stopped .exhausted) V.unwind R p q

namespace Agrees

variable {V : Variation} {ε α β : Type} {lost : ε} {early : ε → Prop}
variable {R : α → α → Prop} {T : β → β → Prop} {p q : Run ε α}

theorem pure {a b : α} (h : R a b) : V.Agrees lost early R (pure a : Run ε α) (pure b) :=
  fun _ _ hm _ => ⟨.ok h, nofun, hm⟩

theorem stop {e : ε} (h : early e) :
    V.Agrees lost early R (Run.stop e : Run ε α) (Run.stop e) := by
  intro m s hm _
  refine ⟨.error rfl, ?_, hm⟩
  rintro _ ⟨⟩
  exact h

/-- A run that is out of fuel agrees with everything. -/
theorem exhausted (q : Run ε α) : V.Agrees lost early R (Run.stop lost : Run ε α) q :=
  fun _ _ _ hends => absurd rfl hends

theorem bind {k l : α → Run ε β} (hp : V.Agrees lost early R p q)
    (hk : ∀ a b, R a b → V.Agrees lost early T (k a) (l b)) :
    V.Agrees lost early T (p >>= k) (q >>= l) := by
  intro m s hm hends
  have hfirst := hp m s hm
  rcases hpm : p m with ⟨e | a, m₁⟩ <;> rcases hqm : q (m.withStore s) with ⟨r', m₂⟩ <;>
    rw [hpm, hqm] at hfirst
  · rw [Run.bind_of_error hpm] at hends ⊢
    cases hfirst fun heq => hends (congrArg Except.error (Except.error.inj heq)) with
    | intro hend hearly hapart =>
        cases hend with
        | error h =>
            rw [Run.bind_of_error hqm]
            refine ⟨.error h, ?_, hapart⟩
            rintro _ ⟨⟩
            exact hearly _ rfl
  · rw [Run.bind_of_ok hpm] at hends ⊢
    cases hfirst nofun with
    | intro hend _ hapart =>
        cases hend with
        | ok hab =>
            rw [Run.bind_of_ok hqm]
            exact hk a _ hab m₁ _ hapart hends

/-- Steps that have nothing to do with the store. -/
theorem storeless (hp : p.Storeless) (hok : ∀ m a, (p m).1 = .ok a → R a a)
    (hearly : ∀ m e, (p m).1 = .error e → early e) : V.Agrees lost early R p p := by
  intro m s hm _
  have hafter : V.Apart (p m).2 s := by
    constructor
    · rw [hp.store m]
      exact hm.store
    · rw [hp.store m]
      exact hm.closed
    · rw [hp.scope m]
      exact hm.scope
    · rw [hp.store m]
      exact hm.first
    · exact hm.second
  rw [hp.withStore m s]
  refine .intro ?_ (hearly m) hafter
  rcases hend : (p m).1 with e | a
  · exact .error rfl
  · exact .ok (hok m a hend)

/-- Steps that look at the store and the current scope, and change the store in an
inert way. -/
theorem atScope {f : Store → ScopeId → Except ε α × Store}
    (hchange : ∀ scope, V.region.scope scope → V.region.Inert V.name fun s => (f s scope).2)
    (hsame : ∀ s scope, (f (s.forget V.name) scope).1 = (f s scope).1)
    (hok : ∀ s scope a, V.region.Closed V.name s → V.region.scope scope →
      (f s scope).1 = .ok a → R a a)
    (hearly : ∀ s scope e, (f s scope).1 = .error e → early e) :
    V.Agrees lost early R (Run.atScope f) (Run.atScope f) := by
  intro m s hm _
  -- Without the binding the two stores are one, before the step and after it.
  have hinert := hchange m.scope hm.scope
  have hclosed := hm.closed.of_forget_eq hm.store
  have hend : (f s m.scope).1 = (f m.store m.scope).1 := by
    rw [← hsame s, hm.store, hsame]
  have hstore : (f s m.scope).2.forget V.name = (f m.store m.scope).2.forget V.name := by
    rw [← hinert.forget hclosed, hm.store, hinert.forget hm.closed]
  refine .intro (m := { m with store := (f m.store m.scope).2 }) ?_ (hearly m.store m.scope) ?_
  · rw [show (f (m.withStore s).store (m.withStore s).scope).1 = (f s m.scope).1 from rfl, hend]
    rcases hfirst : (f m.store m.scope).1 with e | a
    · exact .error rfl
    · exact .ok (hok m.store m.scope a hm.closed hm.scope hfirst)
  · exact ⟨hstore, hinert.closed hm.closed, hm.scope, (hinert.binding hm.closed).trans hm.first,
      (hinert.binding hclosed).trans hm.second⟩

/-- Computations whose ends are taken for other ends. -/
theorem mapEnd {ε' : Type} {lost' : ε'} {early' : ε' → Prop} {g : Except ε α → Except ε' β}
    {x y : Run ε' β} (hp : V.Agrees lost early R p q) (hx : ∀ m, x m = (g (p m).1, (p m).2))
    (hy : ∀ m, y m = (g (q m).1, (q m).2)) (hlost : g (.error lost) = .error lost')
    (hends : ∀ r r', Ends id R r r' → (∀ e, r = .error e → early e) →
      Ends id T (g r) (g r') ∧ ∀ e, g r = .error e → early' e) :
    V.Agrees lost' early' T x y := by
  intro m s hm hnot
  rw [hx] at hnot ⊢
  rw [hy]
  have hout := hp m s hm fun heq => hnot (by rw [heq, hlost])
  generalize p m = first, q (m.withStore s) = second at hout ⊢
  cases hout with
  | intro hend hearly hapart =>
      obtain ⟨hend', hearly'⟩ := hends _ _ hend hearly
      exact ⟨hend', hearly', hapart⟩

theorem inScope (hp : V.Agrees lost early R p q) {scope : ScopeId} (hscope : V.region.scope scope) :
    V.Agrees lost early R (Run.inScope scope p) (Run.inScope scope q) := by
  intro m s hm hends
  have hinside : V.Apart { m with scope := scope } s := { hm with scope := hscope }
  have hout := hp _ s hinside hends
  show V.Outcome early R _ ((q (Machine.withStore { m with scope := scope } s)).1,
    { (q (Machine.withStore { m with scope := scope } s)).2 with scope := m.scope })
  unfold Run.inScope
  generalize p { m with scope := scope } = first,
    q (Machine.withStore { m with scope := scope } s) = second at hout ⊢
  cases hout with
  | @intro _ _ m₁ _ hend hearly hapart =>
      exact .intro (m := { m₁ with scope := m.scope }) hend hearly { hapart with scope := hm.scope }

theorem deeper (hp : V.Agrees lost early R p q) :
    V.Agrees lost early R (Run.deeper p) (Run.deeper q) := by
  intro m s hm hends
  have hinside : V.Apart { m with depth := m.depth + 1 } s := { hm with }
  have hout := hp _ s hinside hends
  show V.Outcome early R _ ((q (Machine.withStore { m with depth := m.depth + 1 } s)).1,
    { (q (Machine.withStore { m with depth := m.depth + 1 } s)).2 with
      depth := (q (Machine.withStore { m with depth := m.depth + 1 } s)).2.depth - 1 })
  unfold Run.deeper
  generalize p { m with depth := m.depth + 1 } = first,
    q (Machine.withStore { m with depth := m.depth + 1 } s) = second at hout ⊢
  cases hout with
  | @intro _ _ m₁ _ hend hearly hapart =>
      exact .intro (m := { m₁ with depth := m₁.depth - 1 }) hend hearly { hapart with }

/-- A scope is opened for a block. -/
theorem inBlock (hp : V.Agrees lost early R p q) :
    V.Agrees lost early R (Run.inBlock p) (Run.inBlock q) := by
  rw [Run.inBlock_eq_bind, Run.inBlock_eq_bind]
  apply @bind _ _ _ _ _ _ fun i j => j = i ∧ V.region.scope i
  · apply atScope
    · intro scope hscope
      exact .child hscope .block
    · intro s scope
      rw [Store.child_place, Store.child_place, Store.size_forget]
    · rintro s scope _ hs _ ⟨⟩
      exact ⟨rfl, hs.newScope (Nat.le_refl _)⟩
    · nofun
  · rintro _ scope ⟨rfl, hscope⟩
    exact hp.inScope hscope

end Agrees

variable {V : Variation}

/-- An evaluation as a part of an execution. -/
theorem Evals.eval {α : Type} {R : α → α → Prop} {p q : Run Stop α} (hp : V.Evals R p q) :
    V.Execs R (Run.eval p) (Run.eval q) := by
  apply Agrees.mapEnd hp p.eval_apply q.eval_apply rfl
  intro r r' hends _
  cases hends with
  | ok h => exact ⟨.ok h, nofun⟩
  | error h =>
      refine ⟨.error (congrArg Unwind.stopped h), ?_⟩
      rintro _ ⟨⟩
      exact trivial

/-- The execution of a body as an evaluation. -/
theorem Execs.body {p q : Run Unwind Value} (hp : V.Execs V.Same p q) :
    V.Evals V.Same (Run.body p) (Run.body q) := by
  apply Agrees.mapEnd hp p.body_apply q.body_apply rfl
  intro r r' hends hearly
  refine ⟨?_, fun _ _ => trivial⟩
  cases hends with
  | ok h => exact .ok h
  | @error e e' h =>
      obtain rfl : e = e' := h
      cases e with
      | returned v => exact .ok ⟨rfl, hearly _ rfl⟩
      | stopped stop => exact .error rfl

/-! ### The store -/

theorem evals_aside {α : Type} {p : Run Stop α} (hp : p.Storeless) : V.Evals Eq p p :=
  .storeless hp (fun _ _ _ => rfl) fun _ _ _ => trivial

theorem evals_atScope {α : Type} {R : α → α → Prop}
    {f : Store → ScopeId → Except Stop α × Store}
    (hchange : ∀ scope, V.region.scope scope → V.region.Inert V.name fun s => (f s scope).2)
    (hsame : ∀ s scope, (f (s.forget V.name) scope).1 = (f s scope).1)
    (hok : ∀ s scope a, V.region.Closed V.name s → V.region.scope scope →
      (f s scope).1 = .ok a → R a a) :
    V.Evals R (Run.atScope f) (Run.atScope f) :=
  .atScope hchange hsame hok fun _ _ _ _ => trivial

theorem evals_change {change : Store → ScopeId → Store}
    (h : ∀ scope, V.region.scope scope → V.region.Inert V.name fun s => change s scope) :
    V.Evals Eq (Run.atScope fun s scope => (.ok (), change s scope))
      (Run.atScope fun s scope => (.ok (), change s scope)) :=
  evals_atScope h (fun _ _ => rfl) fun _ _ _ _ _ _ => rfl

/-- A value with an identity of its own. -/
theorem evals_fresh {f : Nat → ScopeId → Value}
    (h : ∀ id scope, V.region.scope scope → V.Admits (f id scope)) :
    V.Evals V.Same (Run.atScope fun s scope => (.ok (f s.freshId.1 scope), s.freshId.2))
      (Run.atScope fun s scope => (.ok (f s.freshId.1 scope), s.freshId.2)) := by
  apply evals_atScope
  · exact fun _ _ => .freshId
  · exact fun _ _ => rfl
  · rintro s scope _ _ hscope ⟨⟩
    exact ⟨rfl, h _ scope hscope⟩

/-- An operation that yields constants only. -/
theorem evals_orRaise {t : Token} {r : Except RuntimeFault Value}
    (h : ∀ v, r = .ok v → ∃ c : Constant, v = c.value) :
    V.Evals V.Same (orRaise t r) (orRaise t r) := by
  cases r with
  | error fault => exact .stop trivial
  | ok v =>
      obtain ⟨c, rfl⟩ := h v rfl
      exact .pure ⟨rfl, .constant c⟩

theorem evals_lookup {t : Token} (ht : t.lexeme ≠ V.name) :
    V.Evals V.Same (Run.lookup t) (Run.lookup t) := by
  rw [Run.lookup_eq_atScope]
  apply evals_atScope
  · exact fun _ _ => .same
  · intro s scope
    rw [Store.lookup_forget scope ht]
  · intro s scope v hs hscope hv
    rcases hfound : s.lookup scope t.lexeme with _ | w <;> rw [hfound] at hv <;> cases hv
    exact ⟨rfl, hs.lookup hscope ht hfound⟩

theorem evals_define {x : String} {v : Value} (hx : x ≠ V.name) (hv : V.Admits v) :
    V.Evals Eq (Run.define x v) (Run.define x v) :=
  evals_change fun scope _ => .define scope hx hv

theorem evals_setField (id : InstanceId) (x : String) {v : Value} (hv : V.Admits v) :
    V.Evals Eq (Run.update fun m => { m with store := m.store.setField id x v })
      (Run.update fun m => { m with store := m.store.setField id x v }) :=
  evals_change fun _ _ => .setField id x hv

theorem evals_assignTo {target : Target} {e : Expr} {v : Value}
    (hlaw : (NodeLaw.lacking V.name).expr (.assign target e)) (hv : V.Admits v) :
    V.Evals Eq (assignTo target v) (assignTo target v) := by
  cases target with
  | «variable» t =>
      exact evals_change fun scope _ => .assign scope (hlaw t List.mem_cons_self) hv
  | selfField keyword t =>
      apply Agrees.bind (evals_lookup (hlaw keyword List.mem_cons_self))
      rintro _ object ⟨rfl, -⟩
      cases object with
      | inst id d => exact evals_setField id _ hv
      | _ => exact .stop trivial

/-- A field is read as it is, or as a method. -/
theorem evals_readField (hself : V.name ≠ "self") {id : InstanceId} {d : StructDef}
    (hid : V.Admits (.inst id d)) (t : Token) :
    V.Evals V.Same (readAttribute (.inst id d) t) (readAttribute (.inst id d) t) := by
  rw [readAttribute_inst]
  apply evals_atScope
  · intro scope _
    apply @Region.Inert.reading _ _ _ (fun s => s.field? id t.lexeme)
      (fun found s => (takeField (.inst id d) t s found).2)
    · exact fun _ => rfl
    · intro s hs
      rcases hfound : s.field? id t.lexeme with _ | v
      · exact .same
      · have hv := hs.field (hid.object rfl) hfound
        cases v with
        -- The only step that binds a name which stands nowhere in the code.
        | func c => exact .method hself hv hid
        | _ => exact .same
  · intro s scope
    rw [Store.field?_forget]
    rcases s.field? id t.lexeme with _ | v
    · rfl
    · cases v with
      | func c =>
          rw [takeField_func, takeField_func]
          simp [Store.method, Store.child, Store.define, Store.freshId]
      | _ => rfl
  · intro s scope v hs _ hv
    rcases hfound : s.field? id t.lexeme with _ | w <;> rw [hfound] at hv
    · cases hv
    · have hw := hs.field (hid.object rfl) hfound
      cases w with
      | func c =>
          cases hv
          exact ⟨rfl, .func hw.lacks (hs.newScope (Nat.le_refl _))⟩
      | _ =>
          cases hv
          exact ⟨rfl, hw⟩

theorem evals_readAttribute (hself : V.name ≠ "self") {v : Value} (hv : V.Admits v) (t : Token) :
    V.Evals V.Same (readAttribute v t) (readAttribute v t) := by
  cases v with
  | inst id d => exact evals_readField hself hv t
  | module g =>
      rw [readAttribute_module]
      cases hmember : g.member? t.lexeme with
      | some w => exact .pure ⟨rfl, .member hmember⟩
      | none => exact .stop trivial
  | _ => exact .stop trivial

/-! ### Functions, structs and calls -/

theorem evals_makeFunction {keyword : Token} {params : List Token} {body : List Stmt}
    (hlaw : (Expr.func keyword params body).EveryNode (.lacking V.name)) :
    V.Evals V.Same (makeFunction params body) (makeFunction params body) :=
  evals_fresh (f := fun id scope => .func ⟨id, params, body, scope⟩)
    fun id scope hscope => .func (Value.lacks_func hlaw id scope) hscope

theorem evals_makeStruct {keyword : Token} {params : List Token} {body : List FieldInit}
    (hlaw : (Expr.struct keyword params body).EveryNode (.lacking V.name)) :
    V.Evals V.Same (makeStruct params body) (makeStruct params body) :=
  evals_fresh (f := fun id scope => .struct ⟨id, params, body, scope⟩)
    fun id scope hscope => .struct (Value.lacks_struct hlaw id scope) hscope

/-- A scope for a call, which belongs to the region. -/
theorem evals_openCall {outer : ScopeId} (houter : V.region.scope outer) {params : List Token}
    {args : List Value} (hparams : Token.Avoid V.name params) (hargs : ∀ v ∈ args, V.Admits v) :
    V.Evals (fun i j => j = i ∧ V.region.scope i) (openCall outer params args)
      (openCall outer params args) := by
  rw [openCall_eq_atScope]
  apply evals_atScope
  · exact fun _ _ => .openCall houter hparams hargs
  · intro s scope
    rw [Store.child_place, Store.child_place, Store.size_forget]
  · rintro s scope _ hs _ ⟨⟩
    exact ⟨rfl, hs.newScope (Nat.le_refl _)⟩

/-- A new instance, which belongs to the region. -/
theorem evals_openInstance (params : List Token) {args : List Value}
    (hargs : ∀ v ∈ args, V.Admits v) :
    V.Evals (fun id id' => id' = id ∧ V.region.object id) (openInstance params args)
      (openInstance params args) := by
  rw [openInstance_eq_atScope]
  apply evals_atScope
  · exact fun _ _ => .openInstance params hargs
  · exact fun _ _ => rfl
  · rintro s scope _ hs _ ⟨⟩
    exact ⟨rfl, hs.newObject (Nat.le_refl _)⟩

theorem evals_enterFunction {c : Closure} (hc : V.Admits (.func c)) {args : List Value}
    (hargs : ∀ v ∈ args, V.Admits v) {x y : Run Unwind Value} (hx : V.Execs V.Same x y) :
    V.Evals V.Same (enterFunction c args x) (enterFunction c args y) := by
  apply Agrees.bind (evals_openCall (hc.home rfl) hc.lacks.1 hargs)
  rintro _ scope ⟨rfl, hscope⟩
  exact Execs.body (hx.inScope hscope)

theorem evals_enterStruct {d : StructDef} (hd : V.Admits (.struct d)) {args : List Value}
    (hargs : ∀ v ∈ args, V.Admits v) {x y : InstanceId → Run Stop Unit}
    (hx : ∀ id, V.Evals Eq (x id) (y id)) :
    V.Evals V.Same (enterStruct d args x) (enterStruct d args y) := by
  apply Agrees.bind (evals_openCall (hd.home rfl) hd.lacks.1 hargs)
  rintro _ scope ⟨rfl, hscope⟩
  apply Agrees.bind (evals_openInstance d.params hargs)
  rintro _ id ⟨rfl, hid⟩
  apply Agrees.bind ((hx id).inScope hscope)
  intro _ _ _
  exact .pure ⟨rfl, .inst hid d⟩

theorem evals_enterCall (setup : Setup) (callee : Value) (t : Token) {x y : Run Stop Value}
    (hx : V.Evals V.Same x y) :
    V.Evals V.Same (enterCall setup callee t x) (enterCall setup callee t y) := by
  apply Agrees.bind (evals_aside .depth)
  rintro depth _ rfl
  split
  · exact .stop trivial
  · apply Agrees.bind (evals_aside (.note _))
    intro _ _ _
    exact hx.deeper

theorem evals_native (setup : Setup) (f : Native) (args : List Value) (t : Token) :
    V.Evals V.Same (Native.apply setup f args t) (Native.apply setup f args t) := by
  apply Agrees.storeless (.native setup f args t)
  · intro m v hv
    obtain ⟨c, rfl⟩ := Native.apply_ok hv
    exact ⟨rfl, .constant c⟩
  · exact fun _ _ _ => trivial

theorem evals_importMembers (g : Module) {names : List Token}
    (hnames : Token.Avoid V.name names) :
    V.Evals Eq (importMembers g names) (importMembers g names) := by
  induction names with
  | nil => exact .pure rfl
  | cons t names ih =>
      obtain ⟨ht, hrest⟩ := List.forall_mem_cons.mp hnames
      unfold importMembers
      cases hmember : g.member? t.lexeme with
      | some v => exact Agrees.bind (evals_define ht (.member hmember)) fun _ _ _ => ih hrest
      | none => exact Agrees.bind (R := Eq) (.stop trivial) fun _ _ _ => ih hrest

theorem evals_importModule (setup : Setup) {t : Token} {names : List Token}
    (h : Token.Avoid V.name (t :: names)) :
    V.Evals Eq (importModule setup t names) (importModule setup t names) := by
  obtain ⟨ht, hnames⟩ := List.forall_mem_cons.mp h
  unfold importModule
  split
  · exact .stop trivial
  · split
    · exact evals_define ht (.module _)
    · apply Agrees.bind (evals_importMembers _ hnames)
      intro _ _ _
      exact evals_aside (.note _)

/-! ### Whole programs -/

/-- Values are compared with themselves. -/
def relations (V : Variation) : RunRelations where
  value := V.Same
  field t := t.lexeme ≠ V.name
  evals := V.Evals
  execs := V.Execs

/-- Lists of values are compared with themselves. -/
theorem args_same {args args' : List Value} (h : List.Forall₂ V.Same args args') :
    args' = args ∧ ∀ v ∈ args, V.Admits v := by
  induction h with
  | nil => simp
  | cons h _ ih =>
      obtain ⟨rfl, hv⟩ := h
      obtain ⟨rfl, hargs⟩ := ih
      exact ⟨rfl, List.forall_mem_cons.mpr ⟨hv, hargs⟩⟩

theorem evalSteps (V : Variation) (hself : V.name ≠ "self") (setup : Setup) :
    EvalSteps id (.lacking V.name) setup setup V.relations where
  key_keepsText := keepsText_id
  evals_pure := .pure
  evals_bind := .bind
  evals_exhausted := .exhausted
  evals_raise := by
    rintro _ _ t _ rfl fault
    exact .stop trivial
  execs_pure := .pure
  execs_bind := .bind
  execs_exhausted := .exhausted
  execs_returned := by
    rintro _ _ v _ ⟨rfl, hv⟩
    exact .stop hv
  execs_eval := Evals.eval
  execs_block := .inBlock
  constant c := ⟨rfl, .constant c⟩
  isTruthy h := by rw [h.1]
  isEqual h h' := by rw [h.1, h'.1]
  arity h := by rw [h.1]
  name {t u} hlaw ht := by
    obtain rfl : t = u := ht
    exact evals_lookup (hlaw t List.mem_cons_self)
  self {t u} hlaw ht := by
    obtain rfl : t = u := ht
    exact evals_lookup (hlaw t List.mem_cons_self)
  assign {_ _ _ v w} hlaw htarget h := by
    rw [Target.mapTokens_id, Target.mapTokens_id] at htarget
    subst htarget
    obtain ⟨rfl, hv⟩ := h
    exact evals_assignTo hlaw hv
  unary {t u _ v w} _ ht h := by
    obtain rfl : t = u := ht
    obtain ⟨rfl, -⟩ := h
    exact evals_orRaise fun r hr => Operator.unary_ok hr
  binary {t u _ _ v w v' w'} _ ht h h' := by
    obtain rfl : t = u := ht
    obtain ⟨rfl, -⟩ := h
    obtain ⟨rfl, -⟩ := h'
    exact evals_orRaise fun r hr => Operator.binary_ok hr
  member {t u _ v w} _ ht h := by
    obtain rfl : t = u := ht
    obtain ⟨rfl, hv⟩ := h
    exact evals_readAttribute hself hv t
  function hlaw hparams hbody := by
    rw [List.map_id, List.map_id] at hparams
    rw [← hparams, ← stmts_eq_of_mapTokens_id hbody]
    exact evals_makeFunction hlaw
  struct hlaw hparams hbody := by
    rw [List.map_id, List.map_id] at hparams
    rw [← hparams, ← fields_eq_of_mapTokens_id hbody]
    exact evals_makeStruct hlaw
  poll {t u} ht := by
    obtain rfl : t = u := ht
    exact evals_aside (.poll t)
  callFunction {c w args args' t u} h hargs ht _ := by
    obtain rfl : t = u := ht
    obtain ⟨rfl, hc⟩ := h
    obtain ⟨rfl, hargs⟩ := args_same hargs
    refine ⟨c, rfl, hc.lacks.2, rfl, ?_⟩
    intro p q hpq
    exact evals_enterCall setup _ t (evals_enterFunction hc hargs hpq)
  callStruct {d w args args' t u} h hargs ht _ := by
    obtain rfl : t = u := ht
    obtain ⟨rfl, hd⟩ := h
    obtain ⟨rfl, hargs⟩ := args_same hargs
    refine ⟨d, rfl, hd.lacks.2, rfl, ?_⟩
    intro p q hpq
    exact evals_enterCall setup _ t (evals_enterStruct hd hargs hpq)
  callNative {f w args args' t u} h hargs ht _ := by
    obtain rfl : t = u := ht
    obtain ⟨rfl, -⟩ := h
    obtain ⟨rfl, -⟩ := args_same hargs
    exact ⟨rfl, evals_enterCall setup _ t (evals_native setup f args' t)⟩
  bindField {t u v w} id hlaw ht h := by
    obtain rfl : t = u := ht
    obtain ⟨rfl, hv⟩ := h
    apply Agrees.bind (evals_define hlaw hv)
    intro _ _ _
    exact evals_setField id _ hv
  importing {_ t u _ _} hlaw ht hnames := by
    rw [List.map_id, List.map_id] at hnames
    obtain rfl : t = u := ht
    subst hnames
    exact evals_importModule setup hlaw
  selected {t u} ht := by
    obtain rfl : t = u := ht
    exact .storeless (.note _) (fun _ _ _ => rfl) nofun

/-- Programs that do not mention the global do the same whatever it is bound to. -/
theorem execAll (V : Variation) (hself : V.name ≠ "self") (setup : Setup) (fuel : Nat)
    {trees : List Stmt} (htrees : ∀ tree ∈ trees, tree.EveryNode (.lacking V.name) false) :
    V.Execs V.Same (execAll setup fuel trees .null) (execAll setup fuel trees .null) :=
  ((V.evalSteps hself setup).atFuel (Nat.le_refl fuel)).execAll htrees rfl ⟨rfl, .constant .null⟩

end Variation

end BracketScript
