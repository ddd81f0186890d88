import BracketScript.Proofs.Eval.Lines

/-!
# Regimes

Statements about all states that a session can get into are proved by finding
what every run keeps up.  A `Regime` says what that is: which code may be run,
what holds of the store between any two steps, how the store may change on the
way, which values can turn up and which faults can be raised.  `Regime.Laws`
lists what has to be shown of single changes of a store; it does not mention
evaluation.  From it follow the rules for the steps of evaluation, which this
module proves.

`Keeps p m` says what a run of `p` from the machine `m` comes to, however it
ends.  Four things are part of it for every regime:

* the current scope and the depth of calls are the ones from before;
* the run never stops as `broken`;
* it is out of fuel only if the regime allows for that;
* if `input` cannot turn up, the run leaves the input alone and does the same
  whatever there is to read.

A regime does not look at the log, the streams, the flag or the clock.
-/

namespace BracketScript

/-- The machine with something else to read. -/
def Machine.withInput (m : Machine) (input : List UInt8) : Machine :=
  { m with console := { m.console with input := input } }

/-- A function read from an instance, which its body finds under `self`. -/
def Store.method (s : Store) (c : Closure) (object : Value) : Value × Store :=
  let inner := s.child c.scope .block
  let bound := inner.2.define inner.1 "self" object
  (.func { c with id := bound.freshId.1, scope := inner.1 }, bound.freshId.2)

theorem takeField_func (object : Value) (name : Token) (s : Store) (c : Closure) :
    takeField object name s (some (.func c)) = (.ok (s.method c object).1, (s.method c object).2) :=
  rfl

/-- What is written does not depend on what there is to read. -/
theorem Console.write_withInput (console : Console) (input : List UInt8) (text : String) :
    Console.write { console with input := input } text =
      ((console.write text).1, { (console.write text).2 with input := input }) := by
  unfold Console.write
  rcases console.room with _ | room
  · rfl
  · dsimp only
    split <;> rfl

/-- The faults that are there for the sake of completeness only. -/
def RuntimeFault.unforeseen : RuntimeFault → Bool
  | .unknownUnary | .unknownBinary | .noFields => true
  | _ => false

theorem Value.unforeseen_misfit (callee : Value) (got : Nat) :
    (callee.misfit got).unforeseen = false := by
  unfold Value.misfit
  split <;> rfl

/-- The tokens that a node keeps and that faults of its own are reported at. -/
def Expr.places : Expr → List Token
  | .variable t | .selfRef t | .unary t _ | .binary _ t _ | .call _ t _ | .attribute _ t => [t]
  | .assign (.selfField t u) _ => [t, u]
  | _ => []

@[inherit_doc Expr.places]
def Stmt.places : Stmt → List Token
  | .whileLoop t _ _ => [t]
  | .importing t names => t :: names
  | _ => []

/-- The scope in which a function or a struct was written. -/
def Value.home? : Value → Option ScopeId
  | .func c => some c.scope
  | .struct d => some d.scope
  | _ => none

/-- What runs keep up. -/
structure Regime where
  /-- What code may be run. -/
  law : NodeLaw
  /-- The names that code may bind. -/
  bindable : String → Prop
  /-- Holds of the store between any two steps. -/
  inv : Store → Prop
  /-- The scopes in which code may run. -/
  place : Store → ScopeId → Prop
  /-- Relates a store to those it may turn into. -/
  moves : Store → Store → Prop
  /-- The values that can turn up. -/
  value : Store → Value → Prop
  /-- The faults that can be raised. -/
  fault : RuntimeFault → Prop
  /-- Whether some fuel suffices for code of some size at some depth of calls. -/
  enough : (fuel size depth : Nat) → Prop
  /-- Whether fuel may run out. -/
  mayExhaust : Prop
  /-- The lines that faults can be reported on. -/
  line : Nat → Prop := fun _ => True
  /-- The instances whose fields can be set. -/
  object : Store → InstanceId → Prop := fun _ _ => True

namespace Regime

section Judgements

variable (R : Regime)

/-- `input` cannot turn up. -/
def Deaf : Prop :=
  ∀ s, ¬R.value s (.native .input)

/-- The reasons for which an evaluation can stop. -/
def stop : Stop → Prop
  | .error e => R.fault e.fault ∧ R.line e.line
  | .exhausted => R.mayExhaust
  | .broken => False

/-- The reasons for which an execution can end early. -/
def unwind (s : Store) : Unwind → Prop
  | .returned v => R.value s v
  | .stopped e => R.stop e

/-- A change of the store. -/
structure Step (s s' : Store) : Prop where
  inv : R.inv s'
  moves : R.moves s s'

/-- The second machine can be what a run makes of the first. -/
structure Reaches (m m' : Machine) : Prop where
  inv : R.inv m'.store
  moves : R.moves m.store m'.store
  scope : m'.scope = m.scope
  depth : m'.depth = m.depth

/-- A run that keeps the regime up, and yields what satisfies `P`. -/
structure Keeps {ε α : Type} (stops : Store → ε → Prop) (P : Store → α → Prop) (p : Run ε α)
    (m : Machine) : Prop where
  reaches : R.Reaches m (p m).2
  ok {a : α} (h : (p m).1 = .ok a) : P (p m).2.store a
  error {e : ε} (h : (p m).1 = .error e) : stops (p m).2.store e
  blind (h : R.Deaf) (input : List UInt8) :
    p (m.withInput input) = ((p m).1, (p m).2.withInput input)

/-- An evaluation that keeps the regime up. -/
abbrev Evals {α : Type} (P : Store → α → Prop) (p : Run Stop α) (m : Machine) : Prop :=
  R.Keeps (fun _ => R.stop) P p m

/-- An execution that keeps the regime up. -/
abbrev Execs {α : Type} (P : Store → α → Prop) (p : Run Unwind α) (m : Machine) : Prop :=
  R.Keeps R.unwind P p m

end Judgements

/-- What has to be shown of a regime. -/
structure Laws (R : Regime) (setup : Setup) : Prop where
  -- Stores on the way.
  refl (s : Store) : R.moves s s
  trans {s s' s'' : Store} (h : R.moves s s') (h' : R.moves s' s'') : R.moves s s''
  mono {s s' : Store} {v : Value} (h : R.moves s s') (hv : R.value s v) : R.value s' v
  stay {s s' : Store} {scope : ScopeId} (h : R.moves s s') (hscope : R.place s scope) :
    R.place s' scope
  -- Fuel.
  exhausted {size depth : Nat} (h : R.enough 0 size depth) : R.mayExhaust
  part {fuel size size' depth : Nat} (hsize : size' < size) (h : R.enough (fuel + 1) size depth) :
    R.enough fuel size' depth
  again {inFunction : Bool} {t : Token} {e : Expr} {s : Stmt} {fuel size depth : Nat}
    (hlaw : R.law.stmt inFunction (.whileLoop t e s)) (h : R.enough (fuel + 1) size depth) :
    R.enough fuel size depth
  functionBody {s : Store} {c : Closure} {fuel size depth : Nat} (hc : R.value s (.func c))
    (hdepth : depth < setup.maxDepth) (h : R.enough (fuel + 1) size depth) :
    R.enough fuel (sizeOf c.body) (depth + 1)
  structBody {s : Store} {d : StructDef} {fuel size depth : Nat} (hd : R.value s (.struct d))
    (hdepth : depth < setup.maxDepth) (h : R.enough (fuel + 1) size depth) :
    R.enough fuel (sizeOf d.body) (depth + 1)
  -- Code and names.
  functionLaw {s : Store} {c : Closure} (hc : R.value s (.func c)) :
    ∀ t ∈ c.body, t.EveryNode R.law true
  structLaw {s : Store} {d : StructDef} (hd : R.value s (.struct d)) :
    ∀ entry ∈ d.body, entry.value.EveryNode R.law ∧ R.bindable entry.name.lexeme
  functionParams {s : Store} {c : Closure} (hc : R.value s (.func c)) :
    ∀ t ∈ c.params, R.bindable t.lexeme
  structParams {s : Store} {d : StructDef} (hd : R.value s (.struct d)) :
    ∀ t ∈ d.params, R.bindable t.lexeme
  assigned {t : Token} {e : Expr} (hlaw : R.law.expr (.assign (.variable t) e)) :
    R.bindable t.lexeme
  moduleName {g : Module} (h : g ∈ setup.modules) : R.bindable g.name
  memberName {g : Module} {name : String} {v : Value} (h : g.member? name = some v) :
    R.bindable name
  -- Values.
  constant (s : Store) (c : Constant) : R.value s c.value
  lookup {s : Store} {scope : ScopeId} {name : String} {v : Value} (h : R.inv s)
    (hv : s.lookup scope name = some v) : R.value s v
  field {s : Store} {id : InstanceId} {name : String} {v : Value} (h : R.inv s)
    (hv : s.field? id name = some v) : R.value s v
  inst {s : Store} {d : StructDef} {id : InstanceId} (hid : R.object s id)
    (hd : R.value s (.struct d)) : R.value s (.inst id d)
  module {g : Module} (s : Store) (h : g ∈ setup.modules) : R.value s (.module g)
  member {s : Store} {g : Module} {name : String} {v : Value} (hg : R.value s (.module g))
    (hv : g.member? name = some v) : R.value s v
  -- Instances.
  held : ∀ {s : Store} {id : InstanceId} {d : StructDef}, R.value s (.inst id d) →
    R.object s id := by exact fun _ => trivial
  last : ∀ {s s' : Store} {id : InstanceId}, R.moves s s' → R.object s id →
    R.object s' id := by exact fun _ _ => trivial
  newObject : ∀ {s : Store}, R.inv s → R.object s.newInstance.2 s.newInstance.1 := by
    exact fun _ => trivial
  -- Faults.
  foreseen {f : RuntimeFault} (h : f.unforeseen = false) : R.fault f
  unary {op : Token} {e : Expr} {v : Value} {f : RuntimeFault} (hlaw : R.law.expr (.unary op e))
    (h : Operator.unary op v = .error f) : R.fault f
  binary {op : Token} {e e' : Expr} {v v' : Value} {f : RuntimeFault}
    (hlaw : R.law.expr (.binary e op e')) (h : Operator.binary v op v' = .error f) : R.fault f
  self {s : Store} {scope : ScopeId} {t u : Token} {e : Expr} {v : Value}
    (hlaw : R.law.expr (.assign (.selfField t u) e)) (h : R.inv s)
    (hv : s.lookup scope t.lexeme = some v) : (∃ id d, v = .inst id d) ∨ R.fault .noFields
  exprLine : ∀ {e : Expr}, R.law.expr e → ∀ t ∈ e.places, R.line t.line := by
    exact fun _ _ _ => trivial
  stmtLine : ∀ {inFunction : Bool} {s : Stmt}, R.law.stmt inFunction s →
    ∀ t ∈ s.places, R.line t.line := by exact fun _ _ _ => trivial
  -- Changes of the store.
  define {s : Store} {scope : ScopeId} {name : String} {v : Value} (h : R.inv s)
    (hscope : R.place s scope) (hname : R.bindable name) (hv : R.value s v) :
    R.Step s (s.define scope name v)
  assign {s : Store} {scope : ScopeId} {name : String} {v : Value} (h : R.inv s)
    (hscope : R.place s scope) (hname : R.bindable name) (hv : R.value s v) :
    R.Step s (s.assign scope name v)
  setField {s : Store} {id : InstanceId} {v : Value} (name : String) (h : R.inv s)
    (hid : R.object s id) (hv : R.value s v) : R.Step s (s.setField id name v)
  newInstance {s : Store} (h : R.inv s) : R.Step s s.newInstance.2
  newFunction {s : Store} {t : Token} {params : List Token} {body : List Stmt} {scope : ScopeId}
    (h : R.inv s) (hscope : R.place s scope) (hlaw : (Expr.func t params body).EveryNode R.law) :
    R.Step s s.freshId.2 ∧ R.value s.freshId.2 (.func ⟨s.freshId.1, params, body, scope⟩)
  newStruct {s : Store} {t : Token} {params : List Token} {body : List FieldInit}
    {scope : ScopeId} (h : R.inv s) (hscope : R.place s scope)
    (hlaw : (Expr.struct t params body).EveryNode R.law) :
    R.Step s s.freshId.2 ∧ R.value s.freshId.2 (.struct ⟨s.freshId.1, params, body, scope⟩)
  openBlock {s : Store} {scope : ScopeId} (h : R.inv s) (hscope : R.place s scope) :
    R.Step s (s.child scope .block).2 ∧ R.place (s.child scope .block).2 (s.child scope .block).1
  openInner {s : Store} {v : Value} {outer : ScopeId} (h : R.inv s) (hv : R.value s v)
    (houter : v.home? = some outer) :
    R.Step s (s.child outer .function).2 ∧
      R.place (s.child outer .function).2 (s.child outer .function).1
  bindMethod {s : Store} {c : Closure} {id : InstanceId} {d : StructDef} (h : R.inv s)
    (hc : R.value s (.func c)) (hd : R.value s (.inst id d)) :
    R.Step s (s.method c (.inst id d)).2 ∧
      R.value (s.method c (.inst id d)).2 (s.method c (.inst id d)).1

/-! ### Computations in general -/

section Rules

variable {R : Regime} {setup : Setup}
variable {ε α β : Type} {stops : Store → ε → Prop} {P : Store → α → Prop}
variable {m m' m'' : Machine}

theorem Reaches.trans (laws : R.Laws setup) (h : R.Reaches m m') (h' : R.Reaches m' m'') :
    R.Reaches m m'' :=
  ⟨h'.inv, laws.trans h.moves h'.moves, h'.scope.trans h.scope, h'.depth.trans h.depth⟩

/-- A scope in which code may run is still one afterwards. -/
theorem Reaches.place (laws : R.Laws setup) (h : R.Reaches m m')
    (hscope : R.place m.store m.scope) : R.place m'.store m'.scope := by
  rw [h.scope]
  exact laws.stay h.moves hscope

theorem Step.trans (laws : R.Laws setup) {s s' s'' : Store} (h : R.Step s s')
    (h' : R.Step s' s'') : R.Step s s'' :=
  ⟨h'.inv, laws.trans h.moves h'.moves⟩

/-- A step that looks at the store and the current scope. -/
theorem Keeps.atScope {f : Store → ScopeId → Except ε α × Store}
    (hstep : R.Step m.store (f m.store m.scope).2)
    (hok : ∀ a, (f m.store m.scope).1 = .ok a → P (f m.store m.scope).2 a)
    (herror : ∀ e, (f m.store m.scope).1 = .error e → stops (f m.store m.scope).2 e) :
    R.Keeps stops P (Run.atScope f) m where
  reaches := ⟨hstep.inv, hstep.moves, rfl, rfl⟩
  ok h := hok _ h
  error h := herror _ h
  blind _ _ := rfl

theorem Keeps.weaken {Q : Store → α → Prop} {p : Run ε α} (hp : R.Keeps stops P p m)
    (h : ∀ s a, P s a → Q s a) : R.Keeps stops Q p m :=
  ⟨hp.reaches, fun ha => h _ _ (hp.ok ha), hp.error, hp.blind⟩

theorem Keeps.inScope {x : Run ε α} {inner : ScopeId}
    (hx : R.Keeps stops P x { m with scope := inner }) :
    R.Keeps stops P (Run.inScope inner x) m where
  reaches := ⟨hx.reaches.inv, hx.reaches.moves, rfl, hx.reaches.depth⟩
  ok h := hx.ok h
  error h := hx.error h
  blind hdeaf input := by
    have hblind := hx.blind hdeaf input
    unfold Run.inScope
    dsimp only [Machine.withInput] at hblind ⊢
    rw [hblind]

theorem Keeps.deeper {x : Run ε α} (hx : R.Keeps stops P x { m with depth := m.depth + 1 }) :
    R.Keeps stops P (Run.deeper x) m where
  reaches := by
    have hdepth : (x { m with depth := m.depth + 1 }).2.depth = m.depth + 1 := hx.reaches.depth
    refine ⟨hx.reaches.inv, hx.reaches.moves, hx.reaches.scope, ?_⟩
    show (x { m with depth := m.depth + 1 }).2.depth - 1 = m.depth
    omega
  ok h := hx.ok h
  error h := hx.error h
  blind hdeaf input := by
    have hblind := hx.blind hdeaf input
    unfold Run.deeper
    dsimp only [Machine.withInput] at hblind ⊢
    rw [hblind]

theorem Evals.exec {x : Run Stop α} (hx : R.Evals P x m) : R.Execs P (Run.eval x) m where
  reaches := by
    rw [Run.eval_apply]
    exact hx.reaches
  ok {a} ha := by
    rw [Run.eval_apply] at ha ⊢
    rcases hxm : (x m).1 with e | b <;> rw [hxm] at ha <;> cases ha
    exact hx.ok hxm
  error {e} he := by
    rw [Run.eval_apply] at he ⊢
    rcases hxm : (x m).1 with e' | b <;> rw [hxm] at he <;> cases he
    exact hx.error hxm
  blind hdeaf input := by
    rw [Run.eval_apply, Run.eval_apply, hx.blind hdeaf input]

theorem Execs.body {x : Run Unwind Value} (hx : R.Execs R.value x m) :
    R.Evals R.value (Run.body x) m where
  reaches := by
    rw [Run.body_apply]
    exact hx.reaches
  ok {v} hv := by
    rw [Run.body_apply] at hv ⊢
    rcases hxm : (x m).1 with (w | e) | w <;> rw [hxm] at hv <;> cases hv
    · exact hx.error hxm
    · exact hx.ok hxm
  error {e} he := by
    rw [Run.body_apply] at he
    rcases hxm : (x m).1 with (w | e') | w <;> rw [hxm] at he <;> cases he
    exact hx.error hxm
  blind hdeaf input := by
    rw [Run.body_apply, Run.body_apply, hx.blind hdeaf input]

namespace Laws

variable (laws : R.Laws setup)

include laws

theorem reaches_of_eq (hinv : R.inv m.store) (hstore : m'.store = m.store)
    (hscope : m'.scope = m.scope) (hdepth : m'.depth = m.depth) : R.Reaches m m' := by
  refine ⟨?_, ?_, hscope, hdepth⟩
  · rw [hstore]
    exact hinv
  · rw [hstore]
    exact laws.refl m.store

/-- A computation that leaves the store, the scope and the depth alone. -/
theorem keeps_aside {p : Run ε α} (hinv : R.inv m.store)
    (haside : (p m).2.store = m.store ∧ (p m).2.scope = m.scope ∧ (p m).2.depth = m.depth)
    (hok : ∀ a, (p m).1 = .ok a → P m.store a)
    (herror : ∀ e, (p m).1 = .error e → stops m.store e)
    (hblind : R.Deaf → ∀ input, p (m.withInput input) = ((p m).1, (p m).2.withInput input)) :
    R.Keeps stops P p m where
  reaches := laws.reaches_of_eq hinv haside.1 haside.2.1 haside.2.2
  ok h := by
    rw [haside.1]
    exact hok _ h
  error h := by
    rw [haside.1]
    exact herror _ h
  blind := hblind

theorem keeps_pure {a : α} (hinv : R.inv m.store) (ha : P m.store a) :
    R.Keeps stops P (pure a) m := by
  apply laws.keeps_aside hinv ⟨rfl, rfl, rfl⟩
  · rintro b ⟨⟩
    exact ha
  · nofun
  · exact fun _ _ => rfl

theorem keeps_stop {e : ε} (hinv : R.inv m.store) (he : stops m.store e) :
    R.Keeps stops P (Run.stop e : Run ε α) m := by
  apply laws.keeps_aside hinv ⟨rfl, rfl, rfl⟩
  · nofun
  · rintro e' ⟨⟩
    exact he
  · exact fun _ _ => rfl

theorem keeps_note (event : Event) (hinv : R.inv m.store) :
    R.Keeps stops (fun _ _ => True) (Run.note event) m := by
  apply laws.keeps_aside hinv ⟨rfl, rfl, rfl⟩
  · exact fun _ _ => trivial
  · nofun
  · exact fun _ _ => rfl

/-- One computation after the other.  The second one starts from some machine
that the first one can get to. -/
theorem keeps_bind {p : Run ε α} {k : α → Run ε β} {Q : Store → β → Prop}
    (hp : R.Keeps stops P p m)
    (hk : ∀ a m', R.Reaches m m' → P m'.store a → R.Keeps stops Q (k a) m') :
    R.Keeps stops Q (p >>= k) m := by
  have hreaches := hp.reaches
  rcases hpm : p m with ⟨e | a, m'⟩
  · -- The first computation stops early, and with it the whole.
    have hstop : (p >>= k) m = (.error e, m') := Run.bind_of_error hpm
    have herror := hp.error (by rw [hpm])
    rw [hpm] at hreaches herror
    constructor
    · rw [hstop]
      exact hreaches
    · intro b hb
      rw [hstop] at hb
      cases hb
    · intro e' he'
      rw [hstop] at he' ⊢
      cases he'
      exact herror
    · intro hdeaf input
      have hblind := hp.blind hdeaf input
      rw [hpm] at hblind
      rw [hstop, Run.bind_of_error hblind]
  · have hgo : (p >>= k) m = k a m' := Run.bind_of_ok hpm
    have ha := hp.ok (by rw [hpm])
    rw [hpm] at hreaches ha
    have hrest := hk a m' hreaches ha
    constructor
    · rw [hgo]
      exact hreaches.trans laws hrest.reaches
    · rw [hgo]
      exact hrest.ok
    · rw [hgo]
      exact hrest.error
    · intro hdeaf input
      have hblind := hp.blind hdeaf input
      rw [hpm] at hblind
      rw [hgo, Run.bind_of_ok hblind]
      exact hrest.blind hdeaf input

theorem keeps_inBlock {x : Run ε α} (hinv : R.inv m.store) (hscope : R.place m.store m.scope)
    (hx : ∀ m', R.inv m'.store → R.place m'.store m'.scope → m'.depth = m.depth →
      R.Keeps stops P x m') :
    R.Keeps stops P (Run.inBlock x) m := by
  have hopen := laws.openBlock hinv hscope
  rw [Run.inBlock_eq_bind]
  apply laws.keeps_bind (P := R.place)
  · apply Keeps.atScope hopen.1
    · rintro scope ⟨⟩
      exact hopen.2
    · nofun
  · intro scope m' hm' hinner
    apply Keeps.inScope
    exact hx _ hm'.inv hinner hm'.depth

end Laws

end Rules

/-! ### The steps of evaluation -/

namespace Laws

variable {R : Regime} {setup : Setup} (laws : R.Laws setup) {m : Machine}

include laws

theorem evals_raise {α : Type} {P : Store → α → Prop} {fault : RuntimeFault} {place : Token}
    (hline : R.line place.line) (hinv : R.inv m.store) (h : R.fault fault) :
    R.Evals P (Run.raise place fault : Run Stop α) m :=
  laws.keeps_stop hinv ⟨h, hline⟩

theorem evals_lookup {t : Token} (hline : R.line t.line) (hinv : R.inv m.store) :
    R.Evals (fun s v => R.value s v ∧ s.lookup m.scope t.lexeme = some v) (Run.lookup t) m := by
  rw [Run.lookup_eq_atScope]
  apply Keeps.atScope
  · exact ⟨hinv, laws.refl m.store⟩
  · intro v hv
    cases hfound : m.store.lookup m.scope t.lexeme with
    | none => simp [hfound] at hv
    | some w =>
        obtain rfl : w = v := by simpa [hfound] using hv
        exact ⟨laws.lookup hinv hfound, rfl⟩
  · intro e he
    cases hfound : m.store.lookup m.scope t.lexeme with
    | none =>
        obtain rfl : _ = e := by simpa [hfound] using he
        exact ⟨laws.foreseen rfl, hline⟩
    | some w => simp [hfound] at he

theorem evals_define {name : String} {v : Value} (hinv : R.inv m.store)
    (hscope : R.place m.store m.scope) (hname : R.bindable name) (hv : R.value m.store v) :
    R.Evals (fun _ _ => True) (Run.define name v) m :=
  Keeps.atScope (f := fun s scope => (.ok (), s.define scope name v))
    (laws.define hinv hscope hname hv) (fun _ _ => trivial) nofun

theorem evals_setField {id : InstanceId} {v : Value} (name : String) (hinv : R.inv m.store)
    (hid : R.object m.store id) (hv : R.value m.store v) :
    R.Evals (fun _ _ => True) (Run.update fun m => { m with store := m.store.setField id name v })
      m :=
  Keeps.atScope (f := fun s _ => (.ok (), s.setField id name v))
    (laws.setField name hinv hid hv) (fun _ _ => trivial) nofun

theorem evals_assignTo {target : Target} {e : Expr} {v : Value}
    (hlaw : R.law.expr (.assign target e)) (hinv : R.inv m.store)
    (hscope : R.place m.store m.scope) (hv : R.value m.store v) :
    R.Evals (fun _ _ => True) (assignTo target v) m := by
  cases target with
  | «variable» t =>
      exact Keeps.atScope (f := fun s scope => (.ok (), s.assign scope t.lexeme v))
        (laws.assign hinv hscope (laws.assigned hlaw) hv) (fun _ _ => trivial) nofun
  | selfField t u =>
      unfold assignTo
      have hlines := laws.exprLine hlaw
      apply laws.keeps_bind (laws.evals_lookup (hlines t (by simp [Expr.places])) hinv)
      intro object m' hm' hobject
      have hv' := laws.mono hm'.moves hv
      rcases laws.self hlaw hm'.inv hobject.2 with ⟨id, d, rfl⟩ | hfault
      · exact laws.evals_setField _ hm'.inv (laws.held hobject.1) hv'
      · cases object with
        | inst id d => exact laws.evals_setField _ hm'.inv (laws.held hobject.1) hv'
        | _ => exact laws.evals_raise (hlines u (by simp [Expr.places])) hm'.inv hfault

theorem evals_orRaise {r : Except RuntimeFault Value} {place : Token}
    (hline : R.line place.line) (hinv : R.inv m.store)
    (hok : ∀ v, r = .ok v → ∃ c : Constant, v = c.value)
    (herror : ∀ fault, r = .error fault → R.fault fault) :
    R.Evals R.value (orRaise place r) m := by
  cases r with
  | error fault => exact laws.evals_raise hline hinv (herror fault rfl)
  | ok v =>
      obtain ⟨c, rfl⟩ := hok v rfl
      exact laws.keeps_pure hinv (laws.constant m.store c)

theorem evals_makeFunction {t : Token} {params : List Token} {body : List Stmt}
    (hinv : R.inv m.store) (hscope : R.place m.store m.scope)
    (hlaw : (Expr.func t params body).EveryNode R.law) :
    R.Evals R.value (makeFunction params body) m := by
  have hmake := laws.newFunction hinv hscope hlaw
  show R.Evals R.value
    (Run.atScope fun s scope => (.ok (.func ⟨s.freshId.1, params, body, scope⟩), s.freshId.2)) m
  apply Keeps.atScope hmake.1
  · rintro v ⟨⟩
    exact hmake.2
  · nofun

theorem evals_makeStruct {t : Token} {params : List Token} {body : List FieldInit}
    (hinv : R.inv m.store) (hscope : R.place m.store m.scope)
    (hlaw : (Expr.struct t params body).EveryNode R.law) :
    R.Evals R.value (makeStruct params body) m := by
  have hmake := laws.newStruct hinv hscope hlaw
  show R.Evals R.value
    (Run.atScope fun s scope => (.ok (.struct ⟨s.freshId.1, params, body, scope⟩), s.freshId.2)) m
  apply Keeps.atScope hmake.1
  · rintro v ⟨⟩
    exact hmake.2
  · nofun

theorem evals_readAttribute {object : Value} {t : Token} (hline : R.line t.line)
    (hinv : R.inv m.store) (hobject : R.value m.store object) :
    R.Evals R.value (readAttribute object t) m := by
  cases object with
  | inst id d =>
      rw [readAttribute_inst]
      cases hfound : m.store.field? id t.lexeme with
      | none =>
          apply Keeps.atScope
          · simpa only [hfound] using ⟨hinv, laws.refl m.store⟩
          · simp [hfound, takeField]
          · simp only [hfound, takeField, Except.error.injEq]
            rintro e rfl
            exact ⟨laws.foreseen rfl, hline⟩
      | some v =>
          have hv := laws.field hinv hfound
          cases v with
          | func c =>
              have hbind := laws.bindMethod hinv hv hobject
              apply Keeps.atScope
              · simpa only [hfound, takeField_func] using hbind.1
              · simp only [hfound, takeField_func, Except.ok.injEq]
                rintro w rfl
                exact hbind.2
              · simp [hfound, takeField_func]
          | _ =>
              apply Keeps.atScope
              · simpa only [hfound] using ⟨hinv, laws.refl m.store⟩
              · simp only [hfound, takeField, Except.ok.injEq]
                rintro w rfl
                exact hv
              · simp [hfound, takeField]
  | module g =>
      rw [readAttribute_module]
      cases hfound : g.member? t.lexeme with
      | none => exact laws.evals_raise hline hinv (laws.foreseen rfl)
      | some v => exact laws.keeps_pure hinv (laws.member hobject hfound)
  | _ => exact laws.evals_raise hline hinv (laws.foreseen rfl)

theorem evals_importMembers {g : Module} {names : List Token}
    (hlines : ∀ t ∈ names, R.line t.line) (hinv : R.inv m.store)
    (hscope : R.place m.store m.scope) (hg : R.value m.store (.module g)) :
    R.Evals (fun _ _ => True) (importMembers g names) m := by
  induction names generalizing m with
  | nil => exact laws.keeps_pure hinv trivial
  | cons t names ih =>
      rw [List.forall_mem_cons] at hlines
      -- The other names follow, whatever becomes of the first.
      have hrest : ∀ (_ : Unit) m', R.Reaches m m' → True →
          R.Evals (fun _ _ => True) (importMembers g names) m' :=
        fun _ _ hm' _ => ih hlines.2 hm'.inv (hm'.place laws hscope) (laws.mono hm'.moves hg)
      unfold importMembers
      cases hfound : g.member? t.lexeme with
      | none =>
          exact laws.keeps_bind (P := fun _ _ => True)
            (laws.evals_raise hlines.1 hinv (laws.foreseen rfl)) hrest
      | some v =>
          have hname := laws.memberName hfound
          have hv := laws.member hg hfound
          exact laws.keeps_bind (laws.evals_define hinv hscope hname hv) hrest

theorem evals_importModule {t : Token} {names : List Token}
    (hlines : ∀ u ∈ t :: names, R.line u.line) (hinv : R.inv m.store)
    (hscope : R.place m.store m.scope) :
    R.Evals (fun _ _ => True) (importModule setup t names) m := by
  rw [List.forall_mem_cons] at hlines
  unfold importModule
  cases hfound : setup.modules.find? fun g => g.name = t.lexeme with
  | none => exact laws.evals_raise hlines.1 hinv (laws.foreseen rfl)
  | some g =>
      have hmem : g ∈ setup.modules := List.mem_of_find?_eq_some hfound
      have hname : g.name = t.lexeme := by simpa using List.find?_some hfound
      dsimp only
      split
      · exact laws.evals_define hinv hscope (hname ▸ laws.moduleName hmem) (laws.module _ hmem)
      · apply laws.keeps_bind (laws.evals_importMembers hlines.2 hinv hscope (laws.module _ hmem))
        intro _ m' hm' _
        exact laws.keeps_note _ hm'.inv

theorem evals_poll {t : Token} (hline : R.line t.line) (hinv : R.inv m.store) :
    R.Evals (fun _ _ => True) (Run.poll t) m := by
  apply laws.keeps_aside hinv
  · rw [Run.poll_apply]
    exact ⟨rfl, rfl, rfl⟩
  · exact fun _ _ => trivial
  · rw [Run.poll_apply]
    intro e he
    split at he <;> cases he
    exact ⟨laws.foreseen rfl, hline⟩
  · intro _ input
    rw [Run.poll_apply, Run.poll_apply]
    rfl

theorem evals_readClock (hinv : R.inv m.store) :
    R.Evals (fun _ _ => True) (Native.readClock setup) m := by
  apply laws.keeps_aside hinv ⟨rfl, rfl, rfl⟩
  · exact fun _ _ => trivial
  · nofun
  · exact fun _ _ => rfl

theorem evals_printLine {t : Token} (hline : R.line t.line) (v : Value) (hinv : R.inv m.store) :
    R.Evals R.value (Native.printLine t v) m := by
  apply laws.keeps_aside hinv
  · rw [printLine_apply]
    exact ⟨rfl, rfl, rfl⟩
  · rw [printLine_apply]
    intro w hw
    rcases hend : (m.console.writeLine v.display).1 with e | _ <;> rw [hend] at hw <;> cases hw
    exact laws.constant m.store .null
  · rw [printLine_apply]
    intro e he
    rcases hend : (m.console.writeLine v.display).1 with e | _ <;> rw [hend] at he <;> cases he
    exact ⟨laws.foreseen rfl, hline⟩
  · intro _ input
    rw [printLine_apply, printLine_apply]
    simp only [Machine.withInput, Console.writeLine, Console.write_withInput]

theorem evals_inputLine {t : Token} (hline : R.line t.line) (hinv : R.inv m.store)
    (hvalue : R.value m.store (.native .input)) : R.Evals R.value (Native.inputLine t) m := by
  apply laws.keeps_aside hinv
  · rw [inputLine_apply]
    exact ⟨rfl, rfl, rfl⟩
  · rw [inputLine_apply]
    intro w hw
    rcases hend : m.console.readLine.1 with e | (_ | line) <;> rw [hend] at hw <;> cases hw
    · exact laws.constant m.store .null
    · exact laws.constant m.store (.str line)
  · rw [inputLine_apply]
    intro e he
    rcases hend : m.console.readLine.1 with e | _ <;> rw [hend] at he <;> cases he
    exact ⟨laws.foreseen rfl, hline⟩
  · intro hdeaf
    exact absurd hvalue (hdeaf m.store)

theorem evals_onNumber (name : String) (g : Float → Float) {t : Token}
    (hline : R.line t.line) (v : Value) (hinv : R.inv m.store) :
    R.Evals R.value (Native.onNumber name g t v) m := by
  cases v with
  | num x => exact laws.keeps_pure hinv (laws.constant m.store (.num (g x)))
  | _ => exact laws.evals_raise hline hinv (laws.foreseen rfl)

theorem evals_onNumbers (name : String) (g : Float → Float → Float) {t : Token}
    (hline : R.line t.line) (v w : Value) (hinv : R.inv m.store) :
    R.Evals R.value (Native.onNumbers name g t v w) m := by
  unfold Native.onNumbers
  split
  · next x y => exact laws.keeps_pure hinv (laws.constant m.store (.num (g x y)))
  · exact laws.evals_raise hline hinv (laws.foreseen rfl)

/-- A built-in function that gets as many arguments as it takes finds them
all. -/
theorem evals_apply {f : Native} {args : List Value} {t : Token} (hline : R.line t.line)
    (hinv : R.inv m.store) (hvalue : R.value m.store (.native f)) (harity : args.length = f.arity) :
    R.Evals R.value (Native.apply setup f args t) m := by
  have hclock : R.Evals R.value (Native.seconds setup) m := by
    apply laws.keeps_bind (laws.evals_readClock hinv)
    intro moment m' hm' _
    exact laws.keeps_pure hm'.inv (laws.constant m'.store (.num _))
  rcases args with _ | ⟨v, _ | ⟨w, rest⟩⟩
  · cases f with
    | clock => exact hclock
    | timeClock => exact hclock
    | date =>
        apply laws.keeps_bind (laws.evals_readClock hinv)
        intro moment m' hm' _
        exact laws.keeps_pure hm'.inv (laws.constant m'.store (.str _))
    | input => exact laws.evals_inputLine hline hinv hvalue
    | _ => simp [Native.arity] at harity
  · cases f with
    | print => exact laws.evals_printLine hline v hinv
    | ioPrint => exact laws.evals_printLine hline v hinv
    | sqrt => exact laws.evals_onNumber _ _ hline v hinv
    | abs => exact laws.evals_onNumber _ _ hline v hinv
    | floor => exact laws.evals_onNumber _ _ hline v hinv
    | ceil => exact laws.evals_onNumber _ _ hline v hinv
    | _ => simp [Native.arity] at harity
  · cases f with
    | pow => exact laws.evals_onNumbers _ _ hline v w hinv
    | max => exact laws.evals_onNumbers _ _ hline v w hinv
    | min => exact laws.evals_onNumbers _ _ hline v w hinv
    | _ => simp [Native.arity] at harity

/-! ### Calls -/

/-- Storing arguments under the names of parameters, one after the other, while
`Q` goes on to hold. -/
theorem step_foldl {change : Store → Token × Value → Store} {P : Token → Prop} {Q : Store → Prop}
    (hQ : ∀ s s', R.moves s s' → Q s → Q s')
    (hchange : ∀ s pair, R.inv s → Q s → P pair.1 → R.value s pair.2 → R.Step s (change s pair))
    (pairs : List (Token × Value)) {s : Store} (hinv : R.inv s) (hs : Q s)
    (hpairs : ∀ pair ∈ pairs, P pair.1 ∧ R.value s pair.2) :
    R.Step s (pairs.foldl change s) := by
  induction pairs generalizing s with
  | nil => exact ⟨hinv, laws.refl s⟩
  | cons pair pairs ih =>
      rw [List.forall_mem_cons] at hpairs
      have hfirst := hchange s pair hinv hs hpairs.1.1 hpairs.1.2
      have hrest := ih hfirst.inv (hQ _ _ hfirst.moves hs) fun other hother =>
        ⟨(hpairs.2 other hother).1, laws.mono hfirst.moves (hpairs.2 other hother).2⟩
      exact hfirst.trans laws hrest

/-- The scope of a call, in which the parameters are bound. -/
theorem evals_openCall {callee : Value} {outer : ScopeId} {params : List Token}
    {args : List Value} (hinv : R.inv m.store) (hcallee : R.value m.store callee)
    (houter : callee.home? = some outer) (hparams : ∀ t ∈ params, R.bindable t.lexeme)
    (hargs : ∀ v ∈ args, R.value m.store v) :
    R.Evals R.place (openCall outer params args) m := by
  obtain ⟨hopen, hinner⟩ := laws.openInner hinv hcallee houter
  have hbound := laws.step_foldl (P := fun t => R.bindable t.lexeme)
    (fun _ _ hmoves hscope => laws.stay hmoves hscope)
    (fun s pair hs hscope ht hv => laws.define hs hscope ht hv) (params.zip args) hopen.inv hinner
    fun pair hpair =>
      ⟨hparams _ (List.of_mem_zip hpair).1,
        laws.mono hopen.moves (hargs _ (List.of_mem_zip hpair).2)⟩
  rw [openCall_eq_atScope]
  apply Keeps.atScope
  · exact hopen.trans laws hbound
  · rintro scope ⟨⟩
    exact laws.stay hbound.moves hinner
  · nofun

theorem evals_openInstance {params : List Token} {args : List Value} (hinv : R.inv m.store)
    (hargs : ∀ v ∈ args, R.value m.store v) :
    R.Evals R.object (openInstance params args) m := by
  have hnew := laws.newInstance hinv
  have hobject := laws.newObject hinv
  have hset := laws.step_foldl (P := fun _ => True)
    (Q := fun s => R.object s m.store.newInstance.1) (fun _ _ hmoves hid => laws.last hmoves hid)
    (fun s pair hs hid _ hv => laws.setField pair.1.lexeme hs hid hv)
    (params.zip args) hnew.inv hobject
    fun pair hpair => ⟨trivial, laws.mono hnew.moves (hargs _ (List.of_mem_zip hpair).2)⟩
  rw [openInstance_eq_atScope]
  apply Keeps.atScope
  · exact hnew.trans laws hset
  · rintro id ⟨⟩
    exact laws.last hset.moves hobject
  · nofun

theorem evals_enterCall {x : Run Stop Value} (callee : Value) {bracket : Token}
    (hline : R.line bracket.line) (hinv : R.inv m.store)
    (hx : ∀ m', R.Reaches m m' → m.depth < setup.maxDepth →
      R.Evals R.value x { m' with depth := m'.depth + 1 }) :
    R.Evals R.value (enterCall setup callee bracket x) m := by
  have hget : R.Evals (fun _ depth => depth = m.depth) (Run.get Machine.depth) m := by
    apply laws.keeps_aside hinv ⟨rfl, rfl, rfl⟩
    · rintro depth ⟨⟩
      rfl
    · nofun
    · exact fun _ _ => rfl
  apply laws.keeps_bind hget
  rintro depth m' hm' rfl
  split
  · exact laws.evals_raise hline hm'.inv (laws.foreseen rfl)
  · next hdepth =>
    apply laws.keeps_bind (laws.keeps_note _ hm'.inv)
    intro _ m'' hm'' _
    exact Keeps.deeper (hx m'' (hm'.trans laws hm'') (Nat.lt_of_not_le hdepth))

theorem evals_enterFunction {c : Closure} {args : List Value} {x : Run Unwind Value}
    (hinv : R.inv m.store) (hc : R.value m.store (.func c)) (hargs : ∀ v ∈ args, R.value m.store v)
    (hx : ∀ m', R.inv m'.store → R.place m'.store m'.scope → m'.depth = m.depth →
      R.Execs R.value x m') :
    R.Evals R.value (enterFunction c args x) m := by
  apply laws.keeps_bind (laws.evals_openCall hinv hc rfl (laws.functionParams hc) hargs)
  intro scope m' hm' hscope
  apply Execs.body
  apply Keeps.inScope
  exact hx _ hm'.inv hscope hm'.depth

theorem evals_enterStruct {d : StructDef} {args : List Value} {x : InstanceId → Run Stop Unit}
    (hinv : R.inv m.store) (hd : R.value m.store (.struct d))
    (hargs : ∀ v ∈ args, R.value m.store v)
    (hx : ∀ id m', R.inv m'.store → R.place m'.store m'.scope → R.object m'.store id →
      m'.depth = m.depth → R.Evals (fun _ _ => True) (x id) m') :
    R.Evals R.value (enterStruct d args x) m := by
  apply laws.keeps_bind (laws.evals_openCall hinv hd rfl (laws.structParams hd) hargs)
  intro scope m₁ hm₁ hscope
  apply laws.keeps_bind
    (laws.evals_openInstance hm₁.inv fun v hv => laws.mono hm₁.moves (hargs v hv))
  intro id m₂ hm₂ hid
  apply laws.keeps_bind (P := fun _ _ => True)
  · apply Keeps.inScope
    -- The scope of the call is still there after the instance has been made.
    exact hx id _ hm₂.inv (laws.stay hm₂.moves hscope) hid (hm₂.depth.trans hm₁.depth)
  · intro _ m₃ hm₃ _
    have hmoves := (hm₁.trans laws (hm₂.trans laws hm₃)).moves
    exact laws.keeps_pure hm₃.inv (laws.inst (laws.last hm₃.moves hid) (laws.mono hmoves hd))

theorem evals_bindField {t : Token} {v : Value} {id : InstanceId} (hinv : R.inv m.store)
    (hscope : R.place m.store m.scope) (hid : R.object m.store id) (ht : R.bindable t.lexeme)
    (hv : R.value m.store v) :
    R.Evals (fun _ _ => True) (bindField id t v) m := by
  apply laws.keeps_bind (laws.evals_define hinv hscope ht hv)
  intro _ m' hm' _
  exact laws.evals_setField t.lexeme hm'.inv (laws.last hm'.moves hid) (laws.mono hm'.moves hv)

end Laws

end Regime

end BracketScript
