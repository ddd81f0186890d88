import BracketScript.Proofs.Eval.Preservation

/-!
# What a store holds

Values live in the bindings of scopes and in the fields of instances, and a
program gets at no others than these, apart from constants, functions and
structs that it writes itself, and what it imports.  So if all values in a store
are of some allowed kind, then they stay so, as long as the code that is run and
the modules that can be imported are of that kind too.

An `Allowance` says which natives, modules and code there may be and which names
may be bound; one name that may not be bound can still be bound to instances,
which is how methods find `self`.  Every allowance gives a regime
(`Allowance.regime_laws`).
-/

namespace BracketScript

/-! ### Bindings and stores -/

namespace Bindings

theorem mem_of_get? {bindings : Bindings} {name : String} {v : Value}
    (h : bindings.get? name = some v) : (name, v) ∈ bindings := by
  induction bindings with
  | nil => cases h
  | cons entry rest ih =>
      obtain ⟨key, value⟩ := entry
      unfold get? at h
      split at h
      · next hkey =>
        cases h
        simp [hkey]
      · exact List.mem_cons_of_mem _ (ih h)

theorem mem_set {bindings : Bindings} {name : String} {v : Value} {entry : String × Value}
    (h : entry ∈ bindings.set name v) : entry ∈ bindings ∨ entry = (name, v) := by
  induction bindings with
  | nil => exact Or.inr (by simpa [set] using h)
  | cons first rest ih =>
      obtain ⟨key, old⟩ := first
      unfold set at h
      split at h
      · next hkey =>
        rcases List.mem_cons.mp h with rfl | hrest
        · exact Or.inr (by rw [hkey])
        · exact Or.inl (List.mem_cons_of_mem _ hrest)
      · rcases List.mem_cons.mp h with rfl | hrest
        · exact Or.inl (by simp)
        · exact (ih hrest).imp_left (List.mem_cons_of_mem _)

end Bindings

theorem mem_modify {α : Type} {xs : Array α} {i : Nat} {f : α → α} {x : α}
    (h : x ∈ xs.modify i f) : x ∈ xs ∨ ∃ y ∈ xs, x = f y := by
  obtain ⟨j, hj⟩ := Array.mem_iff_getElem?.mp h
  rw [Array.getElem?_modify] at hj
  split at hj
  · obtain ⟨y, hy, rfl⟩ := Option.map_eq_some_iff.mp hj
    exact Or.inr ⟨y, Array.mem_iff_getElem?.mpr ⟨j, hy⟩, rfl⟩
  · exact Or.inl (Array.mem_iff_getElem?.mpr ⟨j, hj⟩)

namespace Store

/-- All values that a store holds: those bound in scopes and those of fields. -/
def values (s : Store) : List Value :=
  s.scopes.toList.flatMap (fun scope => scope.bindings.map Prod.snd) ++
    s.instances.toList.flatMap fun fields => fields.map Prod.snd

/-- All bindings in scopes, and all fields, satisfy a condition each. -/
structure Holds (P : String → Value → Prop) (Q : Value → Prop) (s : Store) : Prop where
  bound {scope : Scope} (h : scope ∈ s.scopes) {name : String} {v : Value}
    (hv : (name, v) ∈ scope.bindings) : P name v
  field {fields : Bindings} (h : fields ∈ s.instances) {name : String} {v : Value}
    (hv : (name, v) ∈ fields) : Q v

variable {P : String → Value → Prop} {Q : Value → Prop} {s : Store}

theorem holds_empty : Holds P Q Store.empty where
  bound h _ _ hv := by
    obtain rfl : _ = (⟨.global, [], none⟩ : Scope) := by simpa [Store.empty] using h
    cases hv
  field h := by simp [Store.empty] at h

theorem Holds.imp {P' : String → Value → Prop} {Q' : Value → Prop} (h : Holds P Q s)
    (hP : ∀ name, ∀ v ∈ s.values, P name v → P' name v) (hQ : ∀ v ∈ s.values, Q v → Q' v) :
    Holds P' Q' s where
  bound {scope} hscope name v hv := by
    refine hP name v (List.mem_append_left _ ?_) (h.bound hscope hv)
    exact List.mem_flatMap.mpr ⟨scope, by simpa using hscope, List.mem_map.mpr ⟨_, hv, rfl⟩⟩
  field {fields} hfields name v hv := by
    refine hQ v (List.mem_append_right _ ?_) (h.field hfields hv)
    exact List.mem_flatMap.mpr ⟨fields, by simpa using hfields, List.mem_map.mpr ⟨_, hv, rfl⟩⟩

theorem Holds.of_mem_values (h : Holds P Q s) (hP : ∀ name v, P name v → Q v) {v : Value}
    (hv : v ∈ s.values) : Q v := by
  rcases List.mem_append.mp hv with hv | hv
  · obtain ⟨scope, hscope, hmem⟩ := List.mem_flatMap.mp hv
    obtain ⟨⟨name, _⟩, hentry, rfl⟩ := List.mem_map.mp hmem
    exact hP name _ (h.bound (by simpa using hscope) hentry)
  · obtain ⟨fields, hfields, hmem⟩ := List.mem_flatMap.mp hv
    obtain ⟨⟨name, _⟩, hentry, rfl⟩ := List.mem_map.mp hmem
    exact h.field (by simpa using hfields) hentry

theorem Holds.own? (h : Holds P Q s) {scope : ScopeId} {name : String} {v : Value}
    (hv : s.own? scope name = some v) : P name v := by
  obtain ⟨found, hfound, hget⟩ := Option.bind_eq_some_iff.mp hv
  exact h.bound (Array.mem_iff_getElem?.mpr ⟨scope, hfound⟩) (Bindings.mem_of_get? hget)

theorem Holds.lookup (h : Holds P Q s) {scope : ScopeId} {name : String} {v : Value}
    (hv : s.lookup scope name = some v) : P name v := by
  unfold Store.lookup at hv
  generalize scope + 1 = n at hv
  induction n generalizing scope with
  | zero => cases hv
  | succ n ih =>
      unfold lookupWithin at hv
      split at hv
      · next hown =>
        cases hv
        exact h.own? hown
      · split at hv
        · exact ih hv
        · cases hv

theorem Holds.field? (h : Holds P Q s) {id : InstanceId} {name : String} {v : Value}
    (hv : s.field? id name = some v) : Q v := by
  obtain ⟨fields, hfields, hget⟩ := Option.bind_eq_some_iff.mp hv
  exact h.field (Array.mem_iff_getElem?.mpr ⟨id, hfields⟩) (Bindings.mem_of_get? hget)

theorem Holds.child (h : Holds P Q s) (outer : ScopeId) (kind : ScopeKind) :
    Holds P Q (s.child outer kind).2 where
  bound hscope _ _ hv := by
    rcases Array.mem_push.mp hscope with hscope | rfl
    · exact h.bound hscope hv
    · cases hv
  field := h.field

theorem Holds.define (h : Holds P Q s) (scope : ScopeId) {name : String} {v : Value}
    (hv : P name v) : Holds P Q (s.define scope name v) where
  bound hscope _ _ hmem := by
    dsimp only [Store.define] at hscope
    rcases mem_modify hscope with hscope | ⟨old, hold, rfl⟩
    · exact h.bound hscope hmem
    · rcases Bindings.mem_set hmem with hmem | heq
      · exact h.bound hold hmem
      · cases heq
        exact hv
  field := h.field

theorem Holds.setField (h : Holds P Q s) (id : InstanceId) (name : String) {v : Value}
    (hv : Q v) : Holds P Q (s.setField id name v) where
  bound := h.bound
  field hfields _ _ hmem := by
    dsimp only [Store.setField] at hfields
    rcases mem_modify hfields with hfields | ⟨old, hold, rfl⟩
    · exact h.field hfields hmem
    · rcases Bindings.mem_set hmem with hmem | heq
      · exact h.field hold hmem
      · cases heq
        exact hv

theorem Holds.newInstance (h : Holds P Q s) : Holds P Q s.newInstance.2 where
  bound := h.bound
  field hfields _ _ hv := by
    rcases Array.mem_push.mp hfields with hfields | rfl
    · exact h.field hfields hv
    · cases hv

theorem Holds.freshId (h : Holds P Q s) : Holds P Q s.freshId.2 :=
  ⟨h.bound, h.field⟩

end Store

/-! ### Allowances -/

/-- What a program may have to do with. -/
structure Allowance where
  /-- The code that may be run. -/
  law : NodeLaw
  /-- The names that may be bound to any value. -/
  bindable : String → Prop
  native : Native → Prop
  module : Module → Prop
  fault : RuntimeFault → Prop
  enough : (fuel size depth : Nat) → Prop
  mayExhaust : Prop
  line : Nat → Prop := fun _ => True

namespace Allowance

variable (A : Allowance)

/-- The allowed values.  Functions, structs and instances are known by the code
they stand for. -/
def value : Value → Prop
  | .func c => ∃ t, (Expr.func t c.params c.body).EveryNode A.law
  | .struct d | .inst _ d => ∃ t, (Expr.struct t d.params d.body).EveryNode A.law
  | .native f => A.native f
  | .module g => A.module g
  | .null | .bool _ | .num _ | .str _ => True

/-- The allowed bindings of scopes. -/
def binding (name : String) (v : Value) : Prop :=
  A.value v ∧ (A.bindable name ∨ ∃ id d, v = .inst id d)

/-- Stores with nothing but allowed values. -/
abbrev Holds (s : Store) : Prop :=
  s.Holds A.binding A.value

/-- The regime of an allowance. -/
def regime : Regime where
  law := A.law
  bindable := A.bindable
  inv := A.Holds
  place _ _ := True
  moves _ _ := True
  value _ := A.value
  fault := A.fault
  enough := A.enough
  mayExhaust := A.mayExhaust
  line := A.line

/-- What has to be shown of an allowance. -/
structure Laws (setup : Setup) : Prop where
  -- Fuel.
  exhausted {size depth : Nat} (h : A.enough 0 size depth) : A.mayExhaust
  part {fuel size size' depth : Nat} (hsize : size' < size) (h : A.enough (fuel + 1) size depth) :
    A.enough fuel size' depth
  again {inFunction : Bool} {t : Token} {e : Expr} {s : Stmt} {fuel size depth : Nat}
    (hlaw : A.law.stmt inFunction (.whileLoop t e s)) (h : A.enough (fuel + 1) size depth) :
    A.enough fuel size depth
  functionBody {t : Token} {params : List Token} {body : List Stmt} {fuel size depth : Nat}
    (hlaw : A.law.expr (.func t params body)) (hdepth : depth < setup.maxDepth)
    (h : A.enough (fuel + 1) size depth) : A.enough fuel (sizeOf body) (depth + 1)
  structBody {t : Token} {params : List Token} {body : List FieldInit} {fuel size depth : Nat}
    (hlaw : A.law.expr (.struct t params body)) (hdepth : depth < setup.maxDepth)
    (h : A.enough (fuel + 1) size depth) : A.enough fuel (sizeOf body) (depth + 1)
  -- Names.
  functionParams {t : Token} {params : List Token} {body : List Stmt}
    (hlaw : A.law.expr (.func t params body)) : ∀ p ∈ params, A.bindable p.lexeme
  structParams {t : Token} {params : List Token} {body : List FieldInit}
    (hlaw : A.law.expr (.struct t params body)) : ∀ p ∈ params, A.bindable p.lexeme
  structFields {t : Token} {params : List Token} {body : List FieldInit}
    (hlaw : A.law.expr (.struct t params body)) : ∀ entry ∈ body, A.bindable entry.name.lexeme
  assigned {t : Token} {e : Expr} (hlaw : A.law.expr (.assign (.variable t) e)) :
    A.bindable t.lexeme
  moduleName (g : Module) : A.bindable g.name
  memberName {g : Module} {name : String} {v : Value} (h : g.member? name = some v) :
    A.bindable name
  -- Modules.
  module {g : Module} (h : g ∈ setup.modules) : A.module g
  member {g : Module} {name : String} {f : Native} (hg : A.module g)
    (h : g.member? name = some (.native f)) : A.native f
  -- Faults.
  foreseen {f : RuntimeFault} (h : f.unforeseen = false) : A.fault f
  unary {op : Token} {e : Expr} {v : Value} {f : RuntimeFault} (hlaw : A.law.expr (.unary op e))
    (h : Operator.unary op v = .error f) : A.fault f
  binary {op : Token} {e e' : Expr} {v v' : Value} {f : RuntimeFault}
    (hlaw : A.law.expr (.binary e op e')) (h : Operator.binary v op v' = .error f) : A.fault f
  self {t u : Token} {e : Expr} (hlaw : A.law.expr (.assign (.selfField t u) e)) :
    ¬A.bindable t.lexeme ∨ A.fault .noFields
  exprLine : ∀ {e : Expr}, A.law.expr e → ∀ t ∈ e.places, A.line t.line := by
    exact fun _ _ _ => trivial
  stmtLine : ∀ {inFunction : Bool} {s : Stmt}, A.law.stmt inFunction s →
    ∀ t ∈ s.places, A.line t.line := by exact fun _ _ _ => trivial

variable {A} {setup : Setup}

theorem value_constant (c : Constant) : A.value c.value := by
  cases c <;> exact trivial

theorem mem_members {g : Module} {name : String} {v : Value} (h : g.member? name = some v) :
    (name, v) ∈ g.members := by
  obtain ⟨before, after, heq, -⟩ := List.lookup_eq_some_iff.mp h
  rw [heq]
  simp

/-- The members of modules are constants and natives. -/
theorem value_member (laws : A.Laws setup) {g : Module} {name : String} {v : Value}
    (hg : A.module g) (h : g.member? name = some v) : A.value v := by
  have hmem := mem_members h
  cases v with
  | native f => exact laws.member hg h
  | null => exact trivial
  | bool b => exact trivial
  | num x => exact trivial
  | str s => exact trivial
  | _ => cases g <;> simp [Module.members] at hmem

theorem regime_laws (laws : A.Laws setup) : A.regime.Laws setup where
  refl _ := trivial
  trans _ _ := trivial
  mono _ hv := hv
  stay _ _ := trivial
  exhausted := laws.exhausted
  part := laws.part
  again := laws.again
  functionBody := by
    rintro s c fuel size depth ⟨t, hc⟩ hdepth h
    exact laws.functionBody hc.1 hdepth h
  structBody := by
    rintro s d fuel size depth ⟨t, hd⟩ hdepth h
    exact laws.structBody hd.1 hdepth h
  functionLaw := by
    rintro s c ⟨t, hc⟩
    exact stmtsEveryNode_iff.mp hc.2
  structLaw := by
    rintro s d ⟨t, hd⟩ entry hentry
    exact ⟨fieldsEveryNode_iff.mp hd.2 entry hentry, laws.structFields hd.1 entry hentry⟩
  functionParams := by
    rintro s c ⟨t, hc⟩
    exact laws.functionParams hc.1
  structParams := by
    rintro s d ⟨t, hd⟩
    exact laws.structParams hd.1
  assigned := laws.assigned
  moduleName {g} _ := laws.moduleName g
  memberName := laws.memberName
  constant _ c := value_constant c
  lookup h hv := (h.lookup hv).1
  field h hv := h.field? hv
  inst _ hd := hd
  module _ h := laws.module h
  member hg hv := value_member laws hg hv
  foreseen := laws.foreseen
  unary := laws.unary
  binary := laws.binary
  self hlaw h hv := by
    rcases laws.self hlaw with hname | hfault
    · exact Or.inl ((h.lookup hv).2.resolve_left hname)
    · exact Or.inr hfault
  exprLine := laws.exprLine
  stmtLine := laws.stmtLine
  define h _ hname hv := ⟨h.define _ ⟨hv, Or.inl hname⟩, trivial⟩
  assign h _ hname hv := ⟨h.define _ ⟨hv, Or.inl hname⟩, trivial⟩
  setField name h _ hv := ⟨h.setField _ name hv, trivial⟩
  newInstance h := ⟨h.newInstance, trivial⟩
  newFunction h _ hlaw := ⟨⟨h.freshId, trivial⟩, ⟨_, hlaw⟩⟩
  newStruct h _ hlaw := ⟨⟨h.freshId, trivial⟩, ⟨_, hlaw⟩⟩
  openBlock h _ := ⟨⟨h.child _ _, trivial⟩, trivial⟩
  openInner h _ _ := ⟨⟨h.child _ _, trivial⟩, trivial⟩
  bindMethod {s c id d} h hc hd := by
    -- This is the one place where a name that may not be bound gets a value.
    have hself : A.binding "self" (.inst id d) := ⟨hd, Or.inr ⟨id, d, rfl⟩⟩
    exact ⟨⟨((h.child c.scope .block).define _ hself).freshId, trivial⟩, hc⟩

/-- A machine on which nothing has run yet holds nothing but the built-in
functions. -/
theorem holds_start (console : Console) (hclock : A.native .clock) (hprint : A.native .print)
    (hnames : A.bindable "clock" ∧ A.bindable "print") :
    A.Holds (Machine.start console).store := by
  have hfirst := Store.holds_empty.define (P := A.binding) (Q := A.value) 0
    (⟨hclock, Or.inl hnames.1⟩ : A.binding "clock" (.native .clock))
  exact hfirst.define 0 (⟨hprint, Or.inl hnames.2⟩ : A.binding "print" (.native .print))

end Allowance

end BracketScript
