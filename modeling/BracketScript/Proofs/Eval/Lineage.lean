import BracketScript.Proofs.Eval.Course
import BracketScript.Proofs.Eval.Holdings
import BracketScript.Proofs.Store.Lookup

/-!
# Scopes and what is around them

Functions and structs remember the scope in which they were written.  That scope
exists, so a scope that is opened inside of it is younger, and the scopes of a
store form a tree (`Allowance.Rooted`).  A name that programs may not bind keeps
its value in every scope.  From there it is then found with the same value at all
later times, whatever else is bound (`Store.Settles.lookup_eq`).

Every allowance gives a regime that says so (`Allowance.rooted_laws`).
-/

namespace BracketScript

/-! ### Homes -/

/-- If the value is a function or a struct, then it was written in one of the
first `size` scopes. -/
def Value.Homed (size : Nat) (v : Value) : Prop :=
  ∀ home, v.home? = some home → home < size

theorem Value.Homed.mono {size size' : Nat} {v : Value} (h : v.Homed size)
    (hsize : size ≤ size') : v.Homed size' :=
  fun home hhome => Nat.lt_of_lt_of_le (h home hhome) hsize

theorem Value.homed_of_eq {size : Nat} {scope : ScopeId} {v : Value} (h : v.home? = some scope)
    (hscope : scope < size) : v.Homed size := by
  intro home hhome
  obtain rfl := Option.some.inj (h.symm.trans hhome)
  exact hscope

theorem Value.homed_of_none {size : Nat} {v : Value} (h : v.home? = none) : v.Homed size := by
  intro home hhome
  rw [h] at hhome
  cases hhome

/-- The members of modules were not written anywhere. -/
theorem Value.home?_member {g : Module} {name : String} {v : Value}
    (h : g.member? name = some v) : v.home? = none := by
  have hmem := Allowance.mem_members h
  cases v with
  | func c => cases g <;> simp [Module.members] at hmem
  | struct d => cases g <;> simp [Module.members] at hmem
  | _ => rfl

namespace Store

variable {s s' s'' : Store}

/-! ### New scopes -/

theorem lt_size_child (s : Store) (outer : ScopeId) (kind : ScopeKind) :
    s.scopes.size < (s.child outer kind).2.scopes.size := by
  rw [size_child]
  exact Nat.lt_succ_self _

theorem lt_size_method (s : Store) (c : Closure) (object : Value) :
    s.scopes.size < (s.method c object).2.scopes.size :=
  Nat.lt_of_lt_of_le (s.lt_size_child c.scope .block) (Grows.define _ _ _ _).size

theorem scopes_method_of_lt (c : Closure) (object : Value) {i : ScopeId}
    (hi : i < s.scopes.size) : (s.method c object).2.scopes[i]? = s.scopes[i]? :=
  (scopes_define _ _ _ i).trans
    ((if_neg (Nat.ne_of_gt hi)).trans (scopes_child_of_lt c.scope .block hi))

theorem Grows.method (s : Store) (c : Closure) (object : Value) :
    s.Grows (s.method c object).2 :=
  (Grows.child s c.scope .block).trans
    ((Grows.define _ s.scopes.size "self" object).trans (.of_scopes_eq rfl))

/-- A method finds its instance under `self`. -/
theorem lookup_method (s : Store) (c : Closure) (object : Value) :
    (s.method c object).2.lookup s.scopes.size "self" = some object :=
  lookup_of_own? (own?_define_self _ _ _ (s.lt_size_child c.scope .block))

/-! ### Names that keep their values -/

/-- A store turns into another, and every scope keeps what it binds some names
to. -/
structure Settles (fixed : String → Prop) (s s' : Store) : Prop extends s.Grows s' where
  same {i : ScopeId} {x : String} (hi : i < s.scopes.size) (hx : fixed x) :
    s'.own? i x = s.own? i x

namespace Settles

variable {fixed : String → Prop}

theorem of_scopes_eq (h : s'.scopes = s.scopes) : s.Settles fixed s' where
  toGrows := .of_scopes_eq h
  same _ _ := by rw [own?, own?, h]

theorem trans (h : s.Settles fixed s') (h' : s'.Settles fixed s'') : s.Settles fixed s'' where
  toGrows := h.toGrows.trans h'.toGrows
  same hi hx := (h'.same (Nat.lt_of_lt_of_le hi h.size) hx).trans (h.same hi hx)

theorem define {name : String} (hname : ¬fixed name) (scope : ScopeId) (v : Value) :
    s.Settles fixed (s.define scope name v) where
  toGrows := .define s scope name v
  same _ hx := own?_define_of_ne scope name v (.inr fun heq => hname (heq ▸ hx))

theorem child (s : Store) (outer : ScopeId) (kind : ScopeKind) :
    s.Settles fixed (s.child outer kind).2 where
  toGrows := .child s outer kind
  same _ _ := own?_child outer kind _ _

theorem method (s : Store) (c : Closure) (object : Value) :
    s.Settles fixed (s.method c object).2 where
  toGrows := .method s c object
  same hi _ := by rw [own?, own?, scopes_method_of_lt c object hi]

/-- Such names are found with the same values. -/
theorem lookup_eq (h : s.Settles fixed s') (hs : s.Tree) (hs' : s'.Tree) {x : String}
    (hx : fixed x) {scope : ScopeId} (hscope : scope < s.scopes.size) :
    s'.lookup scope x = s.lookup scope x := by
  induction scope using Nat.strongRecOn with
  | ind scope ih =>
      rw [hs.lookup_eq, hs'.lookup_eq, h.same hscope hx, h.parent hscope]
      congr 1
      apply Option.bind_congr
      intro parent hparent
      have hless := hs scope parent hparent
      exact ih parent hless (Nat.lt_trans hless hscope)

end Settles

end Store

/-! ### The regime -/

namespace Allowance

variable (A : Allowance)

/-- Stores with nothing but allowed values whose scopes form a tree, to which
also belong the scopes that values remember. -/
structure Rooted (s : Store) : Prop where
  tree : s.Tree
  holds : s.Holds (fun name v => A.binding name v ∧ v.Homed s.scopes.size)
    fun v => A.value v ∧ v.Homed s.scopes.size

/-- The regime of an allowance, with what it means for scopes. -/
def rooted : Regime where
  law := A.law
  bindable := A.bindable
  inv := A.Rooted
  place s scope := scope < s.scopes.size
  moves := Store.Settles fun name => ¬A.bindable name
  value s v := A.value v ∧ v.Homed s.scopes.size
  fault := A.fault
  enough := A.enough
  mayExhaust := A.mayExhaust
  line := A.line

variable {A} {s s' : Store}

theorem Rooted.of_scopes_eq (h : A.Rooted s) (hscopes : s'.scopes = s.scopes)
    (hholds : s'.Holds (fun name v => A.binding name v ∧ v.Homed s.scopes.size)
      fun v => A.value v ∧ v.Homed s.scopes.size) : A.Rooted s' := by
  refine ⟨h.tree.of_scopes_eq hscopes, ?_⟩
  rwa [hscopes]

theorem Rooted.define (h : A.Rooted s) (scope : ScopeId) {name : String} {v : Value}
    (hv : A.binding name v ∧ v.Homed s.scopes.size) : A.Rooted (s.define scope name v) := by
  refine ⟨h.tree.define scope name v, ?_⟩
  rw [Store.size_define]
  exact h.holds.define scope hv

theorem Rooted.child (h : A.Rooted s) {outer : ScopeId} (kind : ScopeKind)
    (houter : outer < s.scopes.size) : A.Rooted (s.child outer kind).2 := by
  have hsize := (Store.Grows.child s outer kind).size
  refine ⟨h.tree.child kind houter, ?_⟩
  exact (h.holds.child outer kind).imp (fun _ _ _ hv => ⟨hv.1, hv.2.mono hsize⟩)
    fun _ _ hv => ⟨hv.1, hv.2.mono hsize⟩

theorem Rooted.freshId (h : A.Rooted s) : A.Rooted s.freshId.2 :=
  h.of_scopes_eq rfl h.holds.freshId

theorem rooted_laws {setup : Setup} (laws : A.Laws setup) : A.rooted.Laws setup where
  refl _ := .of_scopes_eq rfl
  trans := .trans
  mono h hv := ⟨hv.1, hv.2.mono h.size⟩
  stay h hscope := Nat.lt_of_lt_of_le hscope h.size
  exhausted := laws.exhausted
  part := laws.part
  again := laws.again
  functionBody {s _ _ _ _} hc := (regime_laws laws).functionBody (s := s) hc.1
  structBody {s _ _ _ _} hd := (regime_laws laws).structBody (s := s) hd.1
  functionLaw {s _} hc := (regime_laws laws).functionLaw (s := s) hc.1
  structLaw {s _} hd := (regime_laws laws).structLaw (s := s) hd.1
  functionParams {s _} hc := (regime_laws laws).functionParams (s := s) hc.1
  structParams {s _} hd := (regime_laws laws).structParams (s := s) hd.1
  assigned := laws.assigned
  moduleName {g} _ := laws.moduleName g
  memberName := laws.memberName
  constant _ c := ⟨value_constant c, Value.homed_of_none (by cases c <;> rfl)⟩
  lookup h hv := ⟨(h.holds.lookup hv).1.1, (h.holds.lookup hv).2⟩
  field h hv := h.holds.field? hv
  inst _ hd := ⟨hd.1, Value.homed_of_none rfl⟩
  module _ h := ⟨laws.module h, Value.homed_of_none rfl⟩
  member hg hv := ⟨value_member laws hg.1 hv, Value.homed_of_none (Value.home?_member hv)⟩
  foreseen := laws.foreseen
  unary := laws.unary
  binary := laws.binary
  self hlaw h hv := by
    rcases laws.self hlaw with hname | hfault
    · exact Or.inl ((h.holds.lookup hv).1.2.resolve_left hname)
    · exact Or.inr hfault
  exprLine := laws.exprLine
  stmtLine := laws.stmtLine
  define h _ hname hv :=
    ⟨h.define _ ⟨⟨hv.1, Or.inl hname⟩, hv.2⟩, .define (fun hfixed => hfixed hname) _ _⟩
  assign h _ hname hv :=
    ⟨h.define _ ⟨⟨hv.1, Or.inl hname⟩, hv.2⟩, .define (fun hfixed => hfixed hname) _ _⟩
  setField name h _ hv := ⟨h.of_scopes_eq rfl (h.holds.setField _ name hv), .of_scopes_eq rfl⟩
  newInstance h := ⟨h.of_scopes_eq rfl h.holds.newInstance, .of_scopes_eq rfl⟩
  newFunction h hscope hlaw :=
    ⟨⟨h.freshId, .of_scopes_eq rfl⟩, ⟨_, hlaw⟩, Value.homed_of_eq rfl hscope⟩
  newStruct h hscope hlaw :=
    ⟨⟨h.freshId, .of_scopes_eq rfl⟩, ⟨_, hlaw⟩, Value.homed_of_eq rfl hscope⟩
  openBlock h hscope := ⟨⟨h.child .block hscope, .child _ _ _⟩, Store.lt_size_child _ _ _⟩
  openInner h hv houter :=
    ⟨⟨h.child .function (hv.2 _ houter), .child _ _ _⟩, Store.lt_size_child _ _ _⟩
  bindMethod {s c id d} h hc hd := by
    have hopen := h.child .block (hc.2 _ rfl)
    have hself : A.binding "self" (.inst id d) := ⟨hd.1, Or.inr ⟨id, d, rfl⟩⟩
    have hbound := hopen.define s.scopes.size ⟨hself, Value.homed_of_none rfl⟩
    exact ⟨⟨hbound.freshId, .method s c _⟩, hc.1,
      Value.homed_of_eq rfl (s.lt_size_method c _)⟩

/-- On a machine on which nothing has run yet there is one scope, with the
built-in functions. -/
theorem rooted_start (console : Console) (hclock : A.native .clock) (hprint : A.native .print)
    (hnames : A.bindable "clock" ∧ A.bindable "print") :
    A.Rooted (Machine.start console).store := by
  have hempty : A.Rooted Store.empty := by
    refine ⟨fun i p hparent => ?_, Store.holds_empty⟩
    obtain ⟨scope, hscope, hp⟩ := Option.bind_eq_some_iff.mp hparent
    have hmem := Array.mem_iff_getElem?.mpr ⟨i, hscope⟩
    obtain rfl : scope = ⟨.global, [], none⟩ := by simpa [Store.empty] using hmem
    cases hp
  have hfirst : A.Rooted (Store.empty.define 0 "clock" (.native .clock)) :=
    hempty.define 0 ⟨⟨hclock, Or.inl hnames.1⟩, Value.homed_of_none rfl⟩
  have hsecond : A.binding "print" (.native .print) := ⟨hprint, Or.inl hnames.2⟩
  exact hfirst.define 0 ⟨hsecond, Value.homed_of_none rfl⟩

end Allowance

end BracketScript
