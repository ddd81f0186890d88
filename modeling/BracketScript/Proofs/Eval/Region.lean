import BracketScript.Proofs.Eval.Holdings
import BracketScript.Proofs.Store.Forgetting
import BracketScript.Proofs.Value.Mentions

/-!
# What code gets at without a global

Code that runs in a scope gets at what is bound there and in the scopes around,
at the fields of instances among these values, and at what the functions and
structs among them find where they were written.  If it does not mention a name,
the global binding of that name is not a way to get further (`Store.Reaches`).

A `Region` is a part of a store that is closed under these ways.  As long as the
code in it lacks the name, running it changes the store in ways that have nothing
to do with the binding (`Region.Inert`): they leave it alone, they do the same if
it is forgotten, and they keep the region closed.
-/

namespace BracketScript

/-- What can be got at in a store. -/
inductive Site where
  | scope (place : ScopeId)
  | object (id : InstanceId)
  | value (v : Value)

/-- What code in a scope gets at without the global binding of a name. -/
inductive Store.Reaches (s : Store) (name : String) (start : ScopeId) : Site → Prop
  | here : Reaches s name start (.scope start)
  | around {i p : ScopeId} (h : Reaches s name start (.scope i)) (hp : s.parent? i = some p) :
    Reaches s name start (.scope p)
  | bound {i : ScopeId} {x : String} {v : Value} (h : Reaches s name start (.scope i))
    (hother : i ≠ 0 ∨ x ≠ name) (hv : s.own? i x = some v) : Reaches s name start (.value v)
  | home {v : Value} {i : ScopeId} (h : Reaches s name start (.value v)) (hi : v.home? = some i) :
    Reaches s name start (.scope i)
  | object {id : InstanceId} {d : StructDef} (h : Reaches s name start (.value (.inst id d))) :
    Reaches s name start (.object id)
  | field {id : InstanceId} {x : String} {v : Value} (h : Reaches s name start (.object id))
    (hv : s.field? id x = some v) : Reaches s name start (.value v)

/-- Only values that a store holds are got at. -/
theorem Store.Reaches.mem_values {s : Store} {name : String} {start : ScopeId} {v : Value}
    (h : s.Reaches name start (.value v)) : v ∈ s.values := by
  have hany : Store.Holds (fun _ _ => True) (fun _ => True) s :=
    ⟨fun _ _ _ _ => trivial, fun _ _ _ _ => trivial⟩
  have hvalues : Store.Holds (fun _ w => w ∈ s.values) (fun w => w ∈ s.values) s :=
    hany.imp (fun _ _ hw _ => hw) fun _ hw _ => hw
  cases h with
  | bound _ _ hv => exact hvalues.own? hv
  | field _ hv => exact hvalues.field? hv

/-- Scopes and instances. -/
structure Region where
  scope : ScopeId → Prop
  object : InstanceId → Prop

namespace Region

/-- The value leads nowhere but into the region, and its code lacks the name. -/
structure Admits (G : Region) (name : String) (v : Value) : Prop where
  lacks : v.Lacks name
  home {i : ScopeId} (h : v.home? = some i) : G.scope i
  object {id : InstanceId} {d : StructDef} (h : v = .inst id d) : G.object id

/-- There is no way out of the region but through the global binding of the name.
Places that are not taken yet belong to it. -/
structure Closed (G : Region) (name : String) (s : Store) : Prop where
  newScope {i : ScopeId} (h : s.scopes.size ≤ i) : G.scope i
  newObject {id : InstanceId} (h : s.instances.size ≤ id) : G.object id
  around {i p : ScopeId} (h : G.scope i) (hp : s.parent? i = some p) : G.scope p
  bound {i : ScopeId} {x : String} {v : Value} (h : G.scope i) (hother : i ≠ 0 ∨ x ≠ name)
    (hv : s.own? i x = some v) : G.Admits name v
  field {id : InstanceId} {x : String} {v : Value} (h : G.object id)
    (hv : s.field? id x = some v) : G.Admits name v

/-- What code in a scope gets at, and the places that are not taken yet. -/
def reach (s : Store) (name : String) (start : ScopeId) : Region where
  scope i := s.Reaches name start (.scope i) ∨ s.scopes.size ≤ i
  object id := s.Reaches name start (.object id) ∨ s.instances.size ≤ id

theorem closed_reach {s : Store} {name : String} {start : ScopeId}
    (h : ∀ v, s.Reaches name start (.value v) → v.Lacks name) :
    (reach s name start).Closed name s := by
  have hadmits : ∀ v, s.Reaches name start (.value v) → (reach s name start).Admits name v := by
    intro v hv
    refine ⟨h v hv, fun hi => .inl (hv.home hi), ?_⟩
    rintro id d rfl
    exact .inl hv.object
  -- Places that are not taken yet bind nothing and lead nowhere.
  constructor
  · exact .inr
  · exact .inr
  · rintro i p (hi | hi) hp
    · exact .inl (hi.around hp)
    · simp [Store.parent?, Array.getElem?_eq_none hi] at hp
  · rintro i x v (hi | hi) hother hv
    · exact hadmits v (hi.bound hother hv)
    · simp [Store.own?, Array.getElem?_eq_none hi] at hv
  · rintro id x v (hid | hid) hv
    · exact hadmits v (hid.field hv)
    · simp [Store.field?, Array.getElem?_eq_none hid] at hv

variable {G : Region} {name x : String} {s s' : Store} {v : Value}

/-! ### Values -/

namespace Admits

/-- Values that carry no code and lead nowhere. -/
theorem plain (hlacks : v.Lacks name) (hhome : v.home? = none)
    (hinst : ∀ id d, v ≠ .inst id d) : G.Admits name v where
  lacks := hlacks
  home hi := by
    rw [hhome] at hi
    cases hi
  object h := absurd h (hinst _ _)

theorem constant (c : Constant) : G.Admits name c.value := by
  cases c <;> exact plain trivial rfl (by simp [Constant.value])

theorem module (g : Module) : G.Admits name (.module g) :=
  plain trivial rfl (by simp)

theorem member {g : Module} (h : g.member? x = some v) : G.Admits name v := by
  have hmem := Allowance.mem_members h
  cases v with
  | func | struct | inst | module => cases g <;> simp [Module.members] at hmem
  | _ => exact plain trivial rfl (by simp)

theorem inst {id : InstanceId} (hid : G.object id) (d : StructDef) :
    G.Admits name (.inst id d) := by
  refine ⟨trivial, nofun, ?_⟩
  rintro _ _ ⟨⟩
  exact hid

theorem func {c : Closure} (hlacks : (Value.func c).Lacks name) (hscope : G.scope c.scope) :
    G.Admits name (.func c) := by
  refine ⟨hlacks, ?_, nofun⟩
  rintro _ ⟨⟩
  exact hscope

theorem struct {d : StructDef} (hlacks : (Value.struct d).Lacks name) (hscope : G.scope d.scope) :
    G.Admits name (.struct d) := by
  refine ⟨hlacks, ?_, nofun⟩
  rintro _ ⟨⟩
  exact hscope

end Admits

namespace Closed

/-- Looking up another name from inside. -/
theorem lookup (h : G.Closed name s) {scope : ScopeId} (hscope : G.scope scope) (hx : x ≠ name)
    (hv : s.lookup scope x = some v) : G.Admits name v := by
  unfold Store.lookup at hv
  generalize scope + 1 = n at hv
  induction n generalizing scope with
  | zero => cases hv
  | succ n ih =>
      unfold Store.lookupWithin at hv
      split at hv
      · next hown =>
        cases hv
        exact h.bound hscope (.inr hx) hown
      · split at hv
        · next hparent => exact ih (h.around hscope hparent) hv
        · cases hv

/-- Being closed has nothing to do with the binding. -/
theorem of_forget_eq (h : G.Closed name s) (heq : s'.forget name = s.forget name) :
    G.Closed name s' := by
  have hinstances : s'.instances = s.instances := by
    rw [← @Store.instances_forget s' name, heq, Store.instances_forget]
  have hsize : s'.scopes.size = s.scopes.size := by
    rw [← @Store.size_forget s' name, heq, Store.size_forget]
  constructor
  · intro i hi
    exact h.newScope (hsize ▸ hi)
  · intro id hid
    exact h.newObject (hinstances ▸ hid)
  · intro i p hi hp
    rw [← @Store.parent?_forget s' name, heq, Store.parent?_forget] at hp
    exact h.around hi hp
  · intro i x v hi hother hv
    rw [← Store.own?_forget hother, heq, Store.own?_forget hother] at hv
    exact h.bound hi hother hv
  · intro id x v hid hv
    rw [Store.field?, hinstances] at hv
    exact h.field hid hv

end Closed

/-! ### Changes of the store -/

/-- A change that has nothing to do with the global binding of the name. -/
structure Inert (G : Region) (name : String) (change : Store → Store) : Prop where
  forget {s : Store} (h : G.Closed name s) : change (s.forget name) = (change s).forget name
  binding {s : Store} (h : G.Closed name s) : (change s).own? 0 name = s.own? 0 name
  closed {s : Store} (h : G.Closed name s) : G.Closed name (change s)

namespace Inert

theorem same : G.Inert name fun s => s :=
  ⟨fun _ => rfl, fun _ => rfl, id⟩

theorem comp {f g : Store → Store} (hf : G.Inert name f) (hg : G.Inert name g) :
    G.Inert name fun s => g (f s) where
  forget h := by rw [hf.forget h, hg.forget (hf.closed h)]
  binding h := (hg.binding (hf.closed h)).trans (hf.binding h)
  closed h := hg.closed (hf.closed h)

/-- A change that depends on what is read in the store first. -/
theorem reading {β : Type} {read : Store → β} {change : β → Store → Store}
    (hread : ∀ s, read (s.forget name) = read s)
    (h : ∀ s, G.Closed name s → G.Inert name (change (read s))) :
    G.Inert name fun s => change (read s) s where
  forget {s} hs := by rw [hread, (h s hs).forget hs]
  binding {s} hs := (h s hs).binding hs
  closed {s} hs := (h s hs).closed hs

theorem define (scope : ScopeId) (hx : x ≠ name) (hv : G.Admits name v) :
    G.Inert name fun s => s.define scope x v where
  forget _ := (Store.forget_define scope v hx).symm
  binding _ := Store.own?_define_of_ne scope x v (.inr hx.symm)
  closed {s} h := by
    constructor
    · intro i hi
      exact h.newScope (by rwa [Store.size_define] at hi)
    · exact h.newObject
    · intro i p hi hp
      rw [Store.parent?_define] at hp
      exact h.around hi hp
    · intro i y w hi hother hw
      -- What is found is the value just bound, or was there before.
      by_cases hsame : i = scope ∧ y = x
      · obtain ⟨rfl, rfl⟩ := hsame
        have hin : i < s.scopes.size := by
          have hlt := Store.lt_of_own?_isSome (Option.isSome_of_eq_some hw)
          rwa [Store.size_define] at hlt
        rw [Store.own?_define_self i y v hin] at hw
        cases hw
        exact hv
      · rw [Store.own?_define_of_ne scope x v (not_and_or.mp hsame)] at hw
        exact h.bound hi hother hw
    · exact h.field

theorem assign (scope : ScopeId) (hx : x ≠ name) (hv : G.Admits name v) :
    G.Inert name fun s => s.assign scope x v where
  forget _ := (Store.forget_assign scope v hx).symm
  binding h := (define _ hx hv).binding h
  closed h := (define _ hx hv).closed h

theorem child {outer : ScopeId} (houter : G.scope outer) (kind : ScopeKind) :
    G.Inert name fun s => (s.child outer kind).2 where
  forget _ := (Store.forget_child outer kind).symm
  binding _ := Store.own?_child outer kind 0 name
  closed {s} h := by
    constructor
    · intro i hi
      rw [Store.size_child] at hi
      exact h.newScope (Nat.le_of_succ_le hi)
    · exact h.newObject
    · intro i p hi hp
      rw [Store.parent?_child] at hp
      split at hp
      · cases hp
        exact houter
      · exact h.around hi hp
    · intro i y w hi hother hw
      rw [Store.own?_child] at hw
      exact h.bound hi hother hw
    · exact h.field

theorem setField (id : InstanceId) (x : String) (hv : G.Admits name v) :
    G.Inert name fun s => s.setField id x v where
  forget _ := (Store.forget_setField id x v).symm
  binding _ := rfl
  closed {s} h := by
    constructor
    · exact h.newScope
    · intro i hi
      exact h.newObject (by rwa [Store.size_setField] at hi)
    · exact h.around
    · exact h.bound
    · intro i y w hi hw
      by_cases hsame : i = id ∧ y = x
      · obtain ⟨rfl, rfl⟩ := hsame
        have hin : i < s.instances.size := by
          apply Nat.lt_of_not_le
          intro hout
          rw [← Store.size_setField (s := s) i y v] at hout
          simp [Store.field?, Array.getElem?_eq_none hout] at hw
        rw [Store.field?_setField_self i y v hin] at hw
        cases hw
        exact hv
      · rw [Store.field?_setField_of_ne id x v (not_and_or.mp hsame)] at hw
        exact h.field hi hw

theorem newInstance : G.Inert name fun s => s.newInstance.2 where
  forget _ := Store.forget_newInstance.symm
  binding _ := rfl
  closed {s} h := by
    constructor
    · exact h.newScope
    · intro i hi
      simp only [Store.newInstance, Array.size_push] at hi
      exact h.newObject (Nat.le_of_succ_le hi)
    · exact h.around
    · exact h.bound
    · intro i y w hi hw
      by_cases hsize : i = s.instances.size
      · simp [Store.newInstance, Store.field?, hsize, Bindings.get?] at hw
      · have hold : s.newInstance.2.field? i y = s.field? i y := by
          simp [Store.newInstance, Store.field?, Array.getElem?_push, hsize]
        exact h.field hi (hold.symm.trans hw)

theorem freshId : G.Inert name fun s => s.freshId.2 where
  forget _ := Store.forget_freshId.symm
  binding _ := rfl
  closed h := ⟨h.newScope, h.newObject, h.around, h.bound, h.field⟩

theorem foldl {α : Type} {change : Store → α → Store} (items : List α)
    (h : ∀ item ∈ items, G.Inert name fun s => change s item) :
    G.Inert name fun s => items.foldl change s := by
  induction items with
  | nil => exact same
  | cons item items ih =>
      rw [List.forall_mem_cons] at h
      exact h.1.comp (ih h.2)

/-- A function is read from an instance. -/
theorem method (hself : name ≠ "self") {c : Closure} (hc : G.Admits name (.func c))
    {object : Value} (hobject : G.Admits name object) :
    G.Inert name fun s => (s.method c object).2 := by
  apply @reading _ _ _ (fun s => s.scopes.size)
    (fun size s => ((s.child c.scope .block).2.define size "self" object).freshId.2)
  · exact fun _ => Store.size_forget
  · intro s _
    exact ((child (hc.home rfl) .block).comp (define _ hself.symm hobject)).comp freshId

/-- A scope for a call is opened. -/
theorem openCall {outer : ScopeId} (houter : G.scope outer) {params : List Token}
    {args : List Value} (hparams : Token.Avoid name params) (hargs : ∀ v ∈ args, G.Admits name v) :
    G.Inert name fun s => (params.zip args).foldl
      (fun s' pair => s'.define (s.child outer .function).1 pair.1.lexeme pair.2)
      (s.child outer .function).2 := by
  apply @reading _ _ _ (fun s => s.scopes.size) (fun size s => (params.zip args).foldl
    (fun s' pair => s'.define size pair.1.lexeme pair.2) (s.child outer .function).2)
  · exact fun _ => Store.size_forget
  · intro s _
    have hbind : ∀ pair ∈ params.zip args,
        G.Inert name fun s' => s'.define s.scopes.size pair.1.lexeme pair.2 := by
      intro pair hpair
      obtain ⟨hparam, harg⟩ := List.of_mem_zip hpair
      exact define _ (hparams _ hparam) (hargs _ harg)
    exact (child houter .function).comp (foldl _ hbind)

/-- An instance is made. -/
theorem openInstance (params : List Token) {args : List Value}
    (hargs : ∀ v ∈ args, G.Admits name v) :
    G.Inert name fun s => (params.zip args).foldl
      (fun s' pair => s'.setField s.newInstance.1 pair.1.lexeme pair.2) s.newInstance.2 := by
  apply @reading _ _ _ (fun s => s.instances.size) (fun size s => (params.zip args).foldl
    (fun s' pair => s'.setField size pair.1.lexeme pair.2) s.newInstance.2)
  · exact fun _ => rfl
  · intro s _
    have hset : ∀ pair ∈ params.zip args,
        G.Inert name fun s' => s'.setField s.instances.size pair.1.lexeme pair.2 := by
      intro pair hpair
      exact setField _ _ (hargs _ (List.of_mem_zip hpair).2)
    exact newInstance.comp (foldl _ hset)

end Inert

end Region

end BracketScript
