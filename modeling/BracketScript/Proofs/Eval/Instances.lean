import BracketScript.Proofs.Eval.Course
import BracketScript.Proofs.Eval.Holdings
import BracketScript.Proofs.Store.Lookup

/-!
# Instances out of reach

A program gets at an instance only through values that refer to it.  If no value
in a store does, then no run that starts there comes by one, and the fields of
the instance stay what they are.  The regime of such runs is given for any set
of hidden instances (`Regime.apart`); for the empty set it says that all values
refer to instances that exist.
-/

namespace BracketScript

/-- If the value is an instance, then one of the first `size` and not hidden. -/
def Value.Known (hidden : InstanceId → Prop) (size : Nat) : Value → Prop
  | .inst id _ => id < size ∧ ¬hidden id
  | _ => True

theorem Value.Known.mono {hidden : InstanceId → Prop} {size size' : Nat} {v : Value}
    (h : v.Known hidden size) (hsize : size ≤ size') : v.Known hidden size' := by
  cases v with
  | inst id d => exact ⟨Nat.lt_of_lt_of_le h.1 hsize, h.2⟩
  | _ => exact trivial

theorem Value.known_constant (hidden : InstanceId → Prop) (size : Nat) (c : Constant) :
    c.value.Known hidden size := by
  cases c <;> exact trivial

/-- The members of modules are no instances. -/
theorem Value.known_member {hidden : InstanceId → Prop} {size : Nat} {g : Module} {name : String}
    {v : Value} (h : g.member? name = some v) : v.Known hidden size := by
  have hmem := Allowance.mem_members h
  cases v with
  | inst id d => cases g <;> simp [Module.members] at hmem
  | _ => exact trivial

namespace Store

/-- All instances that a store refers to exist and are not hidden. -/
abbrev Knows (hidden : InstanceId → Prop) (s : Store) : Prop :=
  s.Holds (fun _ => Value.Known hidden s.instances.size) (Value.Known hidden s.instances.size)

/-- A store turns into another with the fields of hidden instances untouched. -/
structure Spares (hidden : InstanceId → Prop) (s s' : Store) : Prop extends s.Grows s' where
  instances : s.instances.size ≤ s'.instances.size
  untouched {id : InstanceId} (h : hidden id) : s'.instances[id]? = s.instances[id]?

variable {hidden : InstanceId → Prop} {s s' s'' : Store}

theorem Spares.of_instances_eq (hscopes : s.Grows s') (h : s'.instances = s.instances) :
    s.Spares hidden s' where
  toGrows := hscopes
  instances := by rw [h]
  untouched _ := by rw [h]

theorem Spares.trans (h : s.Spares hidden s') (h' : s'.Spares hidden s'') :
    s.Spares hidden s'' where
  toGrows := h.toGrows.trans h'.toGrows
  instances := Nat.le_trans h.instances h'.instances
  untouched hid := (h'.untouched hid).trans (h.untouched hid)

theorem Knows.setField {id : InstanceId} {v : Value} (h : s.Knows hidden) (name : String)
    (hv : v.Known hidden s.instances.size) : (s.setField id name v).Knows hidden := by
  unfold Knows
  rw [size_setField]
  exact Holds.setField h id name hv

theorem Knows.newInstance (h : s.Knows hidden) : s.newInstance.2.Knows hidden := by
  have hsize : s.instances.size ≤ s.newInstance.2.instances.size := by simp [Store.newInstance]
  exact (Holds.newInstance h).imp (fun _ _ _ hv => hv.mono hsize) fun _ _ hv => hv.mono hsize

end Store

/-- Runs that do not get at hidden instances. -/
def Regime.apart (hidden : InstanceId → Prop) : Regime where
  law := .any
  bindable _ := True
  inv s := s.Knows hidden ∧ ∀ id, hidden id → id < s.instances.size
  place _ _ := True
  moves := Store.Spares hidden
  value s := Value.Known hidden s.instances.size
  fault _ := True
  enough _ _ _ := True
  mayExhaust := True
  object s id := id < s.instances.size ∧ ¬hidden id

section Apart

open Store

variable {hidden : InstanceId → Prop}

theorem Regime.apart_lasting : (Regime.apart hidden).Lasting where
  enough _ _ _ := trivial
  line _ := trivial

theorem Regime.apart_step {s s' : Store} (hknows : s'.Knows hidden) (hs : s.Spares hidden s')
    (hold : ∀ id, hidden id → id < s.instances.size) : (Regime.apart hidden).Step s s' :=
  ⟨⟨hknows, fun id hid => Nat.lt_of_lt_of_le (hold id hid) hs.instances⟩, hs⟩

theorem Regime.apart_define {s : Store} {v : Value} (scope : ScopeId) (name : String)
    (h : (Regime.apart hidden).inv s) (hv : v.Known hidden s.instances.size) :
    (Regime.apart hidden).Step s (s.define scope name v) :=
  apart_step (Holds.define h.1 scope hv) (.of_instances_eq (.define s scope name v) rfl) h.2

theorem Regime.apart_child {s : Store} (outer : ScopeId) (kind : ScopeKind)
    (h : (Regime.apart hidden).inv s) : (Regime.apart hidden).Step s (s.child outer kind).2 :=
  apart_step (Holds.child h.1 outer kind) (.of_instances_eq (.child s outer kind) rfl) h.2

theorem Regime.apart_freshId {s : Store} (h : (Regime.apart hidden).inv s) :
    (Regime.apart hidden).Step s s.freshId.2 :=
  apart_step (Holds.freshId h.1) (.of_instances_eq (.of_scopes_eq rfl) rfl) h.2

theorem Regime.apart_laws (hidden : InstanceId → Prop) (setup : Setup) :
    (Regime.apart hidden).Laws setup where
  refl _ := .of_instances_eq (.of_scopes_eq rfl) rfl
  trans := .trans
  mono h hv := hv.mono h.instances
  stay _ _ := trivial
  exhausted _ := trivial
  part _ _ := trivial
  again _ _ := trivial
  functionBody _ _ _ := trivial
  structBody _ _ _ := trivial
  functionLaw _ s _ := s.everyNode_any true
  structLaw _ entry _ := ⟨entry.value.everyNode_any, trivial⟩
  functionParams _ _ _ := trivial
  structParams _ _ _ := trivial
  assigned _ := trivial
  moduleName _ := trivial
  memberName _ := trivial
  constant s c := Value.known_constant hidden _ c
  lookup h hv := h.1.lookup hv
  field h hv := h.1.field? hv
  inst hid _ := hid
  module _ _ := trivial
  member _ hv := Value.known_member hv
  held h := h
  last h hid := ⟨Nat.lt_of_lt_of_le hid.1 h.instances, hid.2⟩
  newObject {s} h := by
    refine ⟨by simp [Store.newInstance], fun hid => ?_⟩
    exact Nat.lt_irrefl _ (h.2 _ hid)
  foreseen _ := trivial
  unary _ _ := trivial
  binary _ _ := trivial
  self _ _ _ := .inr trivial
  define h _ _ hv := Regime.apart_define _ _ h hv
  assign h _ _ hv := Regime.apart_define _ _ h hv
  setField {s id v} name h hid hv := by
    apply Regime.apart_step (h.1.setField name hv) _ h.2
    refine ⟨.of_scopes_eq rfl, Nat.le_of_eq (size_setField id name v).symm, fun {other} hother => ?_⟩
    have hne : id ≠ other := fun heq => hid.2 (heq ▸ hother)
    simp [Store.setField, Array.getElem?_modify, hne]
  newInstance {s} h := by
    apply Regime.apart_step h.1.newInstance _ h.2
    refine ⟨.of_scopes_eq rfl, by simp [Store.newInstance], fun {other} hother => ?_⟩
    have hne : other ≠ s.instances.size := Nat.ne_of_lt (h.2 other hother)
    simp [Store.newInstance, Array.getElem?_push, hne]
  newFunction h _ _ := ⟨Regime.apart_freshId h, trivial⟩
  newStruct h _ _ := ⟨Regime.apart_freshId h, trivial⟩
  openBlock h _ := ⟨Regime.apart_child _ .block h, trivial⟩
  openInner h _ _ := ⟨Regime.apart_child _ .function h, trivial⟩
  bindMethod {s c id d} h _ hd := by
    have hopen := Regime.apart_child c.scope .block h
    have hself := Regime.apart_define (v := .inst id d) (s.child c.scope .block).1 "self"
      hopen.inv hd
    have hfresh := Regime.apart_freshId hself.inv
    exact ⟨⟨hfresh.inv, hopen.moves.trans (hself.moves.trans hfresh.moves)⟩, trivial⟩

end Apart

end BracketScript
