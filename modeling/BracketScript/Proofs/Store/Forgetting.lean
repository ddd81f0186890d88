import BracketScript.Proofs.Store.Lookup

/-!
# Forgetting a global

Two stores that differ in the global binding of a name only are the same once
that binding is forgotten (`Store.forget`).  Everything else that is done with a
store goes together with forgetting: what is read, as long as it is not that
binding, is the same before and after (`own?_forget`, `lookup_forget`), and a
change can be made first or last (`forget_define` and so on).
-/

namespace BracketScript

namespace Bindings

/-- The bindings of the other names. -/
def without (bindings : Bindings) (name : String) : Bindings :=
  bindings.filter fun entry => entry.1 ≠ name

variable {name x : String}

@[simp] theorem without_cons_self (v : Value) (rest : Bindings) :
    without ((name, v) :: rest) name = rest.without name := by
  simp [without]

theorem without_cons_of_ne (h : x ≠ name) (v : Value) (rest : Bindings) :
    without ((x, v) :: rest) name = (x, v) :: rest.without name := by
  simp [without, h]

theorem get?_without (bindings : Bindings) (h : x ≠ name) :
    (bindings.without name).get? x = bindings.get? x := by
  induction bindings with
  | nil => rfl
  | cons entry rest ih =>
      obtain ⟨key, v⟩ := entry
      by_cases hkey : key = name
      · subst hkey
        rw [without_cons_self, ih, get?, if_neg h.symm]
      · rw [without_cons_of_ne hkey, get?, get?, ih]

theorem without_set (bindings : Bindings) (v : Value) (h : x ≠ name) :
    (bindings.set x v).without name = (bindings.without name).set x v := by
  induction bindings with
  | nil => exact without_cons_of_ne h v []
  | cons entry rest ih =>
      obtain ⟨key, old⟩ := entry
      by_cases hkey : key = name
      · subst hkey
        rw [set, if_neg h.symm, without_cons_self, without_cons_self, ih]
      · rw [without_cons_of_ne hkey, set, set]
        split
        · exact without_cons_of_ne hkey v rest
        · rw [without_cons_of_ne hkey, ih]

theorem without_set_self (bindings : Bindings) (v : Value) :
    (bindings.set name v).without name = bindings.without name := by
  induction bindings with
  | nil => exact without_cons_self v []
  | cons entry rest ih =>
      obtain ⟨key, old⟩ := entry
      rw [set]
      split
      · next hkey =>
          subst hkey
          rw [without_cons_self, without_cons_self]
      · next hkey => rw [without_cons_of_ne hkey, without_cons_of_ne hkey, ih]

end Bindings

namespace Store

variable {s s' : Store} {name x : String}

/-- The store without the global binding of a name. -/
def forget (s : Store) (name : String) : Store :=
  { s with
    scopes := s.scopes.modify 0 fun found =>
      { found with bindings := found.bindings.without name } }

@[simp] theorem instances_forget : (s.forget name).instances = s.instances := rfl

@[simp] theorem fresh_forget : (s.forget name).fresh = s.fresh := rfl

@[simp] theorem size_forget : (s.forget name).scopes.size = s.scopes.size := by
  simp [forget]

theorem scopes_forget (i : ScopeId) :
    (s.forget name).scopes[i]? =
      if 0 = i then
        s.scopes[i]?.map fun found => { found with bindings := found.bindings.without name }
      else s.scopes[i]? := by
  simp [forget, Array.getElem?_modify]

/-! ### Readings -/

@[simp] theorem parent?_forget (i : ScopeId) : (s.forget name).parent? i = s.parent? i := by
  unfold parent?
  rw [scopes_forget]
  split
  · cases s.scopes[i]? <;> rfl
  · rfl

@[simp] theorem kind?_forget (i : ScopeId) : (s.forget name).kind? i = s.kind? i := by
  unfold kind?
  rw [scopes_forget]
  split
  · cases s.scopes[i]? <;> rfl
  · rfl

theorem own?_forget {i : ScopeId} (h : i ≠ 0 ∨ x ≠ name) :
    (s.forget name).own? i x = s.own? i x := by
  unfold own?
  rw [scopes_forget]
  split
  · next hi =>
      have hx : x ≠ name := h.resolve_left fun hne => hne hi.symm
      cases s.scopes[i]? with
      | none => rfl
      | some found => exact Bindings.get?_without found.bindings hx
  · rfl

theorem lookup_forget (scope : ScopeId) (h : x ≠ name) :
    (s.forget name).lookup scope x = s.lookup scope x := by
  have hwithin : ∀ n scope, (s.forget name).lookupWithin x n scope = s.lookupWithin x n scope := by
    intro n
    induction n with
    | zero => exact fun _ => rfl
    | succ n ih =>
        intro scope
        simp only [lookupWithin, own?_forget (.inr h), parent?_forget, ih]
  exact hwithin _ scope

theorem slot_forget (scope : ScopeId) (h : x ≠ name) :
    (s.forget name).slot scope x = s.slot scope x := by
  have hwithin : ∀ n scope, (s.forget name).slotWithin x n scope = s.slotWithin x n scope := by
    intro n
    induction n with
    | zero => exact fun _ => rfl
    | succ n ih =>
        intro scope
        simp only [slotWithin, own?_forget (.inr h), parent?_forget, kind?_forget, ih]
  rw [slot, slot, hwithin]

@[simp] theorem field?_forget (id : InstanceId) (x : String) :
    (s.forget name).field? id x = s.field? id x :=
  rfl

/-! ### Changes -/

/-- The binding that is forgotten can be any. -/
theorem forget_define_self (v : Value) : (s.define 0 name v).forget name = s.forget name := by
  have hscopes : ((s.define 0 name v).forget name).scopes = (s.forget name).scopes := by
    apply Array.ext_getElem?
    intro i
    rw [scopes_forget, scopes_define, scopes_forget]
    cases s.scopes[i]? with
    | none => simp
    | some found => by_cases hi : 0 = i <;> simp [hi, Bindings.without_set_self]
  exact congrArg (fun scopes => Store.mk scopes s.instances s.fresh) hscopes

theorem forget_define (scope : ScopeId) (v : Value) (h : x ≠ name) :
    (s.define scope x v).forget name = (s.forget name).define scope x v := by
  have hscopes : ((s.define scope x v).forget name).scopes =
      ((s.forget name).define scope x v).scopes := by
    apply Array.ext_getElem?
    intro i
    rw [scopes_forget, scopes_define, scopes_define, scopes_forget]
    cases s.scopes[i]? with
    | none => simp
    | some found =>
        -- The two changes meet in the global scope only.
        by_cases hi : 0 = i <;> by_cases hscope : scope = i <;>
          simp [hi, hscope, Bindings.without_set _ v h]
  exact congrArg (fun scopes => Store.mk scopes s.instances s.fresh) hscopes

theorem forget_assign (scope : ScopeId) (v : Value) (h : x ≠ name) :
    (s.assign scope x v).forget name = (s.forget name).assign scope x v := by
  rw [assign, assign, forget_define _ v h, slot_forget scope h]

theorem forget_child (outer : ScopeId) (kind : ScopeKind) :
    (s.child outer kind).2.forget name = ((s.forget name).child outer kind).2 := by
  have hscopes : ((s.child outer kind).2.forget name).scopes =
      ((s.forget name).child outer kind).2.scopes := by
    apply Array.ext_getElem?
    intro i
    rw [scopes_forget]
    simp only [child, Array.getElem?_push, size_forget, scopes_forget]
    by_cases hi : i = s.scopes.size
    · simp [hi, Bindings.without]
    · simp [hi]
  exact congrArg (fun scopes => Store.mk scopes s.instances s.fresh) hscopes

theorem forget_setField (id : InstanceId) (x : String) (v : Value) :
    (s.setField id x v).forget name = (s.forget name).setField id x v := rfl

theorem forget_newInstance : s.newInstance.2.forget name = (s.forget name).newInstance.2 := rfl

theorem forget_freshId : s.freshId.2.forget name = (s.forget name).freshId.2 := rfl

end Store

end BracketScript
