import BracketScript.Store

/-!
# Reading a store

What the changes of a store do to its readings: what a scope itself binds, what
opened it and what is around it, and the fields of instances.

A walk outwards is bounded by the place where it starts.  In a store whose scopes
are younger than the ones around them (`Store.Tree`) the bound is never reached,
and looking a name up is the plain recursion: a scope's own binding, or else what
the scope around it says (`Store.Tree.lookup_eq`).  So the value found is that of
the nearest scope that binds the name (`Store.Nearest`).
-/

namespace BracketScript

theorem Bindings.get?_set (bindings : Bindings) (name : String) (v : Value) (x : String) :
    (bindings.set name v).get? x = if x = name then some v else bindings.get? x := by
  induction bindings with
  | nil => simp [set, get?, eq_comm]
  | cons entry rest ih =>
      obtain ⟨key, old⟩ := entry
      unfold set
      split
      · next hkey =>
          subst hkey
          by_cases hx : key = x
          · simp [get?, hx]
          · simp [get?, hx, Ne.symm hx]
      · next hkey =>
          by_cases hx : key = x
          · subst hx
            simp [get?, hkey]
          · simp [get?, hx, ih]

namespace Store

variable {s : Store}

/-! ### Changes and readings -/

/-- Only a scope that is there binds names. -/
theorem lt_of_own?_isSome {i : ScopeId} {x : String} (h : (s.own? i x).isSome) :
    i < s.scopes.size := by
  apply Nat.lt_of_not_le
  intro hout
  simp [own?, Array.getElem?_eq_none hout] at h

@[simp] theorem own?_size (x : String) : s.own? s.scopes.size x = none := by
  simp [own?]

section Define

variable (scope : ScopeId) (name : String) (v : Value)

@[simp] theorem size_define : (s.define scope name v).scopes.size = s.scopes.size := by
  simp [define]

@[simp] theorem instances_define : (s.define scope name v).instances = s.instances :=
  rfl

theorem scopes_define (i : ScopeId) :
    (s.define scope name v).scopes[i]? =
      if scope = i then
        s.scopes[i]?.map fun found => { found with bindings := found.bindings.set name v }
      else s.scopes[i]? := by
  simp [define, Array.getElem?_modify]

@[simp] theorem kind?_define (i : ScopeId) : (s.define scope name v).kind? i = s.kind? i := by
  unfold kind?
  rw [scopes_define]
  split
  · cases s.scopes[i]? <;> rfl
  · rfl

@[simp] theorem parent?_define (i : ScopeId) : (s.define scope name v).parent? i = s.parent? i := by
  unfold parent?
  rw [scopes_define]
  split
  · cases s.scopes[i]? <;> rfl
  · rfl

theorem own?_define_self (h : scope < s.scopes.size) :
    (s.define scope name v).own? scope name = some v := by
  simp [own?, scopes_define, Array.getElem?_eq_getElem h, Bindings.get?_set]

theorem own?_define_of_ne {i : ScopeId} {x : String} (h : i ≠ scope ∨ x ≠ name) :
    (s.define scope name v).own? i x = s.own? i x := by
  unfold own?
  rw [scopes_define]
  split
  · next hi =>
      have hx : x ≠ name := h.resolve_left fun hne => hne hi.symm
      cases s.scopes[i]? <;> simp [Bindings.get?_set, hx]
  · rfl

/-- What is bound stays bound. -/
theorem own?_define_isSome {i : ScopeId} {x : String} (h : (s.own? i x).isSome) :
    ((s.define scope name v).own? i x).isSome := by
  by_cases hi : i = scope
  · by_cases hx : x = name
    · subst hi hx
      rw [own?_define_self i x v (lt_of_own?_isSome h)]
      rfl
    · rwa [own?_define_of_ne scope name v (.inr hx)]
  · rwa [own?_define_of_ne scope name v (.inl hi)]

end Define

section Child

variable (outer : ScopeId) (kind : ScopeKind)

@[simp] theorem size_child : (s.child outer kind).2.scopes.size = s.scopes.size + 1 := by
  simp [child]

@[simp] theorem child_place : (s.child outer kind).1 = s.scopes.size :=
  rfl

theorem scopes_child_of_lt {i : ScopeId} (h : i < s.scopes.size) :
    (s.child outer kind).2.scopes[i]? = s.scopes[i]? := by
  simp [child, Array.getElem?_push, Nat.ne_of_lt h]

/-- A new scope binds nothing, as little as the place did where it was put. -/
@[simp] theorem own?_child (i : ScopeId) (x : String) :
    (s.child outer kind).2.own? i x = s.own? i x := by
  by_cases hi : i = s.scopes.size
  · subst hi
    simp [own?, child, Bindings.get?]
  · simp [own?, child, Array.getElem?_push, hi]

theorem parent?_child (i : ScopeId) :
    (s.child outer kind).2.parent? i = if i = s.scopes.size then some outer else s.parent? i := by
  by_cases hi : i = s.scopes.size
  · subst hi
    simp [parent?, child]
  · simp [parent?, child, Array.getElem?_push, hi]

theorem kind?_child (i : ScopeId) :
    (s.child outer kind).2.kind? i = if i = s.scopes.size then some kind else s.kind? i := by
  by_cases hi : i = s.scopes.size
  · subst hi
    simp [kind?, child]
  · simp [kind?, child, Array.getElem?_push, hi]

end Child

section Fields

variable (id : InstanceId) (name : String) (v : Value)

@[simp] theorem size_setField : (s.setField id name v).instances.size = s.instances.size := by
  simp [setField]

theorem field?_setField_self (h : id < s.instances.size) :
    (s.setField id name v).field? id name = some v := by
  simp [field?, setField, Array.getElem?_modify, Array.getElem?_eq_getElem h, Bindings.get?_set]

theorem field?_setField_of_ne {i : InstanceId} {x : String} (h : i ≠ id ∨ x ≠ name) :
    (s.setField id name v).field? i x = s.field? i x := by
  by_cases hi : id = i
  · have hx : x ≠ name := h.resolve_left fun hne => hne hi.symm
    simp only [field?, setField, Array.getElem?_modify, hi, if_true]
    cases s.instances[i]? <;> simp [Bindings.get?_set, hx]
  · simp [field?, setField, Array.getElem?_modify, hi]

end Fields

/-! ### Walking outwards -/

/-- What a scope itself binds is found first. -/
theorem lookup_of_own? {scope : ScopeId} {name : String} {v : Value}
    (h : s.own? scope name = some v) : s.lookup scope name = some v := by
  rw [lookup, lookupWithin, h]

/-- Every scope is younger than the one around it. -/
def Tree (s : Store) : Prop :=
  ∀ i p, s.parent? i = some p → p < i

/-- Going outwards from a scope, the nearest one that binds a name. -/
inductive Nearest (s : Store) (name : String) : ScopeId → ScopeId → Prop
  | here {scope : ScopeId} (h : (s.own? scope name).isSome) : Nearest s name scope scope
  | around {scope parent place : ScopeId} (hown : s.own? scope name = none)
    (hparent : s.parent? scope = some parent) (h : Nearest s name parent place) :
    Nearest s name scope place

theorem Nearest.isSome {name : String} {scope place : ScopeId} (h : s.Nearest name scope place) :
    (s.own? place name).isSome := by
  induction h with
  | here h => exact h
  | around _ _ _ ih => exact ih

theorem Nearest.unique {name : String} {scope place place' : ScopeId}
    (h : s.Nearest name scope place) (h' : s.Nearest name scope place') : place = place' := by
  induction h with
  | here h =>
      cases h' with
      | here => rfl
      | around hown => simp [hown] at h
  | around hown hparent _ ih =>
      cases h' with
      | here h => simp [hown] at h
      | around _ hparent' h' =>
          obtain rfl := Option.some.inj (hparent.symm.trans hparent')
          exact ih h'

theorem Tree.of_scopes_eq {s' : Store} (h : s.Tree) (hscopes : s'.scopes = s.scopes) : s'.Tree := by
  intro i p hparent
  rw [parent?, hscopes] at hparent
  exact h i p hparent

theorem Tree.define (h : s.Tree) (scope : ScopeId) (name : String) (v : Value) :
    (s.define scope name v).Tree := by
  intro i p hparent
  rw [parent?_define] at hparent
  exact h i p hparent

theorem Tree.child (h : s.Tree) {outer : ScopeId} (kind : ScopeKind)
    (houter : outer < s.scopes.size) : (s.child outer kind).2.Tree := by
  intro i p hparent
  rw [parent?_child] at hparent
  split at hparent
  · next hi =>
      obtain rfl := Option.some.inj hparent
      exact hi ▸ houter
  · exact h i p hparent

namespace Tree

variable (hs : s.Tree) (name : String)

include hs

theorem lookupWithin_eq {n k : Nat} {scope : ScopeId} (hn : scope < n) (hk : scope < k) :
    s.lookupWithin name n scope = s.lookupWithin name k scope := by
  induction n generalizing k scope with
  | zero => exact absurd hn (Nat.not_lt_zero scope)
  | succ n ih =>
      cases k with
      | zero => exact absurd hk (Nat.not_lt_zero scope)
      | succ k =>
          unfold lookupWithin
          cases s.own? scope name with
          | some v => rfl
          | none =>
              cases hparent : s.parent? scope with
              | none => rfl
              | some parent =>
                  have hless := hs scope parent hparent
                  exact ih (Nat.lt_of_lt_of_le hless (Nat.le_of_lt_succ hn))
                    (Nat.lt_of_lt_of_le hless (Nat.le_of_lt_succ hk))

/-- Looking a name up, one scope at a time. -/
theorem lookup_eq (scope : ScopeId) :
    s.lookup scope name =
      (s.own? scope name).or ((s.parent? scope).bind fun parent => s.lookup parent name) := by
  unfold lookup
  rw [lookupWithin]
  cases s.own? scope name with
  | some v => rfl
  | none =>
      cases hparent : s.parent? scope with
      | none => rfl
      | some parent =>
          have hless := hs scope parent hparent
          exact hs.lookupWithin_eq name hless (Nat.lt_succ_self parent)

theorem lookup_of_nearest {scope place : ScopeId} (h : s.Nearest name scope place) :
    s.lookup scope name = s.own? place name := by
  induction h with
  | here h =>
      obtain ⟨v, hv⟩ := Option.isSome_iff_exists.mp h
      rw [hs.lookup_eq, hv, Option.some_or]
  | around hown hparent _ ih => rw [hs.lookup_eq, hown, hparent, Option.none_or, Option.bind_some, ih]

end Tree

/-! ### Later stores -/

/-- A store turns into another: its scopes are all still there, opened by and
inside of what they were, and bind the names they did. -/
structure Grows (s s' : Store) : Prop where
  size : s.scopes.size ≤ s'.scopes.size
  kind {i : ScopeId} (h : i < s.scopes.size) : s'.kind? i = s.kind? i
  parent {i : ScopeId} (h : i < s.scopes.size) : s'.parent? i = s.parent? i
  bound {i : ScopeId} {x : String} (h : (s.own? i x).isSome) : (s'.own? i x).isSome

namespace Grows

variable {s' s'' : Store}

theorem of_scopes_eq (h : s'.scopes = s.scopes) : s.Grows s' where
  size := Nat.le_of_eq (by rw [h])
  kind _ := by rw [kind?, kind?, h]
  parent _ := by rw [parent?, parent?, h]
  bound hbound := by rwa [own?, h]

theorem trans (h : s.Grows s') (h' : s'.Grows s'') : s.Grows s'' where
  size := Nat.le_trans h.size h'.size
  kind hi := (h'.kind (Nat.lt_of_lt_of_le hi h.size)).trans (h.kind hi)
  parent hi := (h'.parent (Nat.lt_of_lt_of_le hi h.size)).trans (h.parent hi)
  bound hbound := h'.bound (h.bound hbound)

theorem define (s : Store) (scope : ScopeId) (name : String) (v : Value) :
    s.Grows (s.define scope name v) where
  size := Nat.le_of_eq (size_define scope name v).symm
  kind _ := kind?_define scope name v _
  parent _ := parent?_define scope name v _
  bound h := own?_define_isSome scope name v h

theorem child (s : Store) (outer : ScopeId) (kind : ScopeKind) :
    s.Grows (s.child outer kind).2 where
  size := by
    rw [size_child]
    exact Nat.le_succ _
  kind h := by rw [kind?_child, if_neg (Nat.ne_of_lt h)]
  parent h := by rw [parent?_child, if_neg (Nat.ne_of_lt h)]
  bound h := by rwa [own?_child]

end Grows

end Store

end BracketScript
