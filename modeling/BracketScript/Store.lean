import BracketScript.Value.Basic

/-!
# The store

Scopes and instances live in a store and are referred to by their places.  A
scope is opened inside another one, its parent, which is older and so has a
smaller place; walks towards the outermost scope are bounded by that.

Reading a name takes the nearest binding on the way outwards.  Assigning
rebinds the nearest binding too, but does not look beyond the innermost
function (or global) scope; without a binding there, the name is bound in the
scope where the assignment stands.
-/

namespace BracketScript

/-- Names with their values, each name once. -/
abbrev Bindings := List (String × Value)

namespace Bindings

/-- The value bound to a name. -/
def get? (bindings : Bindings) (name : String) : Option Value :=
  match bindings with
  | [] => none
  | (key, value) :: rest => if key = name then some value else get? rest name

/-- Binds a name, in place of what it was bound to. -/
def set (bindings : Bindings) (name : String) (value : Value) : Bindings :=
  match bindings with
  | [] => [(name, value)]
  | (key, old) :: rest =>
    if key = name then (key, value) :: rest else (key, old) :: set rest name value

end Bindings

/-- What opened a scope. -/
inductive ScopeKind where
  | global
  | function
  | block
deriving DecidableEq, Repr

/-- A scope: the names bound in it and the scope around it. -/
structure Scope where
  kind : ScopeKind
  bindings : Bindings
  parent : Option ScopeId

/-- All scopes and the fields of all instances. -/
structure Store where
  scopes : Array Scope
  instances : Array Bindings
  /-- The next identity of a function or struct. -/
  fresh : Nat

namespace Store

/-- A store with one empty global scope, at place `0`. -/
def empty : Store :=
  { scopes := #[⟨.global, [], none⟩], instances := #[], fresh := 0 }

/-- What a scope itself binds a name to. -/
def own? (store : Store) (scope : ScopeId) (name : String) : Option Value :=
  (store.scopes[scope]?).bind fun s => s.bindings.get? name

/-- The scope around a scope. -/
def parent? (store : Store) (scope : ScopeId) : Option ScopeId :=
  (store.scopes[scope]?).bind Scope.parent

/-- What a scope was opened by. -/
def kind? (store : Store) (scope : ScopeId) : Option ScopeKind :=
  (store.scopes[scope]?).map Scope.kind

/-- Opens a scope inside another one. -/
def child (store : Store) (parent : ScopeId) (kind : ScopeKind) : ScopeId × Store :=
  (store.scopes.size, { store with scopes := store.scopes.push ⟨kind, [], some parent⟩ })

/-- Binds a name in a scope, whatever is bound further out. -/
def define (store : Store) (scope : ScopeId) (name : String) (value : Value) : Store :=
  { store with
    scopes := store.scopes.modify scope fun s =>
      { s with bindings := s.bindings.set name value } }

/-- Looks a name up in a scope and up to `n - 1` scopes around it. -/
def lookupWithin (store : Store) (name : String) : Nat → ScopeId → Option Value
  | 0, _ => none
  | n + 1, scope =>
    match store.own? scope name with
    | some value => some value
    | none =>
      match store.parent? scope with
      | some parent => lookupWithin store name n parent
      | none => none

/-- The nearest binding of a name, from a scope outwards. -/
def lookup (store : Store) (scope : ScopeId) (name : String) : Option Value :=
  lookupWithin store name (scope + 1) scope

/-- Looks for a scope that binds a name among a scope and up to `n - 1` scopes
around it, going outwards from block scopes only. -/
def slotWithin (store : Store) (name : String) : Nat → ScopeId → Option ScopeId
  | 0, _ => none
  | n + 1, scope =>
    match store.own? scope name with
    | some _ => some scope
    | none =>
      match store.kind? scope, store.parent? scope with
      | some .block, some parent => slotWithin store name n parent
      | _, _ => none

/-- The scope that an assignment in the given scope changes. -/
def slot (store : Store) (scope : ScopeId) (name : String) : ScopeId :=
  (slotWithin store name (scope + 1) scope).getD scope

/-- Assigns to a name: rebinds it where it is bound, or binds it here. -/
def assign (store : Store) (scope : ScopeId) (name : String) (value : Value) : Store :=
  store.define (store.slot scope name) name value

/-- A new instance without fields. -/
def newInstance (store : Store) : InstanceId × Store :=
  (store.instances.size, { store with instances := store.instances.push [] })

/-- The value of an instance's field. -/
def field? (store : Store) (id : InstanceId) (name : String) : Option Value :=
  (store.instances[id]?).bind fun fields => fields.get? name

/-- Sets a field of an instance. -/
def setField (store : Store) (id : InstanceId) (name : String) (value : Value) : Store :=
  { store with instances := store.instances.modify id fun fields => fields.set name value }

/-- A new identity. -/
def freshId (store : Store) : Nat × Store :=
  (store.fresh, { store with fresh := store.fresh + 1 })

end Store
end BracketScript
