import BracketScript.Proofs.Reading.Parallel
import BracketScript.Proofs.Tree.Traversal
import BracketScript.Store
import BracketScript.Value.Operator

/-!
# Values and stores with other tokens

Functions and structs carry code, and code carries tokens.  `mapTokens`
replaces them, in values and in whole stores.  Everything that a program can do
with values and with the store commutes with it, as long as the map of tokens
keeps everything but lines: nothing a program does can tell lines apart.
-/

namespace BracketScript

/-- The function with its tokens replaced. -/
def Closure.mapTokens (f : Token → Token) (c : Closure) : Closure :=
  { c with params := c.params.map f, body := c.body.map (Stmt.mapTokens f) }

/-- The struct with its tokens replaced. -/
def StructDef.mapTokens (f : Token → Token) (d : StructDef) : StructDef :=
  { d with params := d.params.map f, body := d.body.map (FieldInit.mapTokens f) }

/-- The value with its tokens replaced. -/
def Value.mapTokens (f : Token → Token) : Value → Value
  | .func c => .func (c.mapTokens f)
  | .struct d => .struct (d.mapTokens f)
  | .inst id d => .inst id (d.mapTokens f)
  | .null => .null
  | .bool b => .bool b
  | .num x => .num x
  | .str s => .str s
  | .native g => .native g
  | .module m => .module m

namespace Value

variable {f : Token → Token}

@[simp] theorem isTruthy_mapTokens (v : Value) : (v.mapTokens f).isTruthy = v.isTruthy := by
  cases v <;> rfl

@[simp] theorem isEqual_mapTokens (v w : Value) :
    (v.mapTokens f).isEqual (w.mapTokens f) = v.isEqual w := by
  cases v <;> cases w <;> rfl

@[simp] theorem arity?_mapTokens (v : Value) : (v.mapTokens f).arity? = v.arity? := by
  cases v <;> simp [mapTokens, arity?, Closure.mapTokens, StructDef.mapTokens]

theorem paramsText_map (hf : KeepsText f) (params : List Token) :
    paramsText (params.map f) = paramsText params := by
  have hlexeme : Token.lexeme ∘ f = Token.lexeme := funext hf.lexeme
  rw [paramsText, List.map_map, hlexeme, paramsText]

theorem structText_mapTokens (hf : KeepsText f) (d : StructDef) :
    structText (d.mapTokens f) = structText d := by
  simp only [structText, StructDef.mapTokens, paramsText_map hf]

theorem display_mapTokens (hf : KeepsText f) (v : Value) :
    (v.mapTokens f).display = v.display := by
  cases v with
  | func c => simp only [mapTokens, display, Closure.mapTokens, paramsText_map hf]
  | struct d => simp only [mapTokens, display, structText_mapTokens hf]
  | inst id d => simp only [mapTokens, display, structText_mapTokens hf]
  | _ => rfl

end Value

namespace Operator

variable {f : Token → Token} (hf : KeepsText f)

include hf in
theorem unary_mapTokens (op : Token) (v : Value) :
    unary (f op) (v.mapTokens f) = (unary op v).map (Value.mapTokens f) := by
  unfold unary
  rw [hf.kind]
  cases op.kind <;> cases v <;> rfl

theorem isKind_mapTokens (v w : Value) : isKind (v.mapTokens f) (w.mapTokens f) = isKind v w := by
  cases v <;> cases w <;> rfl

theorem add_mapTokens (v w : Value) :
    add (v.mapTokens f) (w.mapTokens f) = (add v w).map (Value.mapTokens f) := by
  cases v <;> cases w <;> rfl

theorem onNumbers_mapTokens {g : Float → Float → Value} (hg : ∀ a b, (g a b).mapTokens f = g a b)
    (v w : Value) :
    onNumbers g (v.mapTokens f) (w.mapTokens f) = (onNumbers g v w).map (Value.mapTokens f) := by
  cases v <;> cases w <;> try rfl
  next a b => exact congrArg Except.ok (hg a b).symm

include hf in
theorem binary_mapTokens (v : Value) (op : Token) (w : Value) :
    binary (v.mapTokens f) (f op) (w.mapTokens f) = (binary v op w).map (Value.mapTokens f) := by
  unfold binary
  rw [hf.kind, Value.isEqual_mapTokens, isKind_mapTokens, add_mapTokens]
  -- All operators but those of the line above take two numbers, or are unknown.
  split <;> first | rfl | exact onNumbers_mapTokens (fun _ _ => rfl) v w

end Operator

/-! ### Stores -/

/-- The bindings with the tokens of their values replaced. -/
def Bindings.mapTokens (f : Token → Token) (bindings : Bindings) : Bindings :=
  bindings.map (Prod.map id (Value.mapTokens f))

/-- The scope with the tokens of its values replaced. -/
def Scope.mapTokens (f : Token → Token) (scope : Scope) : Scope :=
  { scope with bindings := scope.bindings.mapTokens f }

/-- The store with the tokens of its values replaced. -/
def Store.mapTokens (f : Token → Token) (store : Store) : Store :=
  { scopes := store.scopes.map (Scope.mapTokens f)
    instances := store.instances.map (Bindings.mapTokens f)
    fresh := store.fresh }

namespace Bindings

variable (f : Token → Token)

theorem get?_mapTokens (bindings : Bindings) (name : String) :
    (bindings.mapTokens f).get? name = (bindings.get? name).map (Value.mapTokens f) := by
  induction bindings with
  | nil => rfl
  | cons entry rest ih =>
      obtain ⟨key, value⟩ := entry
      rw [mapTokens] at ih
      by_cases h : key = name <;> simp [mapTokens, get?, h, ih]

theorem set_mapTokens (bindings : Bindings) (name : String) (value : Value) :
    (bindings.set name value).mapTokens f =
      (bindings.mapTokens f).set name (value.mapTokens f) := by
  induction bindings with
  | nil => rfl
  | cons entry rest ih =>
      obtain ⟨key, old⟩ := entry
      rw [mapTokens, mapTokens] at ih
      by_cases h : key = name <;> simp [mapTokens, set, h, ih]

end Bindings

namespace Store

variable (f : Token → Token) (store : Store)

theorem own?_mapTokens (scope : ScopeId) (name : String) :
    (store.mapTokens f).own? scope name = (store.own? scope name).map (Value.mapTokens f) := by
  cases h : store.scopes[scope]? <;>
    simp [own?, mapTokens, h, Scope.mapTokens, Bindings.get?_mapTokens]

theorem parent?_mapTokens (scope : ScopeId) :
    (store.mapTokens f).parent? scope = store.parent? scope := by
  cases h : store.scopes[scope]? <;> simp [parent?, mapTokens, h, Scope.mapTokens]

theorem kind?_mapTokens (scope : ScopeId) :
    (store.mapTokens f).kind? scope = store.kind? scope := by
  cases h : store.scopes[scope]? <;> simp [kind?, mapTokens, h, Scope.mapTokens]

theorem lookup_mapTokens (scope : ScopeId) (name : String) :
    (store.mapTokens f).lookup scope name = (store.lookup scope name).map (Value.mapTokens f) := by
  have hwithin : ∀ n scope, lookupWithin (store.mapTokens f) name n scope =
      (lookupWithin store name n scope).map (Value.mapTokens f) := by
    intro n
    induction n with
    | zero => intro scope; rfl
    | succ n ih =>
        intro scope
        rw [lookupWithin, lookupWithin, own?_mapTokens, parent?_mapTokens]
        cases store.own? scope name with
        | some v => rfl
        | none =>
            cases store.parent? scope with
            | some parent => exact ih parent
            | none => rfl
  exact hwithin (scope + 1) scope

theorem slot_mapTokens (scope : ScopeId) (name : String) :
    (store.mapTokens f).slot scope name = store.slot scope name := by
  have hwithin : ∀ n scope, slotWithin (store.mapTokens f) name n scope =
      slotWithin store name n scope := by
    intro n
    induction n with
    | zero => intro scope; rfl
    | succ n ih =>
        intro scope
        rw [slotWithin, slotWithin, own?_mapTokens, kind?_mapTokens, parent?_mapTokens]
        cases store.own? scope name with
        | some v => rfl
        | none => simp only [Option.map_none, ih]
  rw [slot, slot, hwithin]

theorem define_mapTokens (scope : ScopeId) (name : String) (value : Value) :
    (store.define scope name value).mapTokens f =
      (store.mapTokens f).define scope name (value.mapTokens f) := by
  simp only [define, mapTokens, mk.injEq, and_true]
  refine Array.ext (by simp) fun i h₁ h₂ => ?_
  by_cases hi : scope = i
  · subst hi
    simp [Array.getElem_modify, Scope.mapTokens, Bindings.set_mapTokens]
  · simp [Array.getElem_modify, hi]

theorem assign_mapTokens (scope : ScopeId) (name : String) (value : Value) :
    (store.assign scope name value).mapTokens f =
      (store.mapTokens f).assign scope name (value.mapTokens f) := by
  rw [assign, assign, define_mapTokens, slot_mapTokens]

theorem child_mapTokens (parent : ScopeId) (kind : ScopeKind) :
    (store.mapTokens f).child parent kind =
      ((store.child parent kind).1, (store.child parent kind).2.mapTokens f) := by
  simp [child, mapTokens, Scope.mapTokens, Bindings.mapTokens]

theorem newInstance_mapTokens :
    (store.mapTokens f).newInstance = (store.newInstance.1, store.newInstance.2.mapTokens f) := by
  simp [newInstance, mapTokens, Bindings.mapTokens]

theorem field?_mapTokens (id : InstanceId) (name : String) :
    (store.mapTokens f).field? id name = (store.field? id name).map (Value.mapTokens f) := by
  cases h : store.instances[id]? <;> simp [field?, mapTokens, h, Bindings.get?_mapTokens]

theorem setField_mapTokens (id : InstanceId) (name : String) (value : Value) :
    (store.setField id name value).mapTokens f =
      (store.mapTokens f).setField id name (value.mapTokens f) := by
  simp only [setField, mapTokens, mk.injEq, and_true, true_and]
  refine Array.ext (by simp) fun i h₁ h₂ => ?_
  by_cases hi : id = i
  · subst hi
    simp [Array.getElem_modify, Bindings.set_mapTokens]
  · simp [Array.getElem_modify, hi]

theorem freshId_mapTokens :
    (store.mapTokens f).freshId = (store.freshId.1, store.freshId.2.mapTokens f) := rfl

end Store

end BracketScript
