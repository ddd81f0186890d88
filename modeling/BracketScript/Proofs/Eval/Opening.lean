import BracketScript.Proofs.Eval.Agreement
import BracketScript.Proofs.Store.Lookup

/-!
# Opening scopes and instances

A call opens a scope that binds the parameters to the arguments, and a call of a
struct makes an instance with the arguments as fields.  Names can be repeated
among the parameters; then the last one counts (`lastOf`).
-/

namespace BracketScript

/-- The value of the last entry with a name. -/
def lastOf (name : String) : List (String × Value) → Option Value
  | [] => none
  | (key, v) :: rest => (lastOf name rest).or (if key = name then some v else none)

theorem lastOf_append (name : String) (entries entries' : List (String × Value)) :
    lastOf name (entries ++ entries') = (lastOf name entries').or (lastOf name entries) := by
  induction entries with
  | nil => simp [lastOf]
  | cons entry entries ih =>
      obtain ⟨key, v⟩ := entry
      simp [lastOf, ih, Option.or_assoc]

theorem isSome_lastOf_iff {name : String} {entries : List (String × Value)} :
    (lastOf name entries).isSome ↔ name ∈ entries.map Prod.fst := by
  induction entries with
  | nil => simp [lastOf]
  | cons entry entries ih =>
      obtain ⟨key, v⟩ := entry
      by_cases hkey : key = name
      · simp [lastOf, hkey]
      · simp [lastOf, hkey, ih, Ne.symm hkey]

/-- Parameters with the arguments they get. -/
def given (params : List Token) (args : List Value) : List (String × Value) :=
  (params.zip args).map fun pair => (pair.1.lexeme, pair.2)

theorem map_fst_given {params : List Token} {args : List Value}
    (h : args.length = params.length) :
    (given params args).map Prod.fst = params.map Token.lexeme := by
  have hzip : (params.zip args).map Prod.fst = params := List.map_fst_zip (Nat.le_of_eq h.symm)
  calc (given params args).map Prod.fst
      = ((params.zip args).map Prod.fst).map Token.lexeme := by simp [given]
    _ = params.map Token.lexeme := by rw [hzip]

namespace Store

variable {s : Store}

theorem own?_foldl_define (scope : ScopeId) (name : String) (pairs : List (Token × Value))
    (h : scope < s.scopes.size) :
    (pairs.foldl (fun s pair => s.define scope pair.1.lexeme pair.2) s).own? scope name =
      (lastOf name (pairs.map fun pair => (pair.1.lexeme, pair.2))).or (s.own? scope name) := by
  induction pairs generalizing s with
  | nil => simp [lastOf]
  | cons pair pairs ih =>
      rw [List.foldl_cons, ih (by rwa [size_define]), List.map_cons, lastOf, Option.or_assoc]
      by_cases hname : pair.1.lexeme = name
      · rw [if_pos hname, ← hname, own?_define_self scope _ _ h, Option.some_or]
      · rw [if_neg hname, own?_define_of_ne scope _ _ (.inr (Ne.symm hname)), Option.none_or]

theorem field?_foldl_setField (id : InstanceId) (name : String) (pairs : List (Token × Value))
    (h : id < s.instances.size) :
    (pairs.foldl (fun s pair => s.setField id pair.1.lexeme pair.2) s).field? id name =
      (lastOf name (pairs.map fun pair => (pair.1.lexeme, pair.2))).or (s.field? id name) := by
  induction pairs generalizing s with
  | nil => simp [lastOf]
  | cons pair pairs ih =>
      rw [List.foldl_cons, ih (by rwa [size_setField]), List.map_cons, lastOf, Option.or_assoc]
      by_cases hname : pair.1.lexeme = name
      · rw [if_pos hname, ← hname, field?_setField_self id _ _ h, Option.some_or]
      · rw [if_neg hname, field?_setField_of_ne id _ _ (.inr (Ne.symm hname)), Option.none_or]

theorem grows_foldl_define (scope : ScopeId) (pairs : List (Token × Value)) (s : Store) :
    s.Grows (pairs.foldl (fun s pair => s.define scope pair.1.lexeme pair.2) s) := by
  induction pairs generalizing s with
  | nil => exact .of_scopes_eq rfl
  | cons pair pairs ih => exact (Grows.define s scope _ _).trans (ih _)

theorem instances_foldl_define (scope : ScopeId) (pairs : List (Token × Value)) (s : Store) :
    (pairs.foldl (fun s pair => s.define scope pair.1.lexeme pair.2) s).instances =
      s.instances := by
  induction pairs generalizing s with
  | nil => rfl
  | cons pair pairs ih => exact ih _

theorem scopes_foldl_setField (id : InstanceId) (pairs : List (Token × Value)) (s : Store) :
    (pairs.foldl (fun s pair => s.setField id pair.1.lexeme pair.2) s).scopes = s.scopes := by
  induction pairs generalizing s with
  | nil => rfl
  | cons pair pairs ih => exact ih _

end Store

/-- A scope for a call has been opened inside another one. -/
structure ScopeOpened (outer : ScopeId) (params : List Token) (args : List Value) (m : Machine)
    (place : ScopeId) (m' : Machine) : Prop where
  place_eq : place = m.store.scopes.size
  there : place < m'.store.scopes.size
  kind : m'.store.kind? place = some .function
  parent : m'.store.parent? place = some outer
  own (name : String) : m'.store.own? place name = lastOf name (given params args)
  instances : m'.store.instances = m.store.instances

theorem openCall_ok {outer place : ScopeId} {params : List Token} {args : List Value}
    {m m' : Machine} (h : openCall outer params args m = (.ok place, m')) :
    ScopeOpened outer params args m place m' := by
  have hnew : m.store.scopes.size < (m.store.child outer .function).2.scopes.size := by
    rw [Store.size_child]
    exact Nat.lt_succ_self _
  have hgrows := Store.grows_foldl_define m.store.scopes.size (params.zip args)
    (m.store.child outer .function).2
  obtain ⟨hplace, rfl⟩ := Prod.mk.inj h
  obtain rfl := Except.ok.inj hplace
  constructor
  · rfl
  · exact Nat.lt_of_lt_of_le hnew hgrows.size
  · exact (hgrows.kind hnew).trans (by rw [Store.kind?_child, if_pos rfl])
  · exact (hgrows.parent hnew).trans (by rw [Store.parent?_child, if_pos rfl])
  · intro name
    refine (Store.own?_foldl_define _ name (params.zip args) hnew).trans ?_
    rw [Store.own?_child, Store.own?_size, Option.or_none]
    rfl
  · exact Store.instances_foldl_define ..

/-- A name that is not a parameter is not bound in the scope of the call. -/
theorem ScopeOpened.own?_eq_none {outer place : ScopeId} {params : List Token}
    {args : List Value} {m m' : Machine} (h : ScopeOpened outer params args m place m')
    (fits : args.length = params.length) {name : String}
    (hname : ∀ t ∈ params, t.lexeme ≠ name) : m'.store.own? place name = none := by
  rw [h.own name, ← Option.not_isSome_iff_eq_none, isSome_lastOf_iff, map_fst_given fits]
  intro hmem
  obtain ⟨t, ht, hlexeme⟩ := List.mem_map.mp hmem
  exact hname t ht hlexeme

/-- An instance has been made. -/
structure InstanceOpened (params : List Token) (args : List Value) (m : Machine)
    (id : InstanceId) (m' : Machine) : Prop where
  id_eq : id = m.store.instances.size
  scopes : m'.store.scopes = m.store.scopes
  field (name : String) : m'.store.field? id name = lastOf name (given params args)

theorem openInstance_ok {params : List Token} {args : List Value} {id : InstanceId}
    {m m' : Machine} (h : openInstance params args m = (.ok id, m')) :
    InstanceOpened params args m id m' := by
  have hnew : m.store.newInstance.1 < m.store.newInstance.2.instances.size := by
    simp [Store.newInstance]
  obtain ⟨hid, rfl⟩ := Prod.mk.inj h
  obtain rfl := Except.ok.inj hid
  constructor
  · rfl
  · exact Store.scopes_foldl_setField _ _ _
  · intro name
    refine (Store.field?_foldl_setField _ name (params.zip args) hnew).trans ?_
    simp [given, Store.field?, Store.newInstance, Bindings.get?]

end BracketScript
