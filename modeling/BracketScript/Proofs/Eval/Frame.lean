import BracketScript.Proofs.Eval.Preservation

/-!
# Calls leave the scopes of their callers alone

An assignment walks outwards through block scopes, so it can rebind a name far
from where it stands.  It never leaves the innermost function, though, and the
scope of a function is opened when the function is called.  Hence a call rebinds
nothing that was there before it (`call_keeps_scopes`).

The invariant is about the walk: from the current scope outwards, up to the
first scope that is not a block, all scopes have been opened since the call
began (`Store.Confined`).  Scopes in which methods find `self` are blocks as
well, but code never runs in them, only in function scopes opened inside them.
-/

namespace BracketScript

namespace Store

/-- The scopes that an assignment in the given scope can reach were all opened
when there were already `base` others. -/
inductive Confined (base : Nat) (s : Store) : ScopeId → Prop
  | function {scope : ScopeId} {found : Scope} (h : s.scopes[scope]? = some found)
    (hbase : base ≤ scope) (hkind : found.kind ≠ .block) : Confined base s scope
  | block {scope parent : ScopeId} {found : Scope} (h : s.scopes[scope]? = some found)
    (hbase : base ≤ scope) (hparent : found.parent = some parent)
    (houter : Confined base s parent) : Confined base s scope

/-- A store turns into another: the first `base` scopes are left alone, and none
of the others goes away or is put elsewhere. -/
structure Extends (base : Nat) (s s' : Store) : Prop where
  size : s.scopes.size ≤ s'.scopes.size
  below {i : ScopeId} (h : i < base) : s'.scopes[i]? = s.scopes[i]?
  frame {i : ScopeId} {found : Scope} (h : s.scopes[i]? = some found) :
    ∃ found', s'.scopes[i]? = some found' ∧ found'.kind = found.kind ∧
      found'.parent = found.parent

variable {base : Nat} {s s' s'' : Store}

theorem Extends.of_scopes_eq (h : s'.scopes = s.scopes) : Extends base s s' where
  size := by rw [h]
  below _ := by rw [h]
  frame {_ found} hfound := ⟨found, by rw [h, hfound], rfl, rfl⟩

theorem Extends.trans (h : Extends base s s') (h' : Extends base s' s'') :
    Extends base s s'' where
  size := Nat.le_trans h.size h'.size
  below hi := (h'.below hi).trans (h.below hi)
  frame hfound := by
    obtain ⟨found', hfound', hkind, hparent⟩ := h.frame hfound
    obtain ⟨found'', hfound'', hkind', hparent'⟩ := h'.frame hfound'
    exact ⟨found'', hfound'', hkind'.trans hkind, hparent'.trans hparent⟩

theorem extends_define {scope : ScopeId} (hbase : base ≤ scope) (name : String) (v : Value) :
    Extends base s (s.define scope name v) where
  size := by simp [define]
  below {i} hi := by
    have hne : scope ≠ i := Nat.ne_of_gt (Nat.lt_of_lt_of_le hi hbase)
    simp [define, Array.getElem?_modify, hne]
  frame {i found} hfound := by
    by_cases hi : scope = i
    · refine ⟨{ found with bindings := found.bindings.set name v }, ?_, rfl, rfl⟩
      simp [define, Array.getElem?_modify, hi, hfound]
    · exact ⟨found, by simp [define, Array.getElem?_modify, hi, hfound], rfl, rfl⟩

theorem extends_child (hbase : base ≤ s.scopes.size) (outer : ScopeId) (kind : ScopeKind) :
    Extends base s (s.child outer kind).2 where
  size := by simp [child]
  below {i} hi := by
    have hne : i ≠ s.scopes.size := Nat.ne_of_lt (Nat.lt_of_lt_of_le hi hbase)
    simp [child, Array.getElem?_push, hne]
  frame {i found} hfound := by
    have hne : i ≠ s.scopes.size := by
      intro heq
      simp [heq] at hfound
    exact ⟨found, by simp [child, Array.getElem?_push, hne, hfound], rfl, rfl⟩

theorem child_found (s : Store) (outer : ScopeId) (kind : ScopeKind) :
    (s.child outer kind).2.scopes[(s.child outer kind).1]? = some ⟨kind, [], some outer⟩ := by
  simp [child]

/-- Scopes that were opened late enough stay confined. -/
theorem Confined.extends {scope : ScopeId} (h : Confined base s scope) (hs : Extends base s s') :
    Confined base s' scope := by
  induction h with
  | function h hbase hkind =>
      obtain ⟨found', hfound', hkind', -⟩ := hs.frame h
      exact .function hfound' hbase (hkind' ▸ hkind)
  | block h hbase hparent houter ih =>
      obtain ⟨found', hfound', -, hparent'⟩ := hs.frame h
      exact .block hfound' hbase (hparent'.trans hparent) ih

theorem Confined.base_le {scope : ScopeId} (h : Confined base s scope) : base ≤ scope := by
  cases h with
  | function _ hbase _ => exact hbase
  | block _ hbase _ _ => exact hbase

theorem Confined.slotWithin {scope found : ScopeId} {name : String} {n : Nat}
    (h : Confined base s scope) (hslot : s.slotWithin name n scope = some found) :
    base ≤ found := by
  -- The walk goes on only from block scopes, and there confinement goes on with it.
  induction n generalizing scope with
  | zero => cases hslot
  | succ n ih =>
      unfold Store.slotWithin at hslot
      split at hslot
      · cases hslot
        exact h.base_le
      · split at hslot
        · next hkind hparent =>
          cases h with
          | function h _ hnot =>
              simp only [kind?, h, Option.map_some, Option.some.injEq] at hkind
              exact absurd hkind hnot
          | block h _ hp houter =>
              simp only [parent?, h, Option.bind_some, hp, Option.some.injEq] at hparent
              exact ih (hparent ▸ houter) hslot
        · cases hslot

/-- An assignment changes one of the confined scopes. -/
theorem Confined.slot {scope : ScopeId} (h : Confined base s scope) (name : String) :
    base ≤ s.slot scope name := by
  unfold Store.slot
  cases hslot : s.slotWithin name (scope + 1) scope with
  | none => exact h.base_le
  | some found => exact h.slotWithin hslot

end Store

/-- Runs that rebind no name in the first `base` scopes. -/
def Regime.frame (base : Nat) : Regime where
  law := .any
  bindable _ := True
  inv s := base ≤ s.scopes.size
  place s scope := s.Confined base scope
  moves := Store.Extends base
  value _ _ := True
  fault _ := True
  enough _ _ _ := True
  mayExhaust := True

section Frame

open Store

variable {base : Nat}

theorem Regime.frame_step {s s' : Store} (h : base ≤ s.scopes.size) (hs : s.Extends base s') :
    (Regime.frame base).Step s s' :=
  ⟨Nat.le_trans h hs.size, hs⟩

theorem Regime.frame_laws (setup : Setup) : (Regime.frame base).Laws setup where
  refl _ := .of_scopes_eq rfl
  trans := .trans
  mono _ _ := trivial
  stay h hscope := hscope.extends h
  exhausted _ := trivial
  part _ _ := trivial
  again _ _ := trivial
  functionBody _ _ _ := trivial
  structBody _ _ _ := trivial
  functionLaw _ t _ := t.everyNode_any true
  structLaw _ entry _ := ⟨entry.value.everyNode_any, trivial⟩
  functionParams _ _ _ := trivial
  structParams _ _ _ := trivial
  assigned _ := trivial
  moduleName _ := trivial
  memberName _ := trivial
  constant _ _ := trivial
  lookup _ _ := trivial
  field _ _ := trivial
  inst _ _ := trivial
  module _ _ := trivial
  member _ _ := trivial
  foreseen _ := trivial
  unary _ _ := trivial
  binary _ _ := trivial
  self _ _ _ := .inr trivial
  define h hscope _ _ := frame_step h (extends_define hscope.base_le _ _)
  assign h hscope _ _ := frame_step h (extends_define (hscope.slot _) _ _)
  setField _ h _ _ := frame_step h (.of_scopes_eq rfl)
  newInstance h := frame_step h (.of_scopes_eq rfl)
  newFunction h _ _ := ⟨frame_step h (.of_scopes_eq rfl), trivial⟩
  newStruct h _ _ := ⟨frame_step h (.of_scopes_eq rfl), trivial⟩
  openBlock {s scope} h hscope := by
    have hchild := extends_child h scope .block
    exact ⟨frame_step h hchild,
      .block (s.child_found scope .block) h rfl (hscope.extends hchild)⟩
  openInner {s _ outer} h _ _ :=
    ⟨frame_step h (extends_child h outer .function),
      .function (s.child_found outer .function) h nofun⟩
  bindMethod {s c id d} h _ _ := by
    have hchild := extends_child h c.scope .block
    have hself := extends_define (s := (s.child c.scope .block).2) h "self" (.inst id d)
    exact ⟨frame_step h ((hchild.trans hself).trans (.of_scopes_eq rfl)), trivial⟩

end Frame

/-- What a call leaves as it was: all scopes there were, with their bindings,
the current scope and the depth of calls.  The rest of a machine is what a call
may change: fields of instances, the streams, the flag, and what is counted and
noted on the way. -/
structure Machine.CallerKept (m m' : Machine) : Prop where
  scopes (i : ScopeId) (h : i < m.store.scopes.size) : m'.store.scopes[i]? = m.store.scopes[i]?
  scope : m'.scope = m.scope
  depth : m'.depth = m.depth

/-- Calls never rebind the names of outer scopes, whatever is called with
whatever arguments and however the call ends. -/
theorem call_keeps_scopes (setup : Setup) (n : Nat) (callee : Value) (args : List Value)
    (bracket : Token) (m : Machine) :
    m.CallerKept (call setup n callee args bracket m).2 := by
  have hfuel : (Regime.frame m.store.scopes.size).AtFuel setup n :=
    (Regime.frame_laws setup).atFuel n
  have hcall : (Regime.frame m.store.scopes.size).Evals _ (call setup n callee args bracket) m :=
    hfuel.call 0 bracket trivial (fun _ _ => trivial) (Nat.le_refl _) trivial
  constructor
  · intro i hi
    exact hcall.reaches.moves.below hi
  · exact hcall.reaches.scope
  · exact hcall.reaches.depth

end BracketScript
