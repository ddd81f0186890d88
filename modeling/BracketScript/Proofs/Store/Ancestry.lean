import BracketScript.Proofs.Store.Lookup

/-!
# The way out of a scope

Every scope is inside another one, except for the global scope, the first one of a
store (`Store.Founded`).  Going outwards from a scope leads through ever older
scopes, so it comes to an end, and it ends at the global scope.

Both walks follow this way (`Store.WayOut`).  The bound on their length is never
reached: reading a name asks all scopes on the way, the global one last, and an
assignment the first ones, up to a scope that is not a block.
-/

namespace BracketScript

namespace Store

/-- The scopes from a scope outwards, up to one with nothing around it. -/
inductive Chain (s : Store) : ScopeId → List ScopeId → Prop
  | outermost {i : ScopeId} (hthere : i < s.scopes.size) (h : s.parent? i = none) : Chain s i [i]
  | inside {i parent : ScopeId} {way : List ScopeId} (hparent : s.parent? i = some parent)
    (h : Chain s parent way) : Chain s i (i :: way)

/-- The first scopes on a way: an assignment goes on from block scopes only. -/
def inReach (s : Store) : List ScopeId → List ScopeId
  | [] => []
  | i :: way => i :: if s.kind? i = some .block then inReach s way else []

/-- A scope leads through ever older scopes, none of them global, to the global
scope.  Places are given out in the order in which scopes are opened, so that older
scopes are those with smaller places.  Along this way names are looked for, first to
last. -/
structure WayOut (s : Store) (i : ScopeId) (way : List ScopeId) : Prop where
  chain : s.Chain i way
  older : way.Pairwise (· > ·)
  global : ∃ inner, way = inner ++ [0] ∧ s.kind? 0 = some .global ∧
    ∀ j ∈ inner, s.kind? j ≠ some .global
  lookup (name : String) : s.lookup i name = way.findSome? fun j => s.own? j name
  reach : s.inReach way <+: way
  assign (name : String) (v : Value) : s.assign i name v =
    s.define (((s.inReach way).find? fun j => (s.own? j name).isSome).getD i) name v

/-- The first scope is the only global one and the only one with nothing around it,
and all others are younger than the one around them. -/
structure Founded (s : Store) : Prop where
  tree : s.Tree
  global (i : ScopeId) : s.kind? i = some .global ↔ i = 0
  outermost {i : ScopeId} (h : i < s.scopes.size) : s.parent? i = none ↔ i = 0

variable {s s' : Store} {i : ScopeId} {way : List ScopeId}

theorem lt_of_parent? {parent : ScopeId} (h : s.parent? i = some parent) : i < s.scopes.size := by
  apply Nat.lt_of_not_le
  intro hout
  rw [parent?, Array.getElem?_eq_none hout] at h
  cases h

/-! ### Following the way -/

namespace Chain

theorem unique {way' : List ScopeId} (h : s.Chain i way) (h' : s.Chain i way') : way = way' := by
  induction h generalizing way' with
  | outermost _ hnone =>
      cases h' with
      | outermost => rfl
      | inside hparent => cases hnone.symm.trans hparent
  | inside hparent _ ih =>
      cases h' with
      | outermost _ hnone => cases hnone.symm.trans hparent
      | inside hparent' h' =>
          obtain rfl := Option.some.inj (hparent.symm.trans hparent')
          rw [ih h']

theorem le_of_mem (h : s.Chain i way) (hs : s.Tree) : ∀ j ∈ way, j ≤ i := by
  induction h with
  | outermost => simp
  | @inside i parent way hparent _ ih =>
      rw [List.forall_mem_cons]
      exact ⟨Nat.le_refl i, fun j hj => Nat.le_trans (ih j hj) (Nat.le_of_lt (hs i parent hparent))⟩

theorem older (h : s.Chain i way) (hs : s.Tree) : way.Pairwise (· > ·) := by
  induction h with
  | outermost => simp
  | @inside i parent way hparent h ih =>
      rw [List.pairwise_cons]
      exact ⟨fun j hj => Nat.lt_of_le_of_lt (h.le_of_mem hs j hj) (hs i parent hparent), ih⟩

theorem lookup_eq (h : s.Chain i way) (hs : s.Tree) (name : String) :
    s.lookup i name = way.findSome? fun j => s.own? j name := by
  induction h with
  | @outermost i _ h =>
      rw [hs.lookup_eq, h]
      cases hown : s.own? i name <;> simp [hown]
  | @inside i parent way hparent _ ih =>
      rw [hs.lookup_eq, hparent, Option.bind_some, ih, List.findSome?_cons]
      cases s.own? i name <;> rfl

theorem slotWithin_eq (h : s.Chain i way) (hs : s.Tree) (name : String) {n : Nat} (hn : i < n) :
    s.slotWithin name n i = (s.inReach way).find? fun j => (s.own? j name).isSome := by
  induction h generalizing n with
  | @outermost i _ h =>
      obtain ⟨n, rfl⟩ := Nat.exists_eq_succ_of_ne_zero (Nat.ne_zero_of_lt hn)
      unfold slotWithin
      rw [h]
      cases hown : s.own? i name <;> simp [inReach, hown]
  | @inside i parent way hparent _ ih =>
      obtain ⟨n, rfl⟩ := Nat.exists_eq_succ_of_ne_zero (Nat.ne_zero_of_lt hn)
      have hless := hs i parent hparent
      unfold slotWithin
      rw [hparent, inReach]
      cases hown : s.own? i name with
      | some v => simp [hown]
      | none =>
          rw [List.find?_cons_of_neg (by simp [hown])]
          by_cases hkind : s.kind? i = some .block
          · rw [if_pos hkind, ← ih (Nat.lt_of_lt_of_le hless (Nat.le_of_lt_succ hn))]
            simp only [hkind]
          · rw [if_neg hkind]
            split
            · cases ‹none = some _›
            · split
              · exact absurd ‹_› hkind
              · rfl

theorem grows (h : s.Chain i way) (hs : s.Grows s') : s'.Chain i way := by
  induction h with
  | outermost hthere h =>
      exact .outermost (Nat.lt_of_lt_of_le hthere hs.size) ((hs.parent hthere).trans h)
  | inside hparent _ ih => exact .inside ((hs.parent (lt_of_parent? hparent)).trans hparent) ih

end Chain

theorem inReach_prefix (s : Store) (way : List ScopeId) : s.inReach way <+: way := by
  induction way with
  | nil => exact List.prefix_refl []
  | cons i way ih =>
      rw [inReach, List.prefix_cons_inj]
      split
      · exact ih
      · exact List.nil_prefix

namespace Founded

theorem parent?_zero (h : s.Founded) : s.parent? 0 = none := by
  by_cases hthere : 0 < s.scopes.size
  · exact (h.outermost hthere).mpr rfl
  · rw [parent?, Array.getElem?_eq_none (Nat.le_of_not_lt hthere)]
    rfl

/-- A scope that is inside another one is not the first. -/
theorem ne_zero {parent : ScopeId} (h : s.Founded) (hparent : s.parent? i = some parent) :
    i ≠ 0 := by
  rintro rfl
  rw [h.parent?_zero] at hparent
  cases hparent

theorem exists_chain (h : s.Founded) (hi : i < s.scopes.size) : ∃ way, s.Chain i way := by
  induction i using Nat.strongRecOn with
  | ind i ih =>
      cases hparent : s.parent? i with
      | none => exact ⟨[i], .outermost hi hparent⟩
      | some parent =>
          have hless := h.tree i parent hparent
          obtain ⟨way, hway⟩ := ih parent hless (Nat.lt_trans hless hi)
          exact ⟨i :: way, .inside hparent hway⟩

theorem ends_global (h : s.Founded) (hway : s.Chain i way) :
    ∃ inner, way = inner ++ [0] ∧ s.kind? 0 = some .global ∧
      ∀ j ∈ inner, s.kind? j ≠ some .global := by
  have hglobal : s.kind? 0 = some .global := (h.global 0).mpr rfl
  induction hway with
  | outermost hthere hnone =>
      obtain rfl := (h.outermost hthere).mp hnone
      exact ⟨[], rfl, hglobal, List.forall_mem_nil _⟩
  | @inside i parent way hparent _ ih =>
      obtain ⟨inner, rfl, -, hinner⟩ := ih
      refine ⟨i :: inner, rfl, hglobal, List.forall_mem_cons.mpr ⟨fun hkind => ?_, hinner⟩⟩
      exact h.ne_zero hparent ((h.global i).mp hkind)

theorem wayOut (h : s.Founded) (hway : s.Chain i way) : s.WayOut i way where
  chain := hway
  older := hway.older h.tree
  global := h.ends_global hway
  lookup := hway.lookup_eq h.tree
  reach := s.inReach_prefix way
  assign name v := by rw [assign, slot, hway.slotWithin_eq h.tree name (Nat.lt_succ_self i)]

/-! ### Changes -/

theorem empty : Store.empty.Founded where
  tree i p hparent := by
    cases i with
    | zero => cases hparent
    | succ i => exact absurd (lt_of_parent? hparent) (by simp [Store.empty])
  global i := by cases i <;> simp [kind?, Store.empty]
  outermost {i} h := by
    obtain rfl : i = 0 := by simpa [Store.empty] using h
    exact iff_of_true rfl rfl

theorem of_scopes_eq (h : s.Founded) (hscopes : s'.scopes = s.scopes) : s'.Founded where
  tree := h.tree.of_scopes_eq hscopes
  global i := by rw [kind?, hscopes]; exact h.global i
  outermost hi := by rw [parent?, hscopes]; exact h.outermost (hscopes ▸ hi)

theorem define (h : s.Founded) (scope : ScopeId) (name : String) (v : Value) :
    (s.define scope name v).Founded where
  tree := h.tree.define scope name v
  global i := by rw [kind?_define]; exact h.global i
  outermost hi := by
    rw [parent?_define]
    exact h.outermost (by rwa [size_define] at hi)

theorem size_pos (h : s.Founded) : 0 < s.scopes.size := by
  apply Nat.lt_of_not_le
  intro hout
  have hglobal := (h.global 0).mpr rfl
  rw [kind?, Array.getElem?_eq_none hout] at hglobal
  cases hglobal

theorem child (h : s.Founded) {outer : ScopeId} {kind : ScopeKind} (hkind : kind ≠ .global)
    (houter : outer < s.scopes.size) : (s.child outer kind).2.Founded where
  tree := h.tree.child kind houter
  global i := by
    rw [kind?_child]
    split
    · next hnew => exact iff_of_false (by simpa using hkind) (hnew ▸ Nat.ne_of_gt h.size_pos)
    · exact h.global i
  outermost {i} hi := by
    rw [size_child] at hi
    rw [parent?_child]
    split
    · next hnew => exact iff_of_false nofun (hnew ▸ Nat.ne_of_gt h.size_pos)
    · next hold => exact h.outermost (Nat.lt_of_le_of_ne (Nat.le_of_lt_succ hi) hold)

end Founded

end Store

end BracketScript
