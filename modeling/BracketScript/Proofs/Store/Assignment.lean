import BracketScript.Proofs.Store.Lookup

/-!
# Assignment changes one slot

Reading a name walks outwards through all scopes.  Assigning walks as well, but
no further than the first scope that is not a block, so the two walks end in
different places where a function hides behind its own scope what it can see.

What an assignment changes is said without its walk: the nearest scope that binds
the name, if an assignment may look there, and otherwise the scope where the
assignment stands (`Store.AssignsTo`).  This one binding is changed and nothing
else, and other scopes see the new value exactly if the changed scope is the
nearest one for them (`Store.assign_changes_one_slot`).
-/

namespace BracketScript

namespace Store

/-- An assignment in the first scope looks at the second: it goes outwards from
block scopes only. -/
inductive InView (s : Store) : ScopeId → ScopeId → Prop
  | here {scope : ScopeId} : InView s scope scope
  | around {scope parent place : ScopeId} (hkind : s.kind? scope = some .block)
    (hparent : s.parent? scope = some parent) (h : InView s parent place) : InView s scope place

/-- The scope that an assignment to a name changes: the nearest one that binds
the name, if it is in view, or the scope itself if none in view does. -/
def AssignsTo (s : Store) (scope : ScopeId) (name : String) (place : ScopeId) : Prop :=
  s.InView scope place ∧ s.Nearest name scope place ∨
    (∀ p, s.InView scope p → s.own? p name = none) ∧ place = scope

variable {s : Store} {scope place : ScopeId} {name : String}

/-! ### Where an assignment goes -/

theorem AssignsTo.unique {place' : ScopeId} (h : s.AssignsTo scope name place)
    (h' : s.AssignsTo scope name place') : place = place' := by
  rcases h with ⟨hview, hnear⟩ | ⟨hnone, rfl⟩
  · rcases h' with ⟨-, hnear'⟩ | ⟨hnone, -⟩
    · exact hnear.unique hnear'
    · have hbound := hnear.isSome
      simp [hnone place hview] at hbound
  · rcases h' with ⟨hview, hnear⟩ | ⟨-, rfl⟩
    · have hbound := hnear.isSome
      simp [hnone place' hview] at hbound
    · rfl

/-- The walk finds what is nearest and in view. -/
theorem slotWithin_eq_some {n : Nat} (h : s.slotWithin name n scope = some place) :
    s.InView scope place ∧ s.Nearest name scope place := by
  induction n generalizing scope with
  | zero => cases h
  | succ n ih =>
      unfold slotWithin at h
      split at h
      · next v hown =>
          cases h
          exact ⟨.here, .here (by simp [hown])⟩
      · next hown =>
          split at h
          · next parent hkind hparent =>
              obtain ⟨hview, hnear⟩ := ih h
              exact ⟨.around hkind hparent hview, .around hown hparent hnear⟩
          · cases h

/-- The walk gives up only when it has seen everything in view. -/
theorem Tree.slotWithin_eq_none (hs : s.Tree) {n : Nat} (hn : scope < n)
    (h : s.slotWithin name n scope = none) (hview : s.InView scope place) :
    s.own? place name = none := by
  induction hview generalizing n with
  | here =>
      cases n with
      | zero => exact absurd hn (Nat.not_lt_zero _)
      | succ n =>
          unfold slotWithin at h
          split at h
          · cases h
          · assumption
  | @around scope parent place hkind hparent _ ih =>
      cases n with
      | zero => exact absurd hn (Nat.not_lt_zero _)
      | succ n =>
          unfold slotWithin at h
          split at h
          · cases h
          · simp only [hkind, hparent] at h
            have hless := hs scope parent hparent
            exact ih (Nat.lt_of_lt_of_le hless (Nat.le_of_lt_succ hn)) h

theorem Tree.assignsTo_slot (hs : s.Tree) (scope : ScopeId) (name : String) :
    s.AssignsTo scope name (s.slot scope name) := by
  unfold slot
  cases hslot : s.slotWithin name (scope + 1) scope with
  | some place => exact .inl (slotWithin_eq_some hslot)
  | none =>
      refine .inr ⟨fun p hp => ?_, rfl⟩
      exact hs.slotWithin_eq_none (Nat.lt_succ_self scope) hslot hp

/-- An assignment changes a scope that is there. -/
theorem AssignsTo.lt_size (h : s.AssignsTo scope name place) (hscope : scope < s.scopes.size) :
    place < s.scopes.size := by
  rcases h with ⟨-, hnear⟩ | ⟨-, rfl⟩
  · exact lt_of_own?_isSome hnear.isSome
  · exact hscope

/-! ### What is seen of a change -/

/-- The scope that an assignment changes is then the nearest one that binds the
name. -/
theorem AssignsTo.nearest_define (h : s.AssignsTo scope name place)
    (hscope : scope < s.scopes.size) (v : Value) :
    (s.define place name v).Nearest name scope place := by
  have hplace := h.lt_size hscope
  have hbound : ((s.define place name v).own? place name).isSome := by
    rw [own?_define_self place name v hplace]
    rfl
  rcases h with ⟨-, hnear⟩ | ⟨-, rfl⟩
  · -- The scopes on the way to the nearest one bind nothing, so none of them is changed.
    clear hscope
    induction hnear with
    | here => exact .here hbound
    | @around scope parent place hown hparent hnear ih =>
        have hne : scope ≠ place := by
          rintro rfl
          have hsome := hnear.isSome
          simp [hown] at hsome
        refine .around ?_ ?_ (ih hplace hbound)
        · rw [own?_define_of_ne place name v (.inl hne), hown]
        · rw [parent?_define, hparent]
  · exact .here hbound

/-- Where the changed scope is not the nearest one, the name is what it was. -/
theorem Tree.lookup_define_of_not_nearest (hs : s.Tree) {v : Value} (hplace : place < s.scopes.size)
    (i : ScopeId) (h : ¬(s.define place name v).Nearest name i place) :
    (s.define place name v).lookup i name = s.lookup i name := by
  induction i using Nat.strongRecOn with
  | _ i ih =>
      have hne : i ≠ place := by
        rintro rfl
        apply h
        apply Nearest.here
        rw [own?_define_self i name v hplace]
        rfl
      have hown : (s.define place name v).own? i name = s.own? i name :=
        own?_define_of_ne place name v (.inl hne)
      rw [(hs.define place name v).lookup_eq, hs.lookup_eq, hown, parent?_define]
      cases hbound : s.own? i name with
      | some w => rfl
      | none =>
          cases hparent : s.parent? i with
          | none => rfl
          | some parent =>
              have hless := hs i parent hparent
              refine ih parent hless fun hnear => h (.around ?_ ?_ hnear)
              · rw [hown, hbound]
              · rw [parent?_define, hparent]

/-- Other names are what they were. -/
theorem Tree.lookup_define_of_ne (hs : s.Tree) (place : ScopeId) {v : Value} {x : String}
    (hx : x ≠ name) (i : ScopeId) : (s.define place name v).lookup i x = s.lookup i x := by
  induction i using Nat.strongRecOn with
  | _ i ih =>
      rw [(hs.define place name v).lookup_eq, hs.lookup_eq,
        own?_define_of_ne place name v (.inr hx), parent?_define]
      cases s.own? i x with
      | some w => rfl
      | none =>
          cases hparent : s.parent? i with
          | none => rfl
          | some parent => exact ih parent (hs i parent hparent)

/-- In every tree of scopes an assignment from a scope changes exactly one
binding: that of the name in the nearest scope that binds it, as far as an
assignment may look, or in the scope itself.  All other bindings, the kinds of
the scopes, how they are nested and the instances are left alone.  So the name
now has the new value where the assignment stands; it has the new value in every
scope for which the changed one is the nearest to bind it, and in all other
scopes it is what it was; and all other names are what they were. -/
theorem assign_changes_one_slot (s : Store) (hs : s.Tree) (scope : ScopeId)
    (hscope : scope < s.scopes.size) (name : String) (v : Value) :
    ∃ place, (∀ p, s.AssignsTo scope name p ↔ p = place) ∧
      (s.assign scope name v).own? place name = some v ∧
      (∀ i x, (i, x) ≠ (place, name) → (s.assign scope name v).own? i x = s.own? i x) ∧
      (∀ i, (s.assign scope name v).kind? i = s.kind? i ∧
        (s.assign scope name v).parent? i = s.parent? i) ∧
      (s.assign scope name v).instances = s.instances ∧
      (s.assign scope name v).lookup scope name = some v ∧
      (∀ i,
        ((s.assign scope name v).Nearest name i place →
          (s.assign scope name v).lookup i name = some v) ∧
        (¬(s.assign scope name v).Nearest name i place →
          (s.assign scope name v).lookup i name = s.lookup i name)) ∧
      ∀ i x, x ≠ name → (s.assign scope name v).lookup i x = s.lookup i x := by
  have hassigns := hs.assignsTo_slot scope name
  have hplace := hassigns.lt_size hscope
  have hafter : (s.assign scope name v).Tree := hs.define _ name v
  have hown : (s.assign scope name v).own? (s.slot scope name) name = some v :=
    own?_define_self _ name v hplace
  have hseen : ∀ i, (s.assign scope name v).Nearest name i (s.slot scope name) →
      (s.assign scope name v).lookup i name = some v := by
    intro i hnear
    rw [hafter.lookup_of_nearest name hnear, hown]
  refine ⟨s.slot scope name, ?_, hown, ?_, ?_, rfl, ?_, ?_, ?_⟩
  · intro p
    constructor
    · exact fun hp => hp.unique hassigns
    · rintro rfl
      exact hassigns
  · intro i x hne
    apply own?_define_of_ne
    by_cases hi : i = s.slot scope name
    · exact .inr fun hx => hne (by rw [hi, hx])
    · exact .inl hi
  · exact fun i => ⟨kind?_define _ name v i, parent?_define _ name v i⟩
  · exact hseen scope (hassigns.nearest_define hscope v)
  · exact fun i => ⟨hseen i, hs.lookup_define_of_not_nearest hplace i⟩
  · exact fun i x hx => hs.lookup_define_of_ne _ hx i

/-- A function inside the global scope, two nested blocks in it, and another
function inside the outer block.  The name `n` is bound globally and in the outer
block. -/
def nested : Store where
  scopes := #[⟨.global, [("n", .null)], none⟩, ⟨.function, [], some 0⟩,
    ⟨.block, [("n", .bool true)], some 1⟩, ⟨.block, [], some 2⟩, ⟨.function, [], some 2⟩]
  instances := #[]
  fresh := 0

theorem nested_tree : nested.Tree := by
  intro i p hp
  match i with
  | 0 => cases hp
  | 1 | 2 | 3 | 4 =>
      obtain rfl := Option.some.inj hp
      decide
  | i + 5 => cases hp

/-- From the inner block the outer one is changed, which the function inside of
it sees and the function around it does not. -/
theorem assign_changes_one_slot_nested :
    nested.Tree ∧ 3 < nested.scopes.size ∧ nested.AssignsTo 3 "n" 2 ∧
      (nested.assign 3 "n" (.bool false)).lookup 4 "n" = some (.bool false) ∧
      (nested.assign 3 "n" (.bool false)).lookup 1 "n" = some .null := by
  have hassigns : nested.AssignsTo 3 "n" 2 :=
    .inl ⟨.around rfl rfl .here, .around rfl rfl (.here rfl)⟩
  obtain ⟨place, hplace, -, -, -, -, -, hseen, -⟩ :=
    assign_changes_one_slot nested nested_tree 3 (by decide) "n" (.bool false)
  obtain rfl := (hplace 2).mp hassigns
  refine ⟨nested_tree, by decide, hassigns, ?_, ?_⟩
  · exact (hseen 4).1 (.around rfl rfl (.here rfl))
  · refine ((hseen 1).2 ?_).trans rfl
    intro hnear
    cases hnear with
    | around _ hparent houter =>
        obtain rfl := Option.some.inj hparent
        cases houter with
        | around hown => cases hown

end Store

end BracketScript
