import BracketScript.Proofs.Reading.Productions

/-!
# Loops round by round

`Reader.loop` is bounded by the number of tokens left.  For rounds that stop where
no token is left (`Stops`) and take a token whenever they go on (`Advances`) the
bound plays no part: a loop is its first round and the loop behind it (`loop_eq`).

Likewise a choice between kinds of tokens can be made in parts, some kinds first
and the others then (`accept?_append`).
-/

namespace BracketScript

namespace Reader

variable {α : Type}

theorem whenNext_leadsTo {kinds : List Kind} {k : Token → Reader (Option α)}
    (hk : ∀ t (c : Cursor), c.LeadsTo (k t c).2) (c : Cursor) :
    c.LeadsTo (whenNext kinds k c).2 := by
  refine bind_leadsTo (Parallel.accept (f := id) kinds).leadsTo (fun o => ?_) c
  cases o with
  | none => exact .refl
  | some t => exact hk t

/-! ### A loop is its first round and the loop behind it -/

/-- A round that stops where no token is left. -/
def Stops (step : α → Reader (Option α)) : Prop :=
  ∀ a (c : Cursor), c.rest = [] → step a c = (some none, c)

theorem stops_whenNext {kinds : List Kind} {k : α → Token → Reader (Option α)} :
    Stops fun a => whenNext kinds (k a) := by
  intro a c hrest
  have haccept : accept? kinds c = (some none, c) := by simp [accept?, hrest]
  exact bind_of_some haccept

theorem stops_itemRound {item : Reader α} : Stops (itemRound item) := by
  intro items c hrest
  have hnext : nextIs .rightBracket c = (some false, c) := by simp [nextIs, hrest]
  have hend : atEnd c = (some true, c) := by simp [atEnd, hrest]
  unfold itemRound
  rw [bind_of_some hnext]
  exact bind_of_some hend

section Loop

variable {step : α → Reader (Option α)}

/-- As many rounds as there are tokens are enough. -/
theorem loopWithin_bound (hadvances : Advances step) (hstops : Stops step) (n m : Nat) (a : α)
    (c : Cursor) (hn : c.rest.length ≤ n) (hm : c.rest.length ≤ m) :
    loopWithin step n a c = loopWithin step m a c := by
  induction n generalizing m a c with
  | zero =>
      have hrest : c.rest = [] := List.eq_nil_of_length_eq_zero (Nat.le_zero.mp hn)
      cases m with
      | zero => rfl
      | succ m => exact (loopWithin_of_stop (hstops a c hrest)).symm
  | succ n ih =>
      cases m with
      | zero =>
          have hrest : c.rest = [] := List.eq_nil_of_length_eq_zero (Nat.le_zero.mp hm)
          exact loopWithin_of_stop (hstops a c hrest)
      | succ m =>
          rcases step_cases step a c with ⟨a', d, hd⟩ | ⟨d, hd⟩ | ⟨d, hd⟩
          · have hlt := hadvances a c a' d hd
            rw [loopWithin_of_more hd, loopWithin_of_more hd]
            exact ih m a' d (by omega) (by omega)
          · rw [loopWithin_of_stop hd, loopWithin_of_stop hd]
          · rw [loopWithin_of_fail hd, loopWithin_of_fail hd]

theorem loop_eq (hadvances : Advances step) (hstops : Stops step) (a : α) :
    loop step a = step a >>= fun o => match o with
      | some a' => loop step a'
      | none => pure a := by
  funext c
  -- One round more than there are tokens, so that the first one can be split off.
  have hbound := loopWithin_bound hadvances hstops c.rest.length (c.rest.length + 1) a c
    (Nat.le_refl _) (Nat.le_succ _)
  rw [loop, hbound]
  rcases step_cases step a c with ⟨a', d, hd⟩ | ⟨d, hd⟩ | ⟨d, hd⟩
  · have hlt := hadvances a c a' d hd
    rw [loopWithin_of_more hd, bind_of_some hd]
    exact loopWithin_bound hadvances hstops _ _ a' d (by omega) (Nat.le_refl _)
  · rw [loopWithin_of_stop hd, bind_of_some hd]
    rfl
  · rw [loopWithin_of_fail hd, bind_of_none hd]

/-- What was collected before does not matter to a loop whose rounds ignore it. -/
theorem loop_map {g : α → α} (hstep : ∀ a, step (g a) = Option.map g <$> step a) (a : α) :
    loop step (g a) = g <$> loop step a := by
  funext c
  suffices h : ∀ n a c, loopWithin step n (g a) c = (g <$> loopWithin step n a) c from h _ a c
  intro n
  induction n with
  | zero => exact fun _ _ => rfl
  | succ n ih =>
      intro a c
      rcases step_cases step a c with ⟨a', d, hd⟩ | ⟨d, hd⟩ | ⟨d, hd⟩
      · have hg : step (g a) c = (some (some (g a')), d) := by
          rw [hstep]
          exact bind_of_some hd
        rw [loopWithin_of_more hg, ih]
        change _ = (loopWithin step (n + 1) a >>= _) c
        simp only [bind, loopWithin_of_more hd]
        rfl
      · have hg : step (g a) c = (some none, d) := by
          rw [hstep]
          exact bind_of_some hd
        rw [loopWithin_of_stop hg]
        exact (bind_of_some (k := pure ∘ g) (loopWithin_of_stop hd)).symm
      · have hg : step (g a) c = (none, d) := by
          rw [hstep]
          exact bind_of_none hd
        rw [loopWithin_of_fail hg]
        exact (bind_of_none (k := pure ∘ g) (loopWithin_of_fail hd)).symm

end Loop

theorem entry_leadsTo (list : ListKind) {item : Reader α}
    (hitem : ∀ c : Cursor, c.LeadsTo (item c).2) (count : Nat) (c : Cursor) :
    c.LeadsTo (entry list item count c).2 := by
  unfold entry
  by_cases hcount : maxEntries ≤ count
  · simp only [hcount, if_true]
    refine bind_leadsTo (fun c => .refl c) (fun t => ?_) c
    exact bind_leadsTo (fun c => ⟨List.suffix_refl _, rfl⟩) fun _ => hitem
  · simp only [hcount, if_false]
    exact hitem c

/-- To look for some kinds and then for others is to look for all of them. -/
theorem accept?_append (kinds others : List Kind) (k : Option Token → Reader α) :
    (accept? (kinds ++ others) >>= k) = accept? kinds >>= fun o => match o with
      | some t => k (some t)
      | none => accept? others >>= k := by
  funext c
  rcases hrest : c.rest with _ | ⟨t, rest⟩
  · have hnone (kinds : List Kind) : accept? kinds c = (some none, c) := by simp [accept?, hrest]
    rw [bind_of_some (hnone _), bind_of_some (hnone _)]
    exact (bind_of_some (hnone _)).symm
  · have hsome {kinds : List Kind} (h : t.kind ∈ kinds) :
        accept? kinds c = (some (some t), { c with rest := rest }) := by simp [accept?, hrest, h]
    have hnone {kinds : List Kind} (h : t.kind ∉ kinds) : accept? kinds c = (some none, c) := by
      simp [accept?, hrest, h]
    by_cases hkinds : t.kind ∈ kinds
    · rw [bind_of_some (hsome (List.mem_append_left others hkinds)), bind_of_some (hsome hkinds)]
    · rw [bind_of_some (hnone hkinds)]
      by_cases hothers : t.kind ∈ others
      · rw [bind_of_some (hsome (List.mem_append_right kinds hothers))]
        exact (bind_of_some (hsome hothers)).symm
      · rw [bind_of_some (hnone (by simp [hkinds, hothers]))]
        exact (bind_of_some (hnone hothers)).symm

theorem accept?_nil (k : Option Token → Reader α) : (accept? [] >>= k) = k none := by
  funext c
  have hnone : accept? [] c = (some none, c) := by cases hrest : c.rest <;> simp [accept?, hrest]
  exact bind_of_some hnone

end Reader
end BracketScript
