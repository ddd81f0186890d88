import BracketScript.Proofs.Indexed.Parser
import BracketScript.Proofs.Reading.Rounds

/-!
# Readers and actions that agree

A reader works on the list of tokens left, an action on places in an array.
`Setting.Tracks` relates a cursor and a state: what is left for the one stands
from the place of the other up to the first end marker, the counters have the
values that the setting asks for, and no place beyond the cursor was looked at.

`Follows x room p q` says that the action `q` does what the reader `p` does,
wherever at most `room` tokens are left: it ends properly, with the value of `p`,
and in a state that tracks the cursor of `p`.  So it looks at no place outside
the array, counts nothing below zero and does not run out of fuel.

There is a rule for each way in which readers are built.  Room is what loops and
calls use up: a round that goes on has taken a token.
-/

namespace BracketScript

namespace Indexed

namespace Action

variable {α β : Type} {p : Action α} {k : α → Action β} {s s' : State}

theorem bind_of_done {a : α} (h : p s = .done (some a) s') : (p >>= k) s = k a s' := by
  simp only [bind, h]

theorem bind_of_gaveUp (h : p s = .done none s') : (p >>= k) s = .done none s' := by
  simp only [bind, h]

instance : LawfulMonad Action := LawfulMonad.mk' Action
  (by
    intro α p
    funext s
    change (p >>= pure) s = p s
    simp only [bind]
    rcases p s with ⟨_ | a, s'⟩ | _ | _ | _ <;> rfl)
  (fun _ _ => rfl)
  (by
    intro α β γ p k l
    funext s
    simp only [bind]
    rcases p s with ⟨_ | a, s'⟩ | _ | _ | _ <;> rfl)

theorem entryLoop_succ (list : ListKind) (item : Action α) (fuel : Nat) (items : Array α) :
    loop (entryRound list item) (fuel + 1) items =
      entry list item items.size >>= fun e =>
      accept [.comma] >>= fun found =>
      if found then loop (entryRound list item) fuel (items.push e) else pure (items.push e) := by
  simp only [loop, entryRound, bind_assoc]
  refine congrArg (entry list item items.size >>= ·) (funext fun e => ?_)
  refine congrArg (accept [.comma] >>= ·) (funext fun found => ?_)
  cases found <;> rfl

end Action

/-! ### Cursors and states -/

/-- Where actions take place: an array of tokens, the place of its first end
marker, and the values of the counters. -/
structure Setting where
  tokens : Array Token
  stop : Nat
  depth : Nat
  functions : Nat

namespace Setting

/-- The state stands at the cursor. -/
structure Tracks (x : Setting) (c : Cursor) (s : State) : Prop where
  tokens : s.tokens = x.tokens
  ahead : x.tokens.toList.drop s.place = c.rest ++ c.finish :: x.tokens.toList.drop (x.stop + 1)
  stop : s.place + c.rest.length = x.stop
  unmarked : ∀ t ∈ c.rest, t.kind ≠ .eof
  marked : c.finish.kind = .eof
  errors : s.errors = c.errors
  loops : s.loops = c.loops
  depth : s.depth = x.depth
  functions : s.functions = x.functions
  path : s.path.toList = List.range (s.place + 1)
  seen : ∀ i ∈ s.seen, i ≤ s.place

/-- The token before the place of the state. -/
def After (x : Setting) (t : Token) (s : State) : Prop :=
  ∃ i, s.place = i + 1 ∧ x.tokens[i]? = some t

/-- An action ended in the way in which a reader did, at the same place. -/
def Agrees {α : Type} (x : Setting) (s : State) (r : Option α × Cursor) (o : Outcome α) : Prop :=
  ∃ s', o = .done r.1 s' ∧ x.Tracks r.2 s' ∧ s.place ≤ s'.place

variable {α β : Type} {x : Setting} {c : Cursor} {s : State}

/-! ### Tokens -/

namespace Tracks

theorem getElem?_place (h : x.Tracks c s) : x.tokens[s.place]? = some c.peek := by
  have hhead : (x.tokens.toList.drop s.place)[0]? = some c.peek := by
    rw [h.ahead]
    cases hrest : c.rest <;> simp [Cursor.peek, hrest]
  simpa using hhead

theorem lookAt (h : x.Tracks c s) {i : Nat} {t : Token} (hi : i ≤ s.place)
    (ht : x.tokens[i]? = some t) :
    ∃ s', Action.lookAt i s = .done (some t) s' ∧ x.Tracks c s' ∧ s'.place = s.place := by
  refine ⟨{ s with seen := s.seen.push i }, ?_, ?_, rfl⟩
  · simp only [Action.lookAt, h.tokens, ht]
  · refine { h with seen := fun j hj => ?_ }
    rcases Array.mem_push.mp hj with hj | rfl
    · exact h.seen j hj
    · exact hi

theorem peek (h : x.Tracks c s) : ∃ s', Action.peek s = .done (some c.peek) s' ∧ x.Tracks c s' ∧
    s'.place = s.place :=
  h.lookAt (Nat.le_refl _) h.getElem?_place

theorem previous (h : x.Tracks c s) {t : Token} (ht : x.After t s) :
    ∃ s', Action.previous s = .done (some t) s' ∧ x.Tracks c s' ∧ s'.place = s.place := by
  obtain ⟨i, hi, hget⟩ := ht
  obtain ⟨s', hs', hrest⟩ := h.lookAt (show i ≤ s.place by omega) hget
  exact ⟨s', by simpa only [Action.previous, hi] using hs', hrest⟩

theorem peek_kind (h : x.Tracks c s) : c.peek.kind ≠ .eof ↔ c.rest ≠ [] := by
  rcases hrest : c.rest with _ | ⟨t, rest⟩
  · simp [Cursor.peek, hrest, h.marked]
  · simpa [Cursor.peek, hrest] using h.unmarked t (by simp [hrest])

theorem hasNext (h : x.Tracks c s) :
    ∃ s', Action.hasNext s = .done (some (!c.rest.isEmpty)) s' ∧ x.Tracks c s' ∧
      s'.place = s.place := by
  obtain ⟨s', hs', hrest⟩ := h.peek
  refine ⟨s', ?_, hrest⟩
  have hvalue : decide (c.peek.kind ≠ .eof) = !c.rest.isEmpty := by
    rw [Bool.eq_iff_iff]
    simpa using h.peek_kind
  rw [Action.hasNext, Action.bind_of_done hs', hvalue]
  rfl

theorem check (h : x.Tracks c s) (kind : Kind) :
    ∃ s', Action.check kind s = .done (some (c.rest.head?.any fun t => t.kind = kind)) s' ∧
      x.Tracks c s' ∧ s'.place = s.place := by
  obtain ⟨s₁, hs₁, h₁, hplace₁⟩ := h.hasNext
  rw [Action.check, Action.bind_of_done hs₁]
  rcases hrest : c.rest with _ | ⟨t, rest⟩
  · exact ⟨s₁, rfl, h₁, hplace₁⟩
  · obtain ⟨s₂, hs₂, h₂, hplace₂⟩ := h₁.peek
    refine ⟨s₂, ?_, h₂, hplace₂.trans hplace₁⟩
    simp only [List.isEmpty_cons, Bool.not_false, if_true, Action.bind_of_done hs₂]
    simp [Cursor.peek, hrest, pure]

theorem checkAny (h : x.Tracks c s) (kinds : List Kind) :
    ∃ s', Action.checkAny kinds s =
        .done (some (c.rest.head?.any fun t => t.kind ∈ kinds)) s' ∧
      x.Tracks c s' ∧ s'.place = s.place := by
  induction kinds generalizing s with
  | nil => exact ⟨s, by cases hrest : c.rest <;> simp [Action.checkAny, pure], h, rfl⟩
  | cons kind kinds ih =>
      obtain ⟨s₁, hs₁, h₁, hplace₁⟩ := h.check kind
      rw [Action.checkAny, Action.bind_of_done hs₁]
      by_cases hkind : (c.rest.head?.any fun t => t.kind = kind) = true
      · refine ⟨s₁, ?_, h₁, hplace₁⟩
        rcases hrest : c.rest with _ | ⟨t, rest⟩ <;> simp_all [pure]
      · obtain ⟨s₂, hs₂, h₂, hplace₂⟩ := ih h₁
        refine ⟨s₂, ?_, h₂, hplace₂.trans hplace₁⟩
        rw [if_neg hkind, hs₂]
        rcases hrest : c.rest with _ | ⟨t, rest⟩ <;> simp_all

/-- The state that has gone on by one token. -/
theorem goOn (h : x.Tracks c s) {t : Token} {rest : List Token} (hrest : c.rest = t :: rest) :
    x.Tracks { c with rest := rest }
      { s with place := s.place + 1, path := s.path.push (s.place + 1) } := by
  have hahead := h.ahead
  have hstop := h.stop
  rw [hrest] at hahead hstop
  refine { h with
    ahead := ?_, stop := ?_, unmarked := fun u hu => ?_, path := ?_, seen := fun i hi => ?_ }
  · rw [← List.tail_drop, hahead]
    rfl
  · simp only [List.length_cons] at hstop
    change s.place + 1 + rest.length = x.stop
    omega
  · exact h.unmarked u (by simp [hrest, hu])
  · rw [Array.toList_push, h.path, ← List.range_succ]
  · exact Nat.le_succ_of_le (h.seen i hi)

theorem advance (h : x.Tracks c s) {t : Token} {rest : List Token} (hrest : c.rest = t :: rest) :
    ∃ s', Action.advance s = .done (some t) s' ∧ x.Tracks { c with rest := rest } s' ∧
      x.After t s' ∧ s.place < s'.place := by
  obtain ⟨s₁, hs₁, h₁, hplace₁⟩ := h.hasNext
  have hget : x.tokens[s₁.place]? = some t := by
    rw [h₁.getElem?_place]
    simp [Cursor.peek, hrest]
  obtain ⟨s₂, hs₂, h₂, hplace₂⟩ := (h₁.goOn hrest).previous ⟨s₁.place, rfl, hget⟩
  have hplace : s₂.place = s₁.place + 1 := hplace₂
  refine ⟨s₂, ?_, h₂, ⟨s₁.place, hplace, hget⟩, by omega⟩
  rw [Action.advance, Action.bind_of_done hs₁]
  simp only [hrest, List.isEmpty_cons, Bool.not_false, if_true]
  exact hs₂

/-- At the end marker the token before it is looked at, so there has to be one. -/
theorem advance_atEnd (h : x.Tracks c s) (hrest : c.rest = []) {t : Token} (ht : x.After t s) :
    ∃ s', Action.advance s = .done (some t) s' ∧ x.Tracks c s' ∧ s'.place = s.place := by
  obtain ⟨s₁, hs₁, h₁, hplace₁⟩ := h.hasNext
  have hafter : x.After t s₁ := by rwa [After, hplace₁]
  obtain ⟨s₂, hs₂, h₂, hplace₂⟩ := h₁.previous hafter
  refine ⟨s₂, ?_, h₂, hplace₂.trans hplace₁⟩
  rw [Action.advance, Action.bind_of_done hs₁]
  simpa [hrest] using hs₂

/-- Looking for some kinds of tokens: one is taken, or everything stays. -/
theorem accept_cases (h : x.Tracks c s) (kinds : List Kind) :
    (∃ t d s', t.kind ∈ kinds ∧ Reader.accept? kinds c = (some (some t), d) ∧
      d.rest.length < c.rest.length ∧ Action.accept kinds s = .done (some true) s' ∧
      x.Tracks d s' ∧ x.After t s' ∧ s.place ≤ s'.place) ∨
    ∃ s', Reader.accept? kinds c = (some none, c) ∧ Action.accept kinds s = .done (some false) s' ∧
      x.Tracks c s' ∧ s.place ≤ s'.place := by
  obtain ⟨s₁, hs₁, h₁, hplace₁⟩ := h.checkAny kinds
  rw [Action.accept, Action.bind_of_done hs₁]
  rcases hrest : c.rest with _ | ⟨t, rest⟩
  · exact Or.inr ⟨s₁, by simp [Reader.accept?, hrest], rfl, h₁, Nat.le_of_eq hplace₁.symm⟩
  · by_cases ht : t.kind ∈ kinds
    · obtain ⟨s₂, hs₂, h₂, hafter, hlt⟩ := h₁.advance hrest
      refine Or.inl ⟨t, { c with rest := rest }, s₂, ht, ?_, by simp, ?_, h₂, hafter, by omega⟩
      · simp [Reader.accept?, hrest, ht]
      · simp only [List.head?_cons, Option.any_some, ht, decide_true, if_true,
          Action.bind_of_done hs₂]
        rfl
    · refine Or.inr ⟨s₁, ?_, ?_, h₁, Nat.le_of_eq hplace₁.symm⟩
      · simp [Reader.accept?, hrest, ht]
      · simp [ht, pure]

end Tracks

/-- What ends properly may go before, as long as it does not go back. -/
theorem Agrees.bind {p : Action α} {k : α → Action β} {a : α} {s₁ : State} {r : Option β × Cursor}
    (hp : p s = .done (some a) s₁) (hle : s.place ≤ s₁.place) (hk : x.Agrees s₁ r (k a s₁)) :
    x.Agrees s r ((p >>= k) s) := by
  obtain ⟨s₂, hs₂, h₂, hle₂⟩ := hk
  rw [Action.bind_of_done hp]
  exact ⟨s₂, hs₂, h₂, Nat.le_trans hle hle₂⟩

theorem Tracks.length_le {d : Cursor} {s' : State} (h : x.Tracks c s) (h' : x.Tracks d s')
    (hle : s.place ≤ s'.place) : d.rest.length ≤ c.rest.length := by
  have hstop := h.stop
  have hstop' := h'.stop
  omega

theorem Tracks.note (h : x.Tracks c s) (t : Token) (fault : SyntaxFault) :
    x.Tracks (c.note t fault)
      { s with errors := s.errors.push (SyntaxError.atToken t fault) } :=
  { h with errors := by rw [h.errors]; rfl }

/-! ### Counters -/

/-- The setting with one more open level. -/
def deeper (x : Setting) : Setting :=
  { x with depth := x.depth + 1 }

/-- The setting with another number of open function bodies. -/
def inside (x : Setting) (functions : Nat) : Setting :=
  { x with functions := functions }

theorem Tracks.deeper (h : x.Tracks c s) :
    x.deeper.Tracks c { s with depth := s.depth + 1 } :=
  { h with depth := by rw [h.depth]; rfl }

/-- The level that was opened is there to be closed. -/
theorem Agrees.nested {p : Action α} {r : Option α × Cursor} (hdepth : s.depth < Grammar.maxNesting)
    (h : x.deeper.Agrees { s with depth := s.depth + 1 } r (p { s with depth := s.depth + 1 })) :
    x.Agrees s r (Action.nested p s) := by
  obtain ⟨s', hs', h', hle⟩ := h
  have hopen : s'.depth = x.depth + 1 := h'.depth
  refine ⟨{ s' with depth := x.depth }, ?_, { h' with depth := rfl }, hle⟩
  simp only [Action.nested, Nat.not_le.mpr hdepth, if_false, hs', hopen]

theorem Tracks.inside (h : x.Tracks c s) :
    (x.inside (x.functions + 1)).Tracks c { s with functions := s.functions + 1 } :=
  { h with functions := by rw [h.functions]; rfl }

theorem Agrees.inBody {p : Action α} {r : Option α × Cursor}
    (h : (x.inside (x.functions + 1)).Agrees { s with functions := s.functions + 1 } r
      (p { s with functions := s.functions + 1 })) :
    x.Agrees s r (Action.inBody p s) := by
  obtain ⟨s', hs', h', hle⟩ := h
  have hopen : s'.functions = x.functions + 1 := h'.functions
  refine ⟨{ s' with functions := x.functions }, ?_, { h' with functions := rfl }, hle⟩
  simp only [Action.inBody, hs', hopen]

end Setting

/-! ### Actions that follow readers -/

open Setting

variable {α β : Type}

/-- The action does what the reader does, where at most `room` tokens are
left. -/
def Follows (x : Setting) (room : Nat) (p : Reader α) (q : Action α) : Prop :=
  ∀ c s, x.Tracks c s → c.rest.length ≤ room → x.Agrees s (p c) (q s)

/-- The action does what the reader does behind the given token. -/
def FollowsAfter (x : Setting) (room : Nat) (t : Token) (p : Reader α) (q : Action α) : Prop :=
  ∀ c s, x.Tracks c s → x.After t s → c.rest.length ≤ room → x.Agrees s (p c) (q s)

variable {x : Setting} {room : Nat}

theorem FollowsAfter.previousThen {t : Token} {p : Reader α} {k : Token → Action α}
    (hk : Follows x room p (k t)) : FollowsAfter x room t p (Action.previous >>= k) := by
  intro c s h hafter hroom
  obtain ⟨s₁, hs₁, h₁, hplace₁⟩ := h.previous hafter
  exact .bind hs₁ (by omega) (hk c s₁ h₁ hroom)

theorem FollowsAfter.nested (hdepth : x.depth < Grammar.maxNesting) {t : Token} {p : Reader α}
    {q : Action α} (hp : FollowsAfter x.deeper room t p q) :
    FollowsAfter x room t p (Action.nested q) := by
  intro c s h hafter hroom
  exact .nested (by rwa [h.depth]) (hp c _ h.deeper hafter hroom)

namespace Follows

theorem after {p : Reader α} {q : Action α} (h : Follows x room p q) (t : Token) :
    FollowsAfter x room t p q :=
  fun c s htracks _ hroom => h c s htracks hroom

theorem mono {p : Reader α} {q : Action α} {less : Nat} (h : Follows x room p q)
    (hless : less ≤ room) : Follows x less p q :=
  fun c s htracks hroom => h c s htracks (Nat.le_trans hroom hless)

theorem pure (a : α) : Follows x room (Pure.pure a) (Pure.pure a) :=
  fun _ s h _ => ⟨s, rfl, h, Nat.le_refl _⟩

theorem bind {p : Reader α} {q : Action α} {k : α → Reader β} {l : α → Action β}
    (hp : Follows x room p q) (hk : ∀ a, Follows x room (k a) (l a)) :
    Follows x room (p >>= k) (q >>= l) := by
  intro c s h hroom
  obtain ⟨s₁, hs₁, h₁, hle₁⟩ := hp c s h hroom
  rcases Reader.bind_cases p k c with ⟨a, d, hd, hbind⟩ | ⟨d, hd, hbind⟩
  · rw [hd] at hs₁ h₁
    rw [hbind]
    exact .bind hs₁ hle₁ (hk a d s₁ h₁ (Nat.le_trans (h.length_le h₁ hle₁) hroom))
  · rw [hd] at hs₁ h₁
    rw [hbind, Action.bind_of_gaveUp hs₁]
    exact ⟨s₁, rfl, h₁, hle₁⟩

theorem peek : Follows x room Reader.peek Action.peek := by
  intro c s h _
  obtain ⟨s', hs', h', hplace⟩ := h.peek
  exact ⟨s', hs', h', by omega⟩

theorem report (t : Token) (fault : SyntaxFault) :
    Follows x room (Reader.report t fault) (Action.report t fault) :=
  fun _ _ h _ => ⟨_, rfl, h.note t fault, Nat.le_refl _⟩

theorem fail (fault : SyntaxFault) :
    Follows x room (Reader.fail fault : Reader α) (Action.fail fault) := by
  intro c s h _
  obtain ⟨s', hs', h', hplace⟩ := h.peek
  refine ⟨_, ?_, h'.note c.peek fault, by simp [hplace]⟩
  rw [Action.fail, Action.bind_of_done hs']
  rfl

theorem noteLoop (line : Nat) : Follows x room (Reader.noteLoop line) (Action.noteLoop line) :=
  fun _ s h _ => ⟨{ s with loops := s.loops.push line }, rfl,
    { h with loops := by rw [h.loops]; rfl }, Nat.le_refl _⟩

theorem check (kind : Kind) : Follows x room (Reader.nextIs kind) (Action.check kind) := by
  intro c s h _
  obtain ⟨s', hs', h', hplace⟩ := h.check kind
  exact ⟨s', hs', h', by omega⟩

/-- Whether there is a next token decides how to go on. -/
theorem hasNext {p q : Reader α} {p' q' : Action α} (hp : Follows x room p p')
    (hq : Follows x room q q') :
    Follows x room (Reader.atEnd >>= fun atEnd => if atEnd then q else p)
      (Action.hasNext >>= fun next => if next then p' else q') := by
  intro c s h hroom
  obtain ⟨s₁, hs₁, h₁, hplace⟩ := h.hasNext
  have hend : Reader.atEnd c = (some c.rest.isEmpty, c) := rfl
  rw [Reader.bind_of_some hend]
  refine .bind hs₁ (by omega) ?_
  cases c.rest.isEmpty with
  | true => exact hq c s₁ h₁ hroom
  | false => exact hp c s₁ h₁ hroom

/-- Whether a token of some kind comes next decides how to go on.  Behind such a
token there is less room. -/
theorem accept (kinds : List Kind) {k : Option Token → Reader α} {p q : Action α}
    (hsome : ∀ t, t.kind ∈ kinds → ∀ less < room, FollowsAfter x less t (k (some t)) p)
    (hnone : Follows x room (k none) q) :
    Follows x room (Reader.accept? kinds >>= k)
      (Action.accept kinds >>= fun found => if found then p else q) := by
  intro c s h hroom
  rcases h.accept_cases kinds with
    ⟨t, d, s₁, ht, hd, hlt, hs₁, h₁, hafter, hle₁⟩ | ⟨s₁, hd, hs₁, h₁, hle₁⟩
  · rw [Reader.bind_of_some hd]
    have hbehind := hsome t ht d.rest.length (by omega) d s₁ h₁ hafter (Nat.le_refl _)
    exact .bind hs₁ hle₁ hbehind
  · rw [Reader.bind_of_some hd]
    exact .bind hs₁ hle₁ (hnone c s₁ h₁ hroom)

/-- A reader looks for all kinds at once, an action for some of them first. -/
theorem acceptOr (kinds others : List Kind) {k : Option Token → Reader α} {p q : Action α}
    (hsome : ∀ t, t.kind ∈ kinds → FollowsAfter x room t (k (some t)) p)
    (hothers : Follows x room (Reader.accept? others >>= k) q) :
    Follows x room (Reader.accept? (kinds ++ others) >>= k)
      (Action.accept kinds >>= fun found => if found then p else q) := by
  rw [Reader.accept?_append]
  refine accept kinds (fun t ht less hless c s h hafter hroom => ?_) hothers
  exact hsome t ht c s h hafter (by omega)

/-- A token of some kind is looked for first and taken then. -/
theorem checkThen (kind : Kind) {k : Option Token → Reader α} {l : Token → Action α} {q : Action α}
    (hsome : ∀ t, t.kind = kind → Follows x room (k (some t)) (l t))
    (hnone : Follows x room (k none) q) :
    Follows x room (Reader.accept? [kind] >>= k)
      (Action.check kind >>= fun found => if found then Action.advance >>= l else q) := by
  intro c s h hroom
  obtain ⟨s₁, hs₁, h₁, hplace₁⟩ := h.check kind
  refine .bind hs₁ (by omega) ?_
  by_cases hnext : (c.rest.head?.any fun t => t.kind = kind) = true
  · obtain ⟨t, rest, hrest⟩ : ∃ t rest, c.rest = t :: rest := by
      rcases hrest : c.rest with _ | ⟨t, rest⟩
      · simp [hrest] at hnext
      · exact ⟨t, rest, rfl⟩
    have hkind : t.kind = kind := by simpa [hrest] using hnext
    have haccept : Reader.accept? [kind] c = (some (some t), { c with rest := rest }) := by
      simp [Reader.accept?, hrest, hkind]
    obtain ⟨s₂, hs₂, h₂, -, hlt⟩ := h₁.advance hrest
    have hless : rest.length ≤ room := by
      simp only [hrest, List.length_cons] at hroom
      omega
    rw [Reader.bind_of_some haccept, if_pos hnext]
    exact .bind hs₂ (Nat.le_of_lt hlt) (hsome t hkind _ s₂ h₂ hless)
  · have haccept : Reader.accept? [kind] c = (some none, c) := by
      rcases hrest : c.rest with _ | ⟨t, rest⟩
      · simp [Reader.accept?, hrest]
      · have hkind : t.kind ≠ kind := by simpa [hrest] using hnext
        simp [Reader.accept?, hrest, hkind]
    rw [Reader.bind_of_some haccept, if_neg hnext]
    exact hnone c s₁ h₁ hroom

theorem expect (kind : Kind) (fault : SyntaxFault) :
    Follows x room (Reader.expect kind fault) (Action.expect kind fault) := by
  unfold Reader.expect Action.expect
  rw [← bind_pure Action.advance]
  exact checkThen kind (fun t _ => pure t) (fail fault)

/-! ### Counters -/

/-- Where all levels are open, nothing may be nested any more. -/
theorem nested_fail (hdepth : Grammar.maxNesting ≤ x.depth) (p : Action α) :
    Follows x room (Reader.fail .tooMuchNesting) (Action.nested p) := by
  intro c s h hroom
  have hopen : Grammar.maxNesting ≤ s.depth := by rwa [h.depth]
  rw [Action.nested, if_pos hopen]
  exact fail .tooMuchNesting c s h hroom

theorem nested (hdepth : x.depth < Grammar.maxNesting) {p : Reader α} {q : Action α}
    (hp : Follows x.deeper room p q) : Follows x room p (Action.nested q) := by
  intro c s h hroom
  exact .nested (by rwa [h.depth]) (hp c _ h.deeper hroom)

theorem inBody {p : Reader α} {q : Action α}
    (hp : Follows (x.inside (x.functions + 1)) room p q) : Follows x room p (Action.inBody q) := by
  intro c s h hroom
  exact .inBody (hp c _ h.inside hroom)

theorem inFunction {p : Reader α} {k : Bool → Action α}
    (hk : Follows x room p (k (0 < x.functions))) :
    Follows x room p (Action.inFunction >>= k) := by
  intro c s h hroom
  have hvalue : Action.inFunction s = .done (some (0 < x.functions)) s := by
    rw [Action.inFunction, h.functions]
  rw [Action.bind_of_done hvalue]
  exact hk c s h hroom

/-! ### Loops -/

/-- What a round of a reader's loop means to an action's loop. -/
def asStep (a : α) : Option α → ForInStep α
  | some a' => .yield a'
  | none => .done a

/-- A loop follows a loop if its rounds do and there is fuel for a round more
than there are tokens. -/
theorem loop {step : α → Reader (Option α)} {step' : α → Action (ForInStep α)} {fuel : Nat}
    (hadvances : Reader.Advances step) (hstops : Reader.Stops step)
    (hstep : ∀ a, Follows x room (asStep a <$> step a) (step' a)) (hfuel : room < fuel) (a : α) :
    Follows x room (Reader.loop step a) (Action.loop step' fuel a) := by
  -- The room shrinks with the fuel, because a round that goes on takes a token.
  induction fuel generalizing room a with
  | zero => omega
  | succ fuel ih =>
      intro c s h hroom
      obtain ⟨s₁, hs₁, h₁, hle₁⟩ := hstep a c s h hroom
      rw [Reader.loop_eq hadvances hstops, Action.loop]
      rcases Reader.step_cases step a c with ⟨a', d, hd⟩ | ⟨d, hd⟩ | ⟨d, hd⟩
      · have hround : (asStep a <$> step a) c = (some (.yield a'), d) :=
          Reader.bind_of_some (k := Pure.pure ∘ asStep a) hd
        rw [hround] at hs₁ h₁
        have hlt := hadvances a c a' d hd
        have hrounds : ∀ a, Follows x d.rest.length (asStep a <$> step a) (step' a) :=
          fun a => (hstep a).mono (by omega)
        rw [Reader.bind_of_some hd]
        exact .bind hs₁ hle₁ (ih hrounds (by omega) a' d s₁ h₁ (Nat.le_refl _))
      · have hround : (asStep a <$> step a) c = (some (.done a), d) :=
          Reader.bind_of_some (k := Pure.pure ∘ asStep a) hd
        rw [hround] at hs₁ h₁
        rw [Reader.bind_of_some hd, Action.bind_of_done hs₁]
        exact ⟨s₁, rfl, h₁, hle₁⟩
      · have hround : (asStep a <$> step a) c = (none, d) :=
          Reader.bind_of_none (k := Pure.pure ∘ asStep a) hd
        rw [hround] at hs₁ h₁
        rw [Reader.bind_of_none hd, Action.bind_of_gaveUp hs₁]
        exact ⟨s₁, rfl, h₁, hle₁⟩

theorem untilBracket {item : Reader α} {item' : Action α} {fuel : Nat}
    (hitem : Follows x room item item') (hconsumes : Reader.Consumes item)
    (hfuel : room < fuel) :
    Follows x room (Reader.untilBracket item) (Action.untilBracket fuel item') := by
  rw [Reader.untilBracket_eq]
  refine bind (loop (Reader.advances_itemRound hconsumes) Reader.stops_itemRound
    (fun items => ?_) hfuel #[]) fun items => pure items.toList
  simp only [Reader.itemRound, map_bind]
  refine bind (check .rightBracket) fun closes => ?_
  cases closes with
  | true => exact pure (ForInStep.done items)
  | false =>
      simp only [Bool.false_eq_true, if_false, map_bind, apply_ite]
      refine hasNext (bind hitem fun e => ?_) (pure (ForInStep.done items))
      exact pure (ForInStep.yield (items.push e))

theorem entry (list : ListKind) {item : Reader α} {item' : Action α}
    (hitem : Follows x room item item') (count : Nat) :
    Follows x room (Reader.entry list item count) (Action.entry list item' count) := by
  unfold Reader.entry Action.entry
  by_cases hcount : Reader.maxEntries ≤ count
  · simp only [hcount, if_true]
    refine bind peek fun t => ?_
    exact bind (report t _) fun _ => hitem
  · simp only [hcount, if_false]
    exact hitem

/-- The action takes an entry in each round.  The reader takes the first one
before its loop, and a round takes a comma and the entry behind it. -/
theorem entryLoop (list : ListKind) {item : Reader α} {item' : Action α} {fuel : Nat}
    (hleads : ∀ c : Cursor, c.LeadsTo (item c).2) (hitem : Follows x room item item')
    (hfuel : room < fuel) (items : Array α) :
    Follows x room
      (Reader.entry list item items.size >>= fun e =>
        Reader.loop (Reader.entryRound list item) (items.push e))
      (Action.loop (Action.entryRound list item') fuel items) := by
  have hadvances : Reader.Advances (Reader.entryRound list item) :=
    Reader.advances_whenNext fun items _ =>
      Reader.bind_leadsTo (Reader.entry_leadsTo list hleads items.size) fun _ => .refl
  -- The two loops are cut at different places, so `loop` does not apply.
  induction fuel generalizing room items with
  | zero => omega
  | succ fuel ih =>
      rw [Action.entryLoop_succ]
      refine bind (entry list hitem items.size) fun e => ?_
      rw [Reader.loop_eq hadvances Reader.stops_whenNext]
      simp only [Reader.entryRound, Reader.whenNext, bind_assoc]
      refine accept [.comma] (fun t _ less hless => ?_) (pure (items.push e))
      simp only [bind_assoc, pure_bind]
      exact (ih (hitem.mono (by omega)) (by omega) (items.push e)).after t

theorem entries (list : ListKind) {item : Reader α} {item' : Action α} {fuel : Nat}
    (hleads : ∀ c : Cursor, c.LeadsTo (item c).2) (hitem : Follows x room item item')
    (hfuel : room < fuel) :
    Follows x room (Reader.entries list item) (Action.entries fuel list item') := by
  rw [Reader.entries_eq]
  unfold Reader.openEntries Action.entries
  rw [bind_assoc]
  refine bind (check .rightBracket) fun closes => ?_
  have hclose (items : Array α) : Follows x room
      (Reader.expect .rightBracket (.listUnclosed list) >>= fun bracket =>
        Pure.pure (items.toList, bracket))
      (Action.expect .rightBracket (.listUnclosed list) >>= fun bracket =>
        Pure.pure (items.toList, bracket)) :=
    bind (expect _ _) fun bracket => pure (items.toList, bracket)
  cases closes with
  | true => exact hclose #[]
  | false => exact bind (entryLoop list hleads hitem hfuel #[]) hclose

end Follows

end Indexed
end BracketScript
