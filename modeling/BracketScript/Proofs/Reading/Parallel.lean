import BracketScript.Tree.Cursor
import Mathlib.Data.List.Forall2

/-!
# Readers built in parallel

All readers of the grammar are built from a handful of primitive ones by
sequencing and looping.  `Parallel f g p q` says that `p` and `q` are built in
the same way, where `q` works with `f t` wherever `p` works with a token `t`
and yields `g a` where `p` yields `a`.

From this shape alone follow the facts about single readers on which error
recovery rests:

* `Parallel.frame`: faults noted before play no part in reading;
* `Parallel.leadsTo`: reading only ever drops tokens from the front;
* `Parallel.gaveUp`: who gives up has noted a fault at the place where it
  stopped;
* `Parallel.extend`: tokens added at the end change nothing, provided that
  reading stops before the old end.

The last fact is false for a reader that stops exactly at the end: having
peeked there, it may go on into the added tokens.

For two readers there is `Parallel.alike`: a map of tokens that keeps
everything but lines leaves the course of reading as it is, and takes the tokens
at which faults are noted along.
-/

namespace BracketScript

namespace Cursor

/-- The cursor with nothing noted. -/
def fresh (c : Cursor) : Cursor :=
  { c with errors := #[], loops := #[] }

/-- The cursor `d`, with what `c` has noted put before what `d` has noted. -/
def after (c d : Cursor) : Cursor :=
  { d with errors := c.errors ++ d.errors, loops := c.loops ++ d.loops }

/-- The cursor with tokens added behind those left, and another end marker. -/
def extend (c : Cursor) (more : List Token) (finish : Token) : Cursor :=
  { c with rest := c.rest ++ more, finish := finish }

@[simp] theorem fresh_rest (c : Cursor) : c.fresh.rest = c.rest := rfl
@[simp] theorem fresh_finish (c : Cursor) : c.fresh.finish = c.finish := rfl
@[simp] theorem fresh_peek (c : Cursor) : c.fresh.peek = c.peek := rfl
@[simp] theorem fresh_fresh (c : Cursor) : c.fresh.fresh = c.fresh := rfl
@[simp] theorem after_rest (c d : Cursor) : (c.after d).rest = d.rest := rfl
@[simp] theorem after_finish (c d : Cursor) : (c.after d).finish = d.finish := rfl
@[simp] theorem after_fresh (c d : Cursor) : (c.after d).fresh = d.fresh := rfl
@[simp] theorem fresh_after_self (c : Cursor) : c.after c.fresh = c := by
  simp [after, fresh]

theorem after_after (c d e : Cursor) : (c.after d).after e = c.after (d.after e) := by
  simp [after, Array.append_assoc]

@[simp] theorem extend_errors (c : Cursor) (more : List Token) (finish : Token) :
    (c.extend more finish).errors = c.errors := rfl

@[simp] theorem extend_rest (c : Cursor) (more : List Token) (finish : Token) :
    (c.extend more finish).rest = c.rest ++ more := rfl

theorem extend_peek {c : Cursor} (h : c.rest ≠ []) (more : List Token) (finish : Token) :
    (c.extend more finish).peek = c.peek := by
  obtain ⟨t, rest, ht⟩ := List.exists_cons_of_ne_nil h
  simp [extend, peek, ht]

/-- What reading does to a cursor: it drops tokens from the front and keeps the
end marker. -/
structure LeadsTo (c d : Cursor) : Prop where
  rest : d.rest <:+ c.rest
  finish : d.finish = c.finish

theorem LeadsTo.refl (c : Cursor) : c.LeadsTo c :=
  ⟨List.suffix_refl _, rfl⟩

theorem LeadsTo.trans {c d e : Cursor} (h₁ : c.LeadsTo d) (h₂ : d.LeadsTo e) : c.LeadsTo e :=
  ⟨h₂.rest.trans h₁.rest, h₂.finish.trans h₁.finish⟩

/-- There was something to read before if there is something left. -/
theorem LeadsTo.rest_ne_nil {c d : Cursor} (h : c.LeadsTo d) (hd : d.rest ≠ []) :
    c.rest ≠ [] := by
  intro hc
  exact hd (List.suffix_nil.mp (hc ▸ h.rest))

end Cursor

/-- What a fault says apart from its line. -/
def SyntaxError.sansLine (e : SyntaxError) : Location × SyntaxFault :=
  (e.location, e.fault)

/-- A map of tokens that changes nothing but lines. -/
structure KeepsText (f : Token → Token) : Prop where
  kind (t : Token) : (f t).kind = t.kind
  lexeme (t : Token) : (f t).lexeme = t.lexeme
  literal (t : Token) : (f t).literal = t.literal

theorem keepsText_id : KeepsText id :=
  ⟨fun _ => rfl, fun _ => rfl, fun _ => rfl⟩

theorem KeepsText.sansLine_atToken {f : Token → Token} (hf : KeepsText f) (t : Token)
    (fault : SyntaxFault) :
    (SyntaxError.atToken (f t) fault).sansLine = (SyntaxError.atToken t fault).sansLine := by
  simp [SyntaxError.atToken, SyntaxError.sansLine, Location.ofToken, hf.kind, hf.lexeme]

/-- The same fault, noted at a token and at the one that it is mapped to. -/
def SyntaxError.Moved (f : Token → Token) (e e' : SyntaxError) : Prop :=
  ∃ t fault, e = .atToken t fault ∧ e' = .atToken (f t) fault

/-- The cursor `d` stands in the tokens of `c` with other lines, and has noted
the same faults at them. -/
structure Cursor.Alike (f : Token → Token) (c d : Cursor) : Prop where
  rest : d.rest = c.rest.map f
  finish : d.finish = f c.finish
  faults : List.Forall₂ (SyntaxError.Moved f) c.errors.toList d.errors.toList

/-- The faults are the same up to lines. -/
theorem Cursor.Alike.errors {f : Token → Token} {c d : Cursor} (h : c.Alike f d)
    (hf : KeepsText f) :
    d.errors.map SyntaxError.sansLine = c.errors.map SyntaxError.sansLine := by
  apply Array.toList_inj.mp
  rw [Array.toList_map, Array.toList_map]
  have hfaults := h.faults
  generalize c.errors.toList = es, d.errors.toList = es' at hfaults
  induction hfaults with
  | nil => rfl
  | cons hmoved _ ih =>
      obtain ⟨t, fault, rfl, rfl⟩ := hmoved
      rw [List.map_cons, List.map_cons, hf.sansLine_atToken, ih]

theorem Cursor.Alike.peek {f : Token → Token} {c d : Cursor} (h : c.Alike f d) :
    d.peek = f c.peek := by
  rcases hc : c.rest with _ | ⟨t, rest⟩ <;> simp [Cursor.peek, h.rest, h.finish, hc]

theorem Cursor.Alike.note {f : Token → Token} {c d : Cursor} (h : c.Alike f d) (t : Token)
    (fault : SyntaxFault) : (c.note t fault).Alike f (d.note (f t) fault) := by
  refine ⟨h.rest, h.finish, ?_⟩
  simp only [Cursor.note, Array.toList_push]
  exact List.rel_append h.faults (.cons ⟨t, fault, rfl, rfl⟩ .nil)

namespace Reader

variable {α β : Type}

/-- A round of a loop that goes on has taken a token. -/
def Advances (step : α → Reader (Option α)) : Prop :=
  ∀ a c a' c', step a c = (some (some a'), c') → c'.rest.length < c.rest.length

/-- Two readers built in the same way from primitive readers. -/
inductive Parallel (f : Token → Token) : {α : Type} → (α → α) → Reader α → Reader α → Prop
  | pure {α : Type} (g : α → α) (a : α) : Parallel f g (pure a) (pure (g a))
  | bind {α β : Type} {g : α → α} {h : β → β} {p q : Reader α} {k l : α → Reader β}
      (hp : Parallel f g p q) (hk : ∀ a, Parallel f h (k a) (l (g a))) :
      Parallel f h (p >>= k) (q >>= l)
  | peek : Parallel f f peek peek
  | atEnd : Parallel f id atEnd atEnd
  | nextIs (kind : Kind) : Parallel f id (nextIs kind) (nextIs kind)
  | accept (kinds : List Kind) : Parallel f (Option.map f) (accept? kinds) (accept? kinds)
  | report (t : Token) (fault : SyntaxFault) :
      Parallel f id (report t fault) (report (f t) fault)
  | fail {α : Type} (g : α → α) (fault : SyntaxFault) : Parallel f g (fail fault) (fail fault)
  | noteLoop (line line' : Nat) : Parallel f id (noteLoop line) (noteLoop line')
  | loop {α : Type} {g : α → α} {step step' : α → Reader (Option α)} (a : α)
      (hstep : ∀ a, Parallel f (Option.map g) (step a) (step' (g a)))
      (hadvances : Advances step) :
      Parallel f g (loop step a) (loop step' (g a))

/-! ### The cases of a sequence -/

theorem bind_of_some {p : Reader α} {k : α → Reader β} {c c' : Cursor} {a : α}
    (h : p c = (some a, c')) : (p >>= k) c = k a c' := by
  simp only [bind, h]

theorem bind_of_none {p : Reader α} {k : α → Reader β} {c c' : Cursor}
    (h : p c = (none, c')) : (p >>= k) c = (none, c') := by
  simp only [bind, h]

@[simp] theorem pure_apply (a : α) (c : Cursor) : (pure a : Reader α) c = (some a, c) := rfl

/-- A sequence ends where its first part gives up, or where its second part
ends. -/
theorem bind_cases (p : Reader α) (k : α → Reader β) (c : Cursor) :
    (∃ a c', p c = (some a, c') ∧ (p >>= k) c = k a c') ∨
      ∃ c', p c = (none, c') ∧ (p >>= k) c = (none, c') := by
  rcases hp : p c with ⟨o, c'⟩
  cases o with
  | none => exact Or.inr ⟨c', rfl, bind_of_none hp⟩
  | some a => exact Or.inl ⟨a, c', rfl, bind_of_some hp⟩

instance : LawfulMonad Reader := LawfulMonad.mk' Reader
  (by
    intro α p
    funext c
    rcases hp : p c with ⟨_ | a, d⟩
    · exact bind_of_none hp
    · exact bind_of_some hp)
  (fun _ _ => rfl)
  (by
    intro α β γ p k l
    funext c
    rcases bind_cases p k c with ⟨a, d, hd, hbind⟩ | ⟨d, hd, hbind⟩
    · rw [bind_of_some hd]
      rcases hk : k a d with ⟨_ | b, e⟩
      · rw [bind_of_none (hbind.trans hk), bind_of_none hk]
      · rw [bind_of_some (hbind.trans hk), bind_of_some hk]
    · rw [bind_of_none hd, bind_of_none hbind])

/-! ### The cases of a loop -/

theorem loopWithin_of_more {step : α → Reader (Option α)} {n : Nat} {a a' : α} {c c' : Cursor}
    (h : step a c = (some (some a'), c')) :
    loopWithin step (n + 1) a c = loopWithin step n a' c' := by
  simp [loopWithin, h]

theorem loopWithin_of_stop {step : α → Reader (Option α)} {n : Nat} {a : α} {c c' : Cursor}
    (h : step a c = (some none, c')) : loopWithin step (n + 1) a c = (some a, c') := by
  simp [loopWithin, h]

theorem loopWithin_of_fail {step : α → Reader (Option α)} {n : Nat} {a : α} {c c' : Cursor}
    (h : step a c = (none, c')) : loopWithin step (n + 1) a c = (none, c') := by
  simp [loopWithin, h]

@[simp] theorem loopWithin_zero (step : α → Reader (Option α)) (a : α) (c : Cursor) :
    loopWithin step 0 a c = (some a, c) := rfl

/-- One round of a loop: it goes on, stops, or gives up. -/
theorem step_cases (step : α → Reader (Option α)) (a : α) (c : Cursor) :
    (∃ a' c', step a c = (some (some a'), c')) ∨ (∃ c', step a c = (some none, c')) ∨
      ∃ c', step a c = (none, c') := by
  rcases h : step a c with ⟨o, c'⟩
  rcases o with _ | _ | a'
  · exact Or.inr (Or.inr ⟨c', rfl⟩)
  · exact Or.inr (Or.inl ⟨c', rfl⟩)
  · exact Or.inl ⟨a', c', rfl⟩

/-! ### What a sequence and a loop keep of their parts -/

theorem bind_leadsTo {p : Reader α} {k : α → Reader β} (hp : ∀ c : Cursor, c.LeadsTo (p c).2)
    (hk : ∀ a (c : Cursor), c.LeadsTo (k a c).2) (c : Cursor) : c.LeadsTo ((p >>= k) c).2 := by
  have hfirst := hp c
  rcases bind_cases p k c with ⟨a, d, hd, hbind⟩ | ⟨d, hd, hbind⟩
  · rw [hd] at hfirst
    rw [hbind]
    exact hfirst.trans (hk a d)
  · rw [hd] at hfirst
    rw [hbind]
    exact hfirst

section Loop

variable {step : α → Reader (Option α)}

theorem loopWithin_frame
    (hstep : ∀ a c, step a c = ((step a c.fresh).1, c.after (step a c.fresh).2))
    (n : Nat) (a : α) (c : Cursor) :
    loopWithin step n a c =
      ((loopWithin step n a c.fresh).1, c.after (loopWithin step n a c.fresh).2) := by
  induction n generalizing a c with
  | zero => simp
  | succ n ih =>
      rcases step_cases step a c.fresh with ⟨a', d, hd⟩ | ⟨d, hd⟩ | ⟨d, hd⟩
      · have hc : step a c = (some (some a'), c.after d) := by rw [hstep a c, hd]
        rw [loopWithin_of_more hc, loopWithin_of_more hd, ih a' (c.after d), ih a' d]
        simp [Cursor.after_after]
      · have hc : step a c = (some none, c.after d) := by rw [hstep a c, hd]
        rw [loopWithin_of_stop hc, loopWithin_of_stop hd]
      · have hc : step a c = (none, c.after d) := by rw [hstep a c, hd]
        rw [loopWithin_of_fail hc, loopWithin_of_fail hd]

theorem loopWithin_leadsTo (hstep : ∀ a (c : Cursor), c.LeadsTo (step a c).2)
    (n : Nat) (a : α) (c : Cursor) : c.LeadsTo (loopWithin step n a c).2 := by
  induction n generalizing a c with
  | zero => exact .refl c
  | succ n ih =>
      have hround := hstep a c
      rcases step_cases step a c with ⟨a', d, hd⟩ | ⟨d, hd⟩ | ⟨d, hd⟩
      · rw [hd] at hround
        rw [loopWithin_of_more hd]
        exact hround.trans (ih a' d)
      · rw [hd] at hround
        rw [loopWithin_of_stop hd]
        exact hround
      · rw [hd] at hround
        rw [loopWithin_of_fail hd]
        exact hround

theorem loopWithin_gaveUp
    (hstep : ∀ a c, (step a c).1 = none →
      ∃ fault, SyntaxError.atToken (step a c).2.peek fault ∈ (step a c).2.errors)
    (n : Nat) (a : α) (c : Cursor) (hnone : (loopWithin step n a c).1 = none) :
    ∃ fault, SyntaxError.atToken (loopWithin step n a c).2.peek fault ∈
      (loopWithin step n a c).2.errors := by
  induction n generalizing a c with
  | zero => simp at hnone
  | succ n ih =>
      rcases step_cases step a c with ⟨a', d, hd⟩ | ⟨d, hd⟩ | ⟨d, hd⟩
      · rw [loopWithin_of_more hd] at hnone ⊢
        exact ih a' d hnone
      · simp [loopWithin_of_stop hd] at hnone
      · have hround := hstep a c (by rw [hd])
        rw [loopWithin_of_fail hd]
        rwa [hd] at hround

/-- The added tokens raise the bound on the number of rounds, so the two loops
have bounds of their own; both suffice. -/
theorem loopWithin_extend {more : List Token} {finish : Token}
    (hleads : ∀ a (c : Cursor), c.LeadsTo (step a c).2) (hadvances : Advances step)
    (hstep : ∀ a c, (step a c).2.rest ≠ [] →
      step a (c.extend more finish) = ((step a c).1, (step a c).2.extend more finish))
    (n m : Nat) (a : α) (c : Cursor) (hn : c.rest.length ≤ n) (hm : c.rest.length ≤ m)
    (hrest : (loopWithin step n a c).2.rest ≠ []) :
    loopWithin step m a (c.extend more finish) =
      ((loopWithin step n a c).1, (loopWithin step n a c).2.extend more finish) := by
  induction n generalizing m a c with
  | zero => exact absurd (List.eq_nil_of_length_eq_zero (Nat.le_zero.mp hn)) hrest
  | succ n ih =>
      have hc : c.rest ≠ [] := (loopWithin_leadsTo hleads (n + 1) a c).rest_ne_nil hrest
      have hpos : 0 < c.rest.length := List.length_pos_iff.mpr hc
      obtain ⟨m, rfl⟩ : ∃ k, m = k + 1 := ⟨m - 1, by omega⟩
      rcases step_cases step a c with ⟨a', d, hd⟩ | ⟨d, hd⟩ | ⟨d, hd⟩
      · rw [loopWithin_of_more hd] at hrest ⊢
        have hlt := hadvances a c a' d hd
        have hround := hstep a c
        rw [hd] at hround
        rw [loopWithin_of_more (hround ((loopWithin_leadsTo hleads n a' d).rest_ne_nil hrest))]
        exact ih m a' d (by omega) (by omega) hrest
      · rw [loopWithin_of_stop hd] at hrest ⊢
        have hround := hstep a c
        rw [hd] at hround
        exact loopWithin_of_stop (hround hrest)
      · rw [loopWithin_of_fail hd] at hrest ⊢
        have hround := hstep a c
        rw [hd] at hround
        exact loopWithin_of_fail (hround hrest)

/-- Rounds that agree up to lines make loops that agree up to lines. -/
theorem loopWithin_alike {f : Token → Token} {g : α → α} {step' : α → Reader (Option α)}
    (hstep : ∀ a (c d : Cursor), c.Alike f d →
      (step' (g a) d).1 = (step a c).1.map (Option.map g) ∧
        (step a c).2.Alike f (step' (g a) d).2)
    (n : Nat) (a : α) {c d : Cursor} (hcd : c.Alike f d) :
    (loopWithin step' n (g a) d).1 = (loopWithin step n a c).1.map g ∧
      (loopWithin step n a c).2.Alike f (loopWithin step' n (g a) d).2 := by
  induction n generalizing a c d with
  | zero => exact ⟨rfl, hcd⟩
  | succ n ih =>
      obtain ⟨hvalue, hcursor⟩ := hstep a c d hcd
      rcases step_cases step a c with ⟨a', c', hc'⟩ | ⟨c', hc'⟩ | ⟨c', hc'⟩
      · rw [hc'] at hvalue hcursor
        have hd : step' (g a) d = (some (some (g a')), (step' (g a) d).2) := Prod.ext hvalue rfl
        rw [loopWithin_of_more hc', loopWithin_of_more hd]
        exact ih a' hcursor
      · rw [hc'] at hvalue hcursor
        have hd : step' (g a) d = (some none, (step' (g a) d).2) := Prod.ext hvalue rfl
        rw [loopWithin_of_stop hc', loopWithin_of_stop hd]
        exact ⟨rfl, hcursor⟩
      · rw [hc'] at hvalue hcursor
        have hd : step' (g a) d = (none, (step' (g a) d).2) := Prod.ext hvalue rfl
        rw [loopWithin_of_fail hc', loopWithin_of_fail hd]
        exact ⟨rfl, hcursor⟩

end Loop

/-! ### Facts about one reader -/

namespace Parallel

variable {f : Token → Token} {g : α → α} {p q : Reader α}

/-- Reading neither looks at nor changes what was noted before. -/
theorem frame (h : Parallel f g p q) (c : Cursor) :
    p c = ((p c.fresh).1, c.after (p c.fresh).2) := by
  induction h generalizing c with
  | pure g a => simp
  | @bind α β g h p q k l hp hk ihp ihk =>
      rcases bind_cases p k c.fresh with ⟨a, d, hd, hbind⟩ | ⟨d, hd, hbind⟩
      · have hpc : p c = (some a, c.after d) := by rw [ihp c, hd]
        rw [bind_of_some hpc, hbind, ihk a (c.after d), ihk a d]
        simp [Cursor.after_after]
      · have hpc : p c = (none, c.after d) := by rw [ihp c, hd]
        rw [bind_of_none hpc, hbind]
  | peek => simp [Reader.peek]
  | atEnd => simp [Reader.atEnd]
  | nextIs kind => simp [Reader.nextIs]
  | accept kinds =>
      rcases hrest : c.rest with _ | ⟨t, rest⟩
      · simp [accept?, hrest]
      · by_cases ht : t.kind ∈ kinds
        · simp [accept?, hrest, ht, Cursor.after, Cursor.fresh]
        · simp [accept?, hrest, ht]
  | report t fault => simp [Reader.report, Cursor.note, Cursor.after, Cursor.fresh]
  | fail g fault =>
      simp [Reader.fail, Cursor.note, Cursor.after, Cursor.fresh, Cursor.peek]
  | noteLoop line line' => simp [Reader.noteLoop, Cursor.after, Cursor.fresh]
  | loop a hstep hadvances ih => exact loopWithin_frame ih c.rest.length a c

/-- Reading drops tokens from the front and keeps the end marker. -/
theorem leadsTo (h : Parallel f g p q) (c : Cursor) : c.LeadsTo (p c).2 := by
  induction h generalizing c with
  | pure g a => exact .refl c
  | bind hp hk ihp ihk => exact bind_leadsTo ihp ihk c
  | peek => exact .refl c
  | atEnd => exact .refl c
  | nextIs kind => exact .refl c
  | accept kinds =>
      rcases hrest : c.rest with _ | ⟨t, rest⟩
      · simpa [accept?, hrest] using Cursor.LeadsTo.refl c
      · by_cases ht : t.kind ∈ kinds
        · simp only [accept?, hrest, ht, if_true]
          exact ⟨by simp [hrest], rfl⟩
        · simpa [accept?, hrest, ht] using Cursor.LeadsTo.refl c
  | report t fault => exact ⟨List.suffix_refl _, rfl⟩
  | fail g fault => exact ⟨List.suffix_refl _, rfl⟩
  | noteLoop line line' => exact ⟨List.suffix_refl _, rfl⟩
  | loop a hstep hadvances ih => exact loopWithin_leadsTo ih c.rest.length a c

/-- Who gives up has noted a fault at the token where it stopped. -/
theorem gaveUp (h : Parallel f g p q) (c : Cursor) (hnone : (p c).1 = none) :
    ∃ fault, SyntaxError.atToken (p c).2.peek fault ∈ (p c).2.errors := by
  induction h generalizing c with
  | pure g a => simp at hnone
  | @bind α β g h p q k l hp hk ihp ihk =>
      rcases bind_cases p k c with ⟨a, d, hd, hbind⟩ | ⟨d, hd, hbind⟩
      · rw [hbind] at hnone ⊢
        exact ihk a d hnone
      · have hfirst := ihp c (by rw [hd])
        rw [hbind]
        rwa [hd] at hfirst
  | peek => simp [Reader.peek] at hnone
  | atEnd => simp [Reader.atEnd] at hnone
  | nextIs kind => simp [Reader.nextIs] at hnone
  | accept kinds =>
      rcases hrest : c.rest with _ | ⟨t, rest⟩
      · simp [accept?, hrest] at hnone
      · by_cases ht : t.kind ∈ kinds <;> simp [accept?, hrest, ht] at hnone
  | report t fault => simp [Reader.report] at hnone
  | fail g fault => exact ⟨fault, by simp [Reader.fail, Cursor.note, Cursor.peek]⟩
  | noteLoop line line' => simp [Reader.noteLoop] at hnone
  | loop a hstep hadvances ih => exact loopWithin_gaveUp ih c.rest.length a c hnone

/-- Tokens added at the end change nothing for a reader that stops before
them. -/
theorem extend (h : Parallel f g p q) (c : Cursor) (more : List Token) (finish : Token)
    (hrest : (p c).2.rest ≠ []) :
    p (c.extend more finish) = ((p c).1, (p c).2.extend more finish) := by
  induction h generalizing c with
  | pure g a => rfl
  | @bind α β g h p q k l hp hk ihp ihk =>
      have hfirst := ihp c
      rcases bind_cases p k c with ⟨a, d, hd, hbind⟩ | ⟨d, hd, hbind⟩
      · rw [hd] at hfirst
        rw [hbind] at hrest ⊢
        rw [bind_of_some (hfirst (((hk a).leadsTo d).rest_ne_nil hrest))]
        exact ihk a d hrest
      · rw [hd] at hfirst
        rw [hbind] at hrest ⊢
        exact bind_of_none (hfirst hrest)
  | peek =>
      change c.rest ≠ [] at hrest
      simp [Reader.peek, Cursor.extend_peek hrest]
  | atEnd =>
      change c.rest ≠ [] at hrest
      obtain ⟨t, rest, ht⟩ := List.exists_cons_of_ne_nil hrest
      simp [Reader.atEnd, ht]
  | nextIs kind =>
      change c.rest ≠ [] at hrest
      obtain ⟨t, rest, ht⟩ := List.exists_cons_of_ne_nil hrest
      simp [Reader.nextIs, ht]
  | accept kinds =>
      rcases hc : c.rest with _ | ⟨t, rest⟩
      · simp [accept?, hc] at hrest
      · by_cases ht : t.kind ∈ kinds <;> simp [accept?, Cursor.extend, hc, ht]
  | report t fault => rfl
  | fail g fault =>
      change c.rest ≠ [] at hrest
      simp only [Reader.fail, Cursor.extend_peek hrest]
      rfl
  | noteLoop line line' => rfl
  | loop a hstep hadvances ih =>
      exact loopWithin_extend (fun a c => (hstep a).leadsTo c) hadvances ih _ _ a c
        (Nat.le_refl _) (by simp) hrest

/-! ### Facts about two readers -/

/-- Other lines lead to the same course of reading. -/
theorem alike (hf : KeepsText f) (h : Parallel f g p q) {c d : Cursor} (hcd : c.Alike f d) :
    (q d).1 = (p c).1.map g ∧ (p c).2.Alike f (q d).2 := by
  induction h generalizing c d with
  | pure g a => exact ⟨rfl, hcd⟩
  | @bind α β g h p q k l hp hk ihp ihk =>
      obtain ⟨hvalue, hcursor⟩ := ihp hcd
      rcases bind_cases p k c with ⟨a, c', hc', hbind⟩ | ⟨c', hc', hbind⟩
      · rw [hc'] at hvalue hcursor
        have hq : q d = (some (g a), (q d).2) := Prod.ext hvalue rfl
        rw [hbind, bind_of_some hq]
        exact ihk a hcursor
      · rw [hc'] at hvalue hcursor
        have hq : q d = (none, (q d).2) := Prod.ext hvalue rfl
        rw [hbind, bind_of_none hq]
        exact ⟨rfl, hcursor⟩
  | peek => exact ⟨by simp [Reader.peek, hcd.peek], hcd⟩
  | atEnd => exact ⟨by simp [Reader.atEnd, hcd.rest], hcd⟩
  | nextIs kind =>
      refine ⟨?_, hcd⟩
      rcases hc : c.rest with _ | ⟨t, rest⟩ <;> simp [Reader.nextIs, hcd.rest, hc, hf.kind]
  | accept kinds =>
      rcases hc : c.rest with _ | ⟨t, rest⟩
      · have hd : d.rest = [] := by simp [hcd.rest, hc]
        simpa [accept?, hc, hd] using hcd
      · have hd : d.rest = f t :: rest.map f := by simp [hcd.rest, hc]
        by_cases ht : t.kind ∈ kinds
        · simp only [accept?, hc, hd, hf.kind, ht, if_true]
          exact ⟨rfl, rfl, hcd.finish, hcd.faults⟩
        · simpa [accept?, hc, hd, hf.kind, ht] using hcd
  | report t fault => exact ⟨rfl, hcd.note t fault⟩
  | fail g fault =>
      refine ⟨rfl, ?_⟩
      simp only [Reader.fail, hcd.peek]
      exact hcd.note c.peek fault
  | noteLoop line line' => exact ⟨rfl, hcd.rest, hcd.finish, hcd.faults⟩
  | loop a hstep hadvances ih =>
      have hrounds : d.rest.length = c.rest.length := by simp [hcd.rest]
      simp only [Reader.loop, hrounds]
      exact loopWithin_alike (fun a _ _ => ih a) _ a hcd

end Parallel

end Reader
end BracketScript
