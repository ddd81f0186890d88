import BracketScript.Proofs.Reading.Productions

/-!
# Readings that succeed

`Takes p w a s`: where `w` and then `s` are the tokens left, `p` takes `w`,
yields `a` and notes no fault.  Unlike soundness this is about one text at a
time, and the tokens behind the text are part of it: a reader that repeats
something as long as it can has to be stopped by them.

`Rounds step a w b s` is the same for a loop that has come as far as `a`.
-/

namespace BracketScript
namespace Reader

variable {α β : Type}

/-- The reader takes `w` before `s`, and yields `a`. -/
def Takes (p : Reader α) (w : List Token) (a : α) (s : List Token) : Prop :=
  ∀ c : Cursor, c.rest = w ++ s →
    ∃ loops, p c = (some a, { c with rest := s, loops := loops })

/-- The loop takes `w` before `s`, and goes from `a` to `b`. -/
def Rounds (step : α → Reader (Option α)) (a : α) (w : List Token) (b : α) (s : List Token) :
    Prop :=
  ∀ n, (w ++ s).length ≤ n → Takes (loopWithin step n a) w b s

namespace Takes

variable {p : Reader α} {k : α → Reader β} {a : α} {b : β} {w w' s : List Token} {t : Token}

theorem pure (a : α) (s : List Token) : Takes (pure a) [] a s := by
  intro c hc
  have hc : c.rest = s := hc
  exact ⟨c.loops, by rw [← hc]; rfl⟩

theorem bind (hp : Takes p w a (w' ++ s)) (hk : Takes (k a) w' b s) :
    Takes (p >>= k) (w ++ w') b s := by
  intro c hc
  obtain ⟨loops, hloops⟩ := hp c (by rw [hc, List.append_assoc])
  obtain ⟨loops', hloops'⟩ := hk { c with rest := w' ++ s, loops := loops } rfl
  exact ⟨loops', by rw [bind_of_some hloops, hloops']⟩

/-- The second part may take nothing. -/
theorem bindLast (hp : Takes p w a s) (hk : Takes (k a) [] b s) : Takes (p >>= k) w b s := by
  have hbind : Takes (p >>= k) (w ++ []) b s := bind hp hk
  rwa [List.append_nil] at hbind

theorem bindPure (g : α → β) (hp : Takes p w a s) :
    Takes (p >>= fun a => Pure.pure (g a)) w (g a) s :=
  bindLast hp (pure (g a) s)

theorem map (g : α → β) (hp : Takes p w a s) : Takes (g <$> p) w (g a) s :=
  bindPure g hp

theorem acceptThen {kinds : List Kind} {k : Option Token → Reader β} (hkind : t.kind ∈ kinds)
    (hk : Takes (k (some t)) w b s) : Takes (accept? kinds >>= k) (t :: w) b s := by
  refine bind (w := [t]) (fun c hc => ⟨c.loops, ?_⟩) hk
  have hrest : c.rest = t :: (w ++ s) := hc
  simp [accept?, hrest, hkind]

/-- Nothing is accepted where the next token, if any, is of another kind. -/
theorem declineThen {kinds : List Kind} {k : Option Token → Reader β}
    (hnext : ∀ t ∈ (w ++ s).head?, t.kind ∉ kinds) (hk : Takes (k none) w b s) :
    Takes (accept? kinds >>= k) w b s := by
  refine bind (w := []) (fun c hc => ⟨c.loops, ?_⟩) hk
  have hrest : c.rest = w ++ s := hc
  have hsame : { c with rest := w ++ s, loops := c.loops } = c := by rw [← hrest]
  rw [hsame]
  rcases hc' : c.rest with _ | ⟨t, rest⟩
  · simp [accept?, hc']
  · have hkind : t.kind ∉ kinds := hnext t (by rw [← hrest, hc']; rfl)
    simp [accept?, hc', hkind]

theorem expectThen {kind : Kind} {fault : SyntaxFault} {k : Token → Reader β}
    (hkind : t.kind = kind) (hk : Takes (k t) w b s) :
    Takes (expect kind fault >>= k) (t :: w) b s := by
  have hexpect : Takes (expect kind fault) ([t] ++ []) t (w ++ s) :=
    acceptThen (by simp [hkind]) (pure t _)
  exact bind hexpect hk

theorem expect {kind : Kind} {fault : SyntaxFault} (hkind : t.kind = kind) :
    Takes (expect kind fault) [t] t s := by
  have h : Takes (Reader.expect kind fault >>= Pure.pure) [t] t s := expectThen hkind (pure t s)
  rwa [bind_pure] at h

theorem nextIsThen {kind : Kind} {k : Bool → Reader β}
    (hk : Takes (k ((w ++ s).head?.any fun t => t.kind = kind)) w b s) :
    Takes (nextIs kind >>= k) w b s := by
  intro c hc
  have h := hk c hc
  rw [← hc] at h
  exact h

theorem atEndThen {k : Bool → Reader β} (hk : Takes (k (w ++ s).isEmpty) w b s) :
    Takes (atEnd >>= k) w b s := by
  intro c hc
  have h := hk c hc
  rw [← hc] at h
  exact h

theorem noteLoopThen {line : Nat} {k : Unit → Reader β} (hk : Takes (k ()) w b s) :
    Takes (noteLoop line >>= k) w b s :=
  fun c hc => hk { c with loops := c.loops.push line } hc

end Takes

namespace Rounds

variable {step : α → Reader (Option α)} {a a' b : α} {w w' s : List Token}

theorem stop (h : Takes (step a) w none s) : Rounds step a w a s := by
  intro n hn c hc
  cases n with
  | zero =>
      obtain ⟨rfl, rfl⟩ : w = [] ∧ s = [] := by simpa using hn
      exact Takes.pure a [] c hc
  | succ n =>
      obtain ⟨loops, hloops⟩ := h c hc
      exact ⟨loops, loopWithin_of_stop hloops⟩

theorem more (hw : w ≠ []) (h : Takes (step a) w (some a') (w' ++ s))
    (hrounds : Rounds step a' w' b s) : Rounds step a (w ++ w') b s := by
  intro n hn c hc
  have hpos := List.length_pos_iff.mpr hw
  simp only [List.length_append] at hn
  obtain ⟨m, rfl⟩ : ∃ m, n = m + 1 := ⟨n - 1, by omega⟩
  have hm : (w' ++ s).length ≤ m := by
    simp only [List.length_append]
    omega
  obtain ⟨loops, hloops⟩ := h c (by rw [hc, List.append_assoc])
  obtain ⟨loops', hloops'⟩ := hrounds m hm { c with rest := w' ++ s, loops := loops } rfl
  exact ⟨loops', by rw [loopWithin_of_more hloops, hloops']⟩

theorem loop (h : Rounds step a w b s) : Takes (loop step a) w b s :=
  fun c hc => h c.rest.length (Nat.le_of_eq (by rw [hc])) c hc

/-- A loop whose rounds begin with certain tokens stops before any other. -/
theorem stopWhenNext {kinds : List Kind} {k : α → Token → Reader (Option α)}
    (hnext : ∀ t ∈ s.head?, t.kind ∉ kinds) :
    Rounds (fun a => whenNext kinds (k a)) a [] a s :=
  stop (.declineThen hnext (.pure none s))

theorem moreWhenNext {kinds : List Kind} {k : α → Token → Reader (Option α)} {t : Token}
    (hkind : t.kind ∈ kinds) (h : Takes (k a t) w (some a') (w' ++ s))
    (hrounds : Rounds (fun a => whenNext kinds (k a)) a' w' b s) :
    Rounds (fun a => whenNext kinds (k a)) a (t :: (w ++ w')) b s :=
  more (w := t :: w) (by simp) (.acceptThen hkind h) hrounds

end Rounds

namespace Takes

variable {item : Reader α} {print : α → List Token}

/-- Items one after the other up to a closing bracket.  `Next` is what the
items have to find behind them: a bracket will do, and so will another item. -/
theorem untilBracket (Next : Kind → Prop) {items : List α} {bracket : Token} {s : List Token}
    (hbracket : bracket.kind = .rightBracket) (hnext : Next .rightBracket)
    (hhead : ∀ a ∈ items, ∃ t w, print a = t :: w ∧ t.kind ≠ .rightBracket ∧ Next t.kind)
    (hitem : ∀ a ∈ items, ∀ s, (∀ t ∈ s.head?, Next t.kind) → Takes item (print a) a s) :
    Takes (untilBracket item) (items.flatMap print) items (bracket :: s) := by
  -- The induction is on the items left, for whatever items are there already.
  have hrounds : ∀ done : Array α,
      Rounds (itemRound item) done (items.flatMap print) (done ++ items) (bracket :: s) := by
    induction items with
    | nil =>
        intro done
        have hstop : Takes (itemRound item done) [] none (bracket :: s) := by
          refine nextIsThen ?_
          simpa [hbracket] using pure none (bracket :: s)
        simpa using Rounds.stop hstop
    | cons a items ih =>
        intro done
        obtain ⟨t, w, hprint, hkind, -⟩ := hhead a (by simp)
        have hbehind : ∀ u ∈ (items.flatMap print ++ bracket :: s).head?, Next u.kind := by
          cases items with
          | nil => simpa [hbracket] using hnext
          | cons a' items =>
              obtain ⟨t', w', hprint', -, hnext'⟩ := hhead a' (by simp)
              simpa [hprint'] using hnext'
        have hround : Takes (itemRound item done) (print a) (some (done.push a))
            (items.flatMap print ++ bracket :: s) := by
          refine nextIsThen ?_
          simp only [hprint, List.cons_append, List.head?_cons, Option.any_some, hkind,
            decide_false, Bool.false_eq_true, if_false]
          refine atEndThen ?_
          simp only [List.cons_append, List.isEmpty_cons, Bool.false_eq_true, if_false]
          have htake := hitem a (by simp) _ hbehind
          rw [hprint] at htake
          exact bindPure (fun a => some (done.push a)) htake
        have hmore := Rounds.more (by simp [hprint]) hround
          (ih (fun a ha => hhead a (by simp [ha])) (fun a ha => hitem a (by simp [ha]))
            (done.push a))
        simpa using hmore
  rw [untilBracket_eq]
  simpa using bindPure Array.toList (hrounds #[]).loop

theorem entry {list : ListKind} {count : Nat} {a : α} {w s : List Token} (hcount : count < 127)
    (h : Takes item w a s) : Takes (entry list item count) w a s := by
  have hle : ¬ maxEntries ≤ count := by
    simpa [maxEntries] using hcount
  simpa [Reader.entry, hle] using h

/-- Only a comma or a bracket can follow an entry. -/
def EntryEnd (s : List Token) : Prop :=
  ∀ t ∈ s.head?, t.kind = .comma ∨ t.kind = .rightBracket

theorem entryEnd_flatMap {comma bracket : Token} (hcomma : comma.kind = .comma)
    (hbracket : bracket.kind = .rightBracket) (items : List α) (s : List Token) :
    EntryEnd (items.flatMap (fun a => comma :: print a) ++ bracket :: s) := by
  cases items <;> simp [EntryEnd, hcomma, hbracket]

/-- More entries behind those that are there already. -/
theorem entryRounds {list : ListKind} {items : List α} {comma bracket : Token} {s : List Token}
    (hcomma : comma.kind = .comma) (hbracket : bracket.kind = .rightBracket)
    (hitem : ∀ a ∈ items, ∀ s, EntryEnd s → Takes item (print a) a s) (done : Array α)
    (hdone : done.size + items.length ≤ 127) :
    Rounds (entryRound list item) done (items.flatMap fun a => comma :: print a) (done ++ items)
      (bracket :: s) := by
  induction items generalizing done with
  | nil =>
      have hstop : Rounds (entryRound list item) done [] done (bracket :: s) :=
        .stopWhenNext (by simp [hbracket])
      simpa using hstop
  | cons a items ih =>
      simp only [List.length_cons] at hdone
      have hround : Takes (Reader.entry list item done.size >>= fun a =>
          Pure.pure (some (done.push a))) (print a) (some (done.push a))
          (items.flatMap (fun a => comma :: print a) ++ bracket :: s) :=
        bindPure (fun a => some (done.push a)) (entry (by omega)
          (hitem a (by simp) _ (entryEnd_flatMap hcomma hbracket items s)))
      have hrest : Rounds (entryRound list item) (done.push a)
          (items.flatMap fun a => comma :: print a) (done.push a ++ items) (bracket :: s) :=
        ih (fun a' ha' => hitem a' (by simp [ha'])) (done.push a) (by simp; omega)
      have hmore : Rounds (entryRound list item) done
          (comma :: (print a ++ items.flatMap fun a => comma :: print a)) (done.push a ++ items)
          (bracket :: s) :=
        .moreWhenNext (by simp [hcomma]) hround hrest
      simpa using hmore

theorem closeEntries {list : ListKind} {bracket : Token} {s : List Token}
    (hbracket : bracket.kind = .rightBracket) (items : List α) :
    Takes (Reader.expect .rightBracket (.listUnclosed list) >>= fun bracket =>
      Pure.pure (items, bracket)) [bracket] (items, bracket) s :=
  expectThen hbracket (pure (items, bracket) s)

theorem noEntries {list : ListKind} {bracket : Token} {s : List Token}
    (hbracket : bracket.kind = .rightBracket) :
    Takes (entries list item) [bracket] ([], bracket) s := by
  have hopen : Takes (openEntries list item) [] #[] (bracket :: s) := by
    refine nextIsThen ?_
    simpa [hbracket] using pure #[] (bracket :: s)
  rw [entries_eq]
  exact bind (w := []) hopen (closeEntries hbracket [])

/-- Entries with commas between them, and the bracket that closes them. -/
theorem someEntries {list : ListKind} {first : α} {items : List α} {comma bracket : Token}
    {s : List Token} (hcomma : comma.kind = .comma) (hbracket : bracket.kind = .rightBracket)
    (hhead : ∃ t w, print first = t :: w ∧ t.kind ≠ .rightBracket)
    (hitem : ∀ a ∈ first :: items, ∀ s, EntryEnd s → Takes item (print a) a s)
    (hlength : (first :: items).length ≤ 127) :
    Takes (entries list item)
      (print first ++ (items.flatMap (fun a => comma :: print a) ++ [bracket]))
      (first :: items, bracket) s := by
  obtain ⟨hfirst, hitems⟩ := List.forall_mem_cons.mp hitem
  have hopen : Takes (openEntries list item)
      (print first ++ items.flatMap (fun a => comma :: print a)) (#[first] ++ items)
      (bracket :: s) := by
    obtain ⟨t, w, hprint, hkind⟩ := hhead
    refine nextIsThen ?_
    simp only [hprint, List.cons_append, List.head?_cons, Option.any_some, hkind, decide_false,
      Bool.false_eq_true, if_false]
    rw [← List.cons_append, ← hprint]
    refine bind (entry (by omega) (hfirst _ (entryEnd_flatMap hcomma hbracket items s))) ?_
    exact (entryRounds hcomma hbracket hitems #[first] (by
      simpa [Nat.add_comm] using hlength)).loop
  have hall : first :: items = (#[first] ++ items).toList := by simp
  rw [entries_eq, ← List.append_assoc, hall]
  exact bind hopen (closeEntries hbracket (#[first] ++ items).toList)

end Takes

end Reader
end BracketScript
