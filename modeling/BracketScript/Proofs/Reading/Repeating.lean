import BracketScript.Proofs.Reading.Rounds
import BracketScript.Proofs.Reading.Taking

/-!
# Readings that can be repeated

A reader that has taken some tokens without a fault has looked at most one token
further.  So it takes the same tokens, and yields the same, wherever the token
behind them is of the same kind.  For most readers other kinds will do as well:
those that would not go on the text, such as a closing bracket behind an
expression.

`Repeats ends p q` says that `q` takes what `p` has taken, before a token of the
same kind or of one of the kinds in `ends`, where `none` is the end of the tokens.
The two readers may differ: later `q` is `p` with more levels to open.
-/

namespace BracketScript
namespace Reader

variable {α β : Type} {ends : Option Kind → Prop}

/-- The kind of the first token, if there is one. -/
def frontKind (s : List Token) : Option Kind :=
  s.head?.map Token.kind

/-- The second tokens begin with the same kind as the first, or with one of
`ends`. -/
def Resumes (ends : Option Kind → Prop) (s s' : List Token) : Prop :=
  frontKind s' = frontKind s ∨ ends (frontKind s')

/-- No other kinds than the same. -/
abbrev noOther : Option Kind → Prop :=
  fun _ => False

namespace Resumes

variable {s s' : List Token}

theorem refl (s : List Token) : Resumes ends s s :=
  Or.inl rfl

theorem append (h : Resumes ends s s') (w : List Token) : Resumes ends (w ++ s) (w ++ s') := by
  cases w with
  | nil => exact h
  | cons t w => exact Or.inl rfl

/-- A token in front makes the two begin alike, whatever comes behind it. -/
theorem cons (t : Token) (s s' : List Token) : Resumes ends (t :: s) (t :: s') :=
  Or.inl rfl

theorem frontKind_eq (h : Resumes noOther s s') : frontKind s' = frontKind s :=
  h.resolve_right id

/-- Who finds none of some kinds in front finds none of them later. -/
theorem decline {kinds : List Kind} (h : Resumes ends s s')
    (hends : ∀ kind ∈ kinds, ¬ends (some kind)) (hs : ∀ t ∈ s.head?, t.kind ∉ kinds) :
    ∀ t ∈ s'.head?, t.kind ∉ kinds := by
  intro t ht hkind
  have hfront : frontKind s' = some t.kind := by rw [frontKind, Option.mem_def.mp ht, Option.map_some]
  rcases h with h | h
  · obtain ⟨u, hu, hsame⟩ := Option.map_eq_some_iff.mp (h.symm.trans hfront)
    exact hs u hu (hsame ▸ hkind)
  · exact hends t.kind hkind (hfront ▸ h)

end Resumes

/-- An expected token that was found has been taken. -/
theorem expect_eq_some {kind : Kind} {fault : SyntaxFault} {c c' : Cursor} {t : Token}
    (h : expect kind fault c = (some t, c')) :
    t.kind = kind ∧ c.rest = t :: c'.rest ∧ c' = { c with rest := c'.rest } := by
  unfold expect at h
  rcases bind_cases (accept? [kind]) _ c with ⟨o, d, hd, hbind⟩ | ⟨d, hd, hbind⟩
  · rw [hbind] at h
    cases o with
    | none => simp [Reader.fail] at h
    | some u =>
        simp only [pure_apply, Prod.mk.injEq, Option.some.injEq] at h
        obtain ⟨rfl, rfl⟩ := h
        obtain ⟨hkind, hrest⟩ := accept?_eq_some hd
        exact ⟨by simpa using hkind, hrest⟩
  · rw [hbind] at h
    simp at h

/-- What `p` reads without a fault is read by `q` too, before whatever resumes
the tokens in the same way. -/
def Repeats (ends : Option Kind → Prop) (p q : Reader α) : Prop :=
  ∀ c a c', p c = (some a, c') → c.errors.size ≤ c'.errors.size ∧
    (c'.errors.size = c.errors.size → ∃ w, c.rest = w ++ c'.rest ∧
      ∀ s, Resumes ends c'.rest s → Takes q w a s)

namespace Repeats

variable {p q : Reader α}

theorem pure (a : α) : Repeats ends (pure a) (pure a) := by
  intro c b c' hc
  simp only [pure_apply, Prod.mk.injEq, Option.some.injEq] at hc
  obtain ⟨rfl, rfl⟩ := hc
  exact ⟨Nat.le_refl _, fun _ => ⟨[], rfl, fun s _ => .pure a s⟩⟩

/-- A reader that gives up reads nothing that could be asked of another. -/
theorem fail (fault : SyntaxFault) (q : Reader α) : Repeats ends (fail fault) q := by
  intro c a c' hc
  simp [Reader.fail] at hc

/-- Nor does one that notes a fault. -/
theorem reportThen (t : Token) (fault : SyntaxFault) {k : Unit → Reader α} {r : Reader α}
    (hk : Repeats ends (k ()) r) (q : Reader α) : Repeats ends (report t fault >>= k) q := by
  intro c a c' hc
  obtain ⟨hle, -⟩ := hk (c.note t fault) a c' hc
  have hnoted : (c.note t fault).errors.size = c.errors.size + 1 := by simp [Cursor.note]
  exact ⟨by omega, fun hquiet => by omega⟩

theorem mono {more : Option Kind → Prop} (hp : Repeats more p q) (h : ∀ o, ends o → more o) :
    Repeats ends p q := by
  intro c a c' hc
  obtain ⟨hle, hquiet⟩ := hp c a c' hc
  refine ⟨hle, fun heq => ?_⟩
  obtain ⟨w, hw, htakes⟩ := hquiet heq
  exact ⟨w, hw, fun s hs => htakes s (hs.imp_right (h _))⟩

/-- Before the same kind of token, whatever else would do. -/
theorem noOther (hp : Repeats ends p q) : Repeats noOther p q :=
  hp.mono fun _ => False.elim

theorem bind {k l : α → Reader β} (hp : Repeats ends p q) (hk : ∀ a, Repeats ends (k a) (l a)) :
    Repeats ends (p >>= k) (q >>= l) := by
  intro c b c' hc
  rcases bind_cases p k c with ⟨a, d, hd, hbind⟩ | ⟨d, hd, hbind⟩
  · rw [hbind] at hc
    obtain ⟨hle₁, hquiet₁⟩ := hp c a d hd
    obtain ⟨hle₂, hquiet₂⟩ := hk a d b c' hc
    refine ⟨Nat.le_trans hle₁ hle₂, fun heq => ?_⟩
    obtain ⟨w₁, hw₁, htakes₁⟩ := hquiet₁ (by omega)
    obtain ⟨w₂, hw₂, htakes₂⟩ := hquiet₂ (by omega)
    refine ⟨w₁ ++ w₂, by rw [hw₁, hw₂, List.append_assoc], fun s hs => ?_⟩
    refine .bind (htakes₁ (w₂ ++ s) ?_) (htakes₂ s hs)
    rw [hw₂]
    exact hs.append w₂
  · rw [hbind] at hc
    simp at hc

theorem map (g : α → β) (hp : Repeats ends p q) : Repeats ends (g <$> p) (g <$> q) :=
  bind hp fun a => pure (g a)

theorem noteLoopThen {k l : Unit → Reader β} (line line' : Nat)
    (hk : Repeats ends (k ()) (l ())) :
    Repeats ends (noteLoop line >>= k) (noteLoop line' >>= l) := by
  intro c b c' hc
  obtain ⟨hle, hquiet⟩ := hk { c with loops := c.loops.push line } b c' hc
  refine ⟨hle, fun heq => ?_⟩
  obtain ⟨w, hw, htakes⟩ := hquiet heq
  exact ⟨w, hw, fun s hs => .noteLoopThen (htakes s hs)⟩

theorem acceptThen {kinds : List Kind} {k l : Option Token → Reader β}
    (hends : ∀ kind ∈ kinds, ¬ends (some kind)) (hnone : Repeats ends (k none) (l none))
    (hsome : ∀ t, t.kind ∈ kinds → Repeats ends (k (some t)) (l (some t))) :
    Repeats ends (accept? kinds >>= k) (accept? kinds >>= l) := by
  intro c b c' hc
  rcases bind_cases (accept? kinds) k c with ⟨o, d, hd, hbind⟩ | ⟨d, hd, hbind⟩
  · rw [hbind] at hc
    cases o with
    | none =>
        obtain ⟨rfl, hnext⟩ := accept?_eq_none hd
        obtain ⟨hle, hquiet⟩ := hnone d b c' hc
        refine ⟨hle, fun heq => ?_⟩
        obtain ⟨w, hw, htakes⟩ := hquiet heq
        refine ⟨w, hw, fun s hs => .declineThen ?_ (htakes s hs)⟩
        rw [hw] at hnext
        exact (hs.append w).decline hends hnext
    | some t =>
        obtain ⟨hkind, hrest, hd'⟩ := accept?_eq_some hd
        have herrors : d.errors = c.errors := by rw [hd']
        obtain ⟨hle, hquiet⟩ := hsome t hkind d b c' hc
        rw [herrors] at hle hquiet
        refine ⟨hle, fun heq => ?_⟩
        obtain ⟨w, hw, htakes⟩ := hquiet heq
        exact ⟨t :: w, by rw [hrest, hw, List.cons_append], fun s hs =>
          .acceptThen hkind (htakes s hs)⟩
  · rw [hbind] at hc
    simp at hc

/-- The reader before an expected token need not know what resumes the text, for
it has the expected token behind it. -/
theorem thenExpect {kind : Kind} {fault : SyntaxFault} {k l : α → Token → Reader β}
    (hp : Repeats Reader.noOther p q) (hk : ∀ a t, t.kind = kind → Repeats ends (k a t) (l a t)) :
    Repeats ends (p >>= fun a => expect kind fault >>= k a)
      (q >>= fun a => expect kind fault >>= l a) := by
  intro c b c' hc
  rcases bind_cases p (fun a => expect kind fault >>= k a) c with
    ⟨a, d, hd, hbind⟩ | ⟨d, hd, hbind⟩
  · rw [hbind] at hc
    rcases bind_cases (expect kind fault) (k a) d with ⟨t, e, he, hbind'⟩ | ⟨e, he, hbind'⟩
    · rw [hbind'] at hc
      obtain ⟨hkind, hrest, he'⟩ := expect_eq_some he
      have herrors : e.errors = d.errors := by rw [he']
      obtain ⟨hle₁, hquiet₁⟩ := hp c a d hd
      obtain ⟨hle₂, hquiet₂⟩ := hk a t hkind e b c' hc
      rw [herrors] at hle₂ hquiet₂
      refine ⟨Nat.le_trans hle₁ hle₂, fun heq => ?_⟩
      obtain ⟨w₁, hw₁, htakes₁⟩ := hquiet₁ (by omega)
      obtain ⟨w₂, hw₂, htakes₂⟩ := hquiet₂ (by omega)
      refine ⟨w₁ ++ t :: w₂, by rw [hw₁, hrest, hw₂]; simp, fun s hs => ?_⟩
      refine .bind (htakes₁ (t :: w₂ ++ s) ?_) (.expectThen hkind (htakes₂ s hs))
      rw [hrest]
      exact .cons t _ _
    · rw [hbind'] at hc
      simp at hc
  · rw [hbind] at hc
    simp at hc

theorem expectThen {kind : Kind} {fault : SyntaxFault} {k l : Token → Reader β}
    (hk : ∀ t, t.kind = kind → Repeats ends (k t) (l t)) :
    Repeats ends (expect kind fault >>= k) (expect kind fault >>= l) :=
  thenExpect (pure ()) fun _ => hk

theorem expect (kind : Kind) (fault : SyntaxFault) :
    Repeats ends (expect kind fault) (expect kind fault) := by
  have h : Repeats ends (Reader.expect kind fault >>= Pure.pure)
      (Reader.expect kind fault >>= Pure.pure) := expectThen fun t _ => pure t
  rwa [bind_pure] at h

theorem nextIsThen {kind : Kind} {k l : Bool → Reader β}
    (hk : ∀ next, Repeats Reader.noOther (k next) (l next)) :
    Repeats Reader.noOther (nextIs kind >>= k) (nextIs kind >>= l) := by
  intro c b c' hc
  obtain ⟨hle, hquiet⟩ := hk _ c b c' hc
  refine ⟨hle, fun heq => ?_⟩
  obtain ⟨w, hw, htakes⟩ := hquiet heq
  refine ⟨w, hw, fun s hs => .nextIsThen ?_⟩
  have hany (u : List Token) : (u.head?.any fun t => decide (t.kind = kind)) =
      (frontKind u).any fun k => decide (k = kind) := by
    rw [frontKind, Option.any_map]
  have hsame : ((w ++ s).head?.any fun t => decide (t.kind = kind)) =
      c.rest.head?.any fun t => decide (t.kind = kind) := by
    rw [hany, hany, hw, (hs.append w).frontKind_eq]
  rw [hsame]
  exact htakes s hs

theorem atEndThen {k l : Bool → Reader β} (hk : ∀ ends, Repeats Reader.noOther (k ends) (l ends)) :
    Repeats Reader.noOther (atEnd >>= k) (atEnd >>= l) := by
  intro c b c' hc
  obtain ⟨hle, hquiet⟩ := hk _ c b c' hc
  refine ⟨hle, fun heq => ?_⟩
  obtain ⟨w, hw, htakes⟩ := hquiet heq
  refine ⟨w, hw, fun s hs => .atEndThen ?_⟩
  have hempty (u : List Token) : u.isEmpty = (frontKind u).isNone := by
    cases u <;> rfl
  have hsame : (w ++ s).isEmpty = c.rest.isEmpty := by
    rw [hempty, hempty, hw, (hs.append w).frontKind_eq]
  rw [hsame]
  exact htakes s hs

/-! ### Loops -/

/-- A loop whose rounds stop at the end, and take a token when they go on. -/
theorem loop {step step' : α → Reader (Option α)} (hstep : ∀ a, Repeats ends (step a) (step' a))
    (hstops : Stops step)
    (hadvances : ∀ a c a' c', step a c = (some (some a'), c') →
      c'.errors.size = c.errors.size → c'.rest.length < c.rest.length) (a : α) :
    Repeats ends (loop step a) (loop step' a) := by
  -- The rounds that are left are enough for the tokens that are left.
  have within (n : Nat) : ∀ a c b c', loopWithin step n a c = (some b, c') →
      c.errors.size ≤ c'.errors.size ∧ (c.rest.length ≤ n → c'.errors.size = c.errors.size →
        ∃ w, c.rest = w ++ c'.rest ∧ ∀ s, Resumes ends c'.rest s → Rounds step' a w b s) := by
    induction n with
    | zero =>
        intro a c b c' hc
        rw [loopWithin_zero, Prod.mk.injEq, Option.some.injEq] at hc
        obtain ⟨rfl, rfl⟩ := hc
        refine ⟨Nat.le_refl _, fun hlength _ => ⟨[], rfl, fun s hs => ?_⟩⟩
        have hrest : c.rest = [] := List.eq_nil_of_length_eq_zero (Nat.le_zero.mp hlength)
        obtain ⟨w, hw, htakes⟩ := (hstep a c _ c (hstops a c hrest)).2 rfl
        obtain rfl : w = [] := by simpa using hw
        exact .stop (htakes s hs)
    | succ n ih =>
        intro a c b c' hc
        rcases step_cases step a c with ⟨a', d, hd⟩ | ⟨d, hd⟩ | ⟨d, hd⟩
        · rw [loopWithin_of_more hd] at hc
          obtain ⟨hle₁, hquiet₁⟩ := hstep a c _ d hd
          obtain ⟨hle₂, hquiet₂⟩ := ih a' d b c' hc
          refine ⟨Nat.le_trans hle₁ hle₂, fun hlength heq => ?_⟩
          have hlt := hadvances a c a' d hd (by omega)
          obtain ⟨w₁, hw₁, htakes⟩ := hquiet₁ (by omega)
          obtain ⟨w₂, hw₂, hrounds⟩ := hquiet₂ (by omega) (by omega)
          have hne : w₁ ≠ [] := by
            rintro rfl
            rw [hw₁] at hlt
            exact Nat.lt_irrefl _ hlt
          refine ⟨w₁ ++ w₂, by rw [hw₁, hw₂, List.append_assoc], fun s hs => ?_⟩
          refine .more hne (htakes (w₂ ++ s) ?_) (hrounds s hs)
          rw [hw₂]
          exact hs.append w₂
        · rw [loopWithin_of_stop hd, Prod.mk.injEq, Option.some.injEq] at hc
          obtain ⟨rfl, rfl⟩ := hc
          obtain ⟨hle, hquiet⟩ := hstep a c _ d hd
          refine ⟨hle, fun _ heq => ?_⟩
          obtain ⟨w, hw, htakes⟩ := hquiet heq
          exact ⟨w, hw, fun s hs => .stop (htakes s hs)⟩
        · rw [loopWithin_of_fail hd] at hc
          simp at hc
  intro c b c' hc
  obtain ⟨hle, hquiet⟩ := within c.rest.length a c b c' hc
  refine ⟨hle, fun heq => ?_⟩
  obtain ⟨w, hw, hrounds⟩ := hquiet (Nat.le_refl _) heq
  exact ⟨w, hw, fun s hs => (hrounds s hs).loop⟩

theorem whenNext {kinds : List Kind} {k l : Token → Reader (Option α)}
    (hends : ∀ kind ∈ kinds, ¬ends (some kind))
    (hk : ∀ t, t.kind ∈ kinds → Repeats ends (k t) (l t)) :
    Repeats ends (whenNext kinds k) (whenNext kinds l) :=
  acceptThen hends (pure none) hk

theorem loopWhenNext {kinds : List Kind} {k l : α → Token → Reader (Option α)}
    (hends : ∀ kind ∈ kinds, ¬ends (some kind))
    (hk : ∀ a t, t.kind ∈ kinds → Repeats ends (k a t) (l a t)) (a : α) :
    Repeats ends (Reader.loop (fun a => Reader.whenNext kinds (k a)) a)
      (Reader.loop (fun a => Reader.whenNext kinds (l a)) a) := by
  refine loop (fun a => whenNext hends (hk a)) stops_whenNext ?_ a
  intro a c a' c' h heq
  obtain ⟨t, d, hd, hmore⟩ := whenNext_eq_more h
  obtain ⟨hkind, hrest, hd'⟩ := accept?_eq_some hd
  obtain ⟨-, hquiet⟩ := hk a t hkind d _ c' hmore
  obtain ⟨w, hw, -⟩ := hquiet (by rw [heq, hd'])
  rw [hrest, hw, List.length_cons, List.length_append]
  omega

theorem untilBracket (hp : Repeats Reader.noOther p q) (hconsumes : Consumes p) :
    Repeats Reader.noOther (untilBracket p) (untilBracket q) := by
  have hround (items : Array α) : Repeats Reader.noOther (itemRound p items) (itemRound q items) := by
    refine nextIsThen fun closes => ?_
    cases closes with
    | true => exact pure none
    | false =>
        refine atEndThen fun ends => ?_
        cases ends with
        | true => exact pure none
        | false => exact bind hp fun item => pure (some (items.push item))
  rw [untilBracket_eq, untilBracket_eq]
  refine bind (loop hround stops_itemRound ?_ #[]) fun items => pure items.toList
  exact fun items c items' c' h _ => advances_itemRound hconsumes items c items' c' h

theorem entry (list : ListKind) (hp : Repeats ends p q) (count : Nat) :
    Repeats ends (entry list p count) (entry list q count) := by
  unfold Reader.entry
  by_cases hcount : maxEntries ≤ count
  · simp only [hcount, if_true]
    intro c
    exact reportThen (k := fun _ => p) c.peek (.listTooLong list) hp _ c
  · simp only [hcount, if_false]
    exact hp

theorem entries (list : ListKind) (hp : Repeats Reader.noOther p q) :
    Repeats ends (entries list p) (entries list q) := by
  have hsome : Repeats Reader.noOther (someEntries list p) (someEntries list q) := by
    refine bind (entry list hp 0) fun first => ?_
    refine loopWhenNext (fun _ _ => id) (fun items _ _ => ?_) #[first]
    exact bind (entry list hp items.size) fun item => pure (some (items.push item))
  have hopen : Repeats Reader.noOther (openEntries list p) (openEntries list q) := by
    refine nextIsThen fun closes => ?_
    cases closes with
    | true => exact pure #[]
    | false => exact hsome
  rw [entries_eq, entries_eq]
  exact thenExpect hopen fun items bracket _ => pure (items.toList, bracket)

end Repeats
end Reader
end BracketScript
