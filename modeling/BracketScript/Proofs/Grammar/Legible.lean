import BracketScript.Proofs.Grammar.Printer
import BracketScript.Proofs.Reading.Taking

/-!
# Printed expressions read back

Reading the printed tokens of an expression gives the expression, in every place
that it fits.

The readers of operators, calls and attributes go on as long as they can, so the
statement about an expression is about the tokens behind it too: none of them
may go on with the expression (`Follow`).  And since the left operand of an
operator is what the loop has read when it comes to the operator, the statement
is one about loops that resume with the expression (`Legible.resumes`).

Functions and structs are left to the module about statements.
-/

namespace BracketScript
namespace Grammar

open Reader

/-- The reader of a place. -/
def Place.reader (inner : Inner) : Place → Reader Expr
  | .expression => Grammar.assignment inner
  | .assignable => Grammar.assignable inner
  | .disjunction => Grammar.disjunction inner
  | .conjunction => Grammar.conjunction inner
  | .equality => Grammar.equality inner
  | .comparison => Grammar.comparison inner
  | .bitwise => Grammar.bitwise inner
  | .term => Grammar.term inner
  | .factor => Grammar.factor inner
  | .unary => Grammar.unary inner
  | .call => Grammar.call inner
  | .primary => Grammar.primary inner

/-- The places whose readers are loops. -/
def Place.Loops : Place → Prop
  | .expression | .assignable | .unary | .primary => False
  | _ => True

/-- One round of the loop of a place. -/
def Place.round (inner : Inner) : Place → Expr → Reader (Option Expr)
  | .call => callRound inner
  | p => operatorRound p.node p.operators (p.tighter.reader inner)

/-- The tokens with which the reader of a place goes on. -/
def Place.suffixes : Place → List Kind
  | .expression => [.walrus]
  | .call => [.leftBracket, .identifier]
  | p => p.operators

/-- The tokens with which an expression begins that stands in the place. -/
def Place.starts : Place → List Kind
  | .expression | .assignable =>
    [.structKw, .funcKw, .bang, .minus, .bitNeg, .trueKw, .falseKw, .nullKw, .num, .str, .selfKw,
      .identifier, .underscore, .leftBracket]
  | .call | .primary =>
    [.trueKw, .falseKw, .nullKw, .num, .str, .selfKw, .identifier, .underscore, .leftBracket]
  | _ =>
    [.bang, .minus, .bitNeg, .trueKw, .falseKw, .nullKw, .num, .str, .selfKw, .identifier,
      .underscore, .leftBracket]

theorem Place.reader_eq_loop (inner : Inner) {p : Place} (hp : p.Loops) :
    p.reader inner = p.tighter.reader inner >>= loop (p.round inner) := by
  cases p with
  | expression | assignable | unary | primary => exact hp.elim
  | call => exact call_eq inner
  | _ => rfl

/-- A round begins with one of the tokens with which the place goes on. -/
theorem Place.exists_round_eq (inner : Inner) {p : Place} (hp : p.Loops) :
    ∃ k : Expr → Token → Reader (Option Expr),
      p.round inner = fun e => whenNext p.suffixes (k e) := by
  cases p with
  | expression | assignable | unary | primary => exact hp.elim
  | _ => exact ⟨_, rfl⟩

theorem Place.rank_tighter {p : Place} (hp : p ≠ .primary) : p.tighter.rank = p.rank + 1 := by
  cases p <;> first | rfl | exact absurd rfl hp

theorem Place.rank_injective {p q : Place} (h : p.rank = q.rank) : p = q := by
  cases p <;> cases q <;> first | rfl | simp [Place.rank] at h

theorem Place.starts_tighter (p : Place) : ∀ kind ∈ p.tighter.starts, kind ∈ p.starts := by
  cases p <;> decide

theorem operatorPlace_eq {p : Place} {kind : Kind} (h : kind ∈ p.operators) :
    operatorPlace kind = p := by
  cases p <;> simp only [Place.operators, List.mem_cons, List.not_mem_nil, or_false] at h <;>
    rcases h with rfl | rfl | rfl | rfl <;> rfl

/-- Nothing behind an expression in the given place belongs to it. -/
def Follow (p : Place) (s : List Token) : Prop :=
  ∀ t ∈ s.head?, ∀ q : Place, p.rank ≤ q.rank → t.kind ∉ q.suffixes

theorem Follow.tighter {p : Place} {s : List Token} (h : Follow p s) : Follow p.tighter s := by
  intro t ht q hq
  refine h t ht q (Nat.le_trans ?_ hq)
  cases p <;> decide

theorem Follow.notMem {p : Place} {s : List Token} (h : Follow p s) :
    ∀ t ∈ s.head?, t.kind ∉ p.suffixes :=
  fun t ht => h t ht p (Nat.le_refl _)

/-- Signs that end an expression in any place. -/
theorem follow_of_end {p : Place} {t : Token} {s : List Token}
    (h : t.kind ∈ [Kind.rightBracket, .comma, .semicolon, .arrow]) : Follow p (t :: s) := by
  rintro u hu q -
  have hu : t = u := by simpa using hu
  rw [← hu]
  generalize t.kind = kind at h
  revert kind
  cases q <;> decide

theorem follow_walrus {t : Token} {s : List Token} (h : t.kind = .walrus) :
    Follow .assignable (t :: s) := by
  intro u hu q hq
  have hu : t = u := by simpa using hu
  rw [← hu, h]
  revert hq
  cases q <;> decide

/-- An operator ends what stands tighter. -/
theorem follow_operator {p : Place} {t : Token} {s : List Token} (h : t.kind ∈ p.operators) :
    Follow p.tighter (t :: s) := by
  intro u hu q hq hmem
  have hu : t = u := by simpa using hu
  rw [← hu] at hmem
  generalize t.kind = kind at h hmem
  have hp : p ≠ .primary := by
    rintro rfl
    simp [Place.operators] at h
  have hoperator : kind ∈ q.operators := by
    have hplace := operatorPlace_eq h
    cases q with
    | expression | call =>
        exfalso
        simp only [Place.suffixes, List.mem_cons, List.not_mem_nil, or_false] at hmem
        rcases hmem with rfl | rfl <;> subst hplace <;> simp [operatorPlace, Place.operators] at h
    | _ => exact hmem
  -- Both places are that of the operator.
  have hsame : p = q := (operatorPlace_eq h).symm.trans (operatorPlace_eq hoperator)
  rw [← hsame, Place.rank_tighter hp] at hq
  omega

/-- The tokens read as the expression in the given place. -/
structure Legible (inner : Inner) (p : Place) (e : Expr) (w : List Token) : Prop where
  reads (s : List Token) (h : Follow p s) : Takes (p.reader inner) w e s
  /-- The loop of the place comes to the expression, and goes on from there. -/
  resumes (hp : p.Loops) (w' : List Token) (b : Expr) (s : List Token)
    (h : Follow p.tighter (w' ++ s)) (hrounds : Rounds (p.round inner) e w' b s) :
    Takes (p.reader inner) (w ++ w') b s

namespace Legible

variable {inner : Inner} {p : Place} {e : Expr} {w : List Token}

/-- In a place with a loop, the loop is all there is. -/
theorem of_resumes (hp : p.Loops)
    (hresumes : ∀ w' b s, Follow p.tighter (w' ++ s) → Rounds (p.round inner) e w' b s →
      Takes (p.reader inner) (w ++ w') b s) : Legible inner p e w := by
  refine ⟨fun s h => ?_, fun _ => hresumes⟩
  obtain ⟨k, hk⟩ := Place.exists_round_eq inner hp
  have hstop : Rounds (p.round inner) e [] e s := by
    rw [hk]
    exact .stopWhenNext h.notMem
  simpa using hresumes [] e s (by simpa using h.tighter) hstop

/-- In a place without a loop there is nothing to resume. -/
theorem of_reads (hp : ¬ p.Loops) (hreads : ∀ s, Follow p s → Takes (p.reader inner) w e s) :
    Legible inner p e w :=
  ⟨hreads, fun h => absurd h hp⟩

/-- What reads in a place reads in the next looser one. -/
theorem looser (h : Legible inner p.tighter e w)
    (hstart : ∃ t u, w = t :: u ∧ t.kind ∈ p.tighter.starts) : Legible inner p e w := by
  obtain ⟨t, u, rfl, hkind⟩ := hstart
  have hdecline {kinds : List Kind} {s : List Token}
      (hkinds : ∀ kind ∈ p.tighter.starts, kind ∉ kinds) :
      ∀ v ∈ (t :: u ++ s).head?, v.kind ∉ kinds := by
    simpa using hkinds t.kind hkind
  by_cases hloops : p.Loops
  · refine of_resumes hloops fun w' b s hfollow hrounds => ?_
    rw [Place.reader_eq_loop inner hloops]
    exact .bind (h.reads _ hfollow) hrounds.loop
  · refine of_reads hloops fun s hfollow => ?_
    cases p with
    | expression =>
        have hvalue : Takes (assignment inner) (t :: u ++ []) e s :=
          .bind (h.reads s hfollow.tighter) (.declineThen hfollow.notMem (.pure e s))
        rw [List.append_nil] at hvalue
        exact hvalue
    | primary => exact h.reads s hfollow
    | assignable => exact .declineThen (hdecline (by decide)) (h.reads s hfollow.tighter)
    | unary => exact .declineThen (hdecline (by decide)) (h.reads s hfollow.tighter)
    | _ => exact absurd trivial hloops

end Legible

/-- An expression stands in its own place, or in a tighter place than the given
one. -/
theorem fits_cases {e : Expr} {p : Place} (h : e.Fits p) : e.place = p ∨ e.Fits p.tighter := by
  unfold Expr.Fits at h ⊢
  by_cases heq : p.rank = e.place.rank
  · exact Or.inl (Place.rank_injective heq.symm)
  · have hp : p ≠ .primary := by
      rintro rfl
      cases hplace : e.place <;> simp [hplace, Place.rank] at h heq
    rw [Place.rank_tighter hp]
    exact Or.inr (by omega)

/-- Going from the place of an expression to looser ones. -/
theorem fits_induction {e : Expr} {motive : Place → Prop} (hplace : motive e.place)
    (hlooser : ∀ p, e.Fits p.tighter → motive p.tighter → motive p) (p : Place) (h : e.Fits p) :
    motive p := by
  generalize hn : e.place.rank - p.rank = n
  induction n generalizing p with
  | zero =>
      unfold Expr.Fits at h
      have hrank : e.place.rank = p.rank := by omega
      exact Place.rank_injective hrank ▸ hplace
  | succ n ih =>
      rcases fits_cases h with heq | htighter
      · exact heq ▸ hplace
      · refine hlooser p htighter (ih p.tighter htighter ?_)
        have hp : p ≠ .primary := by
          rintro rfl
          cases hplace : e.place <;> simp [hplace, Place.rank] at hn
        rw [Place.rank_tighter hp]
        omega

theorem starts_of_fits {e : Expr} {p : Place} (h : e.Fits p) {kind : Kind}
    (hkind : kind ∈ e.place.starts) : kind ∈ p.starts :=
  fits_induction (motive := fun p => kind ∈ p.starts) hkind
    (fun p _ htighter => p.starts_tighter kind htighter) p h

/-- The first token of a printed expression is one that its place can begin
with. -/
theorem print_head : ∀ e : Expr, e.EveryNode printable →
    ∃ t w, e.print = t :: w ∧ t.kind ∈ e.place.starts
  | .literal value, _ => by
      refine ⟨value.print, [], rfl, ?_⟩
      rcases value with _ | (_ | _) | _ | _ <;>
        simp [Constant.print, mark, Expr.place, Place.starts]
  | .variable t, h => by
      refine ⟨t, [], rfl, ?_⟩
      rcases h.1 with hkind | hkind <;> simp [hkind, Expr.place, Place.starts]
  | .assign (.variable t) _, h => by
      refine ⟨t, _, rfl, ?_⟩
      rcases h.1.1 with hkind | hkind <;> simp [hkind, Expr.place, Place.starts]
  | .assign (.selfField keyword t) _, h => by
      refine ⟨keyword, _, rfl, ?_⟩
      simp [h.1.1.1, Expr.place, Place.starts]
  | .binary left op right, h => by
      obtain ⟨t, w, hprint, hkind⟩ := print_head left h.2.1
      exact ⟨t, _, by rw [Expr.print, hprint]; rfl, starts_of_fits h.1.2.left hkind⟩
  | .logical left op right, h => by
      obtain ⟨t, w, hprint, hkind⟩ := print_head left h.2.1
      exact ⟨t, _, by rw [Expr.print, hprint]; rfl, starts_of_fits h.1.2.left hkind⟩
  | .unary op right, h => by
      refine ⟨op, _, rfl, ?_⟩
      have hop : op.kind ∈ [Kind.bang, .minus, .bitNeg] := h.1.2.1
      simp only [List.mem_cons, List.not_mem_nil, or_false] at hop
      rcases hop with hkind | hkind | hkind <;> simp [hkind, Expr.place, Place.starts]
  | .grouping e, _ => ⟨_, _, rfl, by simp [mark, Expr.place, Place.starts]⟩
  | .call callee bracket args, h => by
      obtain ⟨t, w, hprint, hkind⟩ := print_head callee h.2.1
      exact ⟨t, _, by rw [Expr.print, hprint]; rfl, starts_of_fits h.1.2.2 hkind⟩
  | .attribute object t, h => by
      obtain ⟨t, w, hprint, hkind⟩ := print_head object h.2
      exact ⟨t, _, by rw [Expr.print, hprint]; rfl, starts_of_fits h.1.2 hkind⟩
  | .selfRef keyword, h => by
      refine ⟨keyword, [], rfl, ?_⟩
      have hkind : keyword.kind = .selfKw := h.1
      simp [hkind, Expr.place, Place.starts]
  | .func keyword params body, h => by
      refine ⟨keyword, _, rfl, ?_⟩
      simp [h.1.2.1, Expr.place, Place.starts]
  | .struct keyword params body, h => by
      have hkind : keyword.kind ∈ Place.assignable.starts := by simp [h.1.2.1, Place.starts]
      cases body with
      | nil => exact ⟨keyword, _, rfl, hkind⟩
      | cons entry body => exact ⟨keyword, _, rfl, hkind⟩

/-- What reads in its own place reads in every place that it fits. -/
theorem legible_of_place {inner : Inner} {e : Expr} (hnodes : e.EveryNode printable)
    (h : Legible inner e.place e e.print) (p : Place) (hp : e.Fits p) :
    Legible inner p e e.print := by
  refine fits_induction (motive := fun p => Legible inner p e e.print) h
    (fun p hfits htighter => htighter.looser ?_) p hp
  obtain ⟨t, w, hprint, hkind⟩ := print_head e hnodes
  exact ⟨t, w, hprint, starts_of_fits hfits hkind⟩

/-! ### Expressions -/

/-- The expression, once printed, reads back wherever it fits. -/
def ExprReadsBack (e : Expr) : Prop :=
  e.EveryNode printable → ∀ d, e.levels ≤ d → ∀ p, e.Fits p → Legible (level d) p e e.print

namespace ExprReadsBack

variable {e : Expr} {d : Nat} {s : List Token}

theorem of_place (h : e.EveryNode printable → ∀ d, e.levels ≤ d →
    Legible (level d) e.place e e.print) : ExprReadsBack e :=
  fun hnodes d hd => legible_of_place hnodes (h hnodes d hd)

/-- As an expression of the next level. -/
theorem expression (h : ExprReadsBack e) (hnodes : e.EveryNode printable) (hd : e.levels + 1 ≤ d)
    (hfollow : Follow .expression s) : Takes (level d).expression e.print e s := by
  obtain ⟨d, rfl⟩ : ∃ n, d = n + 1 := ⟨d - 1, by omega⟩
  exact (h hnodes d (by omega) .expression (Nat.zero_le _)).reads s hfollow

/-- As an operand on the next level. -/
theorem operand (h : ExprReadsBack e) (hnodes : e.EveryNode printable) (hfits : e.Fits .unary)
    (hd : e.levels + 1 ≤ d) (hfollow : Follow .unary s) : Takes (level d).operand e.print e s := by
  obtain ⟨d, rfl⟩ : ∃ n, d = n + 1 := ⟨d - 1, by omega⟩
  exact (h hnodes d (by omega) .unary hfits).reads s hfollow

theorem assignable (h : ExprReadsBack e) (hnodes : e.EveryNode printable)
    (hfits : e.Fits .assignable) (hd : e.levels ≤ d) (hfollow : Follow .assignable s) :
    Takes (assignable (level d)) e.print e s :=
  (h hnodes d hd .assignable hfits).reads s hfollow

end ExprReadsBack

theorem commas_cons (w : List Token) (ws : List (List Token)) :
    commas (w :: ws) = w ++ ws.flatMap fun w => mark .comma "," :: w := by
  induction ws generalizing w with
  | nil => simp [commas]
  | cons w' ws ih =>
      have h := ih w'
      simp only [commas] at h ⊢
      simp [List.intersperse, h]

/-- Entries printed with commas between them read back. -/
theorem takes_entries {α : Type} {list : ListKind} {item : Reader α} {print : α → List Token}
    {items : List α} {bracket : Token} {s : List Token} (hbracket : bracket.kind = .rightBracket)
    (hhead : ∀ a ∈ items, ∃ t w, print a = t :: w ∧ t.kind ≠ .rightBracket)
    (hitem : ∀ a ∈ items, ∀ s, Takes.EntryEnd s → Takes item (print a) a s)
    (hlength : items.length ≤ 127) :
    Takes (entries list item) (commas (items.map print) ++ [bracket]) (items, bracket) s := by
  cases items with
  | nil => exact .noEntries hbracket
  | cons a items =>
      have htakes : Takes (entries list item)
          (print a ++ (items.flatMap (fun a => mark .comma "," :: print a) ++ [bracket]))
          (a :: items, bracket) s :=
        .someEntries rfl hbracket (hhead a (by simp)) hitem hlength
      simpa [commas_cons, List.flatMap_map] using htakes

/-- Names in brackets, and what comes behind them. -/
theorem takes_namesThen {β : Type} {list : ListKind} {fault fault' : SyntaxFault}
    {names : List Token} {k : List Token × Token → Reader β} {b : β} {w s : List Token}
    (hnames : ∀ t ∈ names, t.kind = .identifier) (hlength : names.length ≤ 127)
    (hk : Takes (k (names, mark .rightBracket "]")) w b s) :
    Takes (expect .leftBracket fault >>= fun _ =>
      entries list (expect .identifier fault') >>= k) (printNames names ++ w) b s := by
  have hentries : Takes (entries list (expect .identifier fault'))
      (commas (names.map fun t => [t]) ++ [mark .rightBracket "]"])
      (names, mark .rightBracket "]") (w ++ s) := by
    refine takes_entries rfl (fun t ht => ⟨t, [], rfl, ?_⟩) (fun t ht s _ => ?_) hlength
    · simp [hnames t ht]
    · exact .expect (hnames t ht)
  exact .expectThen rfl (.bind hentries hk)

theorem follow_of_entryEnd {p : Place} {s : List Token} (h : Takes.EntryEnd s) : Follow p s := by
  cases s with
  | nil => simp [Follow]
  | cons t s =>
      refine follow_of_end ?_
      rcases h t rfl with hkind | hkind <;> simp [hkind]

theorem follow_primary (s : List Token) : Follow .primary s := by
  intro t ht q hq
  cases q <;> simp [Place.rank] at hq
  simp [Place.suffixes, Place.operators]

theorem readsBack_literal (value : Constant) : ExprReadsBack (.literal value) := by
  refine .of_place fun _ d _ => .of_reads not_false fun s _ => ?_
  rcases value with _ | (_ | _) | x | text <;>
    exact .acceptThen (by simp [Constant.print, mark]) (.pure _ s)

theorem readsBack_variable (t : Token) : ExprReadsBack (.variable t) := by
  refine .of_place fun hnodes d _ => .of_reads not_false fun s _ => ?_
  rcases hnodes.1 with hkind | hkind <;>
  · refine .acceptThen (by simp [hkind]) ?_
    simp only [hkind]
    exact .pure _ s

theorem readsBack_selfRef (keyword : Token) : ExprReadsBack (.selfRef keyword) := by
  refine .of_place fun hnodes d _ => .of_reads not_false fun s _ => ?_
  have hkind : keyword.kind = .selfKw := hnodes.1
  refine .acceptThen (by simp [hkind]) ?_
  simp only [hkind]
  exact .pure _ s

theorem readsBack_grouping {e : Expr} (he : ExprReadsBack e) : ExprReadsBack (.grouping e) := by
  refine .of_place fun hnodes d hd => .of_reads not_false fun s _ => ?_
  refine .acceptThen (by simp [mark]) ?_
  have hinside : Takes (level d).expression e.print e (mark .rightBracket "]" :: s) :=
    he.expression hnodes.2 hd (follow_of_end (by simp [mark]))
  exact .bind hinside (.expectThen rfl (.pure _ s))

theorem readsBack_unary (op : Token) {right : Expr} (hright : ExprReadsBack right) :
    ExprReadsBack (.unary op right) := by
  refine .of_place fun hnodes d hd => .of_reads not_false fun s hfollow => ?_
  obtain ⟨⟨-, hop, hfits⟩, hnodes⟩ := hnodes
  exact .acceptThen hop (.bindPure _ (hright.operand hnodes hfits hd hfollow))

theorem round_of_operator (inner : Inner) {p : Place} {kind : Kind} (h : kind ∈ p.operators) :
    p.Loops ∧ kind ∈ p.suffixes ∧
      p.round inner = operatorRound p.node p.operators (p.tighter.reader inner) := by
  cases p with
  | expression | assignable | unary | call | primary => simp [Place.operators] at h
  | _ => exact ⟨trivial, h, rfl⟩

/-- The loop of the operator has the left operand when it comes to the operator,
and the whole expression after the right operand. -/
theorem legible_operator {inner : Inner} {p : Place} {left right : Expr} {op : Token}
    {w₁ w₂ : List Token} (hop : op.kind ∈ p.operators) (hleft : Legible inner p left w₁)
    (hright : Legible inner p.tighter right w₂) :
    Legible inner p (p.node left op right) (w₁ ++ op :: w₂) := by
  obtain ⟨hloops, -, hround⟩ := round_of_operator inner hop
  refine .of_resumes hloops fun w' b s hfollow hrounds => ?_
  have hrounds' : Rounds (p.round inner) left (op :: (w₂ ++ w')) b s := by
    rw [hround] at hrounds ⊢
    refine .moreWhenNext hop ?_ hrounds
    exact .bindPure (fun right => some (p.node left op right)) (hright.reads _ hfollow)
  have htakes := hleft.resumes hloops (op :: (w₂ ++ w')) b s (follow_operator hop) hrounds'
  simpa using htakes

/-- Operands that read back make an operation that does. -/
theorem legible_operands {node left right : Expr} {op : Token} {d : Nat}
    (hleft : ExprReadsBack left) (hright : ExprReadsBack right)
    (hnodes₁ : left.EveryNode printable) (hnodes₂ : right.EveryNode printable)
    (hd : max left.levels right.levels ≤ d) (hoperands : Operands node left op right) :
    Legible (level d) (operatorPlace op.kind) node (left.print ++ op :: right.print) := by
  obtain ⟨hd₁, hd₂⟩ := Nat.max_le.mp hd
  have h := legible_operator hoperands.sign (hleft hnodes₁ d hd₁ _ hoperands.left)
    (hright hnodes₂ d hd₂ _ hoperands.right)
  rw [hoperands.kind] at h
  exact h

theorem readsBack_binary {left right : Expr} (op : Token) (hleft : ExprReadsBack left)
    (hright : ExprReadsBack right) : ExprReadsBack (.binary left op right) := by
  refine .of_place fun hnodes d hd => ?_
  obtain ⟨⟨-, hoperands⟩, hnodes₁, hnodes₂⟩ := hnodes
  exact legible_operands hleft hright hnodes₁ hnodes₂ hd hoperands

theorem readsBack_logical {left right : Expr} (op : Token) (hleft : ExprReadsBack left)
    (hright : ExprReadsBack right) : ExprReadsBack (.logical left op right) := by
  refine .of_place fun hnodes d hd => ?_
  obtain ⟨⟨-, hoperands⟩, hnodes₁, hnodes₂⟩ := hnodes
  exact legible_operands hleft hright hnodes₁ hnodes₂ hd hoperands

/-- A call and an attribute are one more round behind what stands before
them. -/
theorem legible_suffix {inner : Inner} {object e : Expr} {t : Token} {w₁ w₂ : List Token}
    (hobject : Legible inner .call object w₁)
    (hround : ∀ s, Takes (callRound inner object) (t :: w₂) (some e) s) :
    Legible inner .call e (w₁ ++ t :: w₂) := by
  refine .of_resumes trivial fun w' b s _ hrounds => ?_
  have hrounds' : Rounds (callRound inner) object (t :: w₂ ++ w') b s :=
    .more (by simp) (hround _) hrounds
  have htakes := hobject.resumes trivial (t :: w₂ ++ w') b s (follow_primary _) hrounds'
  simpa using htakes

theorem readsBack_attribute {object : Expr} (t : Token) (hobject : ExprReadsBack object) :
    ExprReadsBack (.attribute object t) := by
  refine .of_place fun hnodes d hd => ?_
  obtain ⟨⟨hkind, hfits⟩, hnodes⟩ := hnodes
  have hkind : t.kind = .identifier := hkind
  refine legible_suffix (hobject hnodes d hd .call hfits) fun s => ?_
  refine .acceptThen (by simp [hkind]) ?_
  simp only [hkind, if_true]
  exact .pure _ s

theorem readsBack_call {callee : Expr} (bracket : Token) {args : List Expr}
    (hcallee : ExprReadsBack callee) (hargs : ∀ e ∈ args, ExprReadsBack e) :
    ExprReadsBack (.call callee bracket args) := by
  refine .of_place fun hnodes d hd => ?_
  obtain ⟨⟨hlength, hbracket, hfits⟩, hnodes, hnodes'⟩ := hnodes
  simp only [Expr.levels, Nat.max_le, exprsLevels_le] at hd
  rw [exprsEveryNode_iff] at hnodes'
  have hentries (s : List Token) : Takes (entries .arguments (level d).expression)
      (commas (args.map Expr.print) ++ [bracket]) (args, bracket) s := by
    refine takes_entries hbracket (fun e he => ?_) (fun e he s hs => ?_) hlength
    · obtain ⟨t, w, hprint, hkind⟩ := print_head e (hnodes' e he)
      refine ⟨t, w, hprint, fun hclose => ?_⟩
      have hstart := starts_of_fits (p := .expression) (Nat.zero_le _) hkind
      simp [hclose, Place.starts] at hstart
    · exact (hargs e he).expression (hnodes' e he) (hd.2 e he) (follow_of_entryEnd hs)
  simp only [Expr.print, printExprs_eq_map]
  refine legible_suffix (hcallee hnodes d hd.1 .call hfits) fun s => ?_
  refine .acceptThen (by simp [mark]) ?_
  exact .bindPure (fun r : List Expr × Token => some (Expr.call callee r.2 r.1)) (hentries s)

/-- A target as the expression that it is read as. -/
def Target.expr : Target → Expr
  | .variable name => .variable name
  | .selfField keyword name => .attribute (.selfRef keyword) name

theorem readsBack_assign (target : Target) {value : Expr} (hvalue : ExprReadsBack value) :
    ExprReadsBack (.assign target value) := by
  refine .of_place fun hnodes d hd => .of_reads not_false fun s hfollow => ?_
  obtain ⟨⟨hlimits, hfits⟩, hnodes⟩ := hnodes
  have hleft : Takes (assignable (level d)) target.print (Target.expr target)
      (mark .walrus ":=" :: (value.print ++ s)) := by
    cases target with
    | «variable» name =>
        refine (readsBack_variable name).assignable ⟨hlimits, trivial⟩ ?_ (Nat.zero_le _)
          (follow_walrus rfl)
        simp [Expr.Fits, Expr.place, Place.rank]
    | selfField keyword name =>
        refine (readsBack_attribute name (readsBack_selfRef keyword)).assignable
          ⟨⟨hlimits.2, ?_⟩, hlimits.1, trivial⟩ ?_ (Nat.zero_le _) (follow_walrus rfl)
        · simp [Expr.Fits, Expr.place, Place.rank]
        · simp [Expr.Fits, Expr.place, Place.rank]
  have htarget : target? (Target.expr target) = some target := by
    cases target <;> rfl
  refine .bind hleft (.acceptThen (by simp [mark]) ?_)
  simp only [htarget]
  exact .bindPure (Expr.assign target) (hvalue.assignable hnodes hfits hd hfollow.tighter)

end Grammar
end BracketScript
