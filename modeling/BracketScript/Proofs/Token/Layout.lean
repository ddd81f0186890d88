import BracketScript.Proofs.Token.Lexeme

/-!
# Every character of a source is accounted for

A source that scans without faults is its tokens' lexemes in order, with gaps
before, between and behind them that hold nothing but white space and comments
(`Layout`).  No character is lost, and none is used twice.  Since the gaps are
part of the text, the line of a token can be read off the text as well: it is the
line on which the lexeme ends.

What a layout does not say is that lexemes are as long as they can be: `ab` is
also a layout of two words without a gap between them.
-/

namespace BracketScript

open Segment

/-- A text that is skipped in front of `rest`.  A comment goes on up to a line
end, which is not part of it, or up to the end of the source. -/
inductive Gap : (text rest : List Char) → Prop
  | nil {rest : List Char} : Gap [] rest
  | blank {c : Char} {text rest : List Char} (hc : c = ' ' ∨ c = '\t' ∨ c = '\r' ∨ c = '\n')
      (h : Gap text rest) : Gap (c :: text) rest
  | comment {body text rest : List Char} (hbody : '\n' ∉ body)
      (hend : ∀ c ∈ (text ++ rest).head?, c = '\n') (h : Gap text rest) :
      Gap ('#' :: body ++ text) rest

/-- Gaps and tokens in order, and a last gap, as one text. -/
def laidOut (parts : List (List Char × Token)) (last : List Char) : List Char :=
  parts.flatMap (fun part => part.1 ++ part.2.lexeme.toList) ++ last

@[simp] theorem laidOut_nil (last : List Char) : laidOut [] last = last := rfl

@[simp] theorem laidOut_cons (gap : List Char) (t : Token) (parts : List (List Char × Token))
    (last : List Char) :
    laidOut ((gap, t) :: parts) last = gap ++ t.lexeme.toList ++ laidOut parts last := by
  simp [laidOut]

/-- A source that begins on the given line, taken apart into tokens, the gap
before each of them, and the gap behind the last one. -/
structure Layout (line : Nat) (source : List Char) (parts : List (List Char × Token))
    (last : List Char) : Prop where
  text : source = laidOut parts last
  gaps : ∀ before gap t after, parts = before ++ (gap, t) :: after →
    Gap gap (t.lexeme.toList ++ laidOut after last)
  lastGap : Gap last []
  lexemes : ∀ part ∈ parts, Lexeme part.2.lexeme.toList part.2.kind part.2.literal
  /-- A token stands on the line on which its lexeme ends. -/
  lines : ∀ before gap t after, parts = before ++ (gap, t) :: after →
    t.line = line + (laidOut before (gap ++ t.lexeme.toList)).count '\n'

/-- A text that is skipped before any gap at the front of `source`. -/
def Skipped (text source : List Char) : Prop :=
  ∀ gap rest, gap ++ rest = source → Gap gap rest → Gap (text ++ gap) rest

namespace Layout

variable {line : Nat} {source last : List Char} {parts : List (List Char × Token)}

theorem empty (line : Nat) : Layout line [] [] [] where
  text := rfl
  gaps := by simp
  lastGap := .nil
  lexemes := by simp
  lines := by simp

/-- A token in front of a source. -/
theorem consToken {t : Token} (hlexeme : Lexeme t.lexeme.toList t.kind t.literal)
    (hline : t.line = line + t.lexeme.toList.count '\n') (h : Layout t.line source parts last) :
    Layout line (t.lexeme.toList ++ source) (([], t) :: parts) last where
  text := by simp [h.text]
  gaps := by
    intro before gap u after hparts
    rcases List.cons_eq_append_iff.mp hparts with ⟨rfl, hhead⟩ | ⟨before, rfl, htail⟩
    · obtain ⟨⟨rfl, rfl⟩, rfl⟩ := by simpa using hhead
      exact .nil
    · exact h.gaps before gap u after htail
  lastGap := h.lastGap
  lexemes := by
    rw [List.forall_mem_cons]
    exact ⟨hlexeme, h.lexemes⟩
  lines := by
    intro before gap u after hparts
    rcases List.cons_eq_append_iff.mp hparts with ⟨rfl, hhead⟩ | ⟨before, rfl, htail⟩
    · obtain ⟨⟨rfl, rfl⟩, rfl⟩ := by simpa using hhead
      simpa using hline
    · rw [h.lines before gap u after htail, hline]
      simp [Nat.add_assoc]

/-- A piece to be skipped in front of a source joins its first gap. -/
theorem consSkipped {text : List Char} (hskip : Skipped text source)
    (h : Layout (line + text.count '\n') source parts last) :
    ∃ parts' last', Layout line (text ++ source) parts' last' ∧
      parts'.map Prod.snd = parts.map Prod.snd := by
  rcases parts with _ | ⟨⟨gap, t⟩, parts⟩
  · have hsource : last = source := by simpa using h.text.symm
    refine ⟨[], text ++ last, ?_, rfl⟩
    exact
      { text := by simp [hsource]
        gaps := by simp
        lastGap := hskip last [] (by simp [hsource]) h.lastGap
        lexemes := by simp
        lines := by simp }
  · refine ⟨(text ++ gap, t) :: parts, last, ?_, rfl⟩
    constructor
    case text => simp [h.text]
    case lastGap => exact h.lastGap
    case lexemes =>
      have hlexemes := h.lexemes
      rw [List.forall_mem_cons] at hlexemes ⊢
      exact hlexemes
    case gaps =>
      intro before gap' u after hparts
      rcases List.cons_eq_append_iff.mp hparts with ⟨rfl, hhead⟩ | ⟨before, rfl, htail⟩
      · obtain ⟨⟨rfl, rfl⟩, rfl⟩ := by simpa using hhead
        exact hskip gap _ (by simp [h.text]) (h.gaps [] gap _ _ rfl)
      · exact h.gaps ((gap, t) :: before) gap' u after (by rw [htail]; rfl)
    case lines =>
      intro before gap' u after hparts
      rcases List.cons_eq_append_iff.mp hparts with ⟨rfl, hhead⟩ | ⟨before, rfl, htail⟩
      · obtain ⟨⟨rfl, rfl⟩, rfl⟩ := by simpa using hhead
        rw [h.lines [] gap _ _ rfl]
        simp [Nat.add_assoc]
      · rw [h.lines ((gap, t) :: before) gap' u after (by rw [htail]; rfl)]
        simp [Nat.add_assoc]

end Layout

/-! ### The pieces of a source -/

namespace Segment

theorem string_ne_blank (delimiter : Char) (cs : List Char) :
    (string delimiter cs).1.reading ≠ .blank := by
  simp only [string]
  split <;> simp

theorem number_ne_blank (c : Char) (cs : List Char) : (number c cs).1.reading ≠ .blank := by
  have hradix : ∀ mark radix ds, (radixNumber mark radix ds).1.reading ≠ .blank := by
    intro mark radix ds
    simp only [radixNumber]
    split <;> simp
  fun_cases number c cs with
  | case1 cs => exact hradix _ 2 cs
  | case2 cs => exact hradix _ 16 cs
  | case3 =>
      by_cases hpoint : ∃ after, (cs.span Char.isDigit).2 = '.' :: after
      · obtain ⟨after, hafter⟩ := hpoint
        rcases hdigits : (after.span Char.isDigit).1 with _ | ⟨e, fraction⟩ <;>
          simp [decimalNumber, -List.span_eq_takeWhile_dropWhile, hafter, hdigits]
      · simp [decimalNumber_of_noPoint (not_exists.mp hpoint)]

theorem sign_ne_blank (c : Char) (cs : List Char) : (sign c cs).1.reading ≠ .blank := by
  rcases cs with _ | ⟨d, cs⟩
  · cases hc : single? c <;> simp [sign, hc]
  · cases hd : pair? c d <;> cases hc : single? c <;> simp [sign, hd, hc]

/-- A blank piece may be skipped in front of what it was cut off. -/
theorem skipped_of_cut {c : Char} {cs : List Char} (h : (cut c cs).1.reading = .blank) :
    Skipped (cut c cs).1.text (cut c cs).2 := by
  intro gap rest hrest hgap
  unfold cut at h hrest ⊢
  split at h
  · next hblank =>
    simp only [hblank, if_true]
    exact .blank (by tauto) hgap
  · next hblank =>
    simp only [hblank, if_false] at hrest ⊢
    split at h
    · next hcomment =>
      subst hcomment
      simp only [if_true] at hrest ⊢
      refine .comment (fun hmem => ?_) (fun d hd => ?_) hgap
      · simpa using mem_span_fst hmem
      · obtain ⟨more, hmore⟩ := List.head?_eq_some_iff.mp hd
        simpa using span_snd_eq_cons (hrest.symm.trans hmore)
    · split at h
      · exact absurd h (string_ne_blank c cs)
      · split at h
        · exact absurd h (number_ne_blank c cs)
        · split at h
          · cases h
          · exact absurd h (sign_ne_blank c cs)

end Segment

/-- The tokens of a source without faults are laid out in it. -/
theorem layout_of_segments (scan : Scan) (cs : List Char)
    (hfaults : ∀ piece ∈ segments cs, piece.fault? = none) :
    ∃ parts last, Layout scan.line cs parts last ∧
      ((segments cs).foldl Scan.step scan).tokens.toList =
        scan.tokens.toList ++ parts.map Prod.snd := by
  -- By the length of the source, since what follows a piece is shorter.
  induction hn : cs.length using Nat.strongRecOn generalizing scan cs with
  | ind n ih =>
      cases cs with
      | nil => exact ⟨[], [], .empty _, by simp⟩
      | cons c cs =>
          have hlength := Segment.length_cut_le c cs
          obtain ⟨tail, htext, hcs⟩ := Segment.splits_cut c cs
          have hsource : c :: cs = (cut c cs).1.text ++ (cut c cs).2 := by
            rw [htext, List.cons_append, hcs]
          rw [segments_cons] at hfaults ⊢
          rw [List.forall_mem_cons] at hfaults
          obtain ⟨parts, last, hlayout, htokens⟩ := ih _ (by rw [← hn, List.length_cons]; omega)
            (scan.step (cut c cs).1) (cut c cs).2 hfaults.2 rfl
          rw [List.foldl_cons, htokens]
          cases hreading : (cut c cs).1.reading with
          | fault fault => simp [Segment.fault?, hreading] at hfaults
          | blank =>
              simp only [Scan.step, hreading] at hlayout ⊢
              obtain ⟨parts', last', hlayout', hparts⟩ := hlayout.consSkipped (skipped_of_cut hreading)
              exact ⟨parts', last', by rwa [hsource], by rw [hparts]⟩
          | token kind literal =>
              have hlexeme := lexeme_of_cut hreading
              simp only [Scan.step, hreading] at hlayout ⊢
              let t : Token := ⟨kind, String.ofList (cut c cs).1.text, literal,
                scan.line + (cut c cs).1.text.count '\n'⟩
              have ht : t.lexeme.toList = (cut c cs).1.text := by simp [t]
              have hconsed : Layout scan.line (t.lexeme.toList ++ (cut c cs).2)
                  (([], t) :: parts) last :=
                hlayout.consToken (by rwa [ht]) (by rw [ht])
              refine ⟨([], t) :: parts, last, ?_, ?_⟩
              · rwa [hsource, ← ht]
              · simp [t]

/-! ### Lines in order -/

namespace Scan

/-- The lines of the tokens so far do not decrease, up to the current line, and
neither do those of the faults.  The first line is line 1. -/
structure InOrder (scan : Scan) : Prop where
  sorted : scan.tokens.toList.Pairwise fun t u => t.line ≤ u.line
  passed : ∀ t ∈ scan.tokens.toList, t.line ≤ scan.line
  faultsSorted : scan.errors.toList.Pairwise fun e e' => e.line ≤ e'.line
  faultsPassed : ∀ e ∈ scan.errors.toList, e.line ≤ scan.line
  begun : 1 ≤ scan.line
  tokensBegun : ∀ t ∈ scan.tokens.toList, 1 ≤ t.line
  faultsBegun : ∀ e ∈ scan.errors.toList, 1 ≤ e.line

theorem inOrder_start : start.InOrder := by
  constructor <;> simp [start]

theorem InOrder.step {scan : Scan} (h : scan.InOrder) (piece : Segment) :
    (scan.step piece).InOrder := by
  have hpassed : ∀ t ∈ scan.tokens.toList, t.line ≤ scan.line + piece.text.count '\n' :=
    fun t ht => Nat.le_add_right_of_le (h.passed t ht)
  have hfaults : ∀ e ∈ scan.errors.toList, e.line ≤ scan.line + piece.text.count '\n' :=
    fun e he => Nat.le_add_right_of_le (h.faultsPassed e he)
  have hbegun : 1 ≤ scan.line + piece.text.count '\n' := Nat.le_add_right_of_le h.begun
  cases hreading : piece.reading with
  | blank =>
      simp only [Scan.step, hreading]
      exact ⟨h.sorted, hpassed, h.faultsSorted, hfaults, hbegun, h.tokensBegun, h.faultsBegun⟩
  | fault fault =>
      simp only [Scan.step, hreading]
      refine ⟨h.sorted, hpassed, ?_, ?_, hbegun, h.tokensBegun, ?_⟩
      · rw [Array.toList_push, List.pairwise_append]
        exact ⟨h.faultsSorted, List.pairwise_singleton _ _, by simpa using hfaults⟩
      · simpa [or_imp, forall_and] using hfaults
      · simpa [or_imp, forall_and, hbegun] using h.faultsBegun
  | token kind literal =>
      simp only [Scan.step, hreading]
      refine ⟨?_, ?_, h.faultsSorted, hfaults, hbegun, ?_, h.faultsBegun⟩
      · rw [Array.toList_push, List.pairwise_append]
        exact ⟨h.sorted, List.pairwise_singleton _ _, by simpa using hpassed⟩
      · simpa [or_imp, forall_and] using hpassed
      · simpa [or_imp, forall_and, hbegun] using h.tokensBegun

theorem InOrder.foldl {scan : Scan} (h : scan.InOrder) (pieces : List Segment) :
    (pieces.foldl Scan.step scan).InOrder := by
  induction pieces generalizing scan with
  | nil => exact h
  | cons piece pieces ih => exact ih (h.step piece)

end Scan

/-- A source without faults is its tokens and the gaps between them.  There is
one end marker, behind all tokens; a token is what its lexeme says, taken by
itself, and stands on the line on which the lexeme ends; and the lines do not
decrease. -/
theorem Token.scan_layout {source : String} {tokens : List Token}
    (h : Token.scan source = .ok tokens) :
    ∃ parts last,
      tokens = parts.map Prod.snd ++ [Token.eof (1 + source.toList.count '\n')] ∧
      (∀ part ∈ parts, part.2.kind ≠ .eof) ∧
      Layout 1 source.toList parts last ∧
      (∀ part ∈ parts, ∀ kind literal, Lexeme part.2.lexeme.toList kind literal →
        kind = part.2.kind ∧ literal = part.2.literal) ∧
      tokens.Pairwise fun t u => t.line ≤ u.line := by
  obtain ⟨herrors, htokens⟩ := Token.scan_eq_ok_iff.mp h
  obtain ⟨parts, last, hlayout, hparts⟩ :=
    layout_of_segments Scan.start source.toList (Scan.fault?_of_errors_eq herrors)
  have hfirst : (Scan.ofSource source).tokens.toList = parts.map Prod.snd := by
    simpa [Scan.start, Scan.ofSource] using hparts
  have hline := Scan.line_ofSource source
  have horder : (Scan.ofSource source).InOrder := Scan.inOrder_start.foldl _
  refine ⟨parts, last, ?_, ?_, hlayout, ?_, ?_⟩
  · rw [htokens, hfirst, hline]
  · intro part hpart
    refine Scan.kind_ne_eof source part.2 ?_
    rw [← Array.mem_toList_iff, hfirst]
    exact List.mem_map_of_mem hpart
  · intro part hpart kind literal hlexeme
    exact hlexeme.unique (hlayout.lexemes part hpart)
  · rw [htokens, List.pairwise_append]
    exact ⟨horder.sorted, List.pairwise_singleton _ _, by simpa [Token.eof] using horder.passed⟩

/-- A string over two lines, a word behind it, and a comment at the end. -/
theorem Token.scan_layout_comment :
    ∃ parts last,
      Layout 1 "'a\nb' x # c".toList parts last ∧
      parts.map Prod.snd =
        [⟨.str, "'a\nb'", some (.str "a\nb"), 2⟩, ⟨.identifier, "x", none, 2⟩] := by
  have hscan : Token.scan "'a\nb' x # c" =
      .ok [⟨.str, "'a\nb'", some (.str "a\nb"), 2⟩, ⟨.identifier, "x", none, 2⟩, .eof 2] := rfl
  obtain ⟨parts, last, htokens, -, hlayout, -⟩ := Token.scan_layout hscan
  refine ⟨parts, last, hlayout, ?_⟩
  have hfirst := congrArg List.dropLast htokens
  rw [List.dropLast_concat] at hfirst
  exact hfirst.symm

end BracketScript
