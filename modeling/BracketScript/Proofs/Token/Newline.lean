import BracketScript.Text.Blank
import BracketScript.Token.Scan
import Mathlib.Data.List.TakeDrop

/-!
# Scanning line by line

A line end between two texts separates their pieces, unless the first text ends
inside a string.  So the pieces of `s`, a line end and `t` are the pieces of
`s`, the line end and the pieces of `t` (`segments_newline`), and what is
scanned of the whole is what is scanned of `s` followed by what is scanned of
`t` further down (`Scan.ofSource_newline`).

Every scanner that can touch the end of the first text has to come out the same
when it meets a line end there; `KeepsCut` says this of a single cut.
-/

namespace BracketScript

namespace Segment

/-- A cut that comes out the same if a line end and more text follow. -/
def KeepsCut (cut : List Char → Segment × List Char) (cs : List Char) : Prop :=
  ∀ more, cut (cs ++ '\n' :: more) = ((cut cs).1, (cut cs).2 ++ '\n' :: more)

theorem span_newline {p : Char → Bool} (hp : p '\n' = false) (cs more : List Char) :
    (cs ++ '\n' :: more).span p = ((cs.span p).1, (cs.span p).2 ++ '\n' :: more) := by
  simp only [List.span_eq_takeWhile_dropWhile]
  induction cs with
  | nil => simp [hp]
  | cons c cs ih =>
      by_cases hc : p c = true
      · simpa [hc] using ih
      · simp [hc]

/-- A span that ends before the end of the text does not see what follows. -/
theorem span_append {p : Char → Bool} {cs : List Char} (h : (cs.span p).2 ≠ [])
    (more : List Char) : (cs ++ more).span p = ((cs.span p).1, (cs.span p).2 ++ more) := by
  simp only [List.span_eq_takeWhile_dropWhile] at h ⊢
  induction cs with
  | nil => exact absurd rfl h
  | cons c cs ih =>
      by_cases hc : p c = true
      · simpa [hc] using ih (by simpa [hc] using h)
      · simp [hc]

theorem keepsCut_string {delimiter : Char} {cs : List Char}
    (h : (string delimiter cs).1.reading ≠ .fault .unterminatedString) :
    KeepsCut (string delimiter) cs := by
  intro more
  have hclosed : (cs.span (· ≠ delimiter)).2 ≠ [] := by
    intro hnil
    simp only [string, hnil] at h
    exact h rfl
  obtain ⟨close, rest, hrest⟩ := List.exists_cons_of_ne_nil hclosed
  simp only [string, span_append hclosed, hrest, List.cons_append]

theorem keepsCut_radixNumber (mark cs : List Char) {radix : Nat}
    (hradix : Text.isDigitOf radix '\n' = false) : KeepsCut (radixNumber mark radix) cs := by
  intro more
  simp only [radixNumber, span_newline hradix]

/-- A number without a point is what its digits say. -/
theorem decimalNumber_of_noPoint {c : Char} {cs : List Char}
    (h : ∀ after, (cs.span Char.isDigit).2 ≠ '.' :: after) :
    decimalNumber c cs =
      (⟨c :: (cs.span Char.isDigit).1,
        .token .num (some (.num (decimal (c :: (cs.span Char.isDigit).1) [])))⟩,
        (cs.span Char.isDigit).2) := by
  simp only [decimalNumber]

theorem keepsCut_decimalNumber (c : Char) (cs : List Char) : KeepsCut (decimalNumber c) cs := by
  intro more
  have hdigit : Char.isDigit '\n' = false := rfl
  by_cases hpoint : ∃ after, (cs.span Char.isDigit).2 = '.' :: after
  · obtain ⟨after, hafter⟩ := hpoint
    rcases hfraction : (after.span Char.isDigit).1 with _ | ⟨e, fraction⟩ <;>
      simp only [decimalNumber, span_newline hdigit, hafter, hfraction, List.cons_append]
  · have hnone : ∀ after, (cs.span Char.isDigit).2 ≠ '.' :: after := not_exists.mp hpoint
    have hstill : ∀ after, ((cs ++ '\n' :: more).span Char.isDigit).2 ≠ '.' :: after := by
      intro after
      rw [span_newline hdigit]
      rcases hrest : (cs.span Char.isDigit).2 with _ | ⟨d, rest⟩
      · simp
      · have hd : d ≠ '.' := fun hd => hnone rest (by rw [hrest, hd])
        simp [hd]
    rw [decimalNumber_of_noPoint hnone, decimalNumber_of_noPoint hstill, span_newline hdigit]

theorem keepsCut_number (c : Char) (cs : List Char) : KeepsCut (number c) cs := by
  intro more
  fun_cases number c cs with
  | case1 cs => exact keepsCut_radixNumber _ cs rfl more
  | case2 cs => exact keepsCut_radixNumber _ cs rfl more
  | case3 _ _ hb hx =>
      rw [← keepsCut_decimalNumber c cs more]
      -- A radix mark does not come about by the line end either.
      cases cs with
      | nil => simp [number]
      | cons d cs =>
          refine number.eq_3 c _ (fun ds hc hds => ?_) (fun ds hc hds => ?_)
          · exact hb cs hc (by rw [(List.cons.inj hds).1])
          · exact hx cs hc (by rw [(List.cons.inj hds).1])

theorem pair?_newline (c : Char) : pair? c '\n' = none := by
  simp [pair?]

theorem keepsCut_sign (c : Char) (cs : List Char) : KeepsCut (sign c) cs := by
  intro more
  rcases cs with _ | ⟨d, cs⟩
  · cases hc : single? c <;> simp [sign, pair?_newline, hc]
  · cases hd : pair? c d <;> cases hc : single? c <;> simp [sign, hd, hc]

theorem keepsCut_cut {c : Char} {cs : List Char}
    (h : (cut c cs).1.reading ≠ .fault .unterminatedString) : KeepsCut (cut c) cs := by
  intro more
  unfold cut at h ⊢
  split
  · rfl
  · split
    · simp only [span_newline (p := (· ≠ '\n')) rfl]
    · split
      · exact keepsCut_string (by simp_all) more
      · split
        · exact keepsCut_number c cs more
        · split
          · simp only [span_newline (p := inWord) rfl]
          · exact keepsCut_sign c cs more

/-! ### What a cut takes -/

/-- The piece starts with `c`, and its other characters and what is left are
`cs`. -/
def Splits (c : Char) (cs : List Char) (result : Segment × List Char) : Prop :=
  ∃ tail, result.1.text = c :: tail ∧ tail ++ result.2 = cs

theorem span_fst_append_snd (p : Char → Bool) (cs : List Char) :
    (cs.span p).1 ++ (cs.span p).2 = cs := by
  simp only [List.span_eq_takeWhile_dropWhile, List.takeWhile_append_dropWhile]

theorem splits_string (delimiter : Char) (cs : List Char) :
    Splits delimiter cs (string delimiter cs) := by
  have hspan := span_fst_append_snd (· ≠ delimiter) cs
  rcases hrest : (cs.span (· ≠ delimiter)).2 with _ | ⟨close, rest⟩
  · rw [hrest] at hspan
    simp only [string, hrest]
    exact ⟨_, rfl, hspan⟩
  · rw [hrest] at hspan
    simp only [string, hrest]
    exact ⟨_, rfl, by simpa using hspan⟩

theorem splits_radixNumber (c mark : Char) (radix : Nat) (cs : List Char) :
    Splits c (mark :: cs) (radixNumber [c, mark] radix cs) :=
  ⟨mark :: (cs.span (Text.isDigitOf radix)).1, rfl,
    congrArg (mark :: ·) (span_fst_append_snd (Text.isDigitOf radix) cs)⟩

theorem splits_decimalNumber (c : Char) (cs : List Char) :
    Splits c cs (decimalNumber c cs) := by
  have hspan := span_fst_append_snd Char.isDigit cs
  by_cases hpoint : ∃ after, (cs.span Char.isDigit).2 = '.' :: after
  · obtain ⟨after, hafter⟩ := hpoint
    have hfraction := span_fst_append_snd Char.isDigit after
    rw [hafter] at hspan
    rcases hdigits : (after.span Char.isDigit).1 with _ | ⟨e, fraction⟩
    · simp only [decimalNumber, hafter, hdigits]
      exact ⟨_, rfl, by simpa using hspan⟩
    · rw [hdigits] at hfraction
      simp only [decimalNumber, hafter, hdigits]
      refine ⟨(cs.span Char.isDigit).1 ++ '.' :: e :: fraction, rfl, ?_⟩
      simp only [List.append_assoc, List.cons_append] at hfraction ⊢
      rw [hfraction, hspan]
  · rw [decimalNumber_of_noPoint (not_exists.mp hpoint)]
    exact ⟨_, rfl, hspan⟩

theorem splits_number (c : Char) (cs : List Char) : Splits c cs (number c cs) := by
  fun_cases number c cs with
  | case1 cs => exact splits_radixNumber '0' 'b' 2 cs
  | case2 cs => exact splits_radixNumber '0' 'x' 16 cs
  | case3 => exact splits_decimalNumber c cs

theorem splits_sign (c : Char) (cs : List Char) : Splits c cs (sign c cs) := by
  rcases cs with _ | ⟨d, cs⟩
  · cases hc : single? c <;> simp [sign, hc, Splits]
  · cases hd : pair? c d <;> cases hc : single? c <;> simp [sign, hd, hc, Splits]

theorem splits_cut (c : Char) (cs : List Char) : Splits c cs (cut c cs) := by
  unfold cut
  split
  · exact ⟨[], rfl, rfl⟩
  · split
    · exact ⟨_, rfl, span_fst_append_snd _ cs⟩
    · split
      · exact splits_string c cs
      · split
        · exact splits_number c cs
        · split
          · exact ⟨_, rfl, span_fst_append_snd inWord cs⟩
          · exact splits_sign c cs

theorem length_cut_le (c : Char) (cs : List Char) : (cut c cs).2.length ≤ cs.length := by
  obtain ⟨tail, -, hcs⟩ := splits_cut c cs
  have hlength := congrArg List.length hcs
  rw [List.length_append] at hlength
  omega

end Segment

/-! ### Pieces of a text -/

theorem segmentsFrom_eq_append (done : List Segment) (n : Nat) (cs : List Char) :
    segmentsFrom done n cs = done.reverse ++ segmentsFrom [] n cs := by
  induction n generalizing done cs with
  | zero => simp [segmentsFrom]
  | succ n ih =>
      cases cs with
      | nil => simp [segmentsFrom]
      | cons c cs =>
          have hdone := ih ((Segment.cut c cs).1 :: done) (Segment.cut c cs).2
          have hnone := ih [(Segment.cut c cs).1] (Segment.cut c cs).2
          simp [segmentsFrom, hdone, hnone]

theorem segmentsFrom_bound (n m : Nat) (cs : List Char) (hn : cs.length ≤ n)
    (hm : cs.length ≤ m) : segmentsFrom [] n cs = segmentsFrom [] m cs := by
  induction n generalizing m cs with
  | zero =>
      obtain rfl := List.eq_nil_of_length_eq_zero (Nat.le_zero.mp hn)
      cases m <;> rfl
  | succ n ih =>
      cases cs with
      | nil => cases m <;> rfl
      | cons c cs =>
          obtain ⟨m, rfl⟩ : ∃ k, m = k + 1 := ⟨m - 1, by simp only [List.length_cons] at hm; omega⟩
          have hlength := Segment.length_cut_le c cs
          simp only [List.length_cons] at hn hm
          simp only [segmentsFrom]
          rw [segmentsFrom_eq_append _ n, segmentsFrom_eq_append _ m,
            ih m _ (by omega) (by omega)]

@[simp] theorem segments_nil : segments [] = [] := rfl

theorem segments_cons (c : Char) (cs : List Char) :
    segments (c :: cs) = (Segment.cut c cs).1 :: segments (Segment.cut c cs).2 := by
  have hlength := Segment.length_cut_le c cs
  simp only [segments, List.length_cons, segmentsFrom]
  rw [segmentsFrom_eq_append, segmentsFrom_bound _ _ _ hlength (Nat.le_refl _)]
  rfl

/-- A line end cuts a text in two, unless a string is open there. -/
theorem segments_newline (first second : List Char)
    (hclosed : ∀ piece ∈ segments first, piece.reading ≠ .fault .unterminatedString) :
    segments (first ++ '\n' :: second) = segments first ++ ⟨['\n'], .blank⟩ :: segments second := by
  induction hn : first.length using Nat.strongRecOn generalizing first with
  | ind n ih =>
      cases first with
      | nil => exact segments_cons '\n' second
      | cons c cs =>
          rw [segments_cons] at hclosed ⊢
          rw [List.forall_mem_cons] at hclosed
          have hlength := Segment.length_cut_le c cs
          rw [List.cons_append, segments_cons, Segment.keepsCut_cut hclosed.1 second,
            ih _ (by rw [← hn, List.length_cons]; omega) _ hclosed.2 rfl]
          rfl

/-- What every cut makes holds of all pieces. -/
theorem segments_forall {P : Segment → Prop} (h : ∀ c cs, P (Segment.cut c cs).1)
    (cs : List Char) : ∀ piece ∈ segments cs, P piece := by
  induction hn : cs.length using Nat.strongRecOn generalizing cs with
  | ind n ih =>
      cases cs with
      | nil => simp
      | cons c cs =>
          have hlength := Segment.length_cut_le c cs
          rw [segments_cons, List.forall_mem_cons]
          exact ⟨h c cs, ih _ (by rw [← hn, List.length_cons]; omega) _ rfl⟩

/-! ### Lines -/

/-- The token further down by some lines. -/
def Token.below (lines : Nat) (t : Token) : Token :=
  { t with line := lines + t.line }

/-- The fault further down by some lines. -/
def SyntaxError.below (lines : Nat) (e : SyntaxError) : SyntaxError :=
  { e with line := lines + e.line }

namespace Segment

/-- The kind and the literal of a piece that is a token. -/
def token? (piece : Segment) : Option (Kind × Option Literal) :=
  match piece.reading with
  | .token kind literal => some (kind, literal)
  | _ => none

/-- The fault of a piece that is one. -/
def fault? (piece : Segment) : Option SyntaxFault :=
  match piece.reading with
  | .fault fault => some fault
  | _ => none

end Segment

namespace Scan

/-- All that is scanned of a source. -/
def ofSource (source : String) : Scan :=
  (segments source.toList).foldl step start

/-- A scan with another one below it. -/
def followedBy (first second : Scan) : Scan :=
  { line := first.line + second.line
    tokens := first.tokens ++ second.tokens.map (Token.below first.line)
    errors := first.errors ++ second.errors.map (SyntaxError.below first.line) }

theorem followedBy_start (scan : Scan) :
    scan.followedBy start = scan.step ⟨['\n'], .blank⟩ := by
  simp [followedBy, start, step]

theorem step_followedBy (first second : Scan) (piece : Segment) :
    (first.followedBy second).step piece = first.followedBy (second.step piece) := by
  cases hreading : piece.reading <;>
    simp [step, followedBy, hreading, Token.below, SyntaxError.below, Nat.add_assoc]

theorem foldl_followedBy (first second : Scan) (pieces : List Segment) :
    pieces.foldl step (first.followedBy second) = first.followedBy (pieces.foldl step second) := by
  induction pieces generalizing second with
  | nil => rfl
  | cons piece pieces ih => rw [List.foldl_cons, step_followedBy, ih, List.foldl_cons]

/-- Scanning composes at a line end, unless a string is open there. -/
theorem ofSource_newline (first second : String)
    (hclosed : ∀ piece ∈ segments first.toList, piece.reading ≠ .fault .unterminatedString) :
    ofSource (first ++ "\n" ++ second) = (ofSource first).followedBy (ofSource second) := by
  have hpieces : segments (first ++ "\n" ++ second).toList =
      segments first.toList ++ ⟨['\n'], .blank⟩ :: segments second.toList := by
    rw [← segments_newline first.toList second.toList hclosed]
    simp
  rw [ofSource, hpieces, List.foldl_append, List.foldl_cons, ← followedBy_start,
    foldl_followedBy]
  rfl

/-- The tokens are those of the pieces, in order. -/
theorem tokens_foldl (scan : Scan) (pieces : List Segment) :
    (pieces.foldl step scan).tokens.toList.map (fun t => (t.kind, t.literal)) =
      scan.tokens.toList.map (fun t => (t.kind, t.literal)) ++ pieces.filterMap Segment.token? := by
  induction pieces generalizing scan with
  | nil => simp
  | cons piece pieces ih =>
      rw [List.foldl_cons, ih]
      cases hreading : piece.reading <;> simp [step, Segment.token?, hreading]

/-- The faults are those of the pieces, in order. -/
theorem errors_foldl (scan : Scan) (pieces : List Segment) :
    (pieces.foldl step scan).errors.toList.map SyntaxError.fault =
      scan.errors.toList.map SyntaxError.fault ++ pieces.filterMap Segment.fault? := by
  induction pieces generalizing scan with
  | nil => simp
  | cons piece pieces ih =>
      rw [List.foldl_cons, ih]
      cases hreading : piece.reading <;> simp [step, Segment.fault?, hreading]

/-- A string that is left open is among the faults. -/
theorem closed_of_errors {source : String}
    (h : ∀ e ∈ (ofSource source).errors, e.fault ≠ .unterminatedString) :
    ∀ piece ∈ segments source.toList, piece.reading ≠ .fault .unterminatedString := by
  intro piece hpiece hreading
  have hfaults := errors_foldl start (segments source.toList)
  have hmem : SyntaxFault.unterminatedString ∈
      (segments source.toList).filterMap Segment.fault? :=
    List.mem_filterMap.mpr ⟨piece, hpiece, by simp [Segment.fault?, hreading]⟩
  rw [show start.errors.toList.map SyntaxError.fault = [] from rfl, List.nil_append] at hfaults
  rw [← hfaults] at hmem
  obtain ⟨e, he, hfault⟩ := List.mem_map.mp hmem
  exact h e (Array.mem_toList_iff.mp he) hfault

/-- Without faults every string is closed. -/
theorem closed_of_errors_eq {source : String} (h : (ofSource source).errors = #[]) :
    ∀ piece ∈ segments source.toList, piece.reading ≠ .fault .unterminatedString :=
  closed_of_errors (by simp [h])

theorem fault?_of_errors_eq {source : String} (h : (ofSource source).errors = #[]) :
    ∀ piece ∈ segments source.toList, piece.fault? = none := by
  have hfaults := errors_foldl start (segments source.toList)
  rw [show ((segments source.toList).foldl step start).errors = #[] from h] at hfaults
  simpa [start, List.filterMap_eq_nil_iff] using hfaults.symm

end Scan

/-- A text takes as many lines as it has line ends, and one more. -/
theorem Scan.line_foldl (scan : Scan) (pieces : List Segment) :
    (pieces.foldl step scan).line =
      scan.line + (pieces.flatMap Segment.text).count '\n' := by
  induction pieces generalizing scan with
  | nil => simp
  | cons piece pieces ih =>
      have hstep : (scan.step piece).line = scan.line + piece.text.count '\n' := by
        cases hreading : piece.reading <;> simp [step, hreading]
      rw [List.foldl_cons, ih, hstep, List.flatMap_cons, List.count_append, Nat.add_assoc]

/-- The pieces of a text, put together again, are the text. -/
theorem segments_flatMap_text (cs : List Char) : (segments cs).flatMap Segment.text = cs := by
  induction hn : cs.length using Nat.strongRecOn generalizing cs with
  | ind n ih =>
      cases cs with
      | nil => rfl
      | cons c cs =>
          have hlength := Segment.length_cut_le c cs
          obtain ⟨tail, htext, hcs⟩ := Segment.splits_cut c cs
          rw [segments_cons, List.flatMap_cons,
            ih _ (by rw [← hn, List.length_cons]; omega) _ rfl, htext, List.cons_append, hcs]

theorem Scan.line_ofSource (source : String) :
    (ofSource source).line = 1 + source.toList.count '\n' := by
  rw [ofSource, line_foldl, segments_flatMap_text]
  rfl

theorem Token.scan_eq_finish (source : String) :
    Token.scan source = (Scan.ofSource source).finish := rfl

theorem Token.scan_eq_ok_iff {source : String} {tokens : List Token} :
    Token.scan source = .ok tokens ↔
      (Scan.ofSource source).errors = #[] ∧
        tokens =
          (Scan.ofSource source).tokens.toList ++ [Token.eof (Scan.ofSource source).line] := by
  rw [Token.scan_eq_finish, Scan.finish]
  by_cases h : (Scan.ofSource source).errors = #[]
  · simp [h, eq_comm]
  · simp [h]

/-! ### A text below another one -/

/-- What is scanned of a text and of another one that begins some lines further
down.  The end marker of the first is left out. -/
def Token.scansBelow (lines : Nat) :
    (first second : Except (List SyntaxError) (List Token)) → Except (List SyntaxError) (List Token)
  | .ok tokens, .ok others => .ok (tokens.dropLast ++ others.map (Token.below lines))
  | .ok _, .error others => .error (others.map (SyntaxError.below lines))
  | .error errors, .ok _ => .error errors
  | .error errors, .error others => .error (errors ++ others.map (SyntaxError.below lines))

theorem Scan.finish_followedBy (first second : Scan) :
    (first.followedBy second).finish =
      Token.scansBelow first.line first.finish second.finish := by
  by_cases hfirst : first.errors = #[] <;> by_cases hsecond : second.errors = #[] <;>
    simp [finish, followedBy, hfirst, hsecond, Token.scansBelow, Token.below, Token.eof]

/-- Scanning a text, a line end and another text gives the tokens of both, or
the faults of both, those of the second further down; unless a string is open
where the first text ends. -/
theorem Token.scan_newline (first second : String)
    (hclosed : ∀ errors, Token.scan first = .error errors →
      ∀ e ∈ errors, e.fault ≠ .unterminatedString) :
    Token.scan (first ++ "\n" ++ second) =
      Token.scansBelow (1 + first.toList.count '\n') (Token.scan first) (Token.scan second) := by
  have hpieces : ∀ piece ∈ segments first.toList,
      piece.reading ≠ .fault .unterminatedString := by
    apply Scan.closed_of_errors
    intro e he
    have hnone : (Scan.ofSource first).errors ≠ #[] := Array.ne_empty_of_mem he
    exact hclosed (Scan.ofSource first).errors.toList (by simp [scan_eq_finish, Scan.finish, hnone])
      e (Array.mem_toList_iff.mpr he)
  rw [scan_eq_finish, scan_eq_finish, scan_eq_finish, Scan.ofSource_newline first second hpieces,
    Scan.finish_followedBy, Scan.line_ofSource]

/-- Two lines with a fault each, and a third one with a string left open. -/
theorem Token.scan_newline_faults :
    Token.scan ("$\n@" ++ "\n" ++ "'open") =
      .error [⟨1, .line, .unexpectedCharacter⟩, ⟨2, .line, .unexpectedCharacter⟩,
        ⟨3, .line, .unterminatedString⟩] := by
  have hfirst : Token.scan "$\n@" =
      .error [⟨1, .line, .unexpectedCharacter⟩, ⟨2, .line, .unexpectedCharacter⟩] := rfl
  have hsecond : Token.scan "'open" = .error [⟨1, .line, .unterminatedString⟩] := rfl
  have hclosed : ∀ errors, Token.scan "$\n@" = .error errors →
      ∀ e ∈ errors, e.fault ≠ .unterminatedString := by
    intro errors herrors
    rw [hfirst] at herrors
    cases herrors
    decide
  rw [Token.scan_newline _ _ hclosed, hfirst, hsecond]
  rfl

/-! ### No piece is an end marker -/

namespace Segment

theorem wordKind_ne_eof (word : List Char) : wordKind word ≠ .eof := by
  unfold wordKind
  split
  · decide
  · unfold Kind.keyword?
    split <;> decide

theorem single?_ne_eof (c : Char) : single? c ≠ some .eof := by
  unfold single?
  split <;> decide

theorem pair?_ne_eof (c d : Char) : pair? c d ≠ some .eof := by
  unfold pair?
  split <;> decide

theorem sign_ne {kind : Kind} (hsingle : ∀ c, single? c ≠ some kind)
    (hpair : ∀ c d, pair? c d ≠ some kind) (c : Char) (cs : List Char)
    (literal : Option Literal) : (sign c cs).1.reading ≠ .token kind literal := by
  have hc := hsingle c
  rcases cs with _ | ⟨d, cs⟩
  · cases hfound : single? c <;> simp_all [sign]
  · have hd := hpair c d
    cases hfound : pair? c d <;> cases hfound' : single? c <;> simp_all [sign]

theorem number_ne {kind : Kind} (hkind : kind ≠ .num) (c : Char) (cs : List Char)
    (literal : Option Literal) : (number c cs).1.reading ≠ .token kind literal := by
  have hradix : ∀ mark radix ds, (radixNumber mark radix ds).1.reading ≠ .token kind literal := by
    intro mark radix ds
    simp only [radixNumber]
    split <;> simp [hkind.symm]
  fun_cases number c cs with
  | case1 cs => exact hradix _ 2 cs
  | case2 cs => exact hradix _ 16 cs
  | case3 =>
      by_cases hpoint : ∃ after, (cs.span Char.isDigit).2 = '.' :: after
      · obtain ⟨after, hafter⟩ := hpoint
        rcases hdigits : (after.span Char.isDigit).1 with _ | ⟨e, fraction⟩ <;>
          simp [decimalNumber, -List.span_eq_takeWhile_dropWhile, hafter, hdigits, hkind.symm]
      · simp [decimalNumber_of_noPoint (not_exists.mp hpoint), hkind.symm]

/-- A kind that numbers, strings and signs do not have is at most a word's. -/
theorem cut_ne {kind : Kind} (hnum : kind ≠ .num) (hstr : kind ≠ .str)
    (hsingle : ∀ c, single? c ≠ some kind) (hpair : ∀ c d, pair? c d ≠ some kind) {c : Char}
    (hword : startsWord c = true → ∀ word, wordKind word ≠ kind) (cs : List Char)
    (literal : Option Literal) : (cut c cs).1.reading ≠ .token kind literal := by
  unfold cut
  split
  · simp
  · split
    · simp
    · split
      · simp only [string]
        split <;> simp [hstr.symm]
      · split
        · exact number_ne hnum c cs literal
        · split
          · next hstarts => simp [hword hstarts]
          · exact sign_ne hsingle hpair c cs literal

theorem cut_ne_eof (c : Char) (cs : List Char) (literal : Option Literal) :
    (cut c cs).1.reading ≠ .token .eof literal :=
  cut_ne (by decide) (by decide) single?_ne_eof pair?_ne_eof (fun _ => wordKind_ne_eof) cs literal

end Segment

/-- Every token stands for one of the pieces. -/
theorem Scan.exists_piece {scan : Scan} {pieces : List Segment} {t : Token}
    (h : t ∈ (pieces.foldl step scan).tokens) :
    t ∈ scan.tokens ∨ ∃ piece ∈ pieces, piece.reading = .token t.kind t.literal ∧
      t.lexeme = String.ofList piece.text := by
  induction pieces generalizing scan with
  | nil => exact Or.inl h
  | cons piece pieces ih =>
      rw [List.foldl_cons] at h
      rcases ih h with hstep | ⟨found, hfound, hreading⟩
      · cases hreading : piece.reading with
        | token kind literal =>
            simp only [step, hreading, Array.mem_push] at hstep
            rcases hstep with hstep | rfl
            · exact Or.inl hstep
            · exact Or.inr ⟨piece, List.mem_cons_self, hreading, rfl⟩
        | blank => exact Or.inl (by simpa [step, hreading] using hstep)
        | fault fault => exact Or.inl (by simpa [step, hreading] using hstep)
      · exact Or.inr ⟨found, List.mem_cons_of_mem _ hfound, hreading⟩

theorem Scan.kind_ne_eof (source : String) :
    ∀ t ∈ (ofSource source).tokens, t.kind ≠ .eof := by
  intro t ht heof
  rcases exists_piece ht with hstart | ⟨piece, hpiece, hreading, -⟩
  · simp [start] at hstart
  · have hpieces := segments_forall (P := fun piece => ∀ literal,
      piece.reading ≠ .token .eof literal) Segment.cut_ne_eof source.toList
    exact hpieces piece hpiece t.literal (by rw [hreading, heof])

/-! ### Blank texts -/

namespace Segment

theorem isAlpha_iff {c : Char} :
    c.isAlpha = true ↔ 65 ≤ c.toNat ∧ c.toNat ≤ 90 ∨ 97 ≤ c.toNat ∧ c.toNat ≤ 122 := by
  have halpha : c.isAlpha = (c.isUpper || c.isLower) := rfl
  have hupper : c.isUpper = decide (c.val ≥ 65 ∧ c.val ≤ 90) := rfl
  have hlower : c.isLower = (decide (c.val ≥ 97) && decide (c.val ≤ 122)) := rfl
  simp only [halpha, hupper, hlower, Bool.or_eq_true, Bool.and_eq_true, decide_eq_true_eq,
    ge_iff_le, UInt32.le_iff_toNat_le]
  rfl

theorem isDigit_iff {c : Char} : c.isDigit = true ↔ 48 ≤ c.toNat ∧ c.toNat ≤ 57 := by
  have hdigit : c.isDigit = (decide (c.val ≥ 48) && decide (c.val ≤ 57)) := rfl
  simp only [hdigit, Bool.and_eq_true, decide_eq_true_eq, ge_iff_le, UInt32.le_iff_toNat_le]
  rfl

theorem inWord_of_isBlank {c : Char} (h : Text.isBlank c = true) : inWord c = false := by
  have hunderscore : c ≠ '_' := by
    rintro rfl
    exact absurd h (by decide)
  simp only [Text.isBlank, Bool.or_eq_true, Bool.and_eq_true, decide_eq_true_eq] at h
  have halpha : ¬c.isAlpha = true := by
    rw [isAlpha_iff]
    omega
  have hdigit : ¬c.isDigit = true := by
    rw [isDigit_iff]
    omega
  simp [inWord, startsWord, halpha, hdigit, hunderscore]

theorem single?_of_isBlank {c : Char} (h : Text.isBlank c = true) : single? c = none := by
  unfold single?
  split <;> first | rfl | exact absurd h (by decide)

theorem pair?_of_isBlank {c : Char} (h : Text.isBlank c = true) (d : Char) : pair? c d = none := by
  unfold pair?
  split <;> first | rfl | exact absurd h (by decide)

/-- A blank character is a piece by itself, and not a token. -/
theorem cut_of_isBlank {c : Char} (h : Text.isBlank c = true) (cs : List Char) :
    (cut c cs).2 = cs ∧ (cut c cs).1.token? = none := by
  have hhash : c ≠ '#' := by rintro rfl; exact absurd h (by decide)
  have hquote : ¬(c = '"' ∨ c = '\'') := by rintro (rfl | rfl) <;> exact absurd h (by decide)
  obtain ⟨hword, hdigit⟩ : startsWord c = false ∧ c.isDigit = false := by
    simpa [inWord] using inWord_of_isBlank h
  have hsign : sign c cs = (⟨[c], .fault .unexpectedCharacter⟩, cs) := by
    rcases cs with _ | ⟨d, cs⟩ <;> simp [sign, single?_of_isBlank h, pair?_of_isBlank h]
  unfold cut
  split
  · exact ⟨rfl, rfl⟩
  · simp [hdigit, hword, hsign, token?]

end Segment

theorem segments_token?_of_allBlank {cs : List Char} (h : ∀ c ∈ cs, Text.isBlank c = true) :
    ∀ piece ∈ segments cs, piece.token? = none := by
  induction cs with
  | nil => simp
  | cons c cs ih =>
      rw [List.forall_mem_cons] at h
      obtain ⟨hrest, htoken⟩ := Segment.cut_of_isBlank h.1 cs
      rw [segments_cons, hrest, List.forall_mem_cons]
      exact ⟨htoken, ih h.2⟩

/-- A blank text has no tokens. -/
theorem Scan.tokens_of_allBlank {source : String} (h : Text.allBlank source = true) :
    (ofSource source).tokens = #[] := by
  have htokens := tokens_foldl start (segments source.toList)
  have hnone : (segments source.toList).filterMap Segment.token? = [] := by
    rw [List.filterMap_eq_nil_iff]
    exact segments_token?_of_allBlank (by simpa [Text.allBlank] using h)
  rw [hnone, show start.tokens.toList = [] from rfl] at htokens
  simpa [ofSource] using htokens

end BracketScript
