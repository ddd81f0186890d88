import BracketScript.Proofs.Grammar.Lines
import BracketScript.Proofs.Token.Layout

/-!
# Writing tokens down and scanning them again

Tokens that are written one after the other, with a space between any two of
them, are scanned as these tokens, whatever stands next to whatever: a lexeme is
cut off whole where a space follows it, and the space is a piece by itself.  So
scanning a source, writing its tokens down and scanning again changes lines only.

One space is needed.  Without it, `-` and `>` would come back as an arrow.
-/

namespace BracketScript

open Segment

/-- A token that occurs in some source without faults. -/
def Token.Scannable (t : Token) : Prop :=
  ∃ source tokens, Token.scan source = .ok tokens ∧ t ∈ tokens

/-- The piece that a token is cut from. -/
def Token.piece (t : Token) : Segment :=
  ⟨t.lexeme.toList, .token t.kind t.literal⟩

/-- Tokens as a text, with a space between any two of them. -/
def Token.respelled (tokens : List Token) : String :=
  " ".intercalate (tokens.map Token.lexeme)

theorem Token.Scannable.lexeme {t : Token} (h : t.Scannable) (hkind : t.kind ≠ .eof) :
    Lexeme t.lexeme.toList t.kind t.literal := by
  obtain ⟨source, tokens, hscan, ht⟩ := h
  obtain ⟨-, rfl⟩ := Token.scan_eq_ok_iff.mp hscan
  rcases List.mem_append.mp ht with ht | ht
  · exact Scan.lexeme_of_mem (Array.mem_toList_iff.mp ht)
  · obtain rfl := List.mem_singleton.mp ht
    exact absurd rfl hkind

/-! ### The pieces of the text -/

theorem segments_lexeme {text : List Char} {kind : Kind} {literal : Option Literal}
    (h : Lexeme text kind literal) {rest : List Char} (hrest : Lexeme.Ends rest) :
    segments (text ++ rest) = ⟨text, .token kind literal⟩ :: segments rest := by
  obtain ⟨c, tail, rfl⟩ := List.exists_cons_of_ne_nil h.text_ne_nil
  rw [List.cons_append, segments_cons, h.cut hrest]

theorem segments_space (rest : List Char) :
    segments (' ' :: rest) = ⟨[' '], .blank⟩ :: segments rest :=
  segments_cons ' ' rest

theorem segments_respelled {tokens : List Token}
    (h : ∀ t ∈ tokens, Lexeme t.lexeme.toList t.kind t.literal) :
    segments (Token.respelled tokens).toList =
      (tokens.map Token.piece).intersperse ⟨[' '], .blank⟩ := by
  unfold Token.respelled
  rw [String.toList_intercalate, List.map_map]
  induction tokens with
  | nil => rfl
  | cons t tokens ih =>
      rw [List.forall_mem_cons] at h
      cases tokens with
      | nil =>
          have hlast : segments (t.lexeme.toList ++ []) = t.piece :: segments [] :=
            segments_lexeme h.1 (by simp [Lexeme.Ends])
          simpa using hlast
      | cons u tokens =>
          have hnext := ih h.2
          simp only [List.map_cons, List.intercalate_cons_cons, List.intersperse_cons_cons,
            Function.comp_apply] at hnext ⊢
          rw [List.append_assoc, segments_lexeme h.1 (by simp [Lexeme.Ends])]
          exact congrArg (t.piece :: ·) ((segments_space _).trans (congrArg _ hnext))

/-! ### What is scanned of them -/

/-- The tokens, lines left out, are those of the pieces. -/
theorem Scan.sansLine_foldl (scan : Scan) (pieces : List Segment) :
    (pieces.foldl step scan).tokens.toList.map Token.sansLine =
      scan.tokens.toList.map Token.sansLine ++
        pieces.filterMap fun piece => piece.token?.map fun (kind, literal) =>
          ⟨kind, String.ofList piece.text, literal, 0⟩ := by
  induction pieces generalizing scan with
  | nil => simp
  | cons piece pieces ih =>
      rw [List.foldl_cons, ih]
      cases hreading : piece.reading <;> simp [step, Segment.token?, hreading, Token.sansLine]

theorem Token.filterMap_intersperse_piece {β : Type} (f : Segment → Option β)
    (hspace : f ⟨[' '], .blank⟩ = none) (tokens : List Token) :
    ((tokens.map Token.piece).intersperse ⟨[' '], .blank⟩).filterMap f =
      tokens.filterMap (fun t => f t.piece) := by
  induction tokens with
  | nil => rfl
  | cons t tokens ih =>
      cases tokens with
      | nil => simp [List.filterMap_cons]
      | cons u tokens => simp_all [List.filterMap_cons]

/-- Tokens in their forms are scanned as they were, lines apart. -/
theorem Token.scan_of_lexemes {tokens : List Token}
    (h : ∀ t ∈ tokens, Lexeme t.lexeme.toList t.kind t.literal) :
    ∃ again line, Token.scan (Token.respelled tokens) = .ok (again ++ [Token.eof line]) ∧
      again.map Token.sansLine = tokens.map Token.sansLine := by
  have hpieces := segments_respelled h
  have herrors : (Scan.ofSource (Token.respelled tokens)).errors = #[] := by
    have hfaults : (Scan.ofSource (Token.respelled tokens)).errors.toList.map SyntaxError.fault =
        [] := by
      rw [Scan.ofSource, Scan.errors_foldl, hpieces, Token.filterMap_intersperse_piece _ rfl]
      simp [Scan.start, Segment.fault?, Token.piece]
    simpa using hfaults
  refine ⟨_, _, Token.scan_eq_ok_iff.mpr ⟨herrors, rfl⟩, ?_⟩
  rw [Scan.ofSource, Scan.sansLine_foldl, hpieces, Token.filterMap_intersperse_piece _ rfl]
  simp [Scan.start, Segment.token?, Token.piece, Token.sansLine]

theorem Token.not_mem_respelled {tokens : List Token} {c : Char} (hc : c ≠ ' ')
    (h : ∀ t ∈ tokens, c ∉ t.lexeme.toList) : c ∉ (Token.respelled tokens).toList := by
  rw [Token.respelled, String.toList_intercalate, List.map_map]
  induction tokens with
  | nil => simp
  | cons t tokens ih =>
      rw [List.forall_mem_cons] at h
      cases tokens with
      | nil => simpa using h.1
      | cons u tokens =>
          have hrest := ih h.2
          simp only [List.map_cons, List.intercalate_cons_cons, Function.comp_apply,
            List.mem_append] at hrest ⊢
          rintro ((hfirst | hspace) | hlater)
          · exact h.1 hfirst
          · exact hc (by simpa using hspace)
          · exact hrest hlater

theorem Token.map_sansLine_inj {tokens again : List Token} {line : Nat}
    (h : again.map Token.sansLine = tokens.map Token.sansLine) (hagain : ∀ t ∈ again, t.line = line)
    (htokens : ∀ t ∈ tokens, t.line = line) : again = tokens := by
  have hback : ∀ ts : List Token, (∀ t ∈ ts, t.line = line) →
      (ts.map Token.sansLine).map (fun t => { t with line := line }) = ts := by
    intro ts hts
    rw [List.map_map]
    refine (List.map_congr_left fun t ht => ?_).trans (List.map_id ts)
    simp only [Function.comp_apply, Token.sansLine, ← hts t ht, id]
  rw [← hback again hagain, h, hback tokens htokens]

/-- Tokens of the first line come back as they are. -/
theorem Token.scan_of_firstLine {tokens : List Token}
    (h : ∀ t ∈ tokens, Lexeme t.lexeme.toList t.kind t.literal)
    (hline : ∀ t ∈ tokens, t.line = 1) (hnewline : ∀ t ∈ tokens, '\n' ∉ t.lexeme.toList) :
    Token.scan (Token.respelled tokens) = .ok (tokens ++ [Token.eof 1]) := by
  obtain ⟨again, line, hscan, hsame⟩ := Token.scan_of_lexemes h
  have hlast : (Scan.ofSource (Token.respelled tokens)).line = 1 := by
    rw [Scan.line_ofSource,
      List.count_eq_zero.mpr (Token.not_mem_respelled (by decide) hnewline)]
  have horder : (Scan.ofSource (Token.respelled tokens)).InOrder := Scan.inOrder_start.foldl _
  obtain ⟨-, htokens⟩ := Token.scan_eq_ok_iff.mp hscan
  obtain ⟨rfl, heof⟩ := List.append_inj' htokens rfl
  have hone : ∀ t ∈ (Scan.ofSource (Token.respelled tokens)).tokens.toList, t.line = 1 := by
    intro t ht
    exact Nat.le_antisymm (hlast ▸ horder.passed t ht) (horder.tokensBegun t ht)
  rw [hscan, heof, hlast, Token.map_sansLine_inj hsame hone hline]

/-- Scanning undoes writing down: tokens that occur in sources, in any order,
come back if they are written with spaces between them.  In particular the tokens
of a source come back, lines apart. -/
theorem Token.scan_respelled :
    (∀ tokens : List Token, (∀ t ∈ tokens, t.Scannable ∧ t.kind ≠ .eof) →
      ∃ again line, Token.scan (Token.respelled tokens) = .ok (again ++ [Token.eof line]) ∧
        again.map Token.sansLine = tokens.map Token.sansLine) ∧
    ∀ source tokens, Token.scan source = .ok tokens →
      ∃ again, Token.scan (Token.respelled tokens.dropLast) = .ok again ∧
        again.map Token.sansLine = tokens.map Token.sansLine := by
  constructor
  · intro tokens h
    exact Token.scan_of_lexemes fun t ht => (h t ht).1.lexeme (h t ht).2
  · intro source tokens hscan
    obtain ⟨-, rfl⟩ := Token.scan_eq_ok_iff.mp hscan
    have hlexemes : ∀ t ∈ (Scan.ofSource source).tokens.toList,
        Lexeme t.lexeme.toList t.kind t.literal :=
      fun t ht => Scan.lexeme_of_mem (Array.mem_toList_iff.mp ht)
    obtain ⟨again, line, hagain, hsame⟩ := Token.scan_of_lexemes hlexemes
    rw [List.dropLast_concat]
    refine ⟨_, hagain, ?_⟩
    rw [List.map_append, List.map_append, hsame]
    rfl

/-- A minus sign, a sign that would make it an arrow, and a string that looks
like a comment and holds the other delimiter. -/
theorem Token.scan_respelled_minus :
    ∃ again line,
      Token.scan "- > '# \"\n'" = .ok (again ++ [Token.eof line]) ∧
      again.map Token.sansLine =
        [⟨.minus, "-", none, 0⟩, ⟨.greater, ">", none, 0⟩,
          ⟨.str, "'# \"\n'", some (.str "# \"\n"), 0⟩] := by
  have hminus : Token.scan "-" = .ok [⟨.minus, "-", none, 1⟩, .eof 1] := rfl
  have hgreater : Token.scan ">" = .ok [⟨.greater, ">", none, 1⟩, .eof 1] := rfl
  have hstring : Token.scan "'# \"\n'" =
      .ok [⟨.str, "'# \"\n'", some (.str "# \"\n"), 2⟩, .eof 2] := rfl
  let tokens : List Token := [⟨.minus, "-", none, 1⟩, ⟨.greater, ">", none, 1⟩,
    ⟨.str, "'# \"\n'", some (.str "# \"\n"), 2⟩]
  have hscannable : ∀ t ∈ tokens, t.Scannable ∧ t.kind ≠ .eof := by
    simp only [tokens, List.forall_mem_cons]
    exact ⟨⟨⟨_, _, hminus, by simp⟩, nofun⟩, ⟨⟨_, _, hgreater, by simp⟩, nofun⟩,
      ⟨⟨_, _, hstring, by simp⟩, nofun⟩, nofun⟩
  have htext : Token.respelled tokens = "- > '# \"\n'" := by
    rw [← String.toList_inj, Token.respelled, String.toList_intercalate]
    rfl
  have hagain := Token.scan_respelled.1 tokens hscannable
  rw [htext] at hagain
  exact hagain

end BracketScript
