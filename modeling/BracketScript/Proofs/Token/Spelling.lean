import BracketScript.Proofs.Token.Newline

/-!
# How tokens are spelled

A word is the keyword `self` if and only if it is spelled `self`; so a name is
never spelled like that.  This holds of all tokens of a source, since strings,
numbers and signs do not begin like a word.
-/

namespace BracketScript

/-- The keyword `self` and its spelling go together. -/
def Token.SelfSpelled (t : Token) : Prop :=
  t.kind = .selfKw ↔ t.lexeme = "self"

namespace Segment

theorem wordKind_eq_selfKw_iff (word : List Char) :
    wordKind word = .selfKw ↔ String.ofList word = "self" := by
  unfold wordKind
  split
  · next hword =>
    rw [hword]
    decide
  · unfold Kind.keyword?
    split <;> simp_all

theorem single?_ne_selfKw (c : Char) : single? c ≠ some .selfKw := by
  unfold single?
  split <;> decide

theorem pair?_ne_selfKw (c d : Char) : pair? c d ≠ some .selfKw := by
  unfold pair?
  split <;> decide

theorem isDigit_of_startsWord {c : Char} (h : startsWord c = true) : c.isDigit = false := by
  simp only [startsWord, Bool.or_eq_true, decide_eq_true_eq] at h
  rcases h with h | rfl
  · -- Letters come after all digits.
    rw [isAlpha_iff] at h
    rw [← Bool.not_eq_true, isDigit_iff]
    omega
  · rfl

/-- Words are cut as words. -/
theorem cut_word {c : Char} (h : startsWord c = true) (cs : List Char) :
    cut c cs =
      (⟨c :: (cs.span inWord).1, .token (wordKind (c :: (cs.span inWord).1)) none⟩,
        (cs.span inWord).2) := by
  have hblank : ¬(c = ' ' ∨ c = '\r' ∨ c = '\t' ∨ c = '\n') := by
    rintro (rfl | rfl | rfl | rfl) <;> simp [startsWord] at h
  have hcomment : c ≠ '#' := by
    rintro rfl
    simp [startsWord] at h
  have hstring : ¬(c = '"' ∨ c = '\'') := by
    rintro (rfl | rfl) <;> simp [startsWord] at h
  have hdigit := isDigit_of_startsWord h
  simp only [cut, hblank, hcomment, hstring, hdigit, h, if_false, if_true, Bool.false_eq_true]

theorem cut_of_startsWord {c : Char} (h : startsWord c = true) (cs : List Char) :
    (cut c cs).1.reading = .token (wordKind (cut c cs).1.text) none := by
  rw [cut_word h]

/-- A piece that is a token is `self` exactly if it is spelled so. -/
theorem cut_selfSpelled (c : Char) (cs : List Char) {kind : Kind} {literal : Option Literal}
    (h : (cut c cs).1.reading = .token kind literal) :
    kind = .selfKw ↔ String.ofList (cut c cs).1.text = "self" := by
  cases hstarts : startsWord c with
  | true =>
      rw [cut_of_startsWord hstarts] at h
      obtain ⟨rfl, -⟩ := Reading.token.inj h
      exact wordKind_eq_selfKw_iff _
  | false =>
      constructor
      · rintro rfl
        refine absurd h (cut_ne (by decide) (by decide) single?_ne_selfKw pair?_ne_selfKw ?_ cs _)
        simp [hstarts]
      · intro hself
        obtain ⟨tail, htext, -⟩ := splits_cut c cs
        have hchars := congrArg String.toList hself
        rw [htext, String.toList_ofList] at hchars
        have hfirst : c = 's' := (List.cons.inj hchars).1
        rw [hfirst] at hstarts
        cases hstarts

end Segment

theorem Scan.selfSpelled (source : String) : ∀ t ∈ (ofSource source).tokens, t.SelfSpelled := by
  intro t ht
  rcases exists_piece ht with hstart | ⟨piece, hpiece, hreading, hlexeme⟩
  · simp [start] at hstart
  · have hpieces := segments_forall (P := fun piece => ∀ kind literal,
      piece.reading = .token kind literal → (kind = .selfKw ↔ String.ofList piece.text = "self"))
      (fun c cs _ _ => Segment.cut_selfSpelled c cs) source.toList
    unfold Token.SelfSpelled
    rw [hlexeme]
    exact hpieces piece hpiece _ _ hreading

/-- All tokens of a source have the keyword `self` spelled `self`, and nothing
else. -/
theorem Token.selfSpelled_of_scan {source : String} {tokens : List Token}
    (h : Token.scan source = .ok tokens) : ∀ t ∈ tokens, t.SelfSpelled := by
  obtain ⟨-, rfl⟩ := Token.scan_eq_ok_iff.mp h
  intro t ht
  rcases List.mem_append.mp ht with ht | ht
  · exact Scan.selfSpelled source t (by simpa using ht)
  · obtain rfl := List.mem_singleton.mp ht
    simp [Token.SelfSpelled, Token.eof]

end BracketScript
