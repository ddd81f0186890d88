import BracketScript.Proofs.Token.Numeral
import BracketScript.Proofs.Token.Spelling
import Mathlib.Data.List.TakeWhile

/-!
# The forms of a token

`Lexeme` lists the texts that are a token when they stand alone, each with the
kind and the literal it has: signs and reserved words, which are in a table each,
names, strings and numbers.  It knows nothing of what stands around a token, nor of
how tokens are scanned.  The literal of a number is the double that its value is
rounded to.

Whatever is cut off a source as a token has one of these forms
(`lexeme_of_cut`), and a text of such a form is cut off whole wherever a space
or the end of the source follows it (`Lexeme.cut`).  The second fact is false
for other followers: before `>` the sign `-` is not cut off alone.
-/

namespace BracketScript

open Segment

namespace Kind

def signs : List (String × Kind) :=
  [("(", .leftParen), (")", .rightParen), ("[", .leftBracket), ("]", .rightBracket),
    ("\x7b", .leftBrace), ("\x7d", .rightBrace), ("+", .plus), ("-", .minus), ("*", .star),
    ("/", .slash), ("&", .bitAnd), ("|", .bitOr), ("~", .bitNeg), ("!", .bang), ("=", .equal),
    ("<", .lesser), (">", .greater), ("<=", .lesserEqual), (">=", .greaterEqual), ("<>", .unequal),
    (":=", .walrus), ("->", .arrow), (":", .colon), (";", .semicolon), (",", .comma),
    ("λ", .funcKw)]

def reservedWords : List (String × Kind) :=
  [("true", .trueKw), ("false", .falseKw), ("null", .nullKw), ("self", .selfKw), ("and", .andKw),
    ("or", .orKw), ("is", .isKw), ("if", .ifKw), ("elif", .elifKw), ("else", .elseKw),
    ("match", .matchKw), ("against", .againstKw), ("for", .forKw), ("while", .whileKw),
    ("func", .funcKw), ("lambda", .funcKw), ("struct", .structKw), ("return", .returnKw),
    ("import", .importKw)]

end Kind

/-- The radices that have a mark. -/
inductive Radix where
  | binary
  | hexadecimal

namespace Radix

def base : Radix → Nat
  | binary => 2
  | hexadecimal => 16

def mark : Radix → Char
  | binary => 'b'
  | hexadecimal => 'x'

theorem base_le (radix : Radix) : radix.base ≤ 16 := by
  cases radix <;> decide

theorem number_mark (radix : Radix) (cs : List Char) :
    Segment.number '0' (radix.mark :: cs) =
      Segment.radixNumber ['0', radix.mark] radix.base cs := by
  cases radix <;> rfl

end Radix

/-- What a name may begin with. -/
def Opens (c : Char) : Prop :=
  'a' ≤ c ∧ c ≤ 'z' ∨ 'A' ≤ c ∧ c ≤ 'Z' ∨ c = '_'

/-- A text that is a token by itself, with its kind and its literal. -/
inductive Lexeme : (text : List Char) → Kind → Option Literal → Prop
  | sign {text : String} {kind : Kind} (h : (text, kind) ∈ Kind.signs) :
      Lexeme text.toList kind none
  | reserved {word : String} {kind : Kind} (h : (word, kind) ∈ Kind.reservedWords) :
      Lexeme word.toList kind none
  | underscore : Lexeme ['_'] .underscore none
  | name {c : Char} {tail : List Char} (hfirst : Opens c)
      (htail : ∀ d ∈ tail, Opens d ∨ '0' ≤ d ∧ d ≤ '9')
      (hreserved : ∀ kind, (String.ofList (c :: tail), kind) ∉ Kind.reservedWords)
      (hunderscore : c :: tail ≠ ['_']) : Lexeme (c :: tail) .identifier none
  | string {delimiter : Char} {content : List Char} (hquote : delimiter = '"' ∨ delimiter = '\'')
      (hcontent : delimiter ∉ content) :
      Lexeme (delimiter :: content ++ [delimiter]) .str (some (.str (String.ofList content)))
  | marked {radix : Radix} {digits : List Char} {n : Nat} {x : Float}
      (hdigits : Text.Numeral radix.base digits n) (hfits : n < 2 ^ 64) (hx : Double.Rounded x n) :
      Lexeme ('0' :: radix.mark :: digits) .num (some (.num x))
  | whole {digits : List Char} {n : Nat} {x : Float} (hdigits : Text.Numeral 10 digits n)
      (hx : Double.Rounded x n) : Lexeme digits .num (some (.num x))
  | fraction {digits fraction : List Char} {n f : Nat} {x : Float}
      (hdigits : Text.Numeral 10 digits n) (hfraction : Text.Numeral 10 fraction f)
      (hx : Double.Rounded x (n + f / 10 ^ fraction.length)) :
      Lexeme (digits ++ '.' :: fraction) .num (some (.num x))

/-! ### Tables and classes of characters -/

namespace Kind

theorem keyword?_eq_some_iff {word : String} {kind : Kind} :
    keyword? word = some kind ↔ (word, kind) ∈ reservedWords := by
  constructor
  · intro h
    unfold keyword? at h
    split at h <;> cases h <;> decide
  · intro h
    have htable : ∀ entry ∈ reservedWords, keyword? entry.1 = some entry.2 := by decide
    exact htable _ h

end Kind

namespace Segment

theorem mem_signs_of_single? {c : Char} {kind : Kind} (h : single? c = some kind) :
    (String.ofList [c], kind) ∈ Kind.signs := by
  unfold single? at h
  split at h <;> cases h <;> decide

theorem mem_signs_of_pair? {c d : Char} {kind : Kind} (h : pair? c d = some kind) :
    (String.ofList [c, d], kind) ∈ Kind.signs := by
  unfold pair? at h
  split at h <;> cases h <;> decide

/-- A sign has one character or two. -/
theorem single_or_pair : ∀ entry ∈ Kind.signs,
    (∃ c, entry.1.toList = [c] ∧ single? c = some entry.2) ∨
      ∃ c d, entry.1.toList = [c, d] ∧ pair? c d = some entry.2 := by
  rw [Kind.signs]
  repeat rw [List.forall_mem_cons]
  and_intros
  all_goals first
    | exact Or.inl ⟨_, rfl, rfl⟩
    | exact Or.inr ⟨_, _, rfl, rfl⟩
    | exact List.forall_mem_nil _

theorem startsWord_iff {c : Char} : startsWord c = true ↔ Opens c := by
  rw [startsWord, Bool.or_eq_true, isAlpha_iff, decide_eq_true_eq]
  change _ ↔ 97 ≤ c.toNat ∧ c.toNat ≤ 122 ∨ 65 ≤ c.toNat ∧ c.toNat ≤ 90 ∨ c = '_'
  tauto

theorem inWord_iff {c : Char} : inWord c = true ↔ Opens c ∨ '0' ≤ c ∧ c ≤ '9' := by
  rw [inWord, Bool.or_eq_true, startsWord_iff, isDigit_iff]
  rfl

/-- A reserved word is a word, and has the kind it is reserved for. -/
theorem word_reserved : ∀ entry ∈ Kind.reservedWords,
    ∃ c tail, entry.1.toList = c :: tail ∧ startsWord c = true ∧ (∀ d ∈ tail, inWord d = true) ∧
      wordKind (c :: tail) = entry.2 := by
  rw [Kind.reservedWords]
  repeat rw [List.forall_mem_cons]
  and_intros
  all_goals first
    | exact ⟨_, _, rfl, by decide, List.all_eq_true.mp (by decide), by decide⟩
    | exact List.forall_mem_nil _

theorem wordKind_name {word : List Char}
    (hreserved : ∀ kind, (String.ofList word, kind) ∉ Kind.reservedWords)
    (hunderscore : word ≠ ['_']) : wordKind word = .identifier := by
  have hnone : Kind.keyword? (String.ofList word) = none := by
    refine Option.eq_none_iff_forall_ne_some.mpr fun kind hkind => ?_
    exact hreserved kind (Kind.keyword?_eq_some_iff.mp hkind)
  rw [wordKind, if_neg hunderscore, hnone, Option.getD_none]

theorem mem_span_fst {p : Char → Bool} {cs : List Char} {c : Char} (h : c ∈ (cs.span p).1) :
    p c = true := by
  rw [List.span_eq_takeWhile_dropWhile] at h
  exact List.mem_takeWhile_imp h

/-- What stops a span does not belong to it. -/
theorem span_snd_eq_cons {p : Char → Bool} {cs rest : List Char} {c : Char}
    (h : (cs.span p).2 = c :: rest) : p c = false := by
  have hhead := List.head?_dropWhile_not p cs
  simp only [List.span_eq_takeWhile_dropWhile] at h
  simpa [h] using hhead

/-- A span takes what belongs to it up to the first character that does not. -/
theorem span_front {p : Char → Bool} {front back : List Char} (hfront : ∀ c ∈ front, p c = true)
    (hback : ∀ c ∈ back.head?, p c = false) : (front ++ back).span p = (front, back) := by
  rw [List.span_eq_takeWhile_dropWhile, List.takeWhile_append_of_pos hfront,
    List.dropWhile_append_of_pos hfront]
  cases back with
  | nil => simp
  | cons c back =>
      have hc : p c = false := hback c (by simp)
      simp [hc]

/-! ### What is cut off has one of the forms -/

theorem lexeme_of_string {delimiter : Char} {cs : List Char} {kind : Kind}
    {literal : Option Literal} (hquote : delimiter = '"' ∨ delimiter = '\'')
    (h : (string delimiter cs).1.reading = .token kind literal) :
    Lexeme (string delimiter cs).1.text kind literal := by
  rcases hrest : (cs.span (· ≠ delimiter)).2 with _ | ⟨close, rest⟩
  · simp only [string, hrest] at h
    cases h
  · have hclose : close = delimiter := by simpa using span_snd_eq_cons hrest
    subst hclose
    simp only [string, hrest] at h ⊢
    obtain ⟨rfl, rfl⟩ := Reading.token.inj h
    refine .string hquote fun hmem => ?_
    simpa using mem_span_fst hmem

theorem lexeme_of_radixNumber (radix : Radix) {cs : List Char} {kind : Kind}
    {literal : Option Literal}
    (h : (radixNumber ['0', radix.mark] radix.base cs).1.reading = .token kind literal) :
    Lexeme (radixNumber ['0', radix.mark] radix.base cs).1.text kind literal := by
  simp only [radixNumber] at h ⊢
  split at h
  · cases h
  · next hvalid =>
    obtain ⟨hsome, hfits⟩ := not_or.mp hvalid
    obtain ⟨rfl, rfl⟩ := Reading.token.inj h
    have hdigits := Text.numeral_positional radix.base_le hsome fun d hd => mem_span_fst hd
    exact .marked hdigits (Nat.lt_of_not_le hfits)
      ((Double.packs_ofNat _).rounded (Nat.cast_nonneg _))

theorem lexeme_of_decimalNumber {c : Char} {cs : List Char} {kind : Kind}
    {literal : Option Literal} (hc : c.isDigit = true)
    (h : (decimalNumber c cs).1.reading = .token kind literal) :
    Lexeme (decimalNumber c cs).1.text kind literal := by
  have hdigits : ∀ d ∈ c :: (cs.span Char.isDigit).1, d.isDigit = true := by
    rw [List.forall_mem_cons]
    exact ⟨hc, fun d hd => mem_span_fst hd⟩
  have hwhole := Text.numeral_decimal (List.cons_ne_nil c _) hdigits
  by_cases hpoint : ∃ after, (cs.span Char.isDigit).2 = '.' :: after
  · obtain ⟨after, hafter⟩ := hpoint
    rcases hfraction : (after.span Char.isDigit).1 with _ | ⟨e, fraction⟩
    · simp [decimalNumber, -List.span_eq_takeWhile_dropWhile, hafter, hfraction] at h
    · simp only [decimalNumber, hafter, hfraction] at h ⊢
      obtain ⟨rfl, rfl⟩ := Reading.token.inj h
      have hfraction := Text.numeral_decimal (List.cons_ne_nil e fraction) fun d hd =>
        mem_span_fst (hfraction ▸ hd)
      exact .fraction hwhole hfraction ((packs_decimal hwhole hfraction).rounded (by positivity))
  · rw [decimalNumber_of_noPoint (not_exists.mp hpoint)] at h ⊢
    obtain ⟨rfl, rfl⟩ := Reading.token.inj h
    exact .whole hwhole ((packs_whole hwhole).rounded (Nat.cast_nonneg _))

theorem lexeme_of_number {c : Char} {cs : List Char} {kind : Kind} {literal : Option Literal}
    (hc : c.isDigit = true) (h : (number c cs).1.reading = .token kind literal) :
    Lexeme (number c cs).1.text kind literal := by
  fun_cases number c cs with
  | case1 cs => exact lexeme_of_radixNumber .binary h
  | case2 cs => exact lexeme_of_radixNumber .hexadecimal h
  | case3 _ _ hb hx =>
      rw [number.eq_3 c cs hb hx] at h
      exact lexeme_of_decimalNumber hc h

theorem lexeme_of_sign {c : Char} {cs : List Char} {kind : Kind} {literal : Option Literal}
    (h : (sign c cs).1.reading = .token kind literal) :
    Lexeme (sign c cs).1.text kind literal := by
  have halone : ∀ kind', single? c = some kind' → Reading.token kind' none = .token kind literal →
      Lexeme [c] kind literal := by
    intro kind' hc heq
    obtain ⟨rfl, rfl⟩ := Reading.token.inj heq
    simpa using Lexeme.sign (mem_signs_of_single? hc)
  rcases cs with _ | ⟨d, cs⟩
  · cases hc : single? c with
    | none => simp [sign, hc] at h
    | some kind' => simpa [sign, hc] using halone kind' hc (by simpa [sign, hc] using h)
  · cases hd : pair? c d with
    | some kind' =>
        simp only [sign, hd] at h ⊢
        obtain ⟨rfl, rfl⟩ := Reading.token.inj h
        simpa using Lexeme.sign (mem_signs_of_pair? hd)
    | none =>
        cases hc : single? c with
        | none => simp [sign, hd, hc] at h
        | some kind' => simpa [sign, hd, hc] using halone kind' hc (by simpa [sign, hd, hc] using h)

theorem lexeme_of_word {c : Char} {tail : List Char} (hfirst : startsWord c = true)
    (htail : ∀ d ∈ tail, inWord d = true) : Lexeme (c :: tail) (wordKind (c :: tail)) none := by
  by_cases hunderscore : c :: tail = ['_']
  · rw [hunderscore]
    exact .underscore
  · cases hkeyword : Kind.keyword? (String.ofList (c :: tail)) with
    | some kind =>
        have hkind : wordKind (c :: tail) = kind := by
          rw [wordKind, if_neg hunderscore, hkeyword, Option.getD_some]
        rw [hkind]
        simpa using Lexeme.reserved (Kind.keyword?_eq_some_iff.mp hkeyword)
    | none =>
        have hreserved : ∀ kind, (String.ofList (c :: tail), kind) ∉ Kind.reservedWords := by
          intro kind hmem
          rw [Kind.keyword?_eq_some_iff.mpr hmem] at hkeyword
          cases hkeyword
        rw [wordKind_name hreserved hunderscore]
        exact .name (startsWord_iff.mp hfirst) (fun d hd => inWord_iff.mp (htail d hd)) hreserved
          hunderscore

/-- A piece that is a token has one of the forms of a token. -/
theorem lexeme_of_cut {c : Char} {cs : List Char} {kind : Kind} {literal : Option Literal}
    (h : (cut c cs).1.reading = .token kind literal) : Lexeme (cut c cs).1.text kind literal := by
  unfold cut at h ⊢
  split at h
  · cases h
  · split at h
    · cases h
    · next hblank hcomment =>
      simp only [hblank, hcomment, if_false]
      split at h
      · next hquote =>
        simpa only [hquote, if_true] using lexeme_of_string hquote h
      · next hquote =>
        split at h
        · next hdigit =>
          simpa only [hquote, hdigit, if_false, if_true] using lexeme_of_number hdigit h
        · next hdigit =>
          split at h
          · next hword =>
            simp only [hquote, hdigit, hword, if_false, if_true]
            obtain ⟨rfl, rfl⟩ := Reading.token.inj h
            exact lexeme_of_word hword fun d hd => mem_span_fst hd
          · next hword =>
            simp only [hquote, hdigit, hword, if_false, Bool.false_eq_true]
            exact lexeme_of_sign h

/-! ### The forms are cut off whole -/

/-- Characters that are signs or the beginning of signs start nothing else. -/
theorem cut_eq_sign {c : Char} (h : single? c ≠ none) (cs : List Char) :
    cut c cs = sign c cs := by
  unfold single? at h
  split at h <;> first | rfl | exact absurd rfl h

theorem single?_of_pair? {c d : Char} {kind : Kind} (h : pair? c d = some kind) :
    single? c ≠ none := by
  unfold pair? at h
  split at h <;> first | decide | cases h

theorem cut_of_isDigit {c : Char} (h : c.isDigit = true) (cs : List Char) :
    cut c cs = number c cs := by
  rw [isDigit_iff] at h
  have hne : ∀ d : Char, d.toNat < 48 → c ≠ d := by
    rintro d hd rfl
    omega
  have hblank : ¬(c = ' ' ∨ c = '\r' ∨ c = '\t' ∨ c = '\n') := by
    rintro (rfl | rfl | rfl | rfl) <;> revert h <;> decide
  have hcomment : c ≠ '#' := hne '#' (by decide)
  have hquote : ¬(c = '"' ∨ c = '\'') := not_or.mpr ⟨hne '"' (by decide), hne '\'' (by decide)⟩
  rw [← isDigit_iff] at h
  simp only [cut, hblank, hcomment, hquote, h, if_false, if_true]

/-- The digits behind a radix mark are one piece, whatever number they denote. -/
theorem cut_marked {radix : Radix} {digits rest : List Char} {n : Nat}
    (hdigits : Text.Numeral radix.base digits n) (hrest : Text.NoDigit radix.base rest) :
    cut '0' (radix.mark :: digits ++ rest) =
      (⟨'0' :: radix.mark :: digits,
        if n < 2 ^ 64 then .token .num (some (.num (Float.ofNat n)))
        else .fault .invalidNumber⟩, rest) := by
  have hspan := span_front (hdigits.isDigitOf radix.base_le) (hrest.isDigitOf radix.base_le)
  rw [cut_of_isDigit rfl, List.cons_append, radix.number_mark]
  simp only [radixNumber, hspan, Text.positional_eq radix.base_le hdigits,
    hdigits.ne_nil, false_or]
  by_cases hfits : n < 2 ^ 64
  · have hvalid : ¬Nat.pow 2 64 ≤ n := Nat.not_le_of_lt hfits
    rw [if_neg hvalid, if_pos hfits]
    rfl
  · have hlarge : Nat.pow 2 64 ≤ n := Nat.le_of_not_lt hfits
    rw [if_pos hlarge, if_neg hfits]
    rfl

end Segment

namespace Lexeme

/-- The end of the source, or a space, follows. -/
def Ends (rest : List Char) : Prop :=
  ∀ c ∈ rest.head?, c = ' '

theorem Ends.head {rest : List Char} (h : Ends rest) {p : Char → Bool} (hp : p ' ' = false) :
    ∀ c ∈ rest.head?, p c = false := by
  intro c hc
  rw [h c hc, hp]

theorem pair?_space (c : Char) : pair? c ' ' = none := by
  simp [pair?]

theorem sign_single {c : Char} {kind : Kind} (h : single? c = some kind) {rest : List Char}
    (hrest : Ends rest) : Segment.sign c rest = (⟨[c], .token kind none⟩, rest) := by
  cases rest with
  | nil => simp [Segment.sign, h]
  | cons d rest =>
      obtain rfl := hrest d (by simp)
      simp [Segment.sign, pair?_space, h]

theorem string_closed {delimiter : Char} {content : List Char} (hcontent : delimiter ∉ content)
    (rest : List Char) :
    Segment.string delimiter (content ++ delimiter :: rest) =
      (⟨delimiter :: content ++ [delimiter],
        .token .str (some (.str (String.ofList content)))⟩, rest) := by
  have hspan : (content ++ delimiter :: rest).span (· ≠ delimiter) =
      (content, delimiter :: rest) := by
    refine span_front (fun c hc => ?_) (by simp)
    simpa using ne_of_mem_of_not_mem hc hcontent
  simp only [Segment.string, hspan]

theorem Ends.noDigit {rest : List Char} (h : Ends rest) {radix : Nat} (hradix : radix ≤ 16) :
    Text.NoDigit radix rest := by
  intro c hc digit hdigit hstands
  refine hstands.imp (P := fun _ c => c ≠ ' ') (by decide) (Nat.lt_of_lt_of_le hdigit hradix) ?_
  exact h c hc

theorem decimalNumber_whole {c : Char} {digits rest : List Char}
    (hdigits : ∀ d ∈ digits, d.isDigit = true) (hrest : Ends rest) :
    decimalNumber c (digits ++ rest) =
      (⟨c :: digits, .token .num (some (.num (decimal (c :: digits) [])))⟩, rest) := by
  have hspan := span_front hdigits (hrest.head (p := Char.isDigit) rfl)
  have hpoint : ∀ after, ((digits ++ rest).span Char.isDigit).2 ≠ '.' :: after := by
    intro after hafter
    rw [hspan] at hafter
    have hhead := hrest '.' (by simp [show rest = '.' :: after from hafter])
    revert hhead
    decide
  rw [decimalNumber_of_noPoint hpoint, hspan]

theorem decimalNumber_fraction {c : Char} {digits fraction rest : List Char}
    (hdigits : ∀ d ∈ digits, d.isDigit = true) (hsome : fraction ≠ [])
    (hfraction : ∀ d ∈ fraction, d.isDigit = true) (hrest : Ends rest) :
    decimalNumber c (digits ++ '.' :: (fraction ++ rest)) =
      (⟨c :: digits ++ '.' :: fraction,
        .token .num (some (.num (decimal (c :: digits) fraction)))⟩, rest) := by
  have hwhole : (digits ++ '.' :: (fraction ++ rest)).span Char.isDigit =
      (digits, '.' :: (fraction ++ rest)) := span_front hdigits (by simp)
  have hspan := span_front hfraction (hrest.head (p := Char.isDigit) rfl)
  obtain ⟨e, fraction, rfl⟩ := List.exists_cons_of_ne_nil hsome
  simp only [decimalNumber, hwhole, hspan]

/-- A number with no radix mark is a decimal number. -/
theorem number_decimal {c : Char} {cs : List Char} (h : ∀ d ∈ cs.head?, d ≠ 'b' ∧ d ≠ 'x') :
    number c cs = decimalNumber c cs := by
  refine number.eq_3 c cs (fun ds _ hds => ?_) (fun ds _ hds => ?_)
  · exact (h 'b' (by simp [hds])).1 rfl
  · exact (h 'x' (by simp [hds])).2 rfl

/-- Behind the digits of a number there is no radix mark. -/
theorem head?_noMark {digits rest : List Char} (hdigits : ∀ d ∈ digits, d.isDigit = true)
    (hrest : ∀ d ∈ rest.head?, d ≠ 'b' ∧ d ≠ 'x') :
    ∀ d ∈ (digits ++ rest).head?, d ≠ 'b' ∧ d ≠ 'x' := by
  cases digits with
  | nil => exact hrest
  | cons e digits =>
      have he := hdigits e (by simp)
      intro d hd
      obtain rfl : e = d := by simpa using hd
      constructor <;> rintro rfl <;> revert he <;> decide

theorem cut_front {c : Char} {tail rest : List Char} (hfirst : startsWord c = true)
    (htail : ∀ d ∈ tail, inWord d = true) (hrest : Ends rest) :
    Segment.cut c (tail ++ rest) =
      (⟨c :: tail, .token (wordKind (c :: tail)) none⟩, rest) := by
  rw [cut_word hfirst, span_front htail (hrest.head rfl)]

/-- A text in one of the forms of a token is cut off whole where a space or the
end of the source follows. -/
theorem cut {c : Char} {tail : List Char} {kind : Kind} {literal : Option Literal}
    (h : Lexeme (c :: tail) kind literal) {rest : List Char} (hrest : Ends rest) :
    Segment.cut c (tail ++ rest) = (⟨c :: tail, .token kind literal⟩, rest) := by
  have hmark : ∀ d ∈ rest.head?, d ≠ 'b' ∧ d ≠ 'x' := by
    intro d hd
    rw [hrest d hd]
    decide
  generalize htext : c :: tail = text at h
  cases h with
  | sign hkind =>
      rcases single_or_pair _ hkind with ⟨d, htoList, hd⟩ | ⟨d, e, htoList, hde⟩
      · rw [htoList] at htext ⊢
        obtain ⟨rfl, rfl⟩ := List.cons.inj htext
        rw [cut_eq_sign (by simp [hd])]
        exact sign_single hd hrest
      · rw [htoList] at htext ⊢
        obtain ⟨rfl, rfl⟩ := List.cons.inj htext
        rw [cut_eq_sign (single?_of_pair? hde)]
        simp [Segment.sign, hde]
  | reserved hkind =>
      obtain ⟨d, tail', htoList, hfirst, htail, hword⟩ := word_reserved _ hkind
      rw [htoList] at htext ⊢
      obtain ⟨rfl, rfl⟩ := List.cons.inj htext
      rw [cut_front hfirst htail hrest, hword]
  | underscore =>
      obtain ⟨rfl, rfl⟩ := List.cons.inj htext
      exact cut_front rfl (by simp) hrest
  | name hfirst htail hreserved hunderscore =>
      obtain ⟨rfl, rfl⟩ := List.cons.inj htext
      rw [cut_front (startsWord_iff.mpr hfirst) (fun d hd => inWord_iff.mpr (htail d hd)) hrest,
        wordKind_name hreserved hunderscore]
  | @string delimiter content hquote hcontent =>
      rw [List.cons_append] at htext ⊢
      obtain ⟨rfl, rfl⟩ := List.cons.inj htext
      have hcut : ∀ cs, Segment.cut c cs = Segment.string c cs := by
        intro cs
        rcases hquote with rfl | rfl <;> rfl
      rw [hcut, List.append_assoc]
      exact string_closed hcontent rest
  | @marked radix digits n x hdigits hfits hx =>
      obtain ⟨rfl, rfl⟩ := List.cons.inj htext
      rw [cut_marked hdigits (hrest.noDigit radix.base_le), if_pos hfits,
        (Double.packs_ofNat n).eq_of_rounded (Nat.cast_nonneg n) hx]
  | whole hnumeral hx =>
      subst htext
      have hdigits := hnumeral.isDigit
      rw [List.forall_mem_cons] at hdigits
      rw [cut_of_isDigit hdigits.1, number_decimal (head?_noMark hdigits.2 hmark),
        (packs_whole hnumeral).eq_of_rounded (Nat.cast_nonneg _) hx]
      exact decimalNumber_whole hdigits.2 hrest
  | @fraction digits fraction n f x hnumeral hfraction hx =>
      rw [(packs_decimal hnumeral hfraction).eq_of_rounded (by positivity) hx]
      have hdigits := hnumeral.isDigit
      obtain ⟨e, digits, rfl⟩ := List.exists_cons_of_ne_nil hnumeral.ne_nil
      rw [List.cons_append] at htext ⊢
      obtain ⟨rfl, rfl⟩ := List.cons.inj htext
      rw [List.forall_mem_cons] at hdigits
      have hpoint : ∀ d ∈ ('.' :: (fraction ++ rest)).head?, d ≠ 'b' ∧ d ≠ 'x' := by
        simp
      rw [List.append_assoc, List.cons_append, cut_of_isDigit hdigits.1,
        number_decimal (head?_noMark hdigits.2 hpoint)]
      exact decimalNumber_fraction hdigits.2 hfraction.ne_nil hfraction.isDigit hrest

theorem text_ne_nil {text : List Char} {kind : Kind} {literal : Option Literal}
    (h : Lexeme text kind literal) : text ≠ [] := by
  cases h with
  | sign hkind =>
      rcases single_or_pair _ hkind with ⟨d, htoList, -⟩ | ⟨d, e, htoList, -⟩ <;> simp [htoList]
  | reserved hkind =>
      obtain ⟨d, tail, htoList, -⟩ := word_reserved _ hkind
      simp [htoList]
  | whole hdigits _ => exact hdigits.ne_nil
  | _ => simp

/-- The text alone decides on kind and literal. -/
theorem unique {text : List Char} {kind kind' : Kind} {literal literal' : Option Literal}
    (h : Lexeme text kind literal) (h' : Lexeme text kind' literal') :
    kind = kind' ∧ literal = literal' := by
  obtain ⟨c, tail, rfl⟩ := List.exists_cons_of_ne_nil h.text_ne_nil
  have hends : Ends [] := by simp [Ends]
  have hcut := (h.cut hends).symm.trans (h'.cut hends)
  simpa using hcut

end Lexeme

/-- Every token of a source has one of the forms of a token. -/
theorem Scan.lexeme_of_mem {source : String} {t : Token} (h : t ∈ (ofSource source).tokens) :
    Lexeme t.lexeme.toList t.kind t.literal := by
  rcases exists_piece h with hstart | ⟨piece, hpiece, hreading, hlexeme⟩
  · simp [start] at hstart
  · have hpieces := segments_forall (P := fun piece => ∀ kind literal,
      piece.reading = .token kind literal → Lexeme piece.text kind literal)
      (fun c cs _ _ => lexeme_of_cut) source.toList
    rw [hlexeme, String.toList_ofList]
    exact hpieces piece hpiece _ _ hreading

end BracketScript
