import BracketScript.Json
import BracketScript.Proofs.Decimal.Reading

/-!
# JSON texts can be told apart

A JSON tree whose doubles are all finite is determined by its indented text
(`Json.pretty_injective`).  The text of a value shows where it ends: strings end with
the first quote that is not escaped, other scalars in front of a comma or a new
line, lists and objects with their closing bracket.  So one text in front of
another can be taken off in one way only (`Json.separable`).
-/

namespace BracketScript

namespace Text

/-! ### Quoted texts -/

/-- The value of a hexadecimal digit. -/
def hexValue (c : Char) : Nat :=
  if c.isDigit then c.toNat - 48 else c.toNat - 87

/-- Reads one character of a JSON string. -/
def unescape : List Char → Char × List Char
  | '\\' :: 'n' :: cs => ('\n', cs)
  | '\\' :: 'r' :: cs => ('\r', cs)
  | '\\' :: 't' :: cs => ('\t', cs)
  | '\\' :: 'b' :: cs => ('\x08', cs)
  | '\\' :: 'f' :: cs => ('\x0c', cs)
  | '\\' :: 'u' :: _ :: _ :: high :: low :: cs =>
    (Char.ofNat (16 * hexValue high + hexValue low), cs)
  | '\\' :: c :: cs => (c, cs)
  | c :: cs => (c, cs)
  | [] => ('"', [])

theorem hexValue_digitChar {n : Nat} (h : n < 16) : hexValue (Nat.digitChar n) = n := by
  have hall : ∀ n < 16, hexValue (Nat.digitChar n) = n := by decide
  exact hall n h

theorem unescape_jsonChar (c : Char) (cs : List Char) :
    unescape (jsonChar c ++ cs) = (c, cs) := by
  unfold jsonChar
  split
  case h_8 =>
    split
    · next hcontrol =>
        simp only [List.cons_append, List.nil_append, unescape]
        rw [hexValue_digitChar (by omega), hexValue_digitChar (by omega), Nat.div_add_mod,
          Char.ofNat_toNat]
    · rw [List.singleton_append]
      unfold unescape
      split <;> simp_all
  all_goals rfl

theorem jsonChar_front (c : Char) : ∃ a cs, jsonChar c = a :: cs ∧ a ≠ '"' := by
  unfold jsonChar
  split
  case h_8 hquote _ _ _ _ _ _ =>
    split
    · exact ⟨_, _, rfl, by decide⟩
    · exact ⟨_, [], rfl, hquote⟩
  all_goals exact ⟨_, _, rfl, by decide⟩

theorem flatMap_jsonChar_cancel {cs cs' r r' : List Char}
    (h : cs.flatMap jsonChar ++ '"' :: r = cs'.flatMap jsonChar ++ '"' :: r') :
    cs = cs' ∧ r = r' := by
  have hfront (c : Char) (cs u r : List Char) :
      '"' :: r ≠ (c :: cs).flatMap jsonChar ++ u := by
    obtain ⟨a, as, ha, hne⟩ := jsonChar_front c
    simp only [List.flatMap_cons, ha, List.cons_append]
    exact fun heq => hne (List.cons.inj heq).1.symm
  induction cs generalizing cs' with
  | nil =>
      cases cs' with
      | nil => simpa using h
      | cons c' cs' => exact absurd h (hfront c' cs' _ r)
  | cons c cs ih =>
      cases cs' with
      | nil => exact absurd h.symm (hfront c cs _ r')
      | cons c' cs' =>
          have hread := congrArg unescape h
          simp only [List.flatMap_cons, List.append_assoc, unescape_jsonChar,
            Prod.mk.injEq] at hread
          obtain ⟨hcs, hr⟩ := ih hread.2
          exact ⟨by rw [hread.1, hcs], hr⟩

/-- A quoted text in front of another can be taken off in one way only. -/
theorem jsonQuoted_cancel {s s' : String} {r r' : List Char}
    (h : (jsonQuoted s).toList ++ r = (jsonQuoted s').toList ++ r') : s = s' ∧ r = r' := by
  simp only [jsonQuoted, String.toList_ofList, List.cons_append, List.append_assoc,
    List.cons.injEq, true_and, List.nil_append] at h
  obtain ⟨hs, hr⟩ := flatMap_jsonChar_cancel h
  exact ⟨String.toList_inj.mp hs, hr⟩

end Text

namespace Json

/-! ### Scalars -/

mutual

/-- Every double in the tree is finite. -/
def AllFinite : Json → Prop
  | .float x => x.isFinite = true
  | .arr items => itemsFinite items
  | .obj fields => fieldsFinite fields
  | _ => True

/-- Every double in the items is finite. -/
def itemsFinite : List Json → Prop
  | [] => True
  | x :: xs => x.AllFinite ∧ itemsFinite xs

/-- Every double in the fields is finite. -/
def fieldsFinite : List (String × Json) → Prop
  | [] => True
  | (_, x) :: xs => x.AllFinite ∧ fieldsFinite xs

end

/-- The text of a scalar without quotes. -/
def word? : Json → Option (List Char)
  | .null => some "null".toList
  | .bool b => some (if b then "true" else "false").toList
  | .nat n => some (Nat.toDigits 10 n)
  | .float x => some (number.text x).toList
  | _ => none

/-- The characters of words. -/
def isWordChar (c : Char) : Bool :=
  c.isAlphanum || c = '.' || c = '-' || c = '+'

/-- The kinds of words. -/
inductive WordKind where
  | null | bool (b : Bool) | nat | float

/-- The kind of a scalar. -/
def wordKind : Json → WordKind
  | .null => .null
  | .bool b => .bool b
  | .float _ => .float
  | _ => .nat

/-- The kind of a word, as its characters show it. -/
def WordKind.ofText (w : List Char) : WordKind :=
  if 'n' ∈ w then .null
  else if 't' ∈ w then .bool true
  else if 'f' ∈ w then .bool false
  else if '.' ∈ w ∨ 'e' ∈ w then .float
  else .nat

theorem number_text {x : Float} (h : x.isFinite = true) :
    (number.text x).toList ≠ [] ∧
      (∀ c ∈ (number.text x).toList, c.isDigit = true ∨ c ∈ ['.', 'e', '-', '+']) ∧
      ('.' ∈ (number.text x).toList ∨ 'e' ∈ (number.text x).toList) := by
  have hnumeral := Decimal.magnitude_numeral number (Decimal.shortest number.tie x)
  have hmarked : '.' ∈ (number.magnitude (Decimal.shortest number.tie x)).toList ∨
      'e' ∈ (number.magnitude (Decimal.shortest number.tie x)).toList :=
    Decimal.magnitude_marked rfl _
  rw [Decimal.text_of_isFinite number h]
  refine ⟨?_, List.forall_mem_append.mpr ⟨?_, hnumeral.chars⟩, ?_⟩
  · obtain ⟨c, cs, hfront, -⟩ := hnumeral.front
    simp [hfront]
  · split
    · exact List.forall_mem_singleton.mpr (Or.inr (by simp))
    · simp
  · exact hmarked.imp (List.mem_append_right _) (List.mem_append_right _)

theorem isWordChar_of_number {c : Char} (h : c.isDigit = true ∨ c ∈ ['.', 'e', '-', '+']) :
    isWordChar c = true ∧ c ≠ 'n' ∧ c ≠ 't' ∧ c ≠ 'f' := by
  rcases h with hdigit | hmark
  · refine ⟨by simp [isWordChar, Char.isAlphanum, hdigit], ?_, ?_, ?_⟩ <;>
      · rintro rfl
        cases hdigit
  · simp only [List.mem_cons, List.not_mem_nil, or_false] at hmark
    rcases hmark with rfl | rfl | rfl | rfl <;> exact ⟨rfl, by simp, by simp, by simp⟩

theorem word_text {j : Json} {w : List Char} (hfinite : j.AllFinite) (h : j.word? = some w) :
    w ≠ [] ∧ (∀ c ∈ w, isWordChar c = true) ∧ WordKind.ofText w = j.wordKind := by
  cases j with
  | null =>
      cases h
      exact ⟨by simp, List.all_eq_true.mp rfl, rfl⟩
  | bool b =>
      cases h
      cases b <;> exact ⟨by simp, List.all_eq_true.mp rfl, rfl⟩
  | nat n =>
      cases h
      have hdigits := Decimal.allDigits_toDigits n
      refine ⟨Nat.toDigits_ne_nil, fun c hc => (isWordChar_of_number (Or.inl (hdigits c hc))).1, ?_⟩
      simp [WordKind.ofText, wordKind, hdigits.notMem]
  | float x =>
      cases h
      obtain ⟨hne, hchars, hmarked⟩ := number_text hfinite
      refine ⟨hne, fun c hc => (isWordChar_of_number (hchars c hc)).1, ?_⟩
      have hletter {c : Char} (hc : ¬(c ≠ 'n' ∧ c ≠ 't' ∧ c ≠ 'f')) :
          c ∉ (number.text x).toList :=
        fun hmem => hc (isWordChar_of_number (hchars c hmem)).2
      simp [WordKind.ofText, wordKind, hletter, hmarked]
  | str s => cases h
  | arr items => cases h
  | obj fields => cases h

theorem word_injective {j j' : Json} {w : List Char} (hj : j.AllFinite) (hj' : j'.AllFinite)
    (h : j.word? = some w) (h' : j'.word? = some w) : j = j' := by
  have hkind : j.wordKind = j'.wordKind :=
    (word_text hj h).2.2.symm.trans (word_text hj' h').2.2
  cases j <;> cases j' <;>
    simp only [word?, wordKind, reduceCtorEq, Option.some.injEq, WordKind.bool.injEq] at h h' hkind
  case null.null => rfl
  case bool.bool => rw [hkind]
  case nat.nat n n' =>
    have hread := congrArg (Nat.ofDigitChars 10 · 0) (h.trans h'.symm)
    simp only [Nat.ofDigitChars_ten_toDigits] at hread
    rw [hread]
  case float.float x x' =>
    rw [← h', String.toList_inj] at h
    rw [Decimal.text_injective number hj hj' h]

/-! ### Texts and what follows them -/

/-- The ways in which texts of values begin. -/
inductive Form where
  | word | str | noItems | items | noFields | fields

/-- How the text of a value begins. -/
def form : Json → Form
  | .str _ => .str
  | .arr [] => .noItems
  | .arr (_ :: _) => .items
  | .obj [] => .noFields
  | .obj (_ :: _) => .fields
  | _ => .word

/-- How a text begins. -/
def Form.ofText : List Char → Form
  | '"' :: _ => .str
  | '[' :: ']' :: _ => .noItems
  | '[' :: _ => .items
  | '\x7b' :: '\x7d' :: _ => .noFields
  | '\x7b' :: _ => .fields
  | _ => .word

/-- A text that can follow a value: it is empty or goes on with a comma or a new
line. -/
def Follows (r : List Char) : Prop :=
  r = [] ∨ ∃ c cs, r = c :: cs ∧ (c = ',' ∨ c = '\n')

theorem toList_lineAt (level : Nat) :
    (lineAt level).toList = '\n' :: List.replicate (2 * level) ' ' := by
  have hpush (n : Nat) : ("\n".pushn ' ' n).toList = '\n' :: List.replicate n ' ' := by
    induction n with
    | zero => rfl
    | succ n ih =>
        have hsucc : "\n".pushn ' ' (n + 1) = ("\n".pushn ' ' n).push ' ' := rfl
        rw [hsucc, String.toList_push, ih, List.replicate_succ', List.cons_append]
  exact hpush (2 * level)

theorem toList_prettyAt_word {j : Json} {w : List Char} (hfinite : j.AllFinite)
    (h : j.word? = some w) (level : Nat) : (prettyAt level j).toList = w := by
  cases j with
  | null | bool b =>
      cases h
      rfl
  | nat n =>
      cases h
      exact Decimal.toList_repr n
  | float x =>
      cases h
      have hx : x.isFinite = true := hfinite
      have htext : prettyAt level (.float x) = if x.isFinite then number.text x else "null" := rfl
      rw [htext, if_pos hx]
  | str s => cases h
  | arr items => cases h
  | obj fields => cases h

theorem toList_prettyAt_items (level : Nat) (x : Json) (xs : List Json) :
    (prettyAt level (.arr (x :: xs))).toList =
      '[' :: ((lineAt (level + 1)).toList ++ ((prettyAt (level + 1) x).toList ++
        ((prettyItems (level + 1) xs).toList ++ ((lineAt level).toList ++ [']'])))) := by
  have htext : prettyAt level (.arr (x :: xs)) =
      "[" ++ lineAt (level + 1) ++ prettyAt (level + 1) x ++ prettyItems (level + 1) xs ++
        lineAt level ++ "]" := rfl
  simp [htext, String.toList_append]

theorem toList_prettyAt_fields (level : Nat) (key : String) (x : Json)
    (xs : List (String × Json)) :
    (prettyAt level (.obj ((key, x) :: xs))).toList =
      '\x7b' :: ((lineAt (level + 1)).toList ++ ((Text.jsonQuoted key).toList ++ (": ".toList ++
        ((prettyAt (level + 1) x).toList ++
          ((prettyFields (level + 1) xs).toList ++ ((lineAt level).toList ++ ['\x7d'])))))) := by
  have htext : prettyAt level (.obj ((key, x) :: xs)) =
      "\x7b" ++ lineAt (level + 1) ++ Text.jsonQuoted key ++ ": " ++ prettyAt (level + 1) x ++
        prettyFields (level + 1) xs ++ lineAt level ++ "\x7d" := rfl
  simp [htext, String.toList_append]

/-- What the values are whose texts begin in some way. -/
def Form.Describes : Form → Json → Prop
  | .word, j => ∃ w, j.word? = some w
  | .str, j => ∃ s, j = .str s
  | .noItems, j => j = .arr []
  | .items, j => ∃ x xs, j = .arr (x :: xs)
  | .noFields, j => j = .obj []
  | .fields, j => ∃ key x xs, j = .obj ((key, x) :: xs)

theorem describes_of_form {j : Json} {f : Form} (h : j.form = f) : f.Describes j := by
  subst h
  cases j with
  | null | bool b | nat n | float x | str s => exact ⟨_, rfl⟩
  | arr items =>
      cases items with
      | nil => rfl
      | cons x xs => exact ⟨x, xs, rfl⟩
  | obj fields =>
      cases fields with
      | nil => rfl
      | cons field xs => exact ⟨field.1, field.2, xs, rfl⟩

theorem ofText_word {w r : List Char} (hne : w ≠ []) (hw : ∀ c ∈ w, isWordChar c = true) :
    Form.ofText (w ++ r) = .word := by
  obtain ⟨c, cs, rfl⟩ := List.exists_cons_of_ne_nil hne
  have hc := hw c List.mem_cons_self
  rw [List.cons_append]
  unfold Form.ofText
  split
  case h_6 => rfl
  all_goals
    next heq =>
      obtain ⟨rfl, -⟩ := List.cons.inj heq
      cases hc

theorem toList_prettyAt_str (level : Nat) (s : String) :
    (prettyAt level (.str s)).toList = (Text.jsonQuoted s).toList :=
  rfl

theorem toList_prettyAt_noItems (level : Nat) : (prettyAt level (.arr [])).toList = ['[', ']'] := by
  have htext : prettyAt level (.arr []) = "[]" := rfl
  simp [htext]

theorem toList_prettyAt_noFields (level : Nat) :
    (prettyAt level (.obj [])).toList = ['\x7b', '\x7d'] := by
  have htext : prettyAt level (.obj []) = "\x7b\x7d" := rfl
  simp [htext]

/-- The beginning of a text shows the form of the value. -/
theorem ofText_prettyAt {j : Json} (hfinite : j.AllFinite) (level : Nat) (r : List Char) :
    Form.ofText ((prettyAt level j).toList ++ r) = j.form := by
  have hword {j : Json} {w : List Char} (hfinite : j.AllFinite) (h : j.word? = some w) :
      Form.ofText ((prettyAt level j).toList ++ r) = .word := by
    obtain ⟨hne, hchars, -⟩ := word_text hfinite h
    rw [toList_prettyAt_word hfinite h]
    exact ofText_word hne hchars
  cases j with
  | null | bool b | nat n | float x => exact hword hfinite rfl
  | str s =>
      rw [toList_prettyAt_str, Text.jsonQuoted, String.toList_ofList]
      rfl
  | arr items =>
      cases items with
      | nil =>
          rw [toList_prettyAt_noItems]
          rfl
      | cons x xs =>
          rw [toList_prettyAt_items, toList_lineAt]
          rfl
  | obj fields =>
      cases fields with
      | nil =>
          rw [toList_prettyAt_noFields]
          rfl
      | cons field xs =>
          obtain ⟨key, x⟩ := field
          rw [toList_prettyAt_fields, toList_lineAt]
          rfl

/-- A word ends where something follows it. -/
theorem word_cancel {w w' r r' : List Char} (hw : ∀ c ∈ w, isWordChar c = true)
    (hw' : ∀ c ∈ w', isWordChar c = true) (hr : Follows r) (hr' : Follows r')
    (h : w ++ r = w' ++ r') : w = w' ∧ r = r' := by
  have htake {w r : List Char} (hw : ∀ c ∈ w, isWordChar c = true) (hr : Follows r) :
      (w ++ r).takeWhile isWordChar = w := by
    rw [List.takeWhile_append_of_pos hw]
    rcases hr with rfl | ⟨c, cs, rfl, rfl | rfl⟩
    · simp
    · simp [isWordChar, Char.isAlphanum]
    · simp [isWordChar, Char.isAlphanum]
  have hwords : w = w' := by rw [← htake hw hr, h, htake hw' hr']
  subst hwords
  exact ⟨rfl, List.append_cancel_left h⟩

theorem follows_line (level : Nat) (r : List Char) : Follows ((lineAt level).toList ++ r) := by
  rw [toList_lineAt]
  exact Or.inr ⟨'\n', _, rfl, Or.inr rfl⟩

theorem toList_prettyItems_nil (level : Nat) : (prettyItems level []).toList = [] :=
  rfl

theorem toList_prettyItems_cons (level : Nat) (x : Json) (xs : List Json) :
    (prettyItems level (x :: xs)).toList = ',' :: ((lineAt level).toList ++
      ((prettyAt level x).toList ++ (prettyItems level xs).toList)) := by
  have htext : prettyItems level (x :: xs) =
      "," ++ lineAt level ++ prettyAt level x ++ prettyItems level xs := rfl
  simp [htext, String.toList_append]

theorem toList_prettyFields_nil (level : Nat) : (prettyFields level []).toList = [] :=
  rfl

theorem toList_prettyFields_cons (level : Nat) (key : String) (x : Json)
    (xs : List (String × Json)) :
    (prettyFields level ((key, x) :: xs)).toList = ',' :: ((lineAt level).toList ++
      ((Text.jsonQuoted key).toList ++ (": ".toList ++
        ((prettyAt level x).toList ++ (prettyFields level xs).toList)))) := by
  have htext : prettyFields level ((key, x) :: xs) =
      "," ++ lineAt level ++ Text.jsonQuoted key ++ ": " ++ prettyAt level x ++
        prettyFields level xs := rfl
  simp [htext, String.toList_append]

theorem items_ne_line (level : Nat) (x : Json) (xs : List Json) (outer : Nat) (s r : List Char) :
    (prettyItems level (x :: xs)).toList ++ s ≠
      (prettyItems level []).toList ++ ((lineAt outer).toList ++ r) := by
  rw [toList_prettyItems_cons, toList_lineAt outer]
  simp [toList_prettyItems_nil]

theorem fields_ne_line (level : Nat) (key : String) (x : Json) (xs : List (String × Json))
    (outer : Nat) (s r : List Char) :
    (prettyFields level ((key, x) :: xs)).toList ++ s ≠
      (prettyFields level []).toList ++ ((lineAt outer).toList ++ r) := by
  rw [toList_prettyFields_cons, toList_lineAt outer]
  simp [toList_prettyFields_nil]

theorem follows_items (level : Nat) (xs : List Json) {r : List Char} (h : Follows r) :
    Follows ((prettyItems level xs).toList ++ r) := by
  cases xs with
  | nil => simpa [toList_prettyItems_nil] using h
  | cons x xs =>
      rw [toList_prettyItems_cons]
      exact Or.inr ⟨',', _, rfl, Or.inl rfl⟩

theorem follows_fields (level : Nat) (xs : List (String × Json)) {r : List Char} (h : Follows r) :
    Follows ((prettyFields level xs).toList ++ r) := by
  cases xs with
  | nil => simpa [toList_prettyFields_nil] using h
  | cons field xs =>
      rw [toList_prettyFields_cons]
      exact Or.inr ⟨',', _, rfl, Or.inl rfl⟩

theorem form_eq {level : Nat} {j j' : Json} {r r' : List Char} (hj : j.AllFinite)
    (hj' : j'.AllFinite)
    (h : (prettyAt level j).toList ++ r = (prettyAt level j').toList ++ r') : j'.form = j.form := by
  rw [← ofText_prettyAt hj level r, h, ofText_prettyAt hj' level r']

/-- The text of the value, in front of another text, can be taken off in one way
only. -/
def Separable (level : Nat) (j : Json) : Prop :=
  ∀ {j' : Json} {r r' : List Char}, j.AllFinite → j'.AllFinite → Follows r → Follows r' →
    (prettyAt level j).toList ++ r = (prettyAt level j').toList ++ r' → j = j' ∧ r = r'

/-- The text of the items in front of a new line can be taken off in one way only. -/
def ItemsSeparable (level : Nat) (xs : List Json) : Prop :=
  ∀ {xs' : List Json} {outer : Nat} {r r' : List Char}, itemsFinite xs → itemsFinite xs' →
    (prettyItems level xs).toList ++ ((lineAt outer).toList ++ r) =
      (prettyItems level xs').toList ++ ((lineAt outer).toList ++ r') → xs = xs' ∧ r = r'

/-- The text of the fields in front of a new line can be taken off in one way only. -/
def FieldsSeparable (level : Nat) (xs : List (String × Json)) : Prop :=
  ∀ {xs' : List (String × Json)} {outer : Nat} {r r' : List Char}, fieldsFinite xs →
    fieldsFinite xs' →
    (prettyFields level xs).toList ++ ((lineAt outer).toList ++ r) =
      (prettyFields level xs').toList ++ ((lineAt outer).toList ++ r') → xs = xs' ∧ r = r'

section Separable

variable {level : Nat}

theorem separable_word {j : Json} (hword : j.form = .word) : Separable level j := by
  intro j' r r' hj hj' hr hr' h
  obtain ⟨w, hw⟩ := describes_of_form hword
  obtain ⟨w', hw'⟩ := describes_of_form ((form_eq hj hj' h).trans hword)
  rw [toList_prettyAt_word hj hw, toList_prettyAt_word hj' hw'] at h
  obtain ⟨rfl, hrest⟩ := word_cancel (word_text hj hw).2.1 (word_text hj' hw').2.1 hr hr' h
  exact ⟨word_injective hj hj' hw hw', hrest⟩

theorem separable_str (s : String) : Separable level (.str s) := by
  intro j' r r' hj hj' _ _ h
  obtain ⟨s', rfl⟩ := describes_of_form (form_eq hj hj' h)
  rw [toList_prettyAt_str, toList_prettyAt_str] at h
  obtain ⟨rfl, hrest⟩ := Text.jsonQuoted_cancel h
  exact ⟨rfl, hrest⟩

theorem separable_noItems : Separable level (.arr []) := by
  intro j' r r' hj hj' _ _ h
  obtain rfl := describes_of_form (form_eq hj hj' h)
  exact ⟨rfl, List.append_cancel_left h⟩

theorem separable_noFields : Separable level (.obj []) := by
  intro j' r r' hj hj' _ _ h
  obtain rfl := describes_of_form (form_eq hj hj' h)
  exact ⟨rfl, List.append_cancel_left h⟩

theorem separable_items {x : Json} {xs : List Json} (hx : Separable (level + 1) x)
    (hxs : ItemsSeparable (level + 1) xs) : Separable level (.arr (x :: xs)) := by
  intro j' r r' hj hj' _ _ h
  obtain ⟨x', xs', rfl⟩ := describes_of_form (form_eq hj hj' h)
  rw [toList_prettyAt_items, toList_prettyAt_items] at h
  simp only [List.cons_append, List.append_assoc, List.cons.injEq, true_and,
    List.append_cancel_left_eq] at h
  obtain ⟨hfirst, hitems⟩ := hx hj.1 hj'.1 (follows_items _ xs (follows_line level _))
    (follows_items _ xs' (follows_line level _)) h
  obtain ⟨hothers, hrest⟩ := hxs hj.2 hj'.2 hitems
  exact ⟨by rw [hfirst, hothers], by simpa using hrest⟩

theorem separable_fields {key : String} {x : Json} {xs : List (String × Json)}
    (hx : Separable (level + 1) x) (hxs : FieldsSeparable (level + 1) xs) :
    Separable level (.obj ((key, x) :: xs)) := by
  intro j' r r' hj hj' _ _ h
  obtain ⟨key', x', xs', rfl⟩ := describes_of_form (form_eq hj hj' h)
  rw [toList_prettyAt_fields, toList_prettyAt_fields] at h
  simp only [List.cons_append, List.append_assoc, List.cons.injEq, true_and,
    List.append_cancel_left_eq] at h
  obtain ⟨hkey, hvalue⟩ := Text.jsonQuoted_cancel h
  obtain ⟨hfirst, hfields⟩ := hx hj.1 hj'.1 (follows_fields _ xs (follows_line level _))
    (follows_fields _ xs' (follows_line level _)) (List.append_cancel_left hvalue)
  obtain ⟨hothers, hrest⟩ := hxs hj.2 hj'.2 hfields
  exact ⟨by rw [hkey, hfirst, hothers], by simpa using hrest⟩

theorem itemsSeparable_nil : ItemsSeparable level [] := by
  intro xs' outer r r' _ _ h
  cases xs' with
  | nil => simpa [toList_prettyItems_nil] using h
  | cons x' xs' => exact absurd h.symm (items_ne_line level x' xs' outer _ r)

theorem itemsSeparable_cons {x : Json} {xs : List Json} (hx : Separable level x)
    (hxs : ItemsSeparable level xs) : ItemsSeparable level (x :: xs) := by
  intro xs' outer r r' hj hj' h
  cases xs' with
  | nil => exact absurd h (items_ne_line level x xs outer _ r')
  | cons x' xs' =>
      rw [toList_prettyItems_cons, toList_prettyItems_cons] at h
      simp only [List.cons_append, List.append_assoc, List.cons.injEq, true_and,
        List.append_cancel_left_eq] at h
      obtain ⟨hfirst, hitems⟩ := hx hj.1 hj'.1 (follows_items _ xs (follows_line outer _))
        (follows_items _ xs' (follows_line outer _)) h
      obtain ⟨hothers, hrest⟩ := hxs hj.2 hj'.2 hitems
      exact ⟨by rw [hfirst, hothers], hrest⟩

theorem fieldsSeparable_nil : FieldsSeparable level [] := by
  intro xs' outer r r' _ _ h
  cases xs' with
  | nil => simpa [toList_prettyFields_nil] using h
  | cons field xs' =>
      obtain ⟨key', x'⟩ := field
      exact absurd h.symm (fields_ne_line level key' x' xs' outer _ r)

theorem fieldsSeparable_cons {key : String} {x : Json} {xs : List (String × Json)}
    (hx : Separable level x) (hxs : FieldsSeparable level xs) :
    FieldsSeparable level ((key, x) :: xs) := by
  intro xs' outer r r' hj hj' h
  cases xs' with
  | nil => exact absurd h (fields_ne_line level key x xs outer _ r')
  | cons field xs' =>
      obtain ⟨key', x'⟩ := field
      rw [toList_prettyFields_cons, toList_prettyFields_cons] at h
      simp only [List.cons_append, List.append_assoc, List.cons.injEq, true_and,
        List.append_cancel_left_eq] at h
      obtain ⟨hkey, hvalue⟩ := Text.jsonQuoted_cancel h
      obtain ⟨hfirst, hfields⟩ := hx hj.1 hj'.1 (follows_fields _ xs (follows_line outer _))
        (follows_fields _ xs' (follows_line outer _)) (List.append_cancel_left hvalue)
      obtain ⟨hothers, hrest⟩ := hxs hj.2 hj'.2 hfields
      exact ⟨by rw [hkey, hfirst, hothers], hrest⟩

end Separable

mutual

theorem separable (level : Nat) : ∀ j : Json, Separable level j
  | .null | .bool _ | .nat _ | .float _ => separable_word rfl
  | .str s => separable_str s
  | .arr [] => separable_noItems
  | .arr (x :: xs) => separable_items (separable (level + 1) x) (itemsSeparable (level + 1) xs)
  | .obj [] => separable_noFields
  | .obj ((_, x) :: xs) =>
    separable_fields (separable (level + 1) x) (fieldsSeparable (level + 1) xs)

theorem itemsSeparable (level : Nat) : ∀ xs : List Json, ItemsSeparable level xs
  | [] => itemsSeparable_nil
  | x :: xs => itemsSeparable_cons (separable level x) (itemsSeparable level xs)

theorem fieldsSeparable (level : Nat) : ∀ xs : List (String × Json), FieldsSeparable level xs
  | [] => fieldsSeparable_nil
  | (_, x) :: xs => fieldsSeparable_cons (separable level x) (fieldsSeparable level xs)

end

/-- A tree whose doubles are finite is determined by its indented text. -/
theorem pretty_injective {j j' : Json} (hj : j.AllFinite) (hj' : j'.AllFinite)
    (h : j.pretty = j'.pretty) : j = j' := by
  have htexts : (prettyAt 0 j).toList ++ [] = (prettyAt 0 j').toList ++ [] :=
    congrArg (fun s : String => s.toList ++ []) h
  exact (separable 0 j hj hj' (Or.inl rfl) (Or.inl rfl) htexts).1

end Json

end BracketScript
