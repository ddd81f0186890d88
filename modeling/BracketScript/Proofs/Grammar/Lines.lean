import BracketScript.Proofs.Grammar.Composition
import BracketScript.Proofs.Token.Newline

/-!
# Reading does not see lines

Tokens that agree in everything but their lines are read in the same way: the
trees differ in the lines of their tokens only (`program_alike`).  `ReadsAs`
says what tokens are read as, lines left out.  It adds up over units put one
after the other (`ReadsAs.append`), and with it the statements of a text are
those of its lines (`readsAs_join`), if each line is a unit of its own.
-/

namespace BracketScript

open Grammar

/-- The token with its line left out. -/
def Token.sansLine (t : Token) : Token :=
  { t with line := 0 }

theorem keepsText_sansLine : KeepsText Token.sansLine :=
  ⟨fun _ => rfl, fun _ => rfl, fun _ => rfl⟩

@[simp] theorem Token.sansLine_below (lines : Nat) (t : Token) :
    (t.below lines).sansLine = t.sansLine := rfl

namespace Grammar

section Alike

variable {f : Token → Token} (hf : KeepsText f)

include hf in
theorem skip_map (last : Kind) (tokens : List Token) :
    skip last (tokens.map f) = (skip last tokens).map f := by
  induction tokens generalizing last with
  | nil => rfl
  | cons t rest ih =>
      simp only [List.map_cons, skip, hf.kind]
      split
      · rfl
      · exact ih t.kind

include hf in
theorem resume_map (tokens : List Token) : resume (tokens.map f) = (resume tokens).map f := by
  cases tokens with
  | nil => rfl
  | cons t rest => simp only [List.map_cons, resume, hf.kind, skip_map hf]

include hf in
theorem Alike.resumed {c d : Cursor} (h : c.Alike f d) : (resumed c).Alike f (resumed d) :=
  ⟨by simp only [Grammar.resumed, h.rest, resume_map hf], h.finish, h.faults⟩

include hf in
theorem statements_alike {one : Reader Stmt} (hone : Reader.Parallel f (Stmt.mapTokens f) one one)
    (n : Nat) (done : Array Stmt) {c d : Cursor} (h : c.Alike f d) :
    (statements one n (done.map (Stmt.mapTokens f)) d).1 =
        (statements one n done c).1.map (Stmt.mapTokens f) ∧
      (statements one n done c).2.Alike f (statements one n (done.map (Stmt.mapTokens f)) d).2 := by
  induction n generalizing done c d with
  | zero => exact ⟨rfl, h⟩
  | succ n ih =>
      obtain ⟨hvalue, hcursor⟩ := hone.alike hf h
      have hempty : d.rest = [] ↔ c.rest = [] := by rw [h.rest, List.map_eq_nil_iff]
      rcases round_cases one c with hrest | ⟨hrest, ⟨s, c', hc⟩ | ⟨c', hc⟩⟩
      · rw [statements_of_nil hrest, statements_of_nil (hempty.mpr hrest)]
        exact ⟨rfl, h⟩
      · rw [hc] at hvalue hcursor
        have hd : one d = (some (s.mapTokens f), (one d).2) := Prod.ext hvalue rfl
        rw [statements_of_some hrest hc, statements_of_some (mt hempty.mp hrest) hd,
          ← Array.map_push]
        exact ih (done.push s) hcursor
      · rw [hc] at hvalue hcursor
        have hd : one d = (none, (one d).2) := Prod.ext hvalue rfl
        rw [statements_of_none hrest hc, statements_of_none (mt hempty.mp hrest) hd]
        exact ih done (Alike.resumed hf hcursor)

include hf in
/-- Other lines lead to the same trees, up to their lines, and to the same
faults. -/
theorem program_alike {c d : Cursor} (h : c.Alike f d) :
    (program d).1 = (program c).1.map (Stmt.mapTokens f) ∧
      (program c).2.Alike f (program d).2 := by
  have hlength : d.rest.length = c.rest.length := by rw [h.rest, List.length_map]
  rw [program, program, hlength]
  have hrun := statements_alike hf ((uniform_level hf maxNesting).statement false)
    c.rest.length #[] h
  rwa [Array.map_empty] at hrun

end Alike

end Grammar

/-! ### What tokens are read as -/

/-- A cursor at the beginning of tokens, their lines left out. -/
def Cursor.sansLines (tokens : List Token) : Cursor :=
  ⟨tokens.map Token.sansLine, Token.eof 0, #[], #[]⟩

/-- The tokens, their lines left out, are read without faults as the trees. -/
structure ReadsAs (tokens : List Token) (trees : List Stmt) : Prop where
  errors : (program (Cursor.sansLines tokens)).2.errors = #[]
  trees : (program (Cursor.sansLines tokens)).1.toList = trees

theorem Cursor.ofTokens_eof {tokens : List Token} (h : ∀ t ∈ tokens, t.kind ≠ .eof) (line : Nat) :
    Cursor.ofTokens (tokens ++ [Token.eof line]) = ⟨tokens, Token.eof line, #[], #[]⟩ := by
  have hrest : (tokens ++ [Token.eof line]).takeWhile (fun t => t.kind ≠ .eof) = tokens := by
    rw [List.takeWhile_append_of_pos (by simpa using h)]
    simp [Token.eof]
  have hfind : (tokens ++ [Token.eof line]).find? (fun t => t.kind = .eof) =
      some (Token.eof line) := by
    have hnone : tokens.find? (fun t => t.kind = .eof) = none := by
      simpa [List.find?_eq_none] using h
    simp [List.find?_append, hnone, Token.eof]
  simp only [Cursor.ofTokens, hrest, hfind, Option.getD_some]

theorem Cursor.alike_sansLines (tokens : List Token) (line : Nat) :
    Cursor.Alike Token.sansLine ⟨tokens, Token.eof line, #[], #[]⟩ (Cursor.sansLines tokens) :=
  ⟨rfl, rfl, .nil⟩

namespace ReadsAs

variable {tokens first second : List Token} {trees trees₁ trees₂ : List Stmt}

theorem of_parse (htokens : ∀ t ∈ tokens, t.kind ≠ .eof) {line : Nat}
    (h : parse (tokens ++ [Token.eof line]) = .ok trees) :
    ReadsAs tokens (trees.map (Stmt.mapTokens Token.sansLine)) := by
  obtain ⟨herrors, htrees⟩ := parse_eq_ok_iff.mp h
  rw [Cursor.ofTokens_eof htokens] at herrors htrees
  obtain ⟨hvalue, hcursor⟩ := program_alike keepsText_sansLine (Cursor.alike_sansLines tokens line)
  have hnone := hcursor.errors keepsText_sansLine
  rw [herrors] at hnone
  exact ⟨by simpa using hnone, by rw [hvalue, Array.toList_map, htrees]⟩

/-- Tokens that are read as trees parse, whatever their lines are. -/
theorem exists_parse (h : ReadsAs tokens trees) (htokens : ∀ t ∈ tokens, t.kind ≠ .eof)
    (line : Nat) :
    ∃ found, parse (tokens ++ [Token.eof line]) = .ok found ∧
      found.map (Stmt.mapTokens Token.sansLine) = trees := by
  obtain ⟨hvalue, hcursor⟩ := program_alike keepsText_sansLine (Cursor.alike_sansLines tokens line)
  have hnone := hcursor.errors keepsText_sansLine
  rw [h.errors] at hnone
  refine ⟨_, parse_eq_ok_iff.mpr ⟨?_, rfl⟩, ?_⟩
  · rw [Cursor.ofTokens_eof htokens]
    simpa using hnone.symm
  · rw [Cursor.ofTokens_eof htokens, ← Array.toList_map, ← hvalue, h.trees]

theorem congr (h : ReadsAs tokens trees) {others : List Token}
    (hothers : others.map Token.sansLine = tokens.map Token.sansLine) : ReadsAs others trees := by
  have hcursor : Cursor.sansLines others = Cursor.sansLines tokens := by
    rw [Cursor.sansLines, hothers, Cursor.sansLines]
  exact ⟨hcursor ▸ h.errors, hcursor ▸ h.trees⟩

theorem nil : ReadsAs [] [] :=
  ⟨rfl, rfl⟩

/-- Units add up, if the second cannot go on the last statement of the first. -/
theorem append (h₁ : ReadsAs first trees₁) (h₂ : ReadsAs second trees₂)
    (hstart : ∀ t ∈ second.head?, t.kind ≠ .elifKw ∧ t.kind ≠ .elseKw) :
    ReadsAs (first ++ second) (trees₁ ++ trees₂) := by
  have hcursor : Cursor.sansLines (first ++ second) =
      (Cursor.sansLines first).extend (second.map Token.sansLine) (Token.eof 0) := by
    simp [Cursor.sansLines, Cursor.extend]
  have hmore : ∀ t ∈ (second.map Token.sansLine).head?, t.kind ≠ .elifKw ∧ t.kind ≠ .elseKw := by
    intro t ht
    rw [List.head?_map, Option.mem_def, Option.map_eq_some_iff] at ht
    obtain ⟨u, hu, rfl⟩ := ht
    exact hstart u hu
  have hprogram : program (Cursor.sansLines (first ++ second)) =
      ((program (Cursor.sansLines first)).1 ++ (program (Cursor.sansLines second)).1,
        (program (Cursor.sansLines first)).2.after (program (Cursor.sansLines second)).2) := by
    rw [hcursor]
    refine program_extend rfl hmore ?_ (Or.inl h₁.errors)
    intro e he
    simp [h₁.errors] at he
  constructor
  · rw [hprogram]
    simp [Cursor.after, h₁.errors, h₂.errors]
  · rw [hprogram]
    simp [h₁.trees, h₂.trees]

end ReadsAs

/-! ### Units on lines of their own -/

/-- A source text without faults, with its statements up to lines, that cannot
be taken for more of a statement before it. -/
structure IsUnit (source : String) (trees : List Stmt) : Prop where
  errors : (Scan.ofSource source).errors = #[]
  reads : ReadsAs (Scan.ofSource source).tokens.toList trees
  start : ∀ t ∈ (Scan.ofSource source).tokens.toList.head?, t.kind ≠ .elifKw ∧ t.kind ≠ .elseKw

/-- The lines as one text. -/
def joinLines (lines : List String) : String :=
  "\n".intercalate lines

@[simp] theorem joinLines_nil : joinLines [] = "" := rfl

@[simp] theorem joinLines_singleton (line : String) : joinLines [line] = line := rfl

theorem joinLines_cons (line : String) {lines : List String} (h : lines ≠ []) :
    joinLines (line :: lines) = line ++ "\n" ++ joinLines lines := by
  obtain ⟨next, rest, rfl⟩ := List.exists_cons_of_ne_nil h
  exact String.intercalate_cons_cons

namespace IsUnit

variable {source first second : String} {trees trees₁ trees₂ : List Stmt}

theorem of_parse {tokens : List Token} (hscan : Token.scan source = .ok tokens)
    (hparse : parse tokens = .ok trees)
    (hstart : ∀ t ∈ tokens.head?, t.kind ≠ .elifKw ∧ t.kind ≠ .elseKw) :
    IsUnit source (trees.map (Stmt.mapTokens Token.sansLine)) := by
  obtain ⟨herrors, rfl⟩ := Token.scan_eq_ok_iff.mp hscan
  refine ⟨herrors, .of_parse (by simpa using Scan.kind_ne_eof source) hparse, ?_⟩
  intro t ht
  exact hstart t (by simp_all)

theorem exists_parse (h : IsUnit source trees) :
    ∃ tokens found, Token.scan source = .ok tokens ∧ parse tokens = .ok found ∧
      found.map (Stmt.mapTokens Token.sansLine) = trees := by
  obtain ⟨found, hparse, hfound⟩ := h.reads.exists_parse
    (by simpa using Scan.kind_ne_eof source) (Scan.ofSource source).line
  exact ⟨_, found, Token.scan_eq_ok_iff.mpr ⟨h.errors, rfl⟩, hparse, hfound⟩

theorem empty : IsUnit "" [] :=
  ⟨rfl, .nil, by simp [Scan.ofSource, Scan.start]⟩

theorem trees_eq (h₁ : IsUnit source trees₁) (h₂ : IsUnit source trees₂) : trees₁ = trees₂ :=
  h₁.reads.trees.symm.trans h₂.reads.trees

/-- Two units with a line end between them are one. -/
theorem newline (h₁ : IsUnit first trees₁) (h₂ : IsUnit second trees₂) :
    IsUnit (first ++ "\n" ++ second) (trees₁ ++ trees₂) := by
  have hscan := Scan.ofSource_newline first second (Scan.closed_of_errors_eq h₁.errors)
  have hbelow : Token.sansLine ∘ Token.below (Scan.ofSource first).line = Token.sansLine := rfl
  have htokens : (Scan.ofSource (first ++ "\n" ++ second)).tokens.toList.map Token.sansLine =
      ((Scan.ofSource first).tokens.toList ++ (Scan.ofSource second).tokens.toList).map
        Token.sansLine := by
    rw [hscan]
    simp [Scan.followedBy, hbelow]
  refine ⟨?_, (h₁.reads.append h₂.reads h₂.start).congr htokens, ?_⟩
  · rw [hscan]
    simp [Scan.followedBy, h₁.errors, h₂.errors]
  · intro t ht
    -- The first token comes from the first text, or from the second if the
    -- first has none.
    rw [hscan] at ht
    simp only [Scan.followedBy, Array.toList_append, Array.toList_map, List.head?_append,
      List.head?_map, Option.mem_def, Option.or_eq_some_iff, Option.map_eq_some_iff] at ht
    rcases ht with ht | ⟨-, u, hu, rfl⟩
    · exact h₁.start t ht
    · exact h₂.start u hu

/-- A line that is a unit before lines that are one. -/
theorem joinLines_cons {line : String} {lines : List String} (h₁ : IsUnit line trees₁)
    (h₂ : IsUnit (joinLines lines) trees₂) :
    IsUnit (joinLines (line :: lines)) (trees₁ ++ trees₂) := by
  by_cases hlines : lines = []
  · subst hlines
    rw [h₂.trees_eq .empty, List.append_nil]
    exact h₁
  · rw [BracketScript.joinLines_cons line hlines]
    exact h₁.newline h₂

end IsUnit

end BracketScript
