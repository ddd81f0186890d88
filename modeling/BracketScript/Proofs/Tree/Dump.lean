import BracketScript.Proofs.Tree.Traversal
import BracketScript.Tree.Dump

/-!
# A tree is determined by its JSON

Each node of a tree is tagged in JSON, and keeps its parts in order: no two trees
have the same JSON (`stmtsJson_injective`).  Tokens are among the parts, with their
literals if they have one, and a part that is missing is told from any that is
there.
-/

namespace BracketScript

/-! ### Tokens -/

/-- All kinds of tokens. -/
def Kind.all : List Kind :=
  [.leftParen, .rightParen, .leftBracket, .rightBracket, .leftBrace, .rightBrace, .minus, .plus,
    .star, .slash, .comma, .colon, .bang, .equal, .bitAnd, .bitOr, .bitNeg, .underscore, .semicolon,
    .andKw, .orKw, .unequal, .greater, .greaterEqual, .lesser, .lesserEqual, .arrow, .walrus, .num,
    .str, .identifier, .funcKw, .structKw, .selfKw, .forKw, .whileKw, .ifKw, .elifKw, .elseKw,
    .matchKw, .againstKw, .isKw, .trueKw, .falseKw, .nullKw, .importKw, .returnKw, .eof]

theorem Kind.label_injective {k k' : Kind} (h : k.label = k'.label) : k = k' := by
  have hmem (k : Kind) : k ∈ Kind.all := by cases k <;> decide
  have hall : ∀ k ∈ Kind.all, ∀ k' ∈ Kind.all, k.label = k'.label → k = k' := by decide +kernel
  exact hall k (hmem k) k' (hmem k') h

theorem Literal.json_injective {l l' : Literal} (h : l.json = l'.json) : l = l' := by
  cases l <;> cases l' <;> cases h <;> rfl

theorem Constant.json_injective {v v' : Constant} (h : v.json = v'.json) : v = v' := by
  cases v <;> cases v' <;> cases h <;> rfl

theorem Token.json_injective {t t' : Token} (h : t.json = t'.json) : t = t' := by
  obtain ⟨kind, lexeme, literal, line⟩ := t
  obtain ⟨kind', lexeme', literal', line'⟩ := t'
  cases literal with
  | none =>
      cases literal' with
      | none =>
          simp only [Token.json, Json.obj.injEq] at h
          simp at h
          rw [Kind.label_injective h.1, h.2.1, h.2.2]
      | some l' => simp [Token.json] at h
  | some l =>
      cases literal' with
      | none => simp [Token.json] at h
      | some l' =>
          simp [Token.json] at h
          rw [Kind.label_injective h.1, h.2.1, Literal.json_injective h.2.2.1, h.2.2.2]

theorem Target.json_injective {target target' : Target} (h : target.json = target'.json) :
    target = target' := by
  cases target <;> cases target' <;> simp [Target.json] at h
  · rw [Token.json_injective h]
  · rw [Token.json_injective h.1, Token.json_injective h.2]

/-! ### Nodes -/

section Lists

@[simp] theorem exprsJson_eq_map (es : List Expr) : exprsJson es = es.map Expr.json := by
  induction es with
  | nil => rfl
  | cons e es ih => simp [exprsJson, ih]

@[simp] theorem stmtsJson_eq_map (ss : List Stmt) : stmtsJson ss = ss.map Stmt.json := by
  induction ss with
  | nil => rfl
  | cons s ss ih => simp [stmtsJson, ih]

/-- The JSON object of a struct entry. -/
def FieldInit.json (entry : FieldInit) : Json :=
  .obj [("name", entry.name.json), ("value", entry.value.json)]

/-- The JSON object of a match entry. -/
def MatchCase.json (entry : MatchCase) : Json :=
  .obj [("pattern", entry.pattern.json), ("then", entry.consequence.json)]

@[simp] theorem fieldsJson_eq_map (fields : List FieldInit) :
    fieldsJson fields = fields.map FieldInit.json := by
  induction fields with
  | nil => rfl
  | cons entry fields ih =>
      obtain ⟨name, value⟩ := entry
      simp [fieldsJson, FieldInit.json, ih]

@[simp] theorem casesJson_eq_map (cases : List MatchCase) :
    casesJson cases = cases.map MatchCase.json := by
  induction cases with
  | nil => rfl
  | cons entry cases ih =>
      obtain ⟨pattern, consequence⟩ := entry
      simp [casesJson, MatchCase.json, ih]

/-- Lists are determined by what their members are mapped to if the members of one
are. -/
theorem eq_of_map_eq {α β : Type} {f : α → β} {l l' : List α}
    (hinj : ∀ a ∈ l, ∀ b, f a = f b → a = b) (h : l.map f = l'.map f) : l = l' := by
  induction l generalizing l' with
  | nil => exact (List.map_eq_nil_iff.mp h.symm).symm
  | cons a l ih =>
      cases l' with
      | nil => cases h
      | cons b l' =>
          obtain ⟨hhead, htail⟩ := List.cons.inj h
          obtain ⟨ha, hl⟩ := List.forall_mem_cons.mp hinj
          rw [ha b hhead, ih hl htail]

theorem tokens_eq_of_json {tokens tokens' : List Token}
    (h : tokens.map Token.json = tokens'.map Token.json) : tokens = tokens' :=
  eq_of_map_eq (fun _ _ _ => Token.json_injective) h

end Lists

/-- The expression is determined by its JSON. -/
def Expr.Distinct (e : Expr) : Prop :=
  ∀ e' : Expr, e.json = e'.json → e = e'

/-- The statement is determined by its JSON. -/
def Stmt.Distinct (s : Stmt) : Prop :=
  ∀ s' : Stmt, s.json = s'.json → s = s'

theorem Expr.json_ne_null (e : Expr) : e.json ≠ .null := by
  cases e <;> simp [Expr.json]

theorem Stmt.json_ne_null (s : Stmt) : s.json ≠ .null := by
  cases s <;> simp [Stmt.json]

theorem exprOption_eq {value value' : Option Expr} (hvalue : ∀ e ∈ value, e.Distinct)
    (h : exprOptionJson value = exprOptionJson value') : value = value' := by
  cases value with
  | none =>
      cases value' with
      | none => rfl
      | some e' => exact absurd h.symm e'.json_ne_null
  | some e =>
      cases value' with
      | none => exact absurd h e.json_ne_null
      | some e' => rw [hvalue e rfl e' h]

theorem stmtOption_eq {s s' : Option Stmt} (hs : ∀ t ∈ s, t.Distinct)
    (h : stmtOptionJson s = stmtOptionJson s') : s = s' := by
  cases s with
  | none =>
      cases s' with
      | none => rfl
      | some t' => exact absurd h.symm t'.json_ne_null
  | some t =>
      cases s' with
      | none => exact absurd h t.json_ne_null
      | some t' => rw [hs t rfl t' h]

theorem FieldInit.eq_of_json {entry : FieldInit} (hvalue : entry.value.Distinct)
    (entry' : FieldInit) (h : entry.json = entry'.json) : entry = entry' := by
  obtain ⟨name, value⟩ := entry
  obtain ⟨name', value'⟩ := entry'
  simp [FieldInit.json] at h
  obtain rfl := Token.json_injective h.1
  obtain rfl : value = value' := hvalue value' h.2
  rfl

theorem MatchCase.eq_of_json {entry : MatchCase}
    (hparts : entry.pattern.Distinct ∧ entry.consequence.Distinct) (entry' : MatchCase)
    (h : entry.json = entry'.json) : entry = entry' := by
  obtain ⟨pattern, consequence⟩ := entry
  obtain ⟨pattern', consequence'⟩ := entry'
  simp [MatchCase.json] at h
  obtain rfl : pattern = pattern' := hparts.1 pattern' h.1
  obtain rfl : consequence = consequence' := hparts.2 consequence' h.2
  rfl

/-- A node is determined by its JSON if its parts are. -/
theorem distinct_steps : TreeSteps Expr.Distinct Stmt.Distinct where
  constant value e' h := by
    cases e' <;> simp [Expr.json] at h
    rw [Constant.json_injective h]
  name t e' h := by
    cases e' <;> simp [Expr.json] at h
    rw [Token.json_injective h]
  assign target value hvalue e' h := by
    cases e' <;> simp [Expr.json] at h
    rw [Target.json_injective h.1, hvalue _ h.2]
  binary op hleft hright e' h := by
    cases e' <;> simp [Expr.json] at h
    rw [hleft _ h.1, Token.json_injective h.2.1, hright _ h.2.2]
  logical op hleft hright e' h := by
    cases e' <;> simp [Expr.json] at h
    rw [hleft _ h.1, Token.json_injective h.2.1, hright _ h.2.2]
  unary op _ hright e' h := by
    cases e' <;> simp [Expr.json] at h
    rw [Token.json_injective h.1, hright _ h.2]
  grouping he e' h := by
    cases e' <;> simp [Expr.json] at h
    rw [he _ h]
  call bracket _ hcallee hargs e' h := by
    cases e' <;> simp [Expr.json] at h
    rw [hcallee _ h.1, Token.json_injective h.2.1, eq_of_map_eq hargs h.2.2]
  member t hobject e' h := by
    cases e' <;> simp [Expr.json] at h
    rw [hobject _ h.1, Token.json_injective h.2]
  self keyword e' h := by
    cases e' <;> simp [Expr.json] at h
    rw [Token.json_injective h]
  func keyword params _ hbody e' h := by
    cases e' <;> simp [Expr.json] at h
    rw [Token.json_injective h.1, tokens_eq_of_json h.2.1, eq_of_map_eq hbody h.2.2]
  struct keyword params _ hbody e' h := by
    cases e' <;> simp [Expr.json] at h
    have hentries :=
      eq_of_map_eq (fun entry hentry => FieldInit.eq_of_json (hbody entry hentry)) h.2.2
    rw [Token.json_injective h.1, tokens_eq_of_json h.2.1, hentries]
  expression he s' h := by
    cases s' <;> simp [Stmt.json] at h
    rw [he _ h]
  block hstmts s' h := by
    cases s' <;> simp [Stmt.json] at h
    rw [eq_of_map_eq hstmts h]
  conditional hcondition hconsequence hotherwise s' h := by
    cases s' <;> simp [Stmt.json] at h
    rw [hcondition _ h.1, hconsequence _ h.2.1, stmtOption_eq hotherwise h.2.2]
  whileLoop keyword _ _ hcondition hbody s' h := by
    cases s' <;> simp [Stmt.json] at h
    rw [Token.json_injective h.1, hcondition _ h.2.1, hbody _ h.2.2]
  matching keyword _ _ hsubject hcases s' h := by
    cases s' <;> simp [Stmt.json] at h
    have hentries :=
      eq_of_map_eq (fun entry hentry => MatchCase.eq_of_json (hcases entry hentry)) h.2.2
    rw [Token.json_injective h.1, hsubject _ h.2.1, hentries]
  importing module names s' h := by
    cases s' <;> simp [Stmt.json] at h
    rw [Token.json_injective h.1, tokens_eq_of_json h.2]
  returning keyword _ hvalue s' h := by
    cases s' <;> simp [Stmt.json] at h
    rw [Token.json_injective h.1, exprOption_eq hvalue h.2]

/-- Statements are determined by their JSON. -/
theorem stmtsJson_injective {ss ss' : List Stmt} (h : stmtsJson ss = stmtsJson ss') : ss = ss' := by
  rw [stmtsJson_eq_map, stmtsJson_eq_map] at h
  exact eq_of_map_eq (distinct_steps.stmts ss) h

end BracketScript
