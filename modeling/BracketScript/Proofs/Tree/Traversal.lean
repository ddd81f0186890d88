import BracketScript.Tree.Basic

/-!
# Walking over syntax trees

Two walks that touch every node of a tree:

* `mapTokens` replaces each stored token and keeps the shape of the tree;
* `EveryNode` asks a condition of each node, telling statements inside a
  function from statements outside one.

A condition (`NodeLaw`) looks at one node at a time.  What it may say about the
nodes below is limited to what plain functions of them tell.
-/

namespace BracketScript

/-- The target with its tokens replaced. -/
def Target.mapTokens (f : Token → Token) : Target → Target
  | .variable name => .variable (f name)
  | .selfField keyword name => .selfField (f keyword) (f name)

mutual

/-- The expression with its tokens replaced. -/
def Expr.mapTokens (f : Token → Token) : Expr → Expr
  | .literal value => .literal value
  | .variable name => .variable (f name)
  | .assign target value => .assign (target.mapTokens f) (value.mapTokens f)
  | .binary left op right => .binary (left.mapTokens f) (f op) (right.mapTokens f)
  | .logical left op right => .logical (left.mapTokens f) (f op) (right.mapTokens f)
  | .unary op right => .unary (f op) (right.mapTokens f)
  | .grouping inner => .grouping (inner.mapTokens f)
  | .call callee bracket args =>
    .call (callee.mapTokens f) (f bracket) (exprsMapTokens f args)
  | .attribute object name => .attribute (object.mapTokens f) (f name)
  | .selfRef keyword => .selfRef (f keyword)
  | .func keyword params body => .func (f keyword) (params.map f) (stmtsMapTokens f body)
  | .struct keyword params body => .struct (f keyword) (params.map f) (fieldsMapTokens f body)

/-- The expressions with their tokens replaced. -/
def exprsMapTokens (f : Token → Token) : List Expr → List Expr
  | [] => []
  | e :: es => e.mapTokens f :: exprsMapTokens f es

/-- The struct entries with their tokens replaced. -/
def fieldsMapTokens (f : Token → Token) : List FieldInit → List FieldInit
  | [] => []
  | ⟨name, value⟩ :: fields => ⟨f name, value.mapTokens f⟩ :: fieldsMapTokens f fields

/-- The statement with its tokens replaced. -/
def Stmt.mapTokens (f : Token → Token) : Stmt → Stmt
  | .expression expr => .expression (expr.mapTokens f)
  | .block stmts => .block (stmtsMapTokens f stmts)
  | .conditional condition consequence none =>
    .conditional (condition.mapTokens f) (consequence.mapTokens f) none
  | .conditional condition consequence (some otherwise) =>
    .conditional (condition.mapTokens f) (consequence.mapTokens f) (some (otherwise.mapTokens f))
  | .whileLoop keyword condition body =>
    .whileLoop (f keyword) (condition.mapTokens f) (body.mapTokens f)
  | .matching keyword subject cases =>
    .matching (f keyword) (subject.mapTokens f) (casesMapTokens f cases)
  | .importing module names => .importing (f module) (names.map f)
  | .returning keyword none => .returning (f keyword) none
  | .returning keyword (some value) => .returning (f keyword) (some (value.mapTokens f))

/-- The statements with their tokens replaced. -/
def stmtsMapTokens (f : Token → Token) : List Stmt → List Stmt
  | [] => []
  | s :: ss => s.mapTokens f :: stmtsMapTokens f ss

/-- The cases with their tokens replaced. -/
def casesMapTokens (f : Token → Token) : List MatchCase → List MatchCase
  | [] => []
  | ⟨pattern, consequence⟩ :: cases =>
    ⟨pattern.mapTokens f, consequence.mapTokens f⟩ :: casesMapTokens f cases

end

/-- The struct entry with its tokens replaced. -/
def FieldInit.mapTokens (f : Token → Token) (entry : FieldInit) : FieldInit :=
  ⟨f entry.name, entry.value.mapTokens f⟩

/-- The case with its tokens replaced. -/
def MatchCase.mapTokens (f : Token → Token) (entry : MatchCase) : MatchCase :=
  ⟨entry.pattern.mapTokens f, entry.consequence.mapTokens f⟩

section MapTokens

variable (f : Token → Token)

@[simp] theorem exprsMapTokens_eq_map (es : List Expr) :
    exprsMapTokens f es = es.map (Expr.mapTokens f) := by
  induction es with
  | nil => rfl
  | cons e es ih => simp [exprsMapTokens, ih]

@[simp] theorem stmtsMapTokens_eq_map (ss : List Stmt) :
    stmtsMapTokens f ss = ss.map (Stmt.mapTokens f) := by
  induction ss with
  | nil => rfl
  | cons s ss ih => simp [stmtsMapTokens, ih]

@[simp] theorem fieldsMapTokens_eq_map (fields : List FieldInit) :
    fieldsMapTokens f fields = fields.map (FieldInit.mapTokens f) := by
  induction fields with
  | nil => rfl
  | cons entry fields ih =>
      obtain ⟨name, value⟩ := entry
      simp [fieldsMapTokens, FieldInit.mapTokens, ih]

@[simp] theorem casesMapTokens_eq_map (cases : List MatchCase) :
    casesMapTokens f cases = cases.map (MatchCase.mapTokens f) := by
  induction cases with
  | nil => rfl
  | cons entry cases ih =>
      obtain ⟨pattern, consequence⟩ := entry
      simp [casesMapTokens, MatchCase.mapTokens, ih]

theorem Stmt.mapTokens_conditional (condition : Expr) (consequence : Stmt)
    (otherwise : Option Stmt) :
    (Stmt.conditional condition consequence otherwise).mapTokens f =
      .conditional (condition.mapTokens f) (consequence.mapTokens f)
        (otherwise.map (Stmt.mapTokens f)) := by
  cases otherwise <;> simp [Stmt.mapTokens]

theorem Stmt.mapTokens_returning (keyword : Token) (value : Option Expr) :
    (Stmt.returning keyword value).mapTokens f =
      .returning (f keyword) (value.map (Expr.mapTokens f)) := by
  cases value <;> simp [Stmt.mapTokens]

end MapTokens

/-- A condition on single nodes.  `inFunction` tells whether a statement stands
inside a function. -/
structure NodeLaw where
  expr : Expr → Prop
  stmt : (inFunction : Bool) → Stmt → Prop

mutual

/-- The law holds at every node of an expression. -/
def Expr.EveryNode (law : NodeLaw) : Expr → Prop
  | .literal value => law.expr (.literal value)
  | .variable name => law.expr (.variable name)
  | .assign target value => law.expr (.assign target value) ∧ value.EveryNode law
  | .binary left op right =>
    law.expr (.binary left op right) ∧ left.EveryNode law ∧ right.EveryNode law
  | .logical left op right =>
    law.expr (.logical left op right) ∧ left.EveryNode law ∧ right.EveryNode law
  | .unary op right => law.expr (.unary op right) ∧ right.EveryNode law
  | .grouping inner => law.expr (.grouping inner) ∧ inner.EveryNode law
  | .call callee bracket args =>
    law.expr (.call callee bracket args) ∧ callee.EveryNode law ∧ exprsEveryNode law args
  | .attribute object name => law.expr (.attribute object name) ∧ object.EveryNode law
  | .selfRef keyword => law.expr (.selfRef keyword)
  | .func keyword params body =>
    law.expr (.func keyword params body) ∧ stmtsEveryNode law true body
  | .struct keyword params body =>
    law.expr (.struct keyword params body) ∧ fieldsEveryNode law body

/-- The law holds at every node of the expressions. -/
def exprsEveryNode (law : NodeLaw) : List Expr → Prop
  | [] => True
  | e :: es => e.EveryNode law ∧ exprsEveryNode law es

/-- The law holds at every node of the struct entries. -/
def fieldsEveryNode (law : NodeLaw) : List FieldInit → Prop
  | [] => True
  | ⟨_, value⟩ :: fields => value.EveryNode law ∧ fieldsEveryNode law fields

/-- The law holds at every node of a statement. -/
def Stmt.EveryNode (law : NodeLaw) (inFunction : Bool) : Stmt → Prop
  | .expression expr => law.stmt inFunction (.expression expr) ∧ expr.EveryNode law
  | .block stmts => law.stmt inFunction (.block stmts) ∧ stmtsEveryNode law inFunction stmts
  | .conditional condition consequence none =>
    law.stmt inFunction (.conditional condition consequence none) ∧
      condition.EveryNode law ∧ consequence.EveryNode law inFunction
  | .conditional condition consequence (some otherwise) =>
    law.stmt inFunction (.conditional condition consequence (some otherwise)) ∧
      condition.EveryNode law ∧ consequence.EveryNode law inFunction ∧
      otherwise.EveryNode law inFunction
  | .whileLoop keyword condition body =>
    law.stmt inFunction (.whileLoop keyword condition body) ∧
      condition.EveryNode law ∧ body.EveryNode law inFunction
  | .matching keyword subject cases =>
    law.stmt inFunction (.matching keyword subject cases) ∧
      subject.EveryNode law ∧ casesEveryNode law inFunction cases
  | .importing module names => law.stmt inFunction (.importing module names)
  | .returning keyword none => law.stmt inFunction (.returning keyword none)
  | .returning keyword (some value) =>
    law.stmt inFunction (.returning keyword (some value)) ∧ value.EveryNode law

/-- The law holds at every node of the statements. -/
def stmtsEveryNode (law : NodeLaw) (inFunction : Bool) : List Stmt → Prop
  | [] => True
  | s :: ss => s.EveryNode law inFunction ∧ stmtsEveryNode law inFunction ss

/-- The law holds at every node of the cases. -/
def casesEveryNode (law : NodeLaw) (inFunction : Bool) : List MatchCase → Prop
  | [] => True
  | ⟨pattern, consequence⟩ :: cases =>
    pattern.EveryNode law ∧ consequence.EveryNode law inFunction ∧
      casesEveryNode law inFunction cases

end

section EveryNode

variable {law : NodeLaw} {inFunction : Bool}

@[simp] theorem exprsEveryNode_iff {es : List Expr} :
    exprsEveryNode law es ↔ ∀ e ∈ es, e.EveryNode law := by
  induction es with
  | nil => simp [exprsEveryNode]
  | cons e es ih => simp [exprsEveryNode, ih]

@[simp] theorem stmtsEveryNode_iff {ss : List Stmt} :
    stmtsEveryNode law inFunction ss ↔ ∀ s ∈ ss, s.EveryNode law inFunction := by
  induction ss with
  | nil => simp [stmtsEveryNode]
  | cons s ss ih => simp [stmtsEveryNode, ih]

@[simp] theorem fieldsEveryNode_iff {fields : List FieldInit} :
    fieldsEveryNode law fields ↔ ∀ entry ∈ fields, entry.value.EveryNode law := by
  induction fields with
  | nil => simp [fieldsEveryNode]
  | cons entry fields ih =>
      obtain ⟨name, value⟩ := entry
      simp [fieldsEveryNode, ih]

@[simp] theorem casesEveryNode_iff {cases : List MatchCase} :
    casesEveryNode law inFunction cases ↔
      ∀ entry ∈ cases,
        entry.pattern.EveryNode law ∧ entry.consequence.EveryNode law inFunction := by
  induction cases with
  | nil => simp [casesEveryNode]
  | cons entry cases ih =>
      obtain ⟨pattern, consequence⟩ := entry
      simp [casesEveryNode, ih, and_assoc]

theorem Stmt.everyNode_conditional {condition : Expr} {consequence : Stmt}
    {otherwise : Option Stmt} :
    (Stmt.conditional condition consequence otherwise).EveryNode law inFunction ↔
      law.stmt inFunction (.conditional condition consequence otherwise) ∧
        condition.EveryNode law ∧ consequence.EveryNode law inFunction ∧
        ∀ s ∈ otherwise, s.EveryNode law inFunction := by
  cases otherwise <;> simp [Stmt.EveryNode]

theorem Stmt.everyNode_returning {keyword : Token} {value : Option Expr} :
    (Stmt.returning keyword value).EveryNode law inFunction ↔
      law.stmt inFunction (.returning keyword value) ∧ ∀ e ∈ value, e.EveryNode law := by
  cases value <;> simp [Stmt.EveryNode]

end EveryNode

/-- The steps of an induction over trees: what holds of the parts of a node
holds of the node. -/
structure TreeSteps (P : Expr → Prop) (Q : Stmt → Prop) : Prop where
  constant (value : Constant) : P (.literal value)
  name (t : Token) : P (.variable t)
  assign (target : Target) {value : Expr} (hvalue : P value) : P (.assign target value)
  binary {left right : Expr} (op : Token) (hleft : P left) (hright : P right) :
    P (.binary left op right)
  logical {left right : Expr} (op : Token) (hleft : P left) (hright : P right) :
    P (.logical left op right)
  unary (op : Token) {right : Expr} (hright : P right) : P (.unary op right)
  grouping {e : Expr} (he : P e) : P (.grouping e)
  call {callee : Expr} (bracket : Token) {args : List Expr} (hcallee : P callee)
    (hargs : ∀ e ∈ args, P e) : P (.call callee bracket args)
  member {object : Expr} (t : Token) (hobject : P object) : P (.attribute object t)
  self (keyword : Token) : P (.selfRef keyword)
  func (keyword : Token) (params : List Token) {body : List Stmt} (hbody : ∀ s ∈ body, Q s) :
    P (.func keyword params body)
  struct (keyword : Token) (params : List Token) {body : List FieldInit}
    (hbody : ∀ entry ∈ body, P entry.value) : P (.struct keyword params body)
  expression {e : Expr} (he : P e) : Q (.expression e)
  block {stmts : List Stmt} (hstmts : ∀ s ∈ stmts, Q s) : Q (.block stmts)
  conditional {condition : Expr} {consequence : Stmt} {otherwise : Option Stmt}
    (hcondition : P condition) (hconsequence : Q consequence)
    (hotherwise : ∀ s ∈ otherwise, Q s) : Q (.conditional condition consequence otherwise)
  whileLoop (keyword : Token) {condition : Expr} {body : Stmt} (hcondition : P condition)
    (hbody : Q body) : Q (.whileLoop keyword condition body)
  matching (keyword : Token) {subject : Expr} {cases : List MatchCase} (hsubject : P subject)
    (hcases : ∀ entry ∈ cases, P entry.pattern ∧ Q entry.consequence) :
    Q (.matching keyword subject cases)
  importing (module : Token) (names : List Token) : Q (.importing module names)
  returning (keyword : Token) {value : Option Expr} (hvalue : ∀ e ∈ value, P e) :
    Q (.returning keyword value)

namespace TreeSteps

variable {P : Expr → Prop} {Q : Stmt → Prop}

mutual

theorem expr (h : TreeSteps P Q) : ∀ e : Expr, P e
  | .literal value => h.constant value
  | .variable t => h.name t
  | .assign target value => h.assign target (h.expr value)
  | .binary left op right => h.binary op (h.expr left) (h.expr right)
  | .logical left op right => h.logical op (h.expr left) (h.expr right)
  | .unary op right => h.unary op (h.expr right)
  | .grouping e => h.grouping (h.expr e)
  | .call callee bracket args => h.call bracket (h.expr callee) (h.exprs args)
  | .attribute object t => h.member t (h.expr object)
  | .selfRef keyword => h.self keyword
  | .func keyword params body => h.func keyword params (h.stmts body)
  | .struct keyword params body => h.struct keyword params (h.fields body)

theorem exprs (h : TreeSteps P Q) : ∀ es : List Expr, ∀ e ∈ es, P e
  | [] => by simp
  | e :: es => List.forall_mem_cons.mpr ⟨h.expr e, h.exprs es⟩

theorem fields (h : TreeSteps P Q) : ∀ body : List FieldInit, ∀ entry ∈ body, P entry.value
  | [] => by simp
  | ⟨_, value⟩ :: body => List.forall_mem_cons.mpr ⟨h.expr value, h.fields body⟩

theorem stmt (h : TreeSteps P Q) : ∀ s : Stmt, Q s
  | .expression e => h.expression (h.expr e)
  | .block stmts => h.block (h.stmts stmts)
  | .conditional condition consequence none =>
    h.conditional (h.expr condition) (h.stmt consequence) (by simp)
  | .conditional condition consequence (some otherwise) =>
    h.conditional (h.expr condition) (h.stmt consequence) (by simpa using h.stmt otherwise)
  | .whileLoop keyword condition body => h.whileLoop keyword (h.expr condition) (h.stmt body)
  | .matching keyword subject cases => h.matching keyword (h.expr subject) (h.cases cases)
  | .importing module names => h.importing module names
  | .returning keyword none => h.returning keyword (by simp)
  | .returning keyword (some value) => h.returning keyword (by simpa using h.expr value)

theorem stmts (h : TreeSteps P Q) : ∀ ss : List Stmt, ∀ s ∈ ss, Q s
  | [] => by simp
  | s :: ss => List.forall_mem_cons.mpr ⟨h.stmt s, h.stmts ss⟩

theorem cases (h : TreeSteps P Q) :
    ∀ entries : List MatchCase, ∀ entry ∈ entries, P entry.pattern ∧ Q entry.consequence
  | [] => by simp
  | ⟨pattern, consequence⟩ :: entries =>
    List.forall_mem_cons.mpr ⟨⟨h.expr pattern, h.stmt consequence⟩, h.cases entries⟩

end

end TreeSteps

/-- The law that every node obeys. -/
def NodeLaw.any : NodeLaw :=
  ⟨fun _ => True, fun _ _ => True⟩

theorem NodeLaw.any_steps :
    TreeSteps (fun e => e.EveryNode .any) (fun s => ∀ inFunction, s.EveryNode .any inFunction) where
  constant _ := trivial
  name _ := trivial
  assign _ _ hvalue := ⟨trivial, hvalue⟩
  binary _ hleft hright := ⟨trivial, hleft, hright⟩
  logical _ hleft hright := ⟨trivial, hleft, hright⟩
  unary _ _ hright := ⟨trivial, hright⟩
  grouping he := ⟨trivial, he⟩
  call _ _ hcallee hargs := ⟨trivial, hcallee, exprsEveryNode_iff.mpr hargs⟩
  member _ hobject := ⟨trivial, hobject⟩
  self _ := trivial
  func _ _ _ hbody := ⟨trivial, stmtsEveryNode_iff.mpr fun s hs => hbody s hs true⟩
  struct _ _ _ hbody := ⟨trivial, fieldsEveryNode_iff.mpr hbody⟩
  expression he _ := ⟨trivial, he⟩
  block hstmts inFunction :=
    ⟨trivial, stmtsEveryNode_iff.mpr fun s hs => hstmts s hs inFunction⟩
  conditional hcondition hconsequence hotherwise inFunction :=
    Stmt.everyNode_conditional.mpr
      ⟨trivial, hcondition, hconsequence inFunction, fun s hs => hotherwise s hs inFunction⟩
  whileLoop _ _ _ hcondition hbody inFunction := ⟨trivial, hcondition, hbody inFunction⟩
  matching _ _ _ hsubject hcases inFunction :=
    ⟨trivial, hsubject,
      casesEveryNode_iff.mpr fun entry h => ⟨(hcases entry h).1, (hcases entry h).2 inFunction⟩⟩
  importing _ _ _ := trivial
  returning _ _ hvalue _ := Stmt.everyNode_returning.mpr ⟨trivial, hvalue⟩

theorem Expr.everyNode_any (e : Expr) : e.EveryNode .any :=
  NodeLaw.any_steps.expr e

theorem Stmt.everyNode_any (s : Stmt) (inFunction : Bool) : s.EveryNode .any inFunction :=
  NodeLaw.any_steps.stmt s inFunction

/-- A law that follows from another at all nodes up to some size holds
throughout each tree of that size. -/
theorem NodeLaw.imp_steps {law law' : NodeLaw} {bound : Nat}
    (hexpr : ∀ e, sizeOf e ≤ bound → law.expr e → law'.expr e)
    (hstmt : ∀ inFunction s, sizeOf s ≤ bound → law.stmt inFunction s → law'.stmt inFunction s) :
    TreeSteps (fun e => sizeOf e ≤ bound → e.EveryNode law → e.EveryNode law')
      (fun s => sizeOf s ≤ bound →
        ∀ inFunction, s.EveryNode law inFunction → s.EveryNode law' inFunction) where
  constant _ hsize h := hexpr _ hsize h
  name _ hsize h := hexpr _ hsize h
  assign _ _ hvalue hsize h := ⟨hexpr _ hsize h.1, hvalue (by simp at hsize; omega) h.2⟩
  binary _ hleft hright hsize h :=
    ⟨hexpr _ hsize h.1, hleft (by simp at hsize; omega) h.2.1,
      hright (by simp at hsize; omega) h.2.2⟩
  logical _ hleft hright hsize h :=
    ⟨hexpr _ hsize h.1, hleft (by simp at hsize; omega) h.2.1,
      hright (by simp at hsize; omega) h.2.2⟩
  unary _ _ hright hsize h := ⟨hexpr _ hsize h.1, hright (by simp at hsize; omega) h.2⟩
  grouping he hsize h := ⟨hexpr _ hsize h.1, he (by simp at hsize; omega) h.2⟩
  call _ args hcallee hargs hsize h := by
    refine ⟨hexpr _ hsize h.1, hcallee (by simp at hsize; omega) h.2.1, ?_⟩
    refine exprsEveryNode_iff.mpr fun e he => hargs e he ?_ (exprsEveryNode_iff.mp h.2.2 e he)
    have hpart := List.sizeOf_lt_of_mem he
    simp at hsize
    omega
  member _ hobject hsize h := ⟨hexpr _ hsize h.1, hobject (by simp at hsize; omega) h.2⟩
  self _ hsize h := hexpr _ hsize h
  func _ _ body hbody hsize h := by
    refine ⟨hexpr _ hsize h.1, stmtsEveryNode_iff.mpr fun s hs => ?_⟩
    have hpart := List.sizeOf_lt_of_mem hs
    exact hbody s hs (by simp at hsize; omega) true (stmtsEveryNode_iff.mp h.2 s hs)
  struct _ _ body hbody hsize h := by
    refine ⟨hexpr _ hsize h.1, fieldsEveryNode_iff.mpr fun entry hentry => ?_⟩
    have hpart := List.sizeOf_lt_of_mem hentry
    refine hbody entry hentry ?_ (fieldsEveryNode_iff.mp h.2 entry hentry)
    obtain ⟨name, value⟩ := entry
    simp at hsize hpart ⊢
    omega
  expression he hsize inFunction h :=
    ⟨hstmt _ _ hsize h.1, he (by simp at hsize; omega) h.2⟩
  block hstmts hsize inFunction h := by
    refine ⟨hstmt _ _ hsize h.1, stmtsEveryNode_iff.mpr fun s hs => ?_⟩
    have hpart := List.sizeOf_lt_of_mem hs
    exact hstmts s hs (by simp at hsize; omega) _ (stmtsEveryNode_iff.mp h.2 s hs)
  conditional {_ _ otherwise} hcondition hconsequence hotherwise hsize inFunction h := by
    rw [Stmt.everyNode_conditional] at h ⊢
    obtain ⟨hnode, hpart, hpart', hpart''⟩ := h
    refine ⟨hstmt _ _ hsize hnode, hcondition (by simp at hsize; omega) hpart,
      hconsequence (by simp at hsize; omega) _ hpart', ?_⟩
    rintro s hs
    obtain rfl : otherwise = some s := hs
    exact hotherwise s rfl (by simp at hsize; omega) _ (hpart'' s rfl)
  whileLoop _ _ _ hcondition hbody hsize inFunction h :=
    ⟨hstmt _ _ hsize h.1, hcondition (by simp at hsize; omega) h.2.1,
      hbody (by simp at hsize; omega) _ h.2.2⟩
  matching _ _ cases hsubject hcases hsize inFunction h := by
    refine ⟨hstmt _ _ hsize h.1, hsubject (by simp at hsize; omega) h.2.1, ?_⟩
    refine casesEveryNode_iff.mpr fun entry hentry => ?_
    obtain ⟨hpattern, hconsequence⟩ := hcases entry hentry
    obtain ⟨hlaw, hlaw'⟩ := casesEveryNode_iff.mp h.2.2 entry hentry
    have hpart := List.sizeOf_lt_of_mem hentry
    obtain ⟨pattern, consequence⟩ := entry
    simp at hsize hpart
    exact ⟨hpattern (by dsimp only; omega) hlaw, hconsequence (by dsimp only; omega) _ hlaw'⟩
  importing _ _ hsize _ h := hstmt _ _ hsize h
  returning _ value hvalue hsize inFunction h := by
    rw [Stmt.everyNode_returning] at h ⊢
    refine ⟨hstmt _ _ hsize h.1, ?_⟩
    rintro e he
    obtain rfl : value = some e := he
    exact hvalue e rfl (by simp at hsize; omega) (h.2 e rfl)

theorem map_eq_self {α : Type} {f : α → α} {l : List α} (h : ∀ a ∈ l, f a = a) : l.map f = l := by
  rw [List.map_congr_left h, List.map_id']

theorem Target.mapTokens_id (target : Target) : target.mapTokens id = target := by
  cases target <;> rfl

theorem FieldInit.mapTokens_id {entry : FieldInit} (h : entry.value.mapTokens id = entry.value) :
    entry.mapTokens id = entry := by
  cases entry
  simp only [FieldInit.mapTokens, id_eq]
  rw [h]

theorem MatchCase.mapTokens_id {entry : MatchCase}
    (h : entry.pattern.mapTokens id = entry.pattern ∧
      entry.consequence.mapTokens id = entry.consequence) : entry.mapTokens id = entry := by
  cases entry
  simp only [MatchCase.mapTokens]
  rw [h.1, h.2]

/-- A tree whose tokens are kept stays as it is. -/
theorem mapTokens_id_steps :
    TreeSteps (fun e => e.mapTokens id = e) (fun s => s.mapTokens id = s) where
  constant _ := rfl
  name _ := rfl
  assign target _ hvalue := by simp [Expr.mapTokens, target.mapTokens_id, hvalue]
  binary _ hleft hright := by simp [Expr.mapTokens, hleft, hright]
  logical _ hleft hright := by simp [Expr.mapTokens, hleft, hright]
  unary _ _ hright := by simp [Expr.mapTokens, hright]
  grouping he := by simp [Expr.mapTokens, he]
  call _ _ hcallee hargs := by simp [Expr.mapTokens, hcallee, map_eq_self hargs]
  member _ hobject := by simp [Expr.mapTokens, hobject]
  self _ := rfl
  func _ _ _ hbody := by simp [Expr.mapTokens, map_eq_self hbody]
  struct _ _ _ hbody := by
    have hentries := map_eq_self fun entry hentry => FieldInit.mapTokens_id (hbody entry hentry)
    simp [Expr.mapTokens, hentries]
  expression he := by simp [Stmt.mapTokens, he]
  block hstmts := by simp [Stmt.mapTokens, map_eq_self hstmts]
  conditional {_ _ otherwise} hcondition hconsequence hotherwise := by
    cases otherwise with
    | none => simp [Stmt.mapTokens, hcondition, hconsequence]
    | some s => simp [Stmt.mapTokens, hcondition, hconsequence, hotherwise s rfl]
  whileLoop _ _ _ hcondition hbody := by simp [Stmt.mapTokens, hcondition, hbody]
  matching _ _ _ hsubject hcases := by
    have hentries := map_eq_self fun entry hentry => MatchCase.mapTokens_id (hcases entry hentry)
    simp [Stmt.mapTokens, hsubject, hentries]
  importing _ _ := by simp [Stmt.mapTokens]
  returning _ {value} hvalue := by
    cases value with
    | none => simp [Stmt.mapTokens]
    | some e => simp [Stmt.mapTokens, hvalue e rfl]

theorem stmts_eq_of_mapTokens_id {ss ss' : List Stmt}
    (h : ss.map (Stmt.mapTokens id) = ss'.map (Stmt.mapTokens id)) : ss = ss' := by
  rwa [map_eq_self (mapTokens_id_steps.stmts ss), map_eq_self (mapTokens_id_steps.stmts ss')] at h

theorem fields_eq_of_mapTokens_id {fields fields' : List FieldInit}
    (h : fields.map (FieldInit.mapTokens id) = fields'.map (FieldInit.mapTokens id)) :
    fields = fields' := by
  have hself : ∀ body : List FieldInit, body.map (FieldInit.mapTokens id) = body := fun body =>
    map_eq_self fun entry _ => FieldInit.mapTokens_id (mapTokens_id_steps.expr entry.value)
  rwa [hself, hself] at h

end BracketScript
