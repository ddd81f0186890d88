import BracketScript.Proofs.Grammar.Tokens
import BracketScript.Proofs.Json
import BracketScript.Proofs.Session.Truncation
import BracketScript.Proofs.Tree.Dump

/-!
# Nothing is lost in a JSON dump

A number that is not finite has no JSON text; every other constant has one of its
own.  So sources whose number literals are finite are told apart by the dumps of
their trees (`Session.treeText_injective`).
-/

namespace BracketScript

open Grammar

/-- If the token denotes a number, then a finite one. -/
def Token.FiniteLiteral (t : Token) : Prop :=
  ∀ x, t.literal = some (.num x) → x.isFinite = true

/-! ### Doubles in a dump -/

theorem Json.itemsFinite_iff {items : List Json} :
    Json.itemsFinite items ↔ ∀ x ∈ items, x.AllFinite := by
  induction items with
  | nil => simp [Json.itemsFinite]
  | cons x xs ih => simp [Json.itemsFinite, ih]

theorem Token.json_allFinite {t : Token} (h : t.FiniteLiteral) : t.json.AllFinite := by
  obtain ⟨kind, lexeme, literal, line⟩ := t
  cases literal with
  | none => exact ⟨trivial, trivial, trivial, trivial⟩
  | some l =>
      cases l with
      | num x => exact ⟨trivial, trivial, h x rfl, trivial, trivial⟩
      | str s => exact ⟨trivial, trivial, trivial, trivial, trivial⟩

theorem map_allFinite {α : Type} {f : α → Json} {l : List α} (h : ∀ a ∈ l, (f a).AllFinite) :
    (Json.arr (l.map f)).AllFinite :=
  Json.itemsFinite_iff.mpr (List.forall_mem_map.mpr h)

theorem names_allFinite {names : List Token} (h : ∀ t ∈ names, Named Token.FiniteLiteral t) :
    (Json.arr (names.map Token.json)).AllFinite :=
  map_allFinite fun t ht => Token.json_allFinite (h t ht).1

theorem Constant.json_allFinite {value : Constant} (h : Stated Token.FiniteLiteral value) :
    value.json.AllFinite := by
  rcases h with rfl | ⟨t, ht, hdenotes⟩
  · exact trivial
  · cases hdenotes with
    | number _ literal => exact ht _ literal
    | _ => exact trivial

/-- The doubles in the JSON of a node are those of its tokens and of its parts. -/
theorem allFinite_steps :
    TreeSteps (fun e => e.EveryNode (tokensLaw Token.FiniteLiteral) → e.json.AllFinite)
      (fun s => ∀ inFunction, s.EveryNode (tokensLaw Token.FiniteLiteral) inFunction →
        s.json.AllFinite) where
  constant value h := ⟨trivial, Constant.json_allFinite h, trivial⟩
  name t h := ⟨trivial, Token.json_allFinite h.1, trivial⟩
  assign target value hvalue h := by
    refine ⟨trivial, ?_, hvalue h.2, trivial⟩
    rcases target with t | ⟨keyword, t⟩
    · exact ⟨trivial, Token.json_allFinite h.1.1, trivial⟩
    · exact ⟨trivial, Token.json_allFinite h.1.1.1, Token.json_allFinite h.1.2.1, trivial⟩
  binary op hleft hright h :=
    ⟨trivial, hleft h.2.1, Token.json_allFinite h.1.1, hright h.2.2, trivial⟩
  logical op hleft hright h :=
    ⟨trivial, hleft h.2.1, Token.json_allFinite h.1.1, hright h.2.2, trivial⟩
  unary op _ hright h := ⟨trivial, Token.json_allFinite h.1.1, hright h.2, trivial⟩
  grouping he h := ⟨trivial, he h.2, trivial⟩
  call bracket args hcallee hargs h := by
    refine ⟨trivial, hcallee h.2.1, Token.json_allFinite h.1.1, ?_, trivial⟩
    rw [exprsJson_eq_map]
    exact map_allFinite fun e he => hargs e he (exprsEveryNode_iff.mp h.2.2 e he)
  member t hobject h := ⟨trivial, hobject h.2, Token.json_allFinite h.1.1, trivial⟩
  self keyword h := ⟨trivial, Token.json_allFinite h.1, trivial⟩
  func keyword params body hbody h := by
    refine ⟨trivial, ⟨Token.json_allFinite h.1.1.1, names_allFinite h.1.2, ?_, trivial⟩, trivial⟩
    rw [stmtsJson_eq_map]
    exact map_allFinite fun s hs => hbody s hs true (stmtsEveryNode_iff.mp h.2 s hs)
  struct keyword params body hbody h := by
    refine ⟨trivial, ⟨Token.json_allFinite h.1.1.1, names_allFinite h.1.2.1, ?_, trivial⟩, trivial⟩
    rw [fieldsJson_eq_map]
    exact map_allFinite fun entry hentry => ⟨Token.json_allFinite (h.1.2.2 entry hentry).1,
      hbody entry hentry (fieldsEveryNode_iff.mp h.2 entry hentry), trivial⟩
  expression he _ h := ⟨trivial, he h.2, trivial⟩
  block hstmts inFunction h := by
    refine ⟨trivial, ?_, trivial⟩
    rw [stmtsJson_eq_map]
    exact map_allFinite fun s hs => hstmts s hs inFunction (stmtsEveryNode_iff.mp h.2 s hs)
  conditional {_ _ otherwise} hcondition hconsequence hotherwise inFunction h := by
    rw [Stmt.everyNode_conditional] at h
    refine ⟨trivial, hcondition h.2.1, hconsequence inFunction h.2.2.1, ?_, trivial⟩
    cases otherwise with
    | none => exact trivial
    | some s => exact hotherwise s rfl inFunction (h.2.2.2 s rfl)
  whileLoop keyword _ _ hcondition hbody inFunction h :=
    ⟨trivial, Token.json_allFinite h.1.1, hcondition h.2.1, hbody inFunction h.2.2, trivial⟩
  matching keyword _ cases hsubject hcases inFunction h := by
    refine ⟨trivial, Token.json_allFinite h.1.1, hsubject h.2.1, ?_, trivial⟩
    rw [casesJson_eq_map]
    refine map_allFinite fun entry hentry => ?_
    obtain ⟨hpattern, hconsequence⟩ := casesEveryNode_iff.mp h.2.2 entry hentry
    exact ⟨(hcases entry hentry).1 hpattern, (hcases entry hentry).2 inFunction hconsequence,
      trivial⟩
  importing module names _ h :=
    ⟨trivial, Token.json_allFinite h.1.1, names_allFinite h.2, trivial⟩
  returning keyword value hvalue inFunction h := by
    rw [Stmt.everyNode_returning] at h
    refine ⟨trivial, Token.json_allFinite h.1.1, ?_, trivial⟩
    cases value with
    | none => exact trivial
    | some e => exact hvalue e rfl (h.2 e rfl)

/-- The dump of a program with finite literals has finite doubles only. -/
theorem stmtsJson_allFinite {tokens : List Token} {trees : List Stmt}
    (hparse : parse tokens = .ok trees) (h : ∀ t ∈ tokens, t.FiniteLiteral) :
    (Json.arr (stmtsJson trees)).AllFinite := by
  rw [stmtsJson_eq_map]
  exact map_allFinite fun s hs =>
    allFinite_steps.stmt s false (everyNode_tokensLaw_of_parse hparse h s hs)

namespace Session

/-- Showing a tree writes its dump on a line of its own. -/
theorem written_of_emit {options : SessionOptions} (hemit : options.emit = some .tree)
    {source : String} {tokens : List Token} {trees : List Stmt}
    (hscan : Token.scan source = .ok tokens) (hparse : parse tokens = .ok trees) (fuel : Nat)
    {m : Machine} (hroom : m.console.room = none) :
    (runSource options fuel source m).2.console.written =
      m.console.written ++ (treeText options.json trees ++ "\n").toUTF8 := by
  have houtcome : (Parse.ofTokens tokens).outcome = .ok trees := hparse
  have hwrite (m : Machine) (hroom : m.console.room = none) (text : String) :
      writeLine text m = (.ok (), { m with console := { m.console with
        written := m.console.written ++ (text ++ "\n").toUTF8 } }) := by
    simp only [writeLine, Console.writeLine, Console.write_of_unbounded hroom]
  simp [runSource, hscan, hemit, runTokens, houtcome, bind, Run.andThen, Run.note, Run.update,
    hwrite, hroom]
  rfl

/-- Take two sources in which every number literal is finite.  If the dumps of
their trees as JSON are the same, then so are the trees: all nodes with their
tokens, constants, missing parts and order.  The same holds if showing the trees
writes the same to an output that takes everything. -/
theorem treeText_injective {source source' : String} {tokens tokens' : List Token}
    {trees trees' : List Stmt} (hscan : Token.scan source = .ok tokens)
    (hscan' : Token.scan source' = .ok tokens') (hparse : parse tokens = .ok trees)
    (hparse' : parse tokens' = .ok trees') (hfinite : ∀ t ∈ tokens, t.FiniteLiteral)
    (hfinite' : ∀ t ∈ tokens', t.FiniteLiteral) :
    (treeText true trees = treeText true trees' → trees = trees') ∧
      ∀ (options : SessionOptions) (fuel fuel' : Nat) (m : Machine), options.emit = some .tree →
        options.json = true → m.console.room = none →
        (runSource options fuel source m).2.console.written =
            (runSource options fuel' source' m).2.console.written →
          trees = trees' := by
  have htexts (h : treeText true trees = treeText true trees') : trees = trees' := by
    have hjson := Json.pretty_injective (stmtsJson_allFinite hparse hfinite)
      (stmtsJson_allFinite hparse' hfinite') h
    exact stmtsJson_injective (Json.arr.inj hjson)
  refine ⟨htexts, ?_⟩
  intro options fuel fuel' m hemit hjson hroom hwritten
  rw [written_of_emit hemit hscan hparse fuel hroom, written_of_emit hemit hscan' hparse' fuel' hroom,
    hjson, ByteArray.append_right_inj] at hwritten
  have hlines := String.toByteArray_inj.mp hwritten
  exact htexts ((String.append_left_inj _).mp hlines)

/-- The dump of the number `1` is not that of the string `'1'`. -/
theorem treeText_injective_one :
    let number : List Token := [⟨.num, "1", some (.num 1), 1⟩, ⟨.semicolon, ";", none, 1⟩, .eof 1]
    let text : List Token := [⟨.str, "'1'", some (.str "1"), 1⟩, ⟨.semicolon, ";", none, 1⟩, .eof 1]
    Token.scan "1;" = .ok number ∧ Token.scan "'1';" = .ok text ∧
      parse number = .ok [.expression (.literal (.num 1))] ∧
      parse text = .ok [.expression (.literal (.str "1"))] ∧
      treeText true [.expression (.literal (.num 1))] ≠
        treeText true [.expression (.literal (.str "1"))] := by
  intro number text
  have hscan : Token.scan "1;" = .ok number := by decide +kernel
  have hscan' : Token.scan "'1';" = .ok text := by decide +kernel
  have hparse : parse number = .ok [.expression (.literal (.num 1))] := rfl
  have hparse' : parse text = .ok [.expression (.literal (.str "1"))] := rfl
  have hone : (1 : Float).isFinite = true := by decide +kernel
  have hfinite : ∀ t ∈ number, t.FiniteLiteral := by
    simp [number, Token.FiniteLiteral, Token.eof, hone]
  have hfinite' : ∀ t ∈ text, t.FiniteLiteral := by
    simp [text, Token.FiniteLiteral, Token.eof]
  refine ⟨hscan, hscan', hparse, hparse', fun htext => ?_⟩
  have htrees := (treeText_injective hscan hscan' hparse hparse' hfinite hfinite').1 htext
  cases htrees

end Session

end BracketScript
