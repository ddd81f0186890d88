import BracketScript.Proofs.Eval.Nesting
import BracketScript.Proofs.Grammar.Limit
import BracketScript.Proofs.Grammar.Nesting
import BracketScript.Proofs.Grammar.RoundTrip
import BracketScript.Proofs.Session.Moments
import BracketScript.Proofs.Session.Termination
import BracketScript.Proofs.Token.Respelling

/-!
# The limit on nesting

The limit on nesting bounds how deep the trees of accepted programs are, and with
that how deep the evaluation of a program goes within one call
(`nesting_limit_bounds_counted_steps`).  What it bounds are the steps inwards
other than those into alternatives, left operands, functions called and objects.
Programs with any number of those are accepted: sums, calls of calls, attributes
of attributes and conditionals with many `elif` parts are read in loops, which
open no levels (`steps_not_bounded`).  Running them, all these steps are under way
at once (`exists_underway`).
-/

namespace BracketScript

open Grammar TreeNode

/-! ### Code with little nesting -/

/-- No node has more nesting than the bound. -/
def NodeLaw.shallow (bound : Nat) : NodeLaw where
  expr e := e.nesting ≤ bound
  stmt _ s := s.nesting ≤ bound

theorem TreeNode.Has.le {n n' : TreeNode} {way : Way} (h : Has n way n') :
    n'.nesting ≤ n.nesting :=
  Nat.le_trans (Nat.le_add_right _ _) h.nesting_le

/-- A bound on the whole is one on the parts. -/
theorem NodeLaw.shallow_steps (bound : Nat) :
    TreeSteps (fun e => (TreeNode.expr e).nesting ≤ bound → e.EveryNode (.shallow bound))
      (fun s => (TreeNode.stmt s).nesting ≤ bound →
        ∀ inFunction, s.EveryNode (.shallow bound) inFunction) where
  constant _ h := h
  name _ h := h
  assign _ _ hvalue h := ⟨h, hvalue (Has.assigned.le.trans h)⟩
  binary _ hleft hright h := ⟨h, hleft (Has.left.le.trans h), hright (Has.right.le.trans h)⟩
  logical _ hleft hright h :=
    ⟨h, hleft (Has.deciding.le.trans h), hright (Has.undecided.le.trans h)⟩
  unary _ _ hright h := ⟨h, hright (Has.operand.le.trans h)⟩
  grouping he h := ⟨h, he (Has.grouped.le.trans h)⟩
  call _ _ hcallee hargs h :=
    ⟨h, hcallee (Has.callee.le.trans h),
      exprsEveryNode_iff.mpr fun e he => hargs e he ((Has.argument he).le.trans h)⟩
  member _ hobject h := ⟨h, hobject (Has.object.le.trans h)⟩
  self _ h := h
  func _ _ _ hbody h :=
    ⟨h, stmtsEveryNode_iff.mpr fun s hs => hbody s hs ((Has.function hs).le.trans h) true⟩
  struct _ _ _ hbody h :=
    ⟨h, fieldsEveryNode_iff.mpr fun entry he => hbody entry he ((Has.field he).le.trans h)⟩
  expression he h _ := ⟨h, he (Has.expression.le.trans h)⟩
  block hstmts h inFunction :=
    ⟨h, stmtsEveryNode_iff.mpr fun s hs => hstmts s hs ((Has.block hs).le.trans h) inFunction⟩
  conditional hcondition hconsequence hotherwise h inFunction := by
    refine Stmt.everyNode_conditional.mpr ⟨h, hcondition (Has.question.le.trans h),
      hconsequence (Has.consequence.le.trans h) inFunction, ?_⟩
    rintro s ⟨⟩
    exact hotherwise s rfl (Has.otherwise.le.trans h) inFunction
  whileLoop _ _ _ hcondition hbody h inFunction :=
    ⟨h, hcondition (Has.guard.le.trans h), hbody (Has.round.le.trans h) inFunction⟩
  matching _ _ _ hsubject hcases h inFunction :=
    ⟨h, hsubject (Has.subject.le.trans h), casesEveryNode_iff.mpr fun entry he =>
      ⟨(hcases entry he).1 ((Has.pattern he).le.trans h),
        (hcases entry he).2 ((Has.fitting he).le.trans h) inFunction⟩⟩
  importing _ _ h _ := h
  returning _ _ hvalue h _ := by
    refine Stmt.everyNode_returning.mpr ⟨h, ?_⟩
    rintro e ⟨⟩
    exact hvalue e rfl (Has.returned.le.trans h)

/-- Code as deep as the limit on nesting lets it be. -/
def Allowance.shallow : Allowance :=
  ofCode (.shallow (9 * maxNesting)) (fun _ _ _ => True) True

theorem Allowance.shallow_laws (setup : Setup) : shallow.Laws setup :=
  ofCode_laws (fun _ => trivial) (fun _ _ => trivial) (fun _ _ => trivial)
    (fun _ _ _ => trivial) (fun _ _ _ => trivial)

theorem Allowance.shallow_lasting : shallow.regime.Lasting where
  enough _ _ _ := trivial
  line _ := trivial

theorem Allowance.shallow_admits (fuel : Nat) (source : String) :
    shallow.regime.Admits fuel source := by
  intro tokens trees _ hparse
  refine ⟨fun tree htree => ?_, trivial⟩
  exact (NodeLaw.shallow_steps _).stmt tree (nesting_le_of_parse hparse tree htree) false

theorem Expr.EveryNode.root {law : NodeLaw} {e : Expr} (h : e.EveryNode law) : law.expr e := by
  cases e <;> first | exact h | exact h.1

theorem Stmt.EveryNode.root {law : NodeLaw} {inFunction : Bool} {s : Stmt}
    (h : s.EveryNode law inFunction) : law.stmt inFunction s := by
  cases s with
  | conditional => exact (Stmt.everyNode_conditional.mp h).1
  | returning => exact (Stmt.everyNode_returning.mp h).1
  | importing => exact h
  | _ => exact h.1

/-- The law is one for the first nodes of a job. -/
theorem Regime.Allows.nesting_le {s : Store} {job : Job}
    (h : Allowance.shallow.regime.Allows s job) :
    ∀ n ∈ job.nodes, n.nesting ≤ 9 * maxNesting := by
  have hexpr {e : Expr} (he : e.EveryNode (.shallow (9 * maxNesting))) :
      (TreeNode.expr e).nesting ≤ 9 * maxNesting := he.root
  have hstmt {inFunction : Bool} {s : Stmt}
      (hs : s.EveryNode (.shallow (9 * maxNesting)) inFunction) :
      (TreeNode.stmt s).nesting ≤ 9 * maxNesting := hs.root
  cases job with
  | expr e => exact List.forall_mem_singleton.mpr (hexpr h)
  | exprs es => exact List.forall_mem_map.mpr fun e he => hexpr (h e he)
  | call | native => exact fun _ h => nomatch h
  | fields id entries => exact List.forall_mem_map.mpr fun entry he => hexpr (h.2 entry he).1
  | stmt s =>
      obtain ⟨_, hs⟩ := h
      exact List.forall_mem_singleton.mpr (hstmt hs)
  | stmts ss last =>
      obtain ⟨_, hss⟩ := h
      exact List.forall_mem_map.mpr fun s hs => hstmt (hss s hs)
  | rounds keyword condition body last =>
      obtain ⟨_, -, hcondition, hbody⟩ := h
      exact List.forall_mem_cons.mpr
        ⟨hexpr hcondition, List.forall_mem_singleton.mpr (hstmt hbody)⟩
  | cases keyword subject entries =>
      obtain ⟨_, hentries⟩ := h
      refine List.forall_mem_flatMap.mpr fun entry he => ?_
      exact List.forall_mem_cons.mpr ⟨hexpr (hentries entry he).1,
        List.forall_mem_singleton.mpr (hstmt (hentries entry he).2)⟩

/-- What is under way within a call, in any session, is a chain of a tree with
little nesting. -/
theorem Session.Does.counted_le {options : SessionOptions} {console : Console}
    {names : List String} {last m : Machine} {n : Nat} {job : Job} {nodes : List TreeNode}
    (h : Does options (start console names) last n job m)
    (hnodes : Underway options.setup n job m nodes) :
    nodes = [] ∨ ∃ root steps, nodes = root :: steps.map Prod.snd ∧ Chain root steps ∧
      counted steps ≤ 9 * maxNesting := by
  have hstart : Allowance.shallow.regime.Rests (start console names) :=
    Allowance.rests_start console names trivial trivial ⟨trivial, trivial⟩
  have hfits := h.fits (Allowance.regime_laws (Allowance.shallow_laws options.setup))
    Allowance.shallow_admits Allowance.shallow_lasting hstart
  rcases hnodes.chain with hnone | ⟨root, hroot, steps, hsteps, hchain⟩
  · exact Or.inl hnone
  · have hroot := hfits.code.nesting_le root hroot
    exact Or.inr ⟨root, steps, hsteps, hchain, hchain.counted_le.trans hroot⟩

/-! ### Steps that are not bounded -/

section Unbounded

/-- Going around something again and again makes a chain as long, and all of it is
under way when the innermost part is evaluated. -/
theorem underway_iterate {α : Type} {setup : Setup} {node : α → TreeNode} {job : α → Job}
    (hnode : ∀ a, (job a).node? = some (node a)) (hcall : ∀ a, (job a).isCall = false)
    {around : α → α} {way : Way} (hhas : ∀ a, Has (node (around a)) way (node a))
    (hpart : ∀ a n m, Part setup (n + 1) (job (around a)) m (job a) m) (a : α) (k : Nat) :
    ∃ steps, Chain (node (around^[k] a)) steps ∧
      steps.countP (fun step => step.1 = way) = k ∧
      ∀ m, Underway setup (k + 1) (job (around^[k] a)) m
        (node (around^[k] a) :: steps.map Prod.snd) := by
  induction k with
  | zero =>
      refine ⟨[], .here _, rfl, fun m => ?_⟩
      have hhere : Underway setup 1 (job a) m (job a).node?.toList := .here
      rwa [hnode] at hhere
  | succ k ih =>
      obtain ⟨steps, hchain, hcount, hinner⟩ := ih
      rw [Function.iterate_succ_apply']
      refine ⟨_, .inwards (hhas _) hchain, ?_, fun m => ?_⟩
      · rw [List.countP_cons, hcount]
        simp
      · have hinside := Underway.inside (hpart (around^[k] a) k m) (hcall _) (hinner m)
        rwa [hnode] at hinside

def nameToken : Token := ⟨.identifier, "x", none, 1⟩

def plusToken : Token := ⟨.plus, "+", none, 1⟩

/-- The tokens of the programs below. -/
def vocabulary : List Token :=
  [nameToken, plusToken, mark .leftBracket "[", mark .rightBracket "]", mark .semicolon ";",
    mark .ifKw "if", mark .elifKw "elif", mark .falseKw "false"]

theorem scan_vocabulary {w : List Token} (h : w ⊆ vocabulary) :
    Token.scan (Token.respelled w) = .ok (w ++ [.eof 1]) := by
  have hscan : Token.scan "x + [ ] ; if elif false" = .ok (vocabulary ++ [.eof 1]) := rfl
  have hkind : ∀ t ∈ vocabulary, t.kind ≠ .eof := by decide
  have hline : ∀ t ∈ vocabulary, t.line = 1 := by decide
  have hnewline : ∀ t ∈ vocabulary, '\n' ∉ t.lexeme.toList := by decide
  refine Token.scan_of_firstLine (fun t ht => ?_) (fun t ht => hline t (h ht))
    fun t ht => hnewline t (h ht)
  exact Token.Scannable.lexeme ⟨_, _, hscan, List.mem_append_left _ (h ht)⟩ (hkind t (h ht))

/-- An expression that can be printed in a place with few tokens, opens no levels and
does not begin with a bracket. -/
structure Plain (p : Place) (e : Expr) : Prop where
  printable : e.EveryNode printable
  fits : e.Fits p
  levels : e.levels = 0
  starts : ∃ t w, e.print = t :: w ∧ t.kind ≠ .leftBracket
  tokens : e.print ⊆ vocabulary

theorem plain_name (p : Place) : Plain p (.variable nameToken) where
  printable := ⟨Or.inl rfl, trivial⟩
  fits := by cases p <;> decide
  levels := rfl
  starts := ⟨nameToken, [], rfl, by decide⟩
  tokens := by decide

theorem plain_iterate {p : Place} {around : Expr → Expr}
    (h : ∀ e, Plain p e → Plain p (around e)) (k : Nat) :
    Plain p (around^[k] (.variable nameToken)) := by
  induction k with
  | zero => exact plain_name p
  | succ k ih =>
      rw [Function.iterate_succ_apply']
      exact h _ ih

theorem parse_plain {p : Place} {e : Expr} (h : Plain p e) :
    parse (printStmts [.expression e] ++ [.eof 1]) = .ok [.expression e] := by
  refine parse_print [.expression e] (.eof 1) rfl (List.forall_mem_singleton.mpr ?_)
    (List.forall_mem_singleton.mpr ?_)
  · obtain ⟨t, w, hprint, ht⟩ := h.starts
    refine ⟨⟨trivial, ?_⟩, h.printable⟩
    show ∀ t ∈ e.print.head?, t.kind ≠ .leftBracket
    rw [hprint]
    rintro _ ⟨⟩
    exact ht
  · rw [Stmt.levels, h.levels]
    decide

/-- One more operand to add. -/
def plusName (e : Expr) : Expr := .binary e plusToken (.variable nameToken)

theorem plain_plusName {e : Expr} (h : Plain .term e) : Plain .term (plusName e) where
  printable :=
    ⟨⟨trivial, ⟨by decide, rfl, h.fits, by decide⟩⟩, h.printable, (plain_name .term).printable⟩
  fits := Nat.le_refl _
  levels := by
    rw [plusName, Expr.levels, h.levels]
    rfl
  starts := by
    obtain ⟨t, w, hprint, ht⟩ := h.starts
    rw [plusName, Expr.print, hprint]
    exact ⟨t, _, rfl, ht⟩
  tokens := List.append_subset.mpr ⟨h.tokens, by decide⟩

/-- A call of what an expression stands for. -/
def called (e : Expr) : Expr := .call e (mark .rightBracket "]") []

theorem plain_called {e : Expr} (h : Plain .call e) : Plain .call (called e) where
  printable := ⟨⟨Nat.zero_le _, rfl, h.fits⟩, h.printable, trivial⟩
  fits := Nat.le_refl _
  levels := by
    rw [called, Expr.levels, h.levels]
    rfl
  starts := by
    obtain ⟨t, w, hprint, ht⟩ := h.starts
    rw [called, Expr.print, hprint]
    exact ⟨t, _, rfl, ht⟩
  tokens := List.append_subset.mpr ⟨h.tokens, by decide⟩

/-- An attribute of what an expression stands for. -/
def attributeOf (e : Expr) : Expr := .attribute e nameToken

theorem plain_attributeOf {e : Expr} (h : Plain .call e) : Plain .call (attributeOf e) where
  printable := ⟨⟨rfl, h.fits⟩, h.printable⟩
  fits := Nat.le_refl _
  levels := h.levels
  starts := by
    obtain ⟨t, w, hprint, ht⟩ := h.starts
    rw [attributeOf, Expr.print, hprint]
    exact ⟨t, _, rfl, ht⟩
  tokens := List.append_subset.mpr ⟨h.tokens, by decide⟩

/-- A conditional with another one as its alternative, to which it comes. -/
def elseIf (otherwise : Stmt) : Stmt :=
  .conditional (.literal (.bool false)) (.expression (.variable nameToken)) (some otherwise)

def lastIf : Stmt :=
  .conditional (.literal (.bool false)) (.expression (.variable nameToken)) none

theorem printable_elseIf (k : Nat) :
    (elseIf^[k] lastIf).EveryNode printable false ∧ (elseIf^[k] lastIf).levels = 3 ∧
      (elseIf^[k] lastIf).print ⊆ vocabulary ∧ ∃ e s o, elseIf^[k] lastIf = .conditional e s o := by
  have hname : (Expr.variable nameToken).EveryNode printable := (plain_name .primary).printable
  have hcondition : (Expr.literal (.bool false)).EveryNode printable := ⟨trivial, trivial⟩
  have hconsequence : (Stmt.expression (.variable nameToken)).EveryNode printable false := by
    refine ⟨⟨trivial, ?_⟩, hname⟩
    rintro _ ⟨⟩
    decide
  induction k with
  | zero =>
      exact ⟨⟨⟨trivial, trivial⟩, hcondition, hconsequence⟩, rfl, by decide, _, _, _, rfl⟩
  | succ k ih =>
      obtain ⟨hnodes, hlevels, htokens, e, s, o, heq⟩ := ih
      rw [Function.iterate_succ_apply']
      refine ⟨⟨⟨trivial, rfl⟩, hcondition, hconsequence, hnodes⟩, ?_, ?_, _, _, _, rfl⟩
      · rw [elseIf, Stmt.levels, hlevels, heq]
        rfl
      · have halternative : ∀ w, printAlternative (elseIf^[k] lastIf) w =
            mark .elifKw "elif" :: w.tail := by
          intro w
          rw [heq]
          rfl
        rw [elseIf, Stmt.print, halternative]
        simp only [List.cons_subset, List.append_subset]
        have htail := List.Subset.trans (List.tail_subset _) htokens
        exact ⟨by decide, by decide, by decide, by decide, htail⟩

theorem parse_elseIf (k : Nat) :
    parse (printStmts [elseIf^[k] lastIf] ++ [.eof 1]) = .ok [elseIf^[k] lastIf] := by
  obtain ⟨hnodes, hlevels, -⟩ := printable_elseIf k
  refine parse_print [elseIf^[k] lastIf] (.eof 1) rfl (List.forall_mem_singleton.mpr hnodes)
    (List.forall_mem_singleton.mpr ?_)
  rw [hlevels]
  decide

theorem part_elseIf (setup : Setup) (s : Stmt) (n : Nat) (m : Machine) :
    Part setup (n + 1) (.stmt (elseIf s)) m (.stmt s) m :=
  .otherwise (v := .bool false) (by rw [eval]; rfl) rfl

/-- A unit is accepted as one statement, from which a chain has so many steps of a
kind, and when it is run they are under way at once. -/
def RunsThrough (way : Way) (k : Nat) : Prop :=
  ∃ source tokens tree steps, Token.scan source = .ok tokens ∧ parse tokens = .ok [tree] ∧
    Chain (.stmt tree) steps ∧ (k ≤ steps.countP fun step => step.1 = way) ∧
    ∃ options console names last n job m,
      Session.Does options (Session.start console names) last n job m ∧
      Underway options.setup n job m (.stmt tree :: steps.map Prod.snd)

/-- It takes a statement that is printed with few tokens and read again, and an
account of what is under way when it is run. -/
theorem runsThrough_of_underway {way : Way} {k n : Nat} {tree : Stmt}
    {steps : List (Way × TreeNode)} (htokens : tree.print ⊆ vocabulary)
    (hparse : parse (printStmts [tree] ++ [.eof 1]) = .ok [tree])
    (hchain : Chain (.stmt tree) steps) (hcount : k ≤ steps.countP fun step => step.1 = way)
    (hnodes : ∀ m, Underway Session.bareOptions.setup n (.stmt tree) m
      (.stmt tree :: steps.map Prod.snd)) : RunsThrough way k := by
  have hscan : Token.scan (Token.respelled (printStmts [tree])) =
      .ok (printStmts [tree] ++ [.eof 1]) := by
    refine scan_vocabulary ?_
    rw [printStmts, printStmts, List.append_nil]
    exact htokens
  exact ⟨_, _, tree, steps, hscan, hparse, hchain, hcount, Session.bareOptions, .ofInput [] none,
    [], _, n + 1, _, _, .unit .start rfl hscan hparse .start, .inside .first rfl (hnodes _)⟩

/-- There are programs with any number of steps of each kind that does not count. -/
theorem exists_underway {way : Way} (h : way.counts = false) (k : Nat) : RunsThrough way k := by
  -- All but one of these kinds lead from an expression into another.
  have hplain {p : Place} {around : Expr → Expr} (hplain : ∀ e, Plain p e → Plain p (around e))
      (hhas : ∀ e, Has (.expr (around e)) way (.expr e))
      (hpart : ∀ e n m, Part Session.bareOptions.setup (n + 1) (.expr (around e)) m (.expr e) m) :
      RunsThrough way k := by
    have hprogram := plain_iterate hplain k
    obtain ⟨steps, hchain, hcount, hnodes⟩ := underway_iterate (fun _ => rfl) (fun _ => rfl) hhas
      hpart (.variable nameToken) k
    refine runsThrough_of_underway ?_ (parse_plain hprogram) (.inwards .expression hchain) ?_
      fun m => .inside .expression rfl (hnodes m)
    · exact List.append_subset.mpr ⟨hprogram.tokens, by decide⟩
    · rw [List.countP_cons, hcount]
      exact Nat.le_add_right _ _
  cases way with
  | otherwise =>
      obtain ⟨-, -, htokens, -⟩ := printable_elseIf k
      obtain ⟨steps, hchain, hcount, hnodes⟩ := underway_iterate (fun _ => rfl) (fun _ => rfl)
        (fun s => (Has.otherwise : Has (.stmt (elseIf s)) .otherwise (.stmt s)))
        (part_elseIf Session.bareOptions.setup) lastIf k
      exact runsThrough_of_underway htokens (parse_elseIf k) hchain hcount.ge hnodes
  | left => exact hplain (fun _ => plain_plusName) (fun _ => .left) fun _ _ _ => .left
  | callee => exact hplain (fun _ => plain_called) (fun _ => .callee) fun _ _ _ => .callee
  | object => exact hplain (fun _ => plain_attributeOf) (fun _ => .object) fun _ _ _ => .object
  | deeper => cases h

end Unbounded

/-- The length of chains is not bounded. -/
theorem steps_not_bounded :
    ¬∃ bound, ∀ tokens trees, parse tokens = .ok trees → ∀ tree ∈ trees, ∀ steps,
      Chain (.stmt tree) steps → steps.length + 1 ≤ bound := by
  rintro ⟨bound, hbound⟩
  obtain ⟨source, tokens, tree, steps, -, hparse, hchain, hcount, -⟩ :=
    @exists_underway .left rfl bound
  have hlength := hbound tokens [tree] hparse tree List.mem_cons_self steps hchain
  have hle := List.countP_le_length (p := fun step : Way × TreeNode => step.1 = .left) (l := steps)
  omega

/-- The limit on nesting bounds the trees of accepted programs and their
evaluation, not counting steps into alternatives, left operands, functions called
and objects; of each of these there can be any number, all under way at once.

* A chain of nodes, each directly inside the one before, has at most nine steps
  that count for each level that may be open.
* A program that another limit would let pass is accepted as the same statements
  or refused with `Too much nesting.`; it is refused if it has a chain with more
  steps that count.
* At every moment of every session, the nodes whose evaluations are under way at
  once within one call are such a chain, with the same bound. -/
theorem nesting_limit_bounds_counted_steps :
    (∀ tokens trees, parse tokens = .ok trees → ∀ tree ∈ trees, ∀ steps,
        Chain (.stmt tree) steps → counted steps ≤ 9 * maxNesting) ∧
      (∀ tokens limit trees, parseWithin limit tokens = .ok trees →
        (parse tokens = .ok trees ∨ RefusedAsTooDeep tokens) ∧
          ∀ tree ∈ trees, ∀ steps, Chain (.stmt tree) steps →
            9 * maxNesting < counted steps → RefusedAsTooDeep tokens) ∧
      (∀ options console names last n job m nodes,
        Session.Does options (Session.start console names) last n job m →
          Underway options.setup n job m nodes →
            nodes = [] ∨ ∃ root steps, nodes = root :: steps.map Prod.snd ∧
              Chain root steps ∧ counted steps ≤ 9 * maxNesting) ∧
      ∀ way : Way, way.counts = false → ∀ k, RunsThrough way k := by
  have hbound {tokens : List Token} {trees : List Stmt} (h : parse tokens = .ok trees) :
      ∀ tree ∈ trees, ∀ steps, Chain (.stmt tree) steps → counted steps ≤ 9 * maxNesting :=
    fun tree htree _ hchain => hchain.counted_le.trans (nesting_le_of_parse h tree htree)
  refine ⟨fun _ _ => hbound, ?_, fun _ _ _ _ _ _ _ _ h hnodes => h.counted_le hnodes,
    fun _ => exists_underway⟩
  intro tokens limit trees h
  refine ⟨parse_of_parseWithin h, ?_⟩
  intro tree htree steps hchain hdeep
  rcases parse_of_parseWithin h with hparse | hrefused
  · exact absurd (hbound hparse tree htree steps hchain) (Nat.not_le.mpr hdeep)
  · exact hrefused

/-- A program whose chain has three steps that count, all under way at once. -/
theorem nesting_limit_bounds_negations :
    let bang : Token := ⟨.bang, "!", none, 1⟩
    let tokens : List Token := [bang, bang, ⟨.trueKw, "true", none, 1⟩,
      ⟨.semicolon, ";", none, 1⟩, .eof 1]
    let e : Expr := .unary bang (.literal (.bool true))
    let tree : Stmt := .expression (.unary bang e)
    let steps : List (Way × TreeNode) :=
      [(.deeper, .expr (.unary bang e)), (.deeper, .expr e),
        (.deeper, .expr (.literal (.bool true)))]
    let first := Session.start (.ofInput [] none) []
    let last := (Session.runSource Session.bareOptions 5 "!!true;" first).2
    let nodes := .stmt tree :: steps.map Prod.snd
    Token.scan "!!true;" = .ok tokens ∧ parse tokens = .ok [tree] ∧
      Chain (.stmt tree) steps ∧ counted steps = 3 ∧ counted steps ≤ 9 * maxNesting ∧
      ∃ job m, Session.Does Session.bareOptions first last 5 job m ∧
        Underway Session.bareOptions.setup 5 job m nodes ∧
        (nodes = [] ∨ ∃ root steps, nodes = root :: steps.map Prod.snd ∧
          Chain root steps ∧ counted steps ≤ 9 * maxNesting) := by
  intro bang tokens e tree steps first last nodes
  have hscan : Token.scan "!!true;" = .ok tokens := by rfl
  have hparse : parse tokens = .ok [tree] := by rfl
  have hchain : Chain (.stmt tree) steps :=
    .inwards .expression (.inwards .operand (.inwards .operand (.here _)))
  have hdoes : Session.Does Session.bareOptions first last 5 (.stmts [tree] .null)
      (Session.loaded first tokens [tree]) := .unit .start rfl hscan hparse .start
  have hnodes : Underway Session.bareOptions.setup 5 (.stmts [tree] .null)
      (Session.loaded first tokens [tree]) nodes :=
    .inside .first rfl (.inside .expression rfl (.inside .operand rfl (.inside .operand rfl .here)))
  exact ⟨hscan, hparse, hchain, rfl,
    nesting_limit_bounds_counted_steps.1 tokens [tree] hparse tree List.mem_cons_self steps hchain,
    _, _, hdoes, hnodes,
    nesting_limit_bounds_counted_steps.2.2.1 _ _ _ _ _ _ _ _ hdoes hnodes⟩

end BracketScript
