import BracketScript.Proofs.Indexed.Agreement

/-!
# Each production is followed

The productions that work with places follow the readers of the grammar, one by
one.  Most of them are built alike and the rules of `Follows` apply as they
stand.  Three are not:

* An `elif` part is a call of the conditional to itself, and one more round of a
  loop to the reader (`alternatives_eq`).
* The action looks for one kind of token after the other, the reader for all of
  them at once (`Follows.acceptOr`).
* Open function bodies are counted; the reader is told whether there are any.

`follow_within` ties the productions together.  Fuel is enough if it exceeds the
number of levels that may still be opened and of tokens left: a call that opens
no level has taken a token.
-/

namespace BracketScript

namespace Grammar

open Reader

variable (inner : Inner) (inFunction : Bool)

/-- The parts of a conditional behind its first one. -/
def alternatives : Reader (Option Stmt) :=
  loop (armRound inner inFunction) #[] >>= fun arms =>
  elsePart inner inFunction >>= fun otherwise =>
  pure (chain arms.toList otherwise)

theorem ifStatement_eq_alternatives :
    ifStatement inner inFunction =
      guarded inner inFunction >>= fun arm =>
      alternatives inner inFunction >>= fun otherwise =>
      pure (.conditional arm.1 arm.2 otherwise) := by
  simp only [ifStatement_eq, alternatives, bind_assoc, pure_bind]

variable {inner}

theorem loop_armRound_cons (arm : Expr × Stmt) :
    loop (armRound inner inFunction) #[arm] =
      (fun arms => #[arm] ++ arms) <$> loop (armRound inner inFunction) #[] := by
  refine loop_map (g := fun arms => #[arm] ++ arms) (fun arms => ?_) #[]
  unfold armRound whenNext
  rw [map_bind]
  refine congrArg (accept? [.elifKw] >>= ·) (funext fun o => ?_)
  cases o with
  | none => rfl
  | some t => simp only [map_bind, map_pure, Option.map_some, Array.append_push]

/-- What follows an `elif` is a conditional. -/
theorem alternatives_eq (hi : inner.Uniform id) :
    alternatives inner inFunction = accept? [.elifKw] >>= fun o => match o with
      | some _ => some <$> ifStatement inner inFunction
      | none => elsePart inner inFunction := by
  have hadvances : Advances (armRound inner inFunction) :=
    advances_whenNext fun _ _ =>
      bind_leadsTo (parallel_guarded hi inFunction).leadsTo fun _ => .refl
  have hround : armRound inner inFunction #[] = accept? [.elifKw] >>= fun o => match o with
      | some _ => guarded inner inFunction >>= fun arm => pure (some #[arm])
      | none => pure none := rfl
  rw [alternatives, loop_eq hadvances stops_whenNext, hround, bind_assoc, bind_assoc]
  refine congrArg (accept? [.elifKw] >>= ·) (funext fun o => ?_)
  cases o with
  | none => simp [chain]
  | some t =>
      -- The first arm stands before all others in the chain.
      have hchain (arm : Expr × Stmt) (arms : Array (Expr × Stmt)) (otherwise : Option Stmt) :
          chain (#[arm] ++ arms).toList otherwise =
            some (.conditional arm.1 arm.2 (chain arms.toList otherwise)) := by
        simp [chain]
      simp only [bind_assoc, pure_bind, loop_armRound_cons, bind_map_left, hchain, ifStatement_eq,
        map_bind, map_pure]

end Grammar

namespace Indexed

open Grammar

variable {x : Setting} {room : Nat} {inner : Inner} {calls : Calls}

/-- The calls follow the readers of the next level, in any number of function
bodies.  A conditional calls itself where a token less is left. -/
structure Calls.Follow (x : Setting) (room : Nat) (inner : Inner) (calls : Calls) : Prop where
  rounds : room < calls.rounds
  statement (functions : Nat) :
    Follows (x.inside functions) room (inner.statement (0 < functions)) calls.statement
  expression (functions : Nat) : Follows (x.inside functions) room inner.expression calls.expression
  operand (functions : Nat) : Follows (x.inside functions) room inner.operand calls.operand
  structBody (functions : Nat) (keyword : Token) :
    FollowsAfter (x.inside functions) room keyword (inner.structBody keyword) calls.structBody
  conditional (functions : Nat) :
    ∀ less < room,
      Follows (x.inside functions) less (Grammar.ifStatement inner (0 < functions)) calls.conditional

theorem Calls.Follow.inside (hc : calls.Follow x room inner) (functions : Nat) :
    calls.Follow (x.inside functions) room inner :=
  { hc with }

section Productions

variable (hi : inner.Uniform id) (hc : calls.Follow x room inner)

theorem follows_expect_entries (list : ListKind) (kind : Kind) (fault : SyntaxFault)
    (hc : calls.Follow x room inner) :
    Follows x room (Reader.entries list (Reader.expect kind fault))
      (Action.entries calls.rounds list (Action.expect kind fault)) := by
  refine .entries list ?_ (.expect kind fault) hc.rounds
  exact (Reader.Parallel.expect (f := id) kind fault).leadsTo

include hi hc in
theorem follows_block :
    Follows x room (block inner (0 < x.functions)) calls.block := by
  refine .bind ?_ fun stmts => ?_
  · exact .untilBracket (hc.statement x.functions) (hi.consumes _) hc.rounds
  · exact .bind (.expect _ _) fun _ => .pure stmts

include hi hc in
theorem follows_function (keyword : Token) :
    FollowsAfter x room keyword (function inner keyword) calls.function := by
  refine .previousThen ?_
  refine .bind (.expect _ _) fun _ => ?_
  refine .bind (follows_expect_entries _ _ _ hc) fun params => ?_
  refine .bind (.expect _ _) fun _ => ?_
  refine .bind (.inBody ?_) fun body => .pure _
  -- One more body is open, so there is at least one.
  have hbody := follows_block hi (hc.inside (x.functions + 1))
  exact hbody

include hc in
theorem follows_primary : Follows x room (primary inner) calls.primary := by
  refine .acceptOr [.trueKw] _ (fun t ht => ?_) ?_
  · simp only [List.mem_singleton.mp ht]
    exact (Follows.pure _).after t
  refine .acceptOr [.falseKw] _ (fun t ht => ?_) ?_
  · simp only [List.mem_singleton.mp ht]
    exact (Follows.pure _).after t
  refine .acceptOr [.nullKw] _ (fun t ht => ?_) ?_
  · simp only [List.mem_singleton.mp ht]
    exact (Follows.pure _).after t
  refine .acceptOr [.num, .str] [.selfKw, .identifier, .underscore, .leftBracket] (fun t ht => ?_) ?_
  · have hkind : t.kind = .num ∨ t.kind = .str := by simpa using ht
    rcases hkind with hkind | hkind <;> simp only [hkind] <;>
      refine .previousThen ?_ <;> rcases t.literal with _ | x | s <;> exact .pure _
  refine .acceptOr [.selfKw] _ (fun t ht => ?_) ?_
  · simp only [List.mem_singleton.mp ht]
    exact .previousThen (.pure _)
  refine .acceptOr [.identifier, .underscore] [.leftBracket] (fun t ht => ?_) ?_
  · have hkind : t.kind = .identifier ∨ t.kind = .underscore := by simpa using ht
    rcases hkind with hkind | hkind <;> simp only [hkind] <;> exact .previousThen (.pure _)
  refine .acceptOr [.leftBracket] [] (fun t ht => ?_) ?_
  · simp only [List.mem_singleton.mp ht]
    refine Follows.after (.bind (hc.expression x.functions) fun e => ?_) t
    exact .bind (.expect _ _) fun _ => .pure _
  · rw [Reader.accept?_nil]
    exact .fail _

include hi hc in
theorem follows_call : Follows x room (call inner) calls.call := by
  have hentries : Follows x room (Reader.entries .arguments inner.expression)
      (Action.entries calls.rounds .arguments calls.expression) :=
    .entries .arguments hi.expression.leadsTo (hc.expression x.functions) hc.rounds
  have hadvances : Reader.Advances (callRound inner) := by
    refine Reader.advances_whenNext fun e t => ?_
    by_cases hkind : t.kind = .identifier
    · simp only [hkind, if_true]
      exact .refl
    · simp only [hkind, if_false]
      refine Reader.bind_leadsTo ?_ fun _ => .refl
      exact (Reader.Parallel.entries (f := id) _ hi.expression).leadsTo
  rw [call_eq]
  refine .bind (follows_primary hc) fun e =>
    .loop hadvances Reader.stops_whenNext (fun e => ?_) hc.rounds e
  unfold callRound Reader.whenNext
  rw [map_bind]
  refine .acceptOr [.leftBracket] [.identifier] (fun t ht => ?_) (.checkThen _ (fun t ht => ?_) ?_)
  · simp only [List.mem_singleton.mp ht, reduceCtorEq, if_false, map_bind]
    exact Follows.after
      (.bind hentries fun args => .pure (ForInStep.yield (Expr.call e args.2 args.1))) t
  · simp only [ht, if_true]
    exact .pure (ForInStep.yield (Expr.attribute e t))
  · exact .pure (ForInStep.done e)

include hi hc in
theorem follows_unary : Follows x room (unary inner) calls.unary := by
  refine .accept _ (fun op _ less hless => ?_) (follows_call hi hc)
  refine .previousThen (.bind ((hc.operand x.functions).mono (Nat.le_of_lt hless)) fun e => ?_)
  exact .pure _

include hc in
theorem follows_leftAssoc {node : Expr → Token → Expr → Expr} {ops : List Kind}
    {operand : Reader Expr} {operand' : Action Expr}
    (hoperand : (∀ c : Cursor, c.LeadsTo (operand c).2) ∧ Follows x room operand operand') :
    (∀ c : Cursor, c.LeadsTo (leftAssoc node ops operand c).2) ∧
      Follows x room (leftAssoc node ops operand) (calls.leftAssoc node ops operand') := by
  obtain ⟨hleads, hfollows⟩ := hoperand
  have hright (left : Expr) (op : Token) (c : Cursor) :
      c.LeadsTo ((operand >>= fun right => pure (some (node left op right))) c).2 :=
    Reader.bind_leadsTo hleads (fun _ => .refl) c
  rw [leftAssoc_eq]
  constructor
  · refine Reader.bind_leadsTo hleads fun left c => ?_
    exact Reader.loopWithin_leadsTo (fun left => Reader.whenNext_leadsTo (hright left)) _ left c
  · refine .bind hfollows fun left =>
      .loop (Reader.advances_whenNext hright) Reader.stops_whenNext (fun left => ?_) hc.rounds left
    unfold Reader.whenNext
    rw [map_bind]
    refine .accept _ (fun op _ less hless => ?_) (.pure (ForInStep.done left))
    simp only [map_bind]
    refine .previousThen (.bind (hfollows.mono (Nat.le_of_lt hless)) fun right => ?_)
    exact .pure (ForInStep.yield (node left op right))

include hi hc in
theorem follows_disjunction : Follows x room (disjunction inner) calls.disjunction := by
  refine (follows_leftAssoc hc ?_).2
  -- The six levels that bind tighter, down to the unary operators.
  iterate 6 refine follows_leftAssoc hc ?_
  exact ⟨(parallel_unary keepsText_id hi).leadsTo, follows_unary hi hc⟩

include hi hc in
theorem follows_assignable : Follows x room (assignable inner) calls.assignable := by
  refine .acceptOr [.structKw] [.funcKw] (fun t ht => ?_) ?_
  · simp only [List.mem_singleton.mp ht, if_true]
    exact hc.structBody x.functions t
  refine .acceptOr [.funcKw] [] (fun t ht => ?_) ?_
  · simp only [List.mem_singleton.mp ht, reduceCtorEq, if_false]
    exact follows_function hi hc t
  · rw [Reader.accept?_nil]
    exact follows_disjunction hi hc

include hi hc in
theorem follows_assignment : Follows x room (assignment inner) calls.assignment := by
  refine .bind (follows_assignable hi hc) fun left => ?_
  refine .accept _ (fun walrus _ less hless => ?_) (.pure left)
  refine .previousThen (.bind ((follows_assignable hi hc).mono (Nat.le_of_lt hless)) fun value => ?_)
  cases target? left with
  | none => exact .bind (.report walrus _) fun _ => .pure left
  | some target => exact .pure _

include hi hc in
theorem follows_fieldInit : Follows x room (fieldInit inner) calls.fieldInit := by
  refine .bind (.expect _ _) fun name => ?_
  refine .bind (.expect _ _) fun _ => ?_
  refine .bind (follows_assignable hi hc) fun value => ?_
  exact .bind (.expect _ _) fun _ => .pure _

include hi hc in
theorem follows_structDecl (keyword : Token) :
    FollowsAfter x room keyword (structDecl inner keyword) calls.structDecl := by
  have hconsumes := (parallel_fieldInit keepsText_id hi).2
  refine .previousThen ?_
  refine .bind (.expect _ _) fun _ => ?_
  refine .bind (follows_expect_entries _ _ _ hc) fun params => ?_
  refine .accept _ (fun bracket _ less hless => ?_) (.pure _)
  refine Follows.after (.bind ?_ fun body => ?_) bracket
  · exact (Follows.untilBracket (follows_fieldInit hi hc) hconsumes hc.rounds).mono
      (Nat.le_of_lt hless)
  · exact .bind (.expect _ _) fun _ => .pure _

include hc in
theorem follows_importStatement : Follows x room importStatement calls.importStatement := by
  refine .bind (.expect _ _) fun module => ?_
  refine .bind (.expect _ _) fun _ => ?_
  exact .bind (follows_expect_entries _ _ _ hc) fun names => .pure _

include hc in
theorem follows_exprBefore (kind : Kind) :
    Follows x room (exprBefore inner kind) (calls.exprBefore kind) := by
  refine .bind (.check kind) fun next => ?_
  cases next with
  | true => exact .pure none
  | false => exact .bind (hc.expression x.functions) fun e => .pure (some e)

include hc in
theorem follows_returnStatement (keyword : Token) :
    FollowsAfter x room keyword (returnStatement inner (0 < x.functions) keyword)
      calls.returnStatement := by
  have hvalue : Follows x room (returnValue inner keyword)
      (calls.exprBefore .semicolon >>= fun value =>
        Action.expect .semicolon .noSemicolonAfterReturn >>= fun _ =>
        pure (.returning keyword value)) := by
    refine .bind (follows_exprBefore hc _) fun value => ?_
    exact .bind (.expect _ _) fun _ => .pure _
  refine .previousThen (.inFunction ?_)
  cases decide (0 < x.functions) with
  | true => exact hvalue
  | false => exact .bind (.report keyword _) fun _ => hvalue

include hi hc in
theorem follows_ifStatement :
    Follows x room (ifStatement inner (0 < x.functions)) calls.ifStatement := by
  have hstatement := hc.statement x.functions
  rw [ifStatement_eq_alternatives, alternatives_eq _ hi]
  simp only [guarded, bind_assoc, pure_bind]
  refine .bind (.expect _ _) fun _ => ?_
  refine .bind (hc.expression x.functions) fun condition => ?_
  refine .bind (.expect _ _) fun _ => ?_
  refine .bind hstatement fun consequence => ?_
  refine .accept _ (fun t _ less hless => ?_) ?_
  · simp only [bind_map_left]
    exact Follows.after (.bind (hc.conditional x.functions less hless) fun otherwise => .pure _) t
  simp only [elsePart, bind_assoc]
  refine .accept _ (fun t _ less hless => ?_) (.pure _)
  simp only [bind_map_left]
  exact Follows.after (.bind (hstatement.mono (Nat.le_of_lt hless)) fun otherwise => .pure _) t

include hi hc in
theorem follows_forStatement (keyword : Token) :
    FollowsAfter x room keyword (forStatement inner (0 < x.functions) keyword)
      calls.forStatement := by
  refine .previousThen ?_
  refine .bind (.expect _ _) fun _ => ?_
  refine .bind (follows_exprBefore hc _) fun initializer => ?_
  refine .bind (.expect _ _) fun _ => ?_
  refine .bind (follows_exprBefore hc _) fun condition => ?_
  refine .bind (.expect _ _) fun _ => ?_
  refine .bind (follows_exprBefore hc _) fun increment => ?_
  refine .bind (.expect _ _) fun _ => ?_
  refine .bind (.expect _ _) fun _ => ?_
  refine .bind (follows_block hi hc) fun body => ?_
  exact .bind (.noteLoop _) fun _ => .pure _

include hi hc in
theorem follows_whileStatement (keyword : Token) :
    FollowsAfter x room keyword (whileStatement inner (0 < x.functions) keyword)
      calls.whileStatement := by
  refine .previousThen ?_
  refine .bind (.expect _ _) fun _ => ?_
  refine .bind (hc.expression x.functions) fun condition => ?_
  refine .bind (.expect _ _) fun _ => ?_
  refine .bind (.expect _ _) fun _ => ?_
  exact .bind (follows_block hi hc) fun body => .pure _

include hc in
theorem follows_matchCase : Follows x room (matchCase inner (0 < x.functions)) calls.matchCase := by
  refine .bind (.expect _ _) fun _ => ?_
  refine .bind (hc.expression x.functions) fun pattern => ?_
  refine .bind (.expect _ _) fun _ => ?_
  refine .bind (hc.statement x.functions) fun consequence => ?_
  exact .bind (.expect _ _) fun _ => .pure _

include hi hc in
theorem follows_matchStatement (keyword : Token) :
    FollowsAfter x room keyword (matchStatement inner (0 < x.functions) keyword)
      calls.matchStatement := by
  have hconsumes := (parallel_matchCase hi (0 < x.functions)).2
  refine .previousThen ?_
  refine .bind (.expect _ _) fun _ => ?_
  refine .bind (hc.expression x.functions) fun subject => ?_
  refine .bind (.expect _ _) fun _ => ?_
  refine .bind (.expect _ _) fun _ => ?_
  refine .bind (.expect _ _) fun _ => ?_
  refine .bind (.untilBracket (follows_matchCase hc) hconsumes hc.rounds) fun cases => ?_
  exact .bind (.expect _ _) fun _ => .pure _

include hc in
theorem follows_expressionStatement :
    Follows x room (expressionStatement inner) calls.expressionStatement := by
  refine .bind (hc.expression x.functions) fun e => ?_
  exact .bind (.expect _ _) fun _ => .pure _

include hi hc in
theorem follows_statement :
    Follows x room (statement inner (0 < x.functions)) calls.statementInner := by
  refine .acceptOr [.importKw] _ (fun t ht => ?_) ?_
  · simp only [List.mem_singleton.mp ht]
    exact (follows_importStatement hc).after t
  refine .acceptOr [.returnKw] _ (fun t ht => ?_) ?_
  · simp only [List.mem_singleton.mp ht]
    exact follows_returnStatement hc t
  refine .acceptOr [.ifKw] _ (fun t ht => ?_) ?_
  · simp only [List.mem_singleton.mp ht]
    exact (follows_ifStatement hi hc).after t
  refine .acceptOr [.forKw] _ (fun t ht => ?_) ?_
  · simp only [List.mem_singleton.mp ht]
    exact follows_forStatement hi hc t
  refine .acceptOr [.whileKw] _ (fun t ht => ?_) ?_
  · simp only [List.mem_singleton.mp ht]
    exact follows_whileStatement hi hc t
  refine .acceptOr [.matchKw] _ (fun t ht => ?_) ?_
  · simp only [List.mem_singleton.mp ht]
    exact follows_matchStatement hi hc t
  refine .acceptOr [.leftBracket] [] (fun t ht => ?_) ?_
  · simp only [List.mem_singleton.mp ht]
    exact Follows.after (.bind (follows_block hi hc) fun stmts => .pure _) t
  · rw [Reader.accept?_nil]
    exact follows_expressionStatement hc

end Productions

/-! ### All levels -/

/-- Fuel for all levels that may be opened and for all tokens left is enough. -/
theorem follow_within {fuel levels : Nat} (hdepth : x.depth + levels = maxNesting)
    (hfuel : levels + room < fuel) : (Calls.within fuel).Follow x room (level levels) := by
  induction fuel generalizing x levels room with
  | zero => omega
  | succ fuel ih =>
      -- A conditional calls itself on the same level; there the room shrinks.
      have hconditional (functions less : Nat) (hless : less < room) :
          Follows (x.inside functions) less (ifStatement (level levels) (0 < functions))
            (Calls.within fuel).ifStatement :=
        follows_ifStatement (uniform_level keepsText_id levels)
          (ih (x := x.inside functions) hdepth (by omega))
      cases levels with
      | zero =>
          have hfull : maxNesting ≤ x.depth := by omega
          exact
            { rounds := by change room < fuel + 1; omega
              statement := fun functions => .nested_fail (x := x.inside functions) hfull _
              expression := fun functions => .nested_fail (x := x.inside functions) hfull _
              operand := fun functions => .nested_fail (x := x.inside functions) hfull _
              structBody := fun functions keyword =>
                Follows.after (.nested_fail (x := x.inside functions) hfull _) keyword
              conditional := hconditional }
      | succ levels =>
          -- All other calls open a level; there the levels get fewer.
          have hopen : x.depth < maxNesting := by omega
          have hi := uniform_level keepsText_id levels
          have hc : (Calls.within fuel).Follow x.deeper room (level levels) :=
            ih (by change x.depth + 1 + levels = maxNesting; omega) (by omega)
          exact
            { rounds := by change room < fuel + 1; omega
              statement := fun functions =>
                .nested (x := x.inside functions) hopen (follows_statement hi (hc.inside functions))
              expression := fun functions =>
                .nested (x := x.inside functions) hopen (follows_assignment hi (hc.inside functions))
              operand := fun functions =>
                .nested (x := x.inside functions) hopen (follows_unary hi (hc.inside functions))
              structBody := fun functions keyword =>
                .nested (x := x.inside functions) hopen
                  (follows_structDecl hi (hc.inside functions) keyword)
              conditional := hconditional }

end Indexed
end BracketScript
