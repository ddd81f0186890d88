import BracketScript.Proofs.Eval.Preservation

/-!
# Runs come back to where they started

Blocks, calls and the making of instances each run in another scope, and calls
one level deeper; faults and `return` leave all of them early.  However a run
ends, the current scope and the depth of calls are afterwards what they were
before (`Job.restored`).

This is part of what every regime says of a run, so it is read off a regime
that asks for nothing, on machines in any state whatsoever.
-/

namespace BracketScript

/-- The regime that everything keeps up. -/
def Regime.free : Regime where
  law := .any
  bindable _ := True
  inv _ := True
  place _ _ := True
  moves _ _ := True
  value _ _ := True
  fault _ := True
  enough _ _ _ := True
  mayExhaust := True

theorem Regime.free_laws (setup : Setup) : Regime.free.Laws setup where
  refl _ := trivial
  trans _ _ := trivial
  mono _ _ := trivial
  stay _ _ := trivial
  exhausted _ := trivial
  part _ _ := trivial
  again _ _ := trivial
  functionBody _ _ _ := trivial
  structBody _ _ _ := trivial
  functionLaw _ s _ := s.everyNode_any true
  structLaw _ entry _ := ⟨entry.value.everyNode_any, trivial⟩
  functionParams _ _ _ := trivial
  structParams _ _ _ := trivial
  assigned _ := trivial
  moduleName _ := trivial
  memberName _ := trivial
  constant _ _ := trivial
  lookup _ _ := trivial
  field _ _ := trivial
  inst _ _ := trivial
  module _ _ := trivial
  member _ _ := trivial
  foreseen _ := trivial
  unary _ _ := trivial
  binary _ _ := trivial
  self _ _ _ := Or.inr trivial
  define _ _ _ _ := ⟨trivial, trivial⟩
  assign _ _ _ _ := ⟨trivial, trivial⟩
  setField _ _ _ _ := ⟨trivial, trivial⟩
  newInstance _ := ⟨trivial, trivial⟩
  newFunction _ _ _ := ⟨⟨trivial, trivial⟩, trivial⟩
  newStruct _ _ _ := ⟨⟨trivial, trivial⟩, trivial⟩
  openBlock _ _ := ⟨⟨trivial, trivial⟩, trivial⟩
  openInner _ _ _ := ⟨⟨trivial, trivial⟩, trivial⟩
  bindMethod _ _ _ := ⟨⟨trivial, trivial⟩, trivial⟩

/-- The second machine is in the scope and at the depth of the first. -/
structure Machine.Restored (m m' : Machine) : Prop where
  scope : m'.scope = m.scope
  depth : m'.depth = m.depth

theorem Machine.Restored.trans {m m' m'' : Machine} (h : m.Restored m') (h' : m'.Restored m'') :
    m.Restored m'' :=
  ⟨h'.scope.trans h.scope, h'.depth.trans h.depth⟩

theorem Regime.Keeps.restored {R : Regime} {ε α : Type} {stops : Store → ε → Prop}
    {P : Store → α → Prop} {p : Run ε α} {m : Machine} (h : R.Keeps stops P p m) :
    m.Restored (p m).2 :=
  ⟨h.reaches.scope, h.reaches.depth⟩

/-! ### What runs are occupied with -/

/-- What a run is occupied with, as a whole or in a part of it. -/
inductive Job where
  | expr (e : Expr)
  | exprs (es : List Expr)
  | call (callee : Value) (args : List Value) (bracket : Token)
  /-- A built-in function with as many arguments as it takes. -/
  | native (function : Native) (args : List Value) (bracket : Token)
      (fits : args.length = function.arity)
  | fields (id : InstanceId) (entries : List FieldInit)
  | stmt (s : Stmt)
  | stmts (ss : List Stmt) (last : Value)
  /-- A loop, with the value of the round before. -/
  | rounds (keyword : Token) (condition : Expr) (body : Stmt) (last : Value)
  | cases (keyword : Token) (subject : Value) (entries : List MatchCase)

/-- The machine that a job leaves behind, however it ends. -/
def Job.after (setup : Setup) (n : Nat) (m : Machine) : Job → Machine
  | .expr e => (eval setup n e m).2
  | .exprs es => (evalAll setup n es m).2
  | .call callee args bracket => (BracketScript.call setup n callee args bracket m).2
  | .native function args bracket _ => (Native.apply setup function args bracket m).2
  | .fields id entries => (initFields setup n id entries m).2
  | .stmt s => (exec setup n s m).2
  | .stmts ss last => (execAll setup n ss last m).2
  | .rounds keyword condition body last => (execWhile setup n keyword condition body last m).2
  | .cases keyword subject entries => (execCases setup n keyword subject entries m).2

/-- Whatever a run is occupied with, it comes back to where it started. -/
theorem Job.restored (setup : Setup) (n : Nat) (m : Machine) (job : Job) :
    m.Restored (job.after setup n m) := by
  have laws := Regime.free_laws setup
  have hfuel := laws.atFuel n
  have hready : ∀ size, Regime.free.Ready n size m := fun _ => ⟨trivial, trivial, trivial⟩
  cases job with
  | expr e => exact (hfuel.eval e.everyNode_any (hready _)).restored
  | exprs es => exact (hfuel.evalAll (fun e _ => e.everyNode_any) (hready _)).restored
  | call callee args bracket =>
      exact (hfuel.call 0 bracket trivial (fun _ _ => trivial) trivial trivial).restored
  | native function args bracket fits =>
      exact (laws.evals_apply trivial trivial trivial fits).restored
  | fields id entries =>
      have hlaw : ∀ entry ∈ entries, entry.value.EveryNode .any ∧ True :=
        fun entry _ => ⟨entry.value.everyNode_any, trivial⟩
      exact (hfuel.initFields id hlaw (hready _)).restored
  | stmt s => exact (hfuel.exec (s.everyNode_any false) (hready _)).restored
  | stmts ss last =>
      exact (hfuel.execAll (fun s _ => s.everyNode_any false) trivial (hready _)).restored
  | rounds keyword condition body last =>
      have hlaw := (Stmt.whileLoop keyword condition body).everyNode_any false
      exact (hfuel.execWhile hlaw trivial (hready _)).restored
  | cases keyword subject entries =>
      have hlaw : ∀ entry ∈ entries,
          entry.pattern.EveryNode .any ∧ entry.consequence.EveryNode .any false :=
        fun entry _ => ⟨entry.pattern.everyNode_any, entry.consequence.everyNode_any false⟩
      exact (hfuel.execCases keyword hlaw (hready _)).restored

end BracketScript
