import BracketScript.Value.Native
import BracketScript.Value.Operator

/-!
# Running programs

Expressions are evaluated and statements executed on a machine.  Every
statement has a value: that of a block is the value of its last statement, and
a function without `return` yields the value of its body.

Programs need not end, so every function here takes a bound on the depth of the
computation as its first number and stops as `exhausted` when it is used up.  A
computation that ends within a bound ends in the same way within any greater
one.
-/

namespace BracketScript

variable (setup : Setup)

/-- Reads an attribute.  A function read from an instance is bound to it: its
body finds the instance under `self`, in a scope opened for that purpose. -/
def readAttribute (object : Value) (name : Token) : Run Stop Value :=
  match object with
  | .inst id definition => fun m =>
    match m.store.field? id name.lexeme with
    | some (.func closure) =>
      let (scope, store) := m.store.child closure.scope .block
      let store := store.define scope "self" (.inst id definition)
      let (fresh, store) := store.freshId
      (.ok (.func { closure with id := fresh, scope := scope }), { m with store := store })
    | some value => (.ok value, m)
    | none => (.error (.error ⟨.undefinedAttribute name.lexeme, name.line⟩), m)
  | .module module =>
    match module.member? name.lexeme with
    | some value => pure value
    | none => Run.raise name (.undefinedMember module.name name.lexeme)
  | _ => Run.raise name .noAttributes

/-- Assigns a value to a target. -/
def assignTo (target : Target) (value : Value) : Run Stop Unit :=
  match target with
  | .variable name => Run.assign name.lexeme value
  | .selfField keyword name => do
    match ← Run.lookup keyword with
    | .inst id _ => Run.update fun m => { m with store := m.store.setField id name.lexeme value }
    | _ => Run.raise name .noFields

/-- Binds the members of a module, one after the other. -/
def importMembers (module : Module) : List Token → Run Stop Unit
  | [] => pure ()
  | name :: names => do
    match module.member? name.lexeme with
    | some value => Run.define name.lexeme value
    | none => Run.raise name (.undefinedMember module.name name.lexeme)
    importMembers module names

/-- Makes a module, or the given members of it, known in the current scope. -/
def importModule (module : Token) (names : List Token) : Run Stop Unit := do
  match setup.modules.find? fun m => m.name = module.lexeme with
  | none => Run.raise module (.undefinedModule module.lexeme)
  | some found =>
    if names.isEmpty then Run.define module.lexeme (.module found)
    else
      importMembers found names
      Run.note (.imported module.lexeme names.length)

/-- A new scope for a call, with the parameters bound to the arguments. -/
def openCall (outer : ScopeId) (params : List Token) (args : List Value) : Run Stop ScopeId :=
  Run.onStore fun store =>
    let (scope, store) := store.child outer .function
    (scope, (params.zip args).foldl (fun store (p, v) => store.define scope p.lexeme v) store)

/-- A new instance with the parameters of its struct as fields. -/
def openInstance (params : List Token) (args : List Value) : Run Stop InstanceId :=
  Run.onStore fun store =>
    let (id, store) := store.newInstance
    (id, (params.zip args).foldl (fun store (p, v) => store.setField id p.lexeme v) store)

mutual

/-- The value of an expression. -/
def eval : Nat → Expr → Run Stop Value
  | 0, _ => Run.stop .exhausted
  | n + 1, e =>
    match e with
    | .literal .null => pure .null
    | .literal (.bool b) => pure (.bool b)
    | .literal (.num x) => pure (.num x)
    | .literal (.str s) => pure (.str s)
    | .variable name => Run.lookup name
    | .selfRef keyword => Run.lookup keyword
    | .grouping inner => eval n inner
    | .assign target value => do
      let v ← eval n value
      assignTo target v
      pure v
    | .unary op right => do
      let v ← eval n right
      match Operator.unary op v with
      | .ok r => pure r
      | .error fault => Run.raise op fault
    | .binary left op right => do
      let l ← eval n left
      let r ← eval n right
      match Operator.binary l op r with
      | .ok v => pure v
      | .error fault => Run.raise op fault
    | .logical left op right => do
      let l ← eval n left
      if op.kind = .orKw then
        if l.isTruthy then pure l else eval n right
      else
        if l.isTruthy then eval n right else pure l
    | .call callee bracket args => do
      let f ← eval n callee
      let vs ← evalAll n args
      call n f vs bracket
    | .attribute object name => do
      let o ← eval n object
      readAttribute o name
    | .func _ params body => fun m =>
      let (id, store) := m.store.freshId
      (.ok (.func ⟨id, params, body, m.scope⟩), { m with store := store })
    | .struct _ params body => fun m =>
      let (id, store) := m.store.freshId
      (.ok (.struct ⟨id, params, body, m.scope⟩), { m with store := store })

/-- The values of expressions, from left to right. -/
def evalAll : Nat → List Expr → Run Stop (List Value)
  | 0, _ => Run.stop .exhausted
  | _ + 1, [] => pure []
  | n + 1, e :: es => do
    let v ← eval n e
    let vs ← evalAll n es
    pure (v :: vs)

/-- Calls a value; faults of the call itself are reported at the closing
bracket. -/
def call : Nat → Value → List Value → Token → Run Stop Value
  | 0, _, _, _ => Run.stop .exhausted
  | n + 1, callee, args, bracket => do
    match callee.arity? with
    | none => Run.raise bracket .notCallable
    | some arity =>
      if args.length ≠ arity then
        Run.raise bracket (.wrongArity arity args.length)
      else
        Run.poll bracket
        let depth ← Run.get Machine.depth
        if setup.maxDepth ≤ depth then
          Run.raise bracket .stackOverflow
        else
          Run.note (.called callee depth)
          Run.deeper <|
            match callee with
            | .func closure => do
              let scope ← openCall closure.scope closure.params args
              Run.body (Run.inScope scope (execAll n closure.body .null))
            | .native function => Native.apply setup function args bracket
            | .struct definition => do
              let scope ← openCall definition.scope definition.params args
              let id ← openInstance definition.params args
              Run.inScope scope (initFields n id definition.body)
              pure (.inst id definition)
            | _ => Run.stop .broken

/-- Evaluates the entries of a struct body in order; each is bound in the
current scope and becomes a field of the instance. -/
def initFields : Nat → InstanceId → List FieldInit → Run Stop Unit
  | 0, _, _ => Run.stop .exhausted
  | _ + 1, _, [] => pure ()
  | n + 1, id, ⟨name, value⟩ :: fields => do
    let v ← eval n value
    Run.define name.lexeme v
    Run.update fun m => { m with store := m.store.setField id name.lexeme v }
    initFields n id fields

/-- Executes a statement. -/
def exec : Nat → Stmt → Run Unwind Value
  | 0, _ => Run.stop (.stopped .exhausted)
  | n + 1, s =>
    match s with
    | .expression e => Run.eval (eval n e)
    | .block stmts => Run.inBlock (execAll n stmts .null)
    | .conditional condition consequence otherwise => do
      let c ← Run.eval (eval n condition)
      if c.isTruthy then exec n consequence
      else
        match otherwise with
        | some s => exec n s
        | none => pure .null
    | .whileLoop keyword condition body => execWhile n keyword condition body .null
    | .matching keyword subject cases => do
      let v ← Run.eval (eval n subject)
      execCases n keyword v cases
    | .importing module names => do
      Run.eval (importModule setup module names)
      pure .null
    | .returning _ value => do
      let v ← match value with
        | some e => Run.eval (eval n e)
        | none => pure .null
      Run.stop (.returned v)

/-- Executes statements in order; the value is that of the last one, or `last`
if there are none. -/
def execAll : Nat → List Stmt → Value → Run Unwind Value
  | 0, _, _ => Run.stop (.stopped .exhausted)
  | _ + 1, [], last => pure last
  | n + 1, s :: ss, _ => do
    let v ← exec n s
    execAll n ss v

/-- Executes a loop body as long as the condition holds; the value is that of
the last round, or `last` if there is none. -/
def execWhile : Nat → Token → Expr → Stmt → Value → Run Unwind Value
  | 0, _, _, _, _ => Run.stop (.stopped .exhausted)
  | n + 1, keyword, condition, body, last => do
    let c ← Run.eval (eval n condition)
    if c.isTruthy then
      Run.eval (Run.poll keyword)
      let v ← exec n body
      execWhile n keyword condition body v
    else pure last

/-- Executes the first case whose pattern is equal to the subject. -/
def execCases : Nat → Token → Value → List MatchCase → Run Unwind Value
  | 0, _, _, _ => Run.stop (.stopped .exhausted)
  | _ + 1, _, _, [] => pure .null
  | n + 1, keyword, subject, ⟨pattern, consequence⟩ :: cases => do
    let fits ←
      if pattern.isWildcard then pure true
      else do
        let v ← Run.eval (eval n pattern)
        pure (v.isEqual subject)
    if fits then
      Run.note (.caseSelected keyword.line)
      exec n consequence
    else execCases n keyword subject cases

end

/-- Runs a program in the current scope.  A `return` ends it with the value
returned, and a fault leaves no call open. -/
def interpret (fuel : Nat) (program : List Stmt) : Run Stop Value :=
  fun m =>
    match execAll setup fuel program .null m with
    | (.ok v, m) => (.ok v, m)
    | (.error (.returned v), m) => (.ok v, m)
    | (.error (.stopped e), m) => (.error e, { m with depth := 0 })

end BracketScript
