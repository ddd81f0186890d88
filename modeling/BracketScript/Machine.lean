import BracketScript.Console
import BracketScript.Log
import BracketScript.Store
import BracketScript.Value.Builtin

/-!
# The machine that runs programs

A machine is the whole state of a running session: the store, the current
scope, the depth of calls, the streams, the interrupt flag and the log.  What
does not change while a session runs is its `Setup`.

A computation on a machine ends with a result or stops early; the machine it
leaves behind is kept in both cases.
-/

namespace BracketScript

/-- Why the execution of a program failed. -/
inductive RuntimeFault where
  | undefinedVariable (name : String)
  | undefinedAttribute (name : String)
  | undefinedModule (name : String)
  | undefinedMember (module name : String)
  | noAttributes
  | noFields
  | notCallable
  | wrongArity (expected got : Nat)
  | stackOverflow
  | interrupted
  | notNumber
  | notNumbers
  | notAddable
  | unknownUnary
  | unknownBinary
  | argumentNotNumber (function : String)
  | readFailed (error : IoError)
  | writeFailed (error : IoError)
deriving DecidableEq, Repr

/-- The wording of a runtime fault. -/
def RuntimeFault.message : RuntimeFault → String
  | .undefinedVariable name => "Undefined variable '" ++ name ++ "'."
  | .undefinedAttribute name => "Undefined attribute '" ++ name ++ "'."
  | .undefinedModule name => "Undefined module '" ++ name ++ "'."
  | .undefinedMember module name => "Module '" ++ module ++ "' has no member '" ++ name ++ "'."
  | .noAttributes => "Only instances and modules have attributes."
  | .noFields => "Only instances have fields."
  | .notCallable => "Can only call functions and structs."
  | .wrongArity expected got =>
    "Expected " ++ Nat.repr expected ++ " arguments but got " ++ Nat.repr got ++ "."
  | .stackOverflow => "Stack overflow."
  | .interrupted => "Interrupted."
  | .notNumber => "Operand must be a number."
  | .notNumbers => "Operands must be numbers."
  | .notAddable => "Operands must be two numbers or two strings."
  | .unknownUnary => "Unknown unary operator."
  | .unknownBinary => "Unknown binary operator."
  | .argumentNotNumber function => function ++ " expects a number."
  | .readFailed error => "Could not read input: " ++ error.message ++ "."
  | .writeFailed error => "Could not write output: " ++ error.message ++ "."

/-- A runtime fault and the line it is reported on. -/
structure RuntimeError where
  fault : RuntimeFault
  line : Nat
deriving DecidableEq, Repr

/-- The text shown to the user. -/
def RuntimeError.display (e : RuntimeError) : String :=
  e.fault.message ++ "\n[line " ++ Nat.repr e.line ++ "]"

/-- Why an evaluation has no value. -/
inductive Stop where
  | error (error : RuntimeError)
  /-- The bound on the number of steps was reached. -/
  | exhausted
  /-- The machine was in a state that no program leads to. -/
  | broken
deriving DecidableEq, Repr

/-- Why the execution of a statement ended early. -/
inductive Unwind where
  | returned (value : Value)
  | stopped (stop : Stop)

/-- One reading of the clock. -/
structure Moment where
  /-- Milliseconds since the epoch. -/
  millis : Int
  /-- Local date and time of day. -/
  date : String

/-- What stays the same while a session runs. -/
structure Setup where
  /-- The greatest depth of calls. -/
  maxDepth : Nat
  /-- The modules that can be imported. -/
  modules : List Module
  /-- The readings of the clock, in the order in which they are taken. -/
  clock : Nat → Moment

/-- The state of a running session. -/
structure Machine where
  store : Store
  /-- The current scope. -/
  scope : ScopeId
  /-- How many calls are being executed. -/
  depth : Nat
  console : Console
  /-- Whether the running program has been asked to stop. -/
  interrupted : Bool
  /-- How often the clock has been read. -/
  readings : Nat
  log : Array Event

/-- A machine on which nothing has run yet: the global scope holds the built-in
names. -/
def Machine.start (console : Console) : Machine :=
  { store := builtinGlobals.foldl (fun store (name, value) => store.define 0 name value) Store.empty
    scope := 0
    depth := 0
    console := console
    interrupted := false
    readings := 0
    log := #[] }

/-- A computation on a machine, which may stop early. -/
def Run (ε α : Type) : Type :=
  Machine → Except ε α × Machine

namespace Run

variable {ε α β : Type}

/-- Ends with a value. -/
@[always_inline, inline]
def done (a : α) : Run ε α :=
  fun m => (.ok a, m)

/-- Goes on with the value of a computation. -/
@[always_inline, inline]
def andThen (x : Run ε α) (f : α → Run ε β) : Run ε β :=
  fun m =>
    match x m with
    | (.ok a, m) => f a m
    | (.error e, m) => (.error e, m)

@[always_inline]
instance : Monad (Run ε) where
  pure := done
  bind := andThen

/-- Stops early. -/
@[always_inline, inline]
def stop (e : ε) : Run ε α :=
  fun m => (.error e, m)

/-- Reports a fault at a token. -/
def raise (place : Token) (fault : RuntimeFault) : Run Stop α :=
  stop (.error ⟨fault, place.line⟩)

/-- A part of the state. -/
@[always_inline, inline]
def get (f : Machine → α) : Run ε α :=
  fun m => (.ok (f m), m)

/-- Changes the state. -/
@[always_inline, inline]
def update (f : Machine → Machine) : Run ε Unit :=
  fun m => (.ok (), f m)

/-- Changes the store and yields what the change yields. -/
@[always_inline, inline]
def onStore (f : Store → α × Store) : Run ε α :=
  fun m =>
    let (a, store) := f m.store
    (.ok a, { m with store := store })

/-- Adds an event to the log. -/
@[always_inline, inline]
def note (event : Event) : Run ε Unit :=
  update fun m => { m with log := m.log.push event }

/-- An evaluation as part of the execution of a statement. -/
@[always_inline, inline]
def eval (x : Run Stop α) : Run Unwind α :=
  fun m =>
    match x m with
    | (.ok a, m) => (.ok a, m)
    | (.error e, m) => (.error (.stopped e), m)

/-- The execution of a function body as an evaluation: what the body returns is
the value. -/
@[always_inline, inline]
def body (x : Run Unwind Value) : Run Stop Value :=
  fun m =>
    match x m with
    | (.ok v, m) => (.ok v, m)
    | (.error (.returned v), m) => (.ok v, m)
    | (.error (.stopped e), m) => (.error e, m)

/-- Runs inside another scope and comes back to the current one, however the
computation ends. -/
@[always_inline, inline]
def inScope (scope : ScopeId) (x : Run ε α) : Run ε α :=
  fun m =>
    let outer := m.scope
    let (r, m) := x { m with scope := scope }
    (r, { m with scope := outer })

/-- Runs one call deeper, however the computation ends. -/
@[always_inline, inline]
def deeper (x : Run ε α) : Run ε α :=
  fun m =>
    let (r, m) := x { m with depth := m.depth + 1 }
    (r, { m with depth := m.depth - 1 })

/-- Stops if the program has been asked to, which answers the request. -/
def poll (place : Token) : Run Stop Unit :=
  fun m =>
    if m.interrupted then
      (.error (.error ⟨.interrupted, place.line⟩), { m with interrupted := false })
    else (.ok (), m)

/-- The value of a name in the current scope. -/
def lookup (name : Token) : Run Stop Value :=
  fun m =>
    match m.store.lookup m.scope name.lexeme with
    | some v => (.ok v, m)
    | none => (.error (.error ⟨.undefinedVariable name.lexeme, name.line⟩), m)

/-- Binds a name in the current scope. -/
def define (name : String) (value : Value) : Run ε Unit :=
  fun m => (.ok (), { m with store := m.store.define m.scope name value })

/-- Assigns to a name from the current scope. -/
def assign (name : String) (value : Value) : Run ε Unit :=
  fun m => (.ok (), { m with store := m.store.assign m.scope name value })

/-- Opens a scope inside the current one and runs in it. -/
@[always_inline, inline]
def inBlock (x : Run ε α) : Run ε α :=
  fun m =>
    let (scope, store) := m.store.child m.scope .block
    inScope scope x { m with store := store }

end Run
end BracketScript
