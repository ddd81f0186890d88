import BracketScript.Tree.Basic

/-!
# Values

What expressions evaluate to.  Null, booleans, numbers and strings are compared
by content.  Functions, structs and instances have an identity: two of them are
equal only if they came from the same evaluation.  Built-in functions and
modules are told apart by what they are.
-/

namespace BracketScript

/-- The place of a scope in the store. -/
abbrev ScopeId := Nat

/-- The place of an instance in the store. -/
abbrev InstanceId := Nat

/-- The built-in functions.  Those that can be reached in two ways count twice:
`print` alone and `print` of the module `IO` are different functions. -/
inductive Native where
  | clock
  | print
  | sqrt
  | pow
  | abs
  | floor
  | ceil
  | max
  | min
  | timeClock
  | date
  | ioPrint
  | input
deriving DecidableEq, Repr

namespace Native

/-- The name a built-in function shows. -/
def name : Native → String
  | .clock | .timeClock => "clock"
  | .print | .ioPrint => "print"
  | .sqrt => "sqrt"
  | .pow => "pow"
  | .abs => "abs"
  | .floor => "floor"
  | .ceil => "ceil"
  | .max => "max"
  | .min => "min"
  | .date => "date"
  | .input => "input"

/-- The number of arguments a built-in function takes. -/
def arity : Native → Nat
  | .clock | .timeClock | .date | .input => 0
  | .print | .ioPrint | .sqrt | .abs | .floor | .ceil => 1
  | .pow | .max | .min => 2

end Native

/-- The built-in modules. -/
inductive Module where
  | math
  | time
  | io
deriving DecidableEq, Repr

namespace Module

/-- The name by which a module is imported. -/
def name : Module → String
  | .math => "Math"
  | .time => "Time"
  | .io => "IO"

/-- All modules, in the order in which they are listed by default. -/
def all : List Module :=
  [.math, .time, .io]

/-- The module of the given name. -/
def ofName? (name : String) : Option Module :=
  all.find? fun m => m.name = name

end Module

/-- A function with the scope in which it was written. -/
structure Closure where
  id : Nat
  params : List Token
  body : List Stmt
  scope : ScopeId

/-- A struct with the scope in which it was written. -/
structure StructDef where
  id : Nat
  params : List Token
  body : List FieldInit
  scope : ScopeId

/-- The values of the language. -/
inductive Value where
  | null
  | bool (b : Bool)
  | num (x : Float)
  | str (s : String)
  | func (closure : Closure)
  | native (function : Native)
  | struct (definition : StructDef)
  /-- An instance is a place in the store, where its fields are. -/
  | inst (id : InstanceId) (definition : StructDef)
  | module (module : Module)

namespace Value

/-- Everything is true except `null` and `false`. -/
def isTruthy : Value → Bool
  | .null => false
  | .bool b => b
  | _ => true

/-- Equality as the language has it: by content for plain values, where a
not-a-number differs from itself, and by identity for the others. -/
def isEqual : Value → Value → Bool
  | .null, .null => true
  | .bool a, .bool b => a = b
  | .num a, .num b => a == b
  | .str a, .str b => a = b
  | .func a, .func b => a.id = b.id
  | .native a, .native b => a = b
  | .struct a, .struct b => a.id = b.id
  | .inst a _, .inst b _ => a = b
  | .module a, .module b => a = b
  | _, _ => false

/-- How many arguments a value takes when it is called, if it can be. -/
def arity? : Value → Option Nat
  | .func closure => some closure.params.length
  | .native f => some f.arity
  | .struct definition => some definition.params.length
  | _ => none

/-- The names of parameters, as functions and structs show them. -/
def paramsText (params : List Token) : String :=
  "[" ++ ", ".intercalate (params.map Token.lexeme) ++ "]"

/-- The text of a struct. -/
def structText (definition : StructDef) : String :=
  "<struct " ++ paramsText definition.params ++ ">"

/-- The text that `print` writes. -/
def display : Value → String
  | .null => "null"
  | .bool b => if b then "true" else "false"
  | .num x => numberText x
  | .str s => s
  | .func closure => "<func " ++ paramsText closure.params ++ ">"
  | .native f => "<native func " ++ f.name ++ ">"
  | .struct definition => structText definition
  | .inst _ definition => "instance of " ++ structText definition
  | .module m => "<module " ++ m.name ++ ">"

/-- The text for inspection: strings are quoted, all else is as in `display`. -/
def inspect : Value → String
  | .str s => Text.quoted s
  | v => v.display

end Value
end BracketScript
