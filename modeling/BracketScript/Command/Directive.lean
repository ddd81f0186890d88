import BracketScript.Log
import BracketScript.Text.Alphanumeric
import BracketScript.Text.Blank
import BracketScript.Text.Digits
import BracketScript.Text.Search

/-!
# Log directives

A directive gives the most detailed level that is shown for some events.  It is
written as a level, as a target, or as a target and a level around an equals
sign.  Brackets after the target may name a scope, or a field in braces, that
the events must have:

* `debug` is about every event;
* `main::part=warn` is about events whose target starts with `main::part`;
* `main[{path}]=debug` asks for a field `path` as well.

The form of a directive is found in its text without the blanks at either end,
but its parts are cut from the text as it was given.  Blanks around a directive
are therefore never harmless: they become part of a target or of a level.
-/

namespace BracketScript

/-- Why a directive cannot be used. -/
inductive DirectiveFault where
  | malformed
  | unknownLevel
deriving DecidableEq, Repr

/-- What is wrong with a directive, in words. -/
def DirectiveFault.message : DirectiveFault → String
  | .malformed => "invalid filter directive"
  | .unknownLevel =>
    "error parsing level filter: expected one of \"off\", \"error\", \"warn\", \"info\", " ++
      "\"debug\", \"trace\", or a number 0-5"

/-- A field that an event must have, possibly with a certain value. -/
structure FieldTest where
  name : String
  value : Option String
deriving DecidableEq, Repr

/-- The level shown for some events; a missing level shows nothing, and a
missing target, scope or field asks for nothing. -/
structure Directive where
  target : Option String
  scope : Option String
  field : Option FieldTest
  level : Option Level
deriving DecidableEq, Repr

namespace Directive

/-- A level written as a name in either letter case or as a number; `off` and
`0` show nothing. -/
def level? (text : String) : Option (Option Level) :=
  match Text.natural? text with
  | some 0 => some none
  | some 1 => some (some .error)
  | some 2 => some (some .warn)
  | some 3 => some (some .info)
  | some 4 => some (some .debug)
  | some 5 => some (some .trace)
  | some _ => none
  | none =>
    match text.toLower with
    | "off" => some none
    | "error" => some (some .error)
    | "warn" => some (some .warn)
    | "info" => some (some .info)
    | "debug" => some (some .debug)
    | "trace" => some (some .trace)
    | _ => none

/-- Characters that a target or a level can start with. -/
def canStart (c : Char) : Bool :=
  Text.isAlphanumeric c || c = '-' || c = ':' || c = '_'

/-- A field test from what stands between braces. -/
def fieldTest (text : List Char) : FieldTest :=
  match Text.pieces '=' text with
  | name :: value :: _ => ⟨String.ofList name, some (String.ofList value)⟩
  | _ => ⟨String.ofList text, none⟩

/-- The part of a directive being read, and the place where it starts. -/
inductive Stage where
  | start
  /-- A target or a level. -/
  | head
  | scope (first : Nat)
  | field (first : Nat)
  | fieldClosed
  | scopeClosed
  | level (first : Nat)

/-- A directive of which some characters are read. -/
structure Draft where
  stage : Stage
  directive : Directive

/-- The draft before anything is read. -/
def Draft.empty : Draft :=
  ⟨.start, ⟨none, none, none, some .trace⟩⟩

/-- The characters from one place up to another. -/
def slice (text : List Char) (first last : Nat) : List Char :=
  (text.take last).drop first

/-- Reads the character `c` at place `i`, cutting finished parts out of `text`. -/
def Draft.step (text : List Char) (draft : Draft) (c : Char) (i : Nat) :
    Except DirectiveFault Draft :=
  let d := draft.directive
  match draft.stage with
  | .start =>
    if c = '[' then .ok ⟨.scope (i + 1), d⟩
    else if canStart c then .ok ⟨.head, d⟩
    else .error .malformed
  | .head =>
    let named := { d with target := some (String.ofList (slice text 0 i)) }
    if c = '=' then .ok ⟨.level (i + 1), named⟩
    else if c = '[' then .ok ⟨.scope (i + 1), named⟩
    else .ok draft
  | .scope first =>
    let name := slice text first i
    if c = ']' then .ok ⟨.scopeClosed, { d with scope := some (String.ofList name) }⟩
    else if c = '\x7b' then
      .ok ⟨.field (i + 1), if name.isEmpty then d else { d with scope := some (String.ofList name) }⟩
    else .ok draft
  | .field first =>
    let content := slice text first i
    if c ≠ '\x7d' then .ok draft
    else if content.isEmpty then .error .malformed
    else .ok ⟨.fieldClosed, { d with field := some (fieldTest content) }⟩
  | .fieldClosed => if c = ']' then .ok ⟨.scopeClosed, d⟩ else .error .malformed
  | .scopeClosed => if c = '=' then .ok ⟨.level (i + 1), d⟩ else .error .malformed
  | .level _ => .ok draft

/-- The directive once all characters are read.  Where no level is written,
everything is shown. -/
def Draft.finish (text : List Char) (draft : Draft) : Except DirectiveFault Directive :=
  let d := draft.directive
  match draft.stage with
  | .head =>
    match level? (String.ofList text) with
    | some level => .ok { d with level := level }
    | none => .ok { d with target := some (String.ofList text) }
  | .level first =>
    let written := text.drop first
    if written.isEmpty then .ok d
    else
      match level? (String.ofList written) with
      | some level => .ok { d with level := level }
      | none => .error .unknownLevel
  | .scopeClosed => .ok d
  | _ => .error .malformed

/-- Reads a directive. -/
def ofText (text : List Char) : Except DirectiveFault Directive := do
  let draft ← (Text.trimChars text).zipIdx.foldlM
    (fun draft (c, i) => draft.step text c i) Draft.empty
  draft.finish text

/-- How much a directive asks for: more of a target counts first, a field
second. -/
def weight (d : Directive) : Nat :=
  let target := match d.target with
    | none => 0
    | some target => target.length + 1
  2 * target + (if d.field.isSome then 1 else 0)

/-- Whether an event has a field; its message is one. -/
def hasField (name : String) (e : Event) : Bool :=
  name = "message" || e.fields.any fun (key, _) => key = name

/-- Whether a directive is about an event.  Events happen outside of all scopes
and their fields are known by name only, so a directive that asks for a scope or
for a value is about none. -/
def concerns (d : Directive) (e : Event) : Bool :=
  let targetFits := match d.target with
    | none => true
    | some start => start.toList.isPrefixOf e.target.toList
  let fieldFits := match d.field with
    | none => true
    | some test => test.value.isNone && hasField test.name e
  targetFits && d.scope.isNone && fieldFits

end Directive
end BracketScript
