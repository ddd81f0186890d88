import BracketScript.Command.Directive
import BracketScript.Text.Search

/-!
# Log filters

A filter is a list of directives.  Of those about an event the one that asks
for most decides; an event that no directive is about is not shown.  Directives
that cannot be used are left out, and the user is told so.
-/

namespace BracketScript

/-- A log filter. -/
abbrev LogFilter := List Directive

namespace LogFilter

/-- The directive that decides about an event: the weightiest, and the last of
several equally weighty ones. -/
def decisive? (filter : LogFilter) (e : Event) : Option Directive :=
  (filter.filter (·.concerns e)).foldl
    (fun best d =>
      match best with
      | none => some d
      | some b => if b.weight ≤ d.weight then some d else some b)
    none

/-- Whether an event is shown.  A reported failure always is. -/
def shows (filter : LogFilter) (e : Event) : Bool :=
  match e with
  | .reported _ => true
  | e =>
    match (filter.decisive? e).bind Directive.level with
    | some level => e.level.rank ≤ level.rank
    | none => false

/-- The filter that shows events up to a level, whose targets start in a certain
way. -/
def upTo (target : Option String) (level : Level) : LogFilter :=
  [⟨target, none, none, some level⟩]

/-- The pieces of a list of directives that are not empty, each with what
reading it gives. -/
def readings (text : String) : List (List Char × Except DirectiveFault Directive) :=
  ((Text.pieces ',' text.toList).filter fun piece => !piece.isEmpty).map fun piece =>
    (piece, Directive.ofText piece)

/-- The filter of a list of directives.  If none of them can be used, only
errors are shown. -/
def ofText (text : String) : LogFilter :=
  match (readings text).filterMap fun (_, reading) => reading.toOption with
  | [] => upTo none .error
  | directives => directives

/-- A line about every directive that cannot be used. -/
def complaints (text : String) : List String :=
  (readings text).filterMap fun (piece, reading) =>
    match reading with
    | .ok _ => none
    | .error fault => some ("ignoring `" ++ String.ofList piece ++ "`: " ++ fault.message)

/-- The directives to use: what the variable says unless it is blank. -/
def directives? (setting : Option String) : Option String :=
  setting.filter fun text => !Text.allBlank text

/-- The filter in force: the directives of the variable, else what the flags
say. -/
def choose (setting : Option String) (verbose : Nat) (quiet : Bool) : LogFilter :=
  match directives? setting with
  | some text => ofText text
  | none => upTo (some "canterbury") (Level.ofFlags verbose quiet)

/-- What there is to complain about in the variable. -/
def complaintsAbout (setting : Option String) : List String :=
  match directives? setting with
  | some text => complaints text
  | none => []

end LogFilter
end BracketScript
