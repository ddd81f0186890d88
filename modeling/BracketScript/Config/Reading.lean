import BracketScript.Config.Document
import BracketScript.Toml.Document

/-!
# Documents in TOML

Each setting is looked up in the section for it, under its key.  A section is a
table; it may also be written as an array whose first item is the setting.  What
is no setting is unknown, and a value of the wrong type spoils the whole document.
-/

namespace BracketScript
namespace Config

/-- A text. -/
def text? : Toml.Value → Option String
  | .string s => some s
  | _ => none

/-- A number that is not negative. -/
def count? : Toml.Value → Option Nat
  | .integer n => if 0 ≤ n then some n.toNat else none
  | _ => none

/-- A list of texts. -/
def texts? : Toml.Value → Option (List String)
  | .array items => items.mapM text?
  | _ => none

/-- The entry under which a time counts as a table. -/
def timeKey : String := "$__toml_private_datetime"

/-- The setting in a section, if it is there. -/
def setting? {α : Type} (key : String) (decode : Toml.Value → Option α) :
    Toml.Value → Option (Option α)
  | .table entries =>
    match entries.lookup key with
    | some v => (decode v).map some
    | none => some none
  | .array [] => some none
  | .array (v :: _) => (decode v).map some
  | .datetime => some none
  | _ => none

/-- A section of a document with its setting, as far as they are there. -/
def sectionIn? {α : Type} (entries : List (String × Toml.Value)) (name key : String)
    (decode : Toml.Value → Option α) : Option (Option (Option α)) :=
  match entries.lookup name with
  | none => some none
  | some content => (setting? key decode content).map some

/-- The key of the setting in the section of the given name. -/
def key? : String → Option String
  | "repl" => some "prompt"
  | "interpreter" => some "max_call_depth"
  | "stdlib" => some "modules"
  | _ => none

/-- The names of the entries in a section that are not settings. -/
def otherNames (key : String) : Toml.Value → List String
  | .table entries => (entries.map Prod.fst).filter (· ≠ key)
  | .datetime => [timeKey]
  | _ => []

/-- The unknown keys in an entry of a document, each with the names on the way to
it. -/
def unknownKeys (entry : String × Toml.Value) : List (List String) :=
  match key? entry.1 with
  | some key => (otherNames key entry.2).map fun name => [entry.1, name]
  | none => [[entry.1]]

/-- What is said about a text that is no document. -/
def complaint : String := "TOML parse error"

/-- Reads a text in TOML. -/
def Document.ofToml : Reader := fun content =>
  match Toml.entries? content with
  | none => .error complaint
  | some entries =>
    match sectionIn? entries "repl" "prompt" text?,
      sectionIn? entries "interpreter" "max_call_depth" count?,
      sectionIn? entries "stdlib" "modules" texts? with
    | some repl, some interpreter, some stdlib =>
      .ok ⟨repl, interpreter, stdlib, entries.flatMap unknownKeys⟩
    | _, _, _ => .error complaint

end Config
end BracketScript
