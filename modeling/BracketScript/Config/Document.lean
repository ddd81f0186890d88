import BracketScript.Config.Basic

/-!
# What a document says

A document has three sections, each with one setting.  What is missing takes its
default, and what is unknown is left aside.  How a text is read as a document is
not a matter of the settings.
-/

namespace BracketScript
namespace Config

/-- What a document says.  A section is `none` if it is missing, and holds `none` if
its setting is. -/
structure Document where
  repl : Option (Option String)
  interpreter : Option (Option Nat)
  stdlib : Option (Option (List String))
  /-- The unknown keys in order, each with the names on the way to it. -/
  unknown : List (List String)
deriving DecidableEq, Repr

/-- The settings that a document makes. -/
def Document.config (document : Document) : Config where
  prompt := document.repl.join.getD Config.default.prompt
  maxCallDepth := document.interpreter.join.getD Config.default.maxCallDepth
  modules := document.stdlib.join.getD Config.default.modules

/-- Names with points between them. -/
def dotted (path : List String) : String :=
  ".".intercalate path

/-- Reads texts as documents.  What is wrong with a text is said in the reader's own
words. -/
abbrev Reader := String → Except String Document

end Config
end BracketScript
