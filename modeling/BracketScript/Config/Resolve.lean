import BracketScript.Config.Reading
import BracketScript.Config.Warning
import BracketScript.Failure
import BracketScript.Files
import BracketScript.Text.Blank
import BracketScript.Text.Digits

/-!
# Resolving the configuration

Settings come in layers: defaults, then one file, then the environment.  The
file is the one given explicitly, else the one of the project, else the one of
the user; only an explicit file has to exist.
-/

namespace BracketScript
namespace Config

/-- The variables of the environment. -/
abbrev Environment := String → Option String

/-- Where settings are looked up. -/
structure Sources where
  files : Files
  env : Environment
  reader : Reader
  /-- The platform's directory for the files of users. -/
  directory : Option String

/-- The file of a project. -/
def projectFile : String := "canterbury.toml"

/-- A path below a directory. -/
def join (directory name : String) : String :=
  match directory.toList.getLast? with
  | none | some '/' => directory ++ name
  | some _ => directory ++ "/" ++ name

/-- The file of the user, below the directory that the environment names or else
below that of the platform. -/
def userFileBelow? (env : Environment) (directory : Option String) : Option String :=
  (((env "XDG_CONFIG_HOME").filter (· ≠ "")).or directory).map fun directory =>
    join (join directory "canterbury") "config.toml"

namespace Sources

/-- The file to load if none is given. -/
def discover (s : Sources) : Option String :=
  if s.files.isFile projectFile then some projectFile
  else (userFileBelow? s.env s.directory).filter s.files.isFile

/-- Loads the settings in a file. -/
def load (s : Sources) (file : String) : Except Failure (Config × List ConfigWarning) :=
  match s.files file with
  | .error e => .error (.io e)
  | .ok bytes =>
    match String.fromUTF8? bytes with
    | none => .error (.io .invalidText)
    | some content =>
      match s.reader content with
      | .error message => .error (.config file message)
      | .ok document =>
        match document.config.problem? with
        | some problem => .error (.config file problem)
        | none =>
          .ok (document.config,
            document.unknown.map fun path => ConfigWarning.ofPath file content (dotted path))

end Sources

/-- The depth of calls that a variable sets, if it is usable. -/
def depthOverride? (value : String) : Option Nat :=
  (Text.natural? (Text.trim value)).filter allowsDepth

/-- The module names that a variable sets. -/
def modulesOverride (value : String) : List String :=
  ((Text.pieces ',' value.toList).map fun piece => String.ofList (Text.trimChars piece)).filter
    (· ≠ "")

/-- Applies the environment, and tells what in it is unusable. -/
def override (env : Environment) (config : Config) : Config × List Event :=
  let config := match env "CANTERBURY_PROMPT" with
    | some prompt => { config with prompt := prompt }
    | none => config
  let (config, events) : Config × List Event := match env "CANTERBURY_MAX_CALL_DEPTH" with
    | some value =>
      match depthOverride? value with
      | some depth => ({ config with maxCallDepth := depth }, [])
      | none => (config, [.overrideIgnored value])
    | none => (config, [])
  let config := match env "CANTERBURY_MODULES" with
    | some value => { config with modules := modulesOverride value }
    | none => config
  (config, events)

/-- The effective settings and where they came from. -/
structure Loaded where
  config : Config
  source : Option String
  warnings : List ConfigWarning

/-- Resolves the configuration; the events are in the order in which they
happen. -/
def Sources.resolve (s : Sources) (explicit : Option String) :
    Except Failure (Loaded × List Event) :=
  let file := match explicit with
    | some file => some file
    | none => s.discover
  match file with
  | none =>
    let (config, events) := override s.env Config.default
    .ok (⟨config, none, []⟩, .noConfig :: events)
  | some file =>
    match s.load file with
    | .error failure => .error failure
    | .ok (config, warnings) =>
      let (config, events) := override s.env config
      .ok (⟨config, some file, warnings⟩, .configLoaded file :: events)

/-! ### On a platform with home directories -/

/-- The directory for the files of a user. -/
def homeDirectory? (env : Environment) : Option String :=
  ((env "HOME").filter (· ≠ "")).map fun home => join home ".config"

/-- The file of the user. -/
def userFile? (env : Environment) : Option String :=
  userFileBelow? env (homeDirectory? env)

/-- Files in TOML, and those of users below their home directory. -/
def Sources.usual (files : Files) (env : Environment) : Sources :=
  ⟨files, env, Document.ofToml, homeDirectory? env⟩

/-- Resolves the configuration from the usual sources. -/
def resolve (files : Files) (env : Environment) (explicit : Option String) :
    Except Failure (Loaded × List Event) :=
  (Sources.usual files env).resolve explicit

end Config
end BracketScript
