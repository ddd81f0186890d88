import BracketScript.Config.Resolve
import BracketScript.Proofs.Text.Trimming
import Mathlib.Data.List.Forall2

/-!
# The layers of a configuration

Each setting is the one of the environment, else the one of the chosen file,
else its default, and together they are always within the limits
(`resolve_layered_and_valid`).  This holds for every reader of documents and
wherever the platform keeps the files of users.

The layers are described apart from the functions that put them on: which file is
chosen (`Chosen`), what a document in it sets (`Settled`), and what a variable sets
(`DepthIn`, `NamesIn`).
-/

namespace BracketScript
namespace Config

open Text

/-! ### Variables -/

/-- A value with blanks around a depth that is written in decimal digits, with or
without a plus sign, and that is within the limits. -/
def DepthIn (value : String) (depth : Nat) : Prop :=
  ∃ core digits, Trims value.toList core ∧ (core = digits ∨ core = '+' :: digits) ∧
    digits ≠ [] ∧ (∀ c ∈ digits, c.isDigit = true) ∧ Nat.ofDigitChars 10 digits 0 = depth ∧
    1 ≤ depth ∧ depth ≤ 4096

/-- The names that are written in a value between commas, without blanks around
them and without those that are empty. -/
def NamesIn (value : String) (names : List String) : Prop :=
  ∃ cores, List.Forall₂ Trims (value.toList.splitOn ',') cores ∧
    names.map String.toList = cores.filter (· ≠ [])

theorem positional_eq_ofDigitChars {digits : List Char} (h : ∀ c ∈ digits, c.isDigit = true) :
    positional 10 digits = Nat.ofDigitChars 10 digits 0 := by
  have hfold : ∀ n, digits.foldl (fun n c => n * 10 + digitValue c) n =
      Nat.ofDigitChars 10 digits n := by
    induction digits with
    | nil => exact fun _ => rfl
    | cons c digits ih =>
        intro n
        rw [List.forall_mem_cons] at h
        rw [List.foldl_cons, ih h.2, Nat.ofDigitChars_cons, digitValue, if_pos h.1, Nat.mul_comm]
  exact hfold 0

theorem natural?_eq_some_iff {text : String} {n : Nat} :
    natural? text = some n ↔
      ∃ digits, (text.toList = digits ∨ text.toList = '+' :: digits) ∧ digits ≠ [] ∧
        (∀ c ∈ digits, c.isDigit = true) ∧ Nat.ofDigitChars 10 digits 0 = n ∧ n < Nat.pow 2 64 := by
  have hread : ∀ digits : List Char,
      (if digits.isEmpty || !digits.all Char.isDigit then none
        else if positional 10 digits < Nat.pow 2 64 then some (positional 10 digits) else none) =
          some n ↔
        digits ≠ [] ∧ (∀ c ∈ digits, c.isDigit = true) ∧ Nat.ofDigitChars 10 digits 0 = n ∧
          n < Nat.pow 2 64 := by
    intro digits
    by_cases hall : ∀ c ∈ digits, c.isDigit = true
    · simp only [positional_eq_ofDigitChars hall, List.all_eq_true.mpr hall]
      by_cases hnil : digits = []
      · simp [hnil]
      · grind
    · have hsome : digits.all Char.isDigit = false := by simpa using hall
      simp [hall, hsome]
  unfold natural?
  dsimp only
  rw [hread]
  split
  · next digits htext =>
      constructor
      · rintro ⟨hne, hall, hn⟩
        exact ⟨digits, .inr htext, hne, hall, hn⟩
      · rintro ⟨digits', htext' | htext', hne, hall, hn⟩
        · -- A plus sign is no digit.
          rw [← htext', htext, List.forall_mem_cons] at hall
          exact absurd hall.1 (by decide)
        · obtain rfl := (List.cons.inj (htext.symm.trans htext')).2
          exact ⟨hne, hall, hn⟩
  · next hplus =>
      constructor
      · rintro ⟨hne, hall, hn⟩
        exact ⟨text.toList, .inl rfl, hne, hall, hn⟩
      · rintro ⟨digits, rfl | htext, hne, hall, hn⟩
        · exact ⟨hne, hall, hn⟩
        · exact absurd htext (hplus digits)

theorem allowsDepth_iff {depth : Nat} : allowsDepth depth = true ↔ 1 ≤ depth ∧ depth ≤ 4096 := by
  rw [allowsDepth, Bool.and_eq_true, decide_eq_true_iff, decide_eq_true_iff, depthLimit]

theorem depthOverride?_eq_some_iff {value : String} {depth : Nat} :
    depthOverride? value = some depth ↔ DepthIn value depth := by
  unfold depthOverride? DepthIn
  rw [Option.filter_eq_some_iff, natural?_eq_some_iff, allowsDepth_iff, trim, String.toList_ofList]
  constructor
  · rintro ⟨⟨digits, hcore, hne, hall, hn, -⟩, hbounds⟩
    exact ⟨_, digits, trims_trimChars _, hcore, hne, hall, hn, hbounds⟩
  · rintro ⟨core, digits, htrims, hcore, hne, hall, hn, hbounds⟩
    rw [trimChars_of_trims htrims]
    have hword : depth < Nat.pow 2 64 := Nat.lt_of_le_of_lt hbounds.2 (by decide)
    exact ⟨⟨digits, hcore, hne, hall, hn, hword⟩, hbounds⟩

/-- The pieces of a value without the blanks around them. -/
theorem forall₂_trims_iff {pieces cores : List (List Char)} :
    List.Forall₂ Trims pieces cores ↔ pieces.map trimChars = cores := by
  rw [← List.forall₂_eq_eq_eq, List.forall₂_map_left_iff]
  simp only [trimChars_eq_iff]

theorem toList_modulesOverride (value : String) :
    (modulesOverride value).map String.toList =
      ((value.toList.splitOn ',').map trimChars).filter (· ≠ []) := by
  unfold modulesOverride
  rw [pieces_eq_splitOn]
  induction value.toList.splitOn ',' with
  | nil => rfl
  | cons piece rest ih => by_cases h : trimChars piece = [] <;> simp_all

theorem modulesOverride_eq_iff {value : String} {names : List String} :
    modulesOverride value = names ↔ NamesIn value names := by
  unfold NamesIn
  simp only [forall₂_trims_iff, exists_eq_left', ← toList_modulesOverride]
  constructor
  · rintro rfl
    rfl
  · intro h
    exact (List.map_injective_iff.mpr (fun _ _ => String.toList_inj.mp) h).symm

/-- Names that are listed with commas between them are read as they are. -/
theorem modulesOverride_intercalate {names : List String}
    (h : ∀ name ∈ names, name ≠ "" ∧ ',' ∉ name.toList ∧ Bare name.toList) :
    modulesOverride (",".intercalate names) = names := by
  rw [modulesOverride_eq_iff]
  cases names with
  | nil => exact ⟨[[]], .cons (Bare.trims ⟨nofun, nofun⟩) .nil, rfl⟩
  | cons first rest =>
      have hsplit : (",".intercalate (first :: rest)).toList.splitOn ',' =
          (first :: rest).map String.toList := by
        rw [String.toList_intercalate]
        apply List.splitOn_intercalate
        · intro l hl
          obtain ⟨name, hname, rfl⟩ := List.mem_map.mp hl
          exact (h name hname).2.1
        · simp
      refine ⟨(first :: rest).map String.toList, ?_, ?_⟩
      · rw [hsplit, List.forall₂_same]
        intro l hl
        obtain ⟨name, hname, rfl⟩ := List.mem_map.mp hl
        exact (h name hname).2.2.trims
      · symm
        rw [List.filter_eq_self]
        intro l hl
        obtain ⟨name, hname, rfl⟩ := List.mem_map.mp hl
        simpa using (h name hname).1

theorem override_fst (env : Environment) (base : Config) :
    (override env base).1 =
      { prompt := (env "CANTERBURY_PROMPT").getD base.prompt
        maxCallDepth :=
          ((env "CANTERBURY_MAX_CALL_DEPTH").bind depthOverride?).getD base.maxCallDepth
        modules := ((env "CANTERBURY_MODULES").map modulesOverride).getD base.modules } := by
  unfold override
  cases env "CANTERBURY_PROMPT" <;> cases env "CANTERBURY_MODULES" <;>
    cases env "CANTERBURY_MAX_CALL_DEPTH" with
  | none => rfl
  | some value =>
      dsimp only [Option.bind_some]
      cases depthOverride? value <;> rfl

/-! ### Layers -/

/-- The value of a setting that a document may make, with one for the case that the
section or the key is missing. -/
inductive Settled {α : Type} (fallback : α) : Option (Option α) → α → Prop
  | noSection : Settled fallback none fallback
  | noKey : Settled fallback (some none) fallback
  | set (a : α) : Settled fallback (some (some a)) a

/-- The settings of the environment, else those of a document, else the defaults.  A
depth in the environment that is unusable counts for nothing. -/
structure Layered (env : Environment) (document : Document) (config : Config) : Prop where
  prompt : env "CANTERBURY_PROMPT" = some config.prompt ∨
    env "CANTERBURY_PROMPT" = none ∧ Settled "> " document.repl config.prompt
  depth : (∃ value, env "CANTERBURY_MAX_CALL_DEPTH" = some value ∧
      DepthIn value config.maxCallDepth) ∨
    (∀ value, env "CANTERBURY_MAX_CALL_DEPTH" = some value → ∀ depth, ¬ DepthIn value depth) ∧
      Settled 255 document.interpreter config.maxCallDepth
  modules : (∃ value, env "CANTERBURY_MODULES" = some value ∧ NamesIn value config.modules) ∨
    env "CANTERBURY_MODULES" = none ∧
      Settled ["Math", "Time", "IO"] document.stdlib config.modules

theorem settled_join {α : Type} (fallback : α) (setting : Option (Option α)) :
    Settled fallback setting (setting.join.getD fallback) := by
  match setting with
  | none => exact .noSection
  | some none => exact .noKey
  | some (some a) => exact .set a

theorem Settled.eq_set {α : Type} {fallback a b : α} (h : Settled fallback (some (some a)) b) :
    b = a := by
  cases h
  rfl

theorem Settled.eq_fallback {α : Type} {fallback b : α} (h : Settled fallback none b) :
    b = fallback := by
  cases h
  rfl

theorem layered_override (env : Environment) (document : Document) :
    Layered env document (override env document.config).1 := by
  rw [override_fst]
  constructor
  · cases env "CANTERBURY_PROMPT" with
    | none => exact .inr ⟨rfl, settled_join _ _⟩
    | some prompt => exact .inl rfl
  · cases hvalue : env "CANTERBURY_MAX_CALL_DEPTH" with
    | none => exact .inr ⟨nofun, settled_join _ _⟩
    | some value =>
        dsimp only [Option.bind_some]
        cases hdepth : depthOverride? value with
        | some depth => exact .inl ⟨value, rfl, depthOverride?_eq_some_iff.mp hdepth⟩
        | none =>
            refine .inr ⟨?_, settled_join _ _⟩
            rintro _ ⟨⟩ depth hin
            rw [depthOverride?_eq_some_iff.mpr hin] at hdepth
            cases hdepth
  · cases hvalue : env "CANTERBURY_MODULES" with
    | none => exact .inr ⟨rfl, settled_join _ _⟩
    | some value => exact .inl ⟨value, rfl, modulesOverride_eq_iff.mp rfl⟩

/-! ### Limits -/

theorem problem?_eq (config : Config) :
    config.problem? =
      if 1 ≤ config.maxCallDepth ∧ config.maxCallDepth ≤ 4096 then none
      else some ("interpreter.max_call_depth must be between 1 and 4096, got " ++
        Nat.repr config.maxCallDepth) := by
  unfold problem?
  simp only [allowsDepth_iff]
  rfl

/-- A document without a depth beyond the limits. -/
def Document.InRange (document : Document) : Prop :=
  ∀ depth, document.interpreter = some (some depth) → 1 ≤ depth ∧ depth ≤ 4096

theorem Document.maxCallDepth_config {document : Document} {depth : Nat}
    (h : document.interpreter = some (some depth)) : document.config.maxCallDepth = depth := by
  rw [Document.config, h]
  rfl

theorem Settled.bounds {document : Document} {depth : Nat}
    (h : Settled 255 document.interpreter depth) (hrange : document.InRange) :
    1 ≤ depth ∧ depth ≤ 4096 := by
  unfold Document.InRange at hrange
  generalize document.interpreter = setting at h hrange
  cases h with
  | noSection | noKey => decide
  | set depth => exact hrange depth rfl

/-- The default is within the limits, so a depth beyond them is the document's own. -/
theorem Document.inRange_or (document : Document) :
    document.InRange ∧ document.config.problem? = none ∨
      ∃ depth, document.interpreter = some (some depth) ∧ ¬(1 ≤ depth ∧ depth ≤ 4096) ∧
        document.config.problem? = some
          ("interpreter.max_call_depth must be between 1 and 4096, got " ++ Nat.repr depth) := by
  rw [problem?_eq]
  by_cases hrange : document.InRange
  · exact .inl ⟨hrange, if_pos ((settled_join 255 document.interpreter).bounds hrange)⟩
  · simp only [Document.InRange, not_forall] at hrange
    obtain ⟨depth, hdepth, hbounds⟩ := hrange
    refine .inr ⟨depth, hdepth, hbounds, ?_⟩
    rw [Document.maxCallDepth_config hdepth, if_neg hbounds]

/-- A usable depth is within the limits, so that the environment leads to no
others. -/
theorem Layered.bounds {env : Environment} {document : Document} {config : Config}
    (h : Layered env document config) (hrange : document.InRange) :
    1 ≤ config.maxCallDepth ∧ config.maxCallDepth ≤ 4096 := by
  rcases h.depth with ⟨value, -, core, digits, -, -, -, -, -, hbounds⟩ | ⟨-, hdepth⟩
  · exact hbounds
  · exact hdepth.bounds hrange

/-! ### Files -/

/-- The text of a file that can be read. -/
def Sources.Holds (s : Sources) (file content : String) : Prop :=
  ∃ bytes, s.files file = .ok bytes ∧ String.fromUTF8? bytes = some content

/-- The document in the chosen file, and an empty one if no file is chosen. -/
inductive Sources.Gives (s : Sources) : (chosen : Option String) → Document → Prop
  | nothing : Gives s none ⟨none, none, none, []⟩
  | file {file content : String} {document : Document} (hfile : s.Holds file content)
    (hread : s.reader content = .ok document) : Gives s (some file) document

/-- The ways in which loading a file fails. -/
inductive Sources.Refuses (s : Sources) (file : String) : Failure → Prop
  | unreadable {e : IoError} (h : s.files file = .error e) : Refuses s file (.io e)
  | noText {bytes : ByteArray} (hfile : s.files file = .ok bytes)
    (h : String.fromUTF8? bytes = none) : Refuses s file (.io .invalidText)
  | noDocument {content message : String} (hfile : s.Holds file content)
    (h : s.reader content = .error message) : Refuses s file (.config file message)
  | outOfRange {document : Document} {depth : Nat} (hgives : s.Gives (some file) document)
    (hdepth : document.interpreter = some (some depth)) (h : ¬(1 ≤ depth ∧ depth ≤ 4096)) :
    Refuses s file (.config file
      ("interpreter.max_call_depth must be between 1 and 4096, got " ++ Nat.repr depth))

/-- The path of the user's file: below the directory that the environment names or,
if it names none, below that of the platform. -/
def Sources.UserPath (s : Sources) (path : String) : Prop :=
  ∃ directory, (s.env "XDG_CONFIG_HOME" = some directory ∧ directory ≠ "" ∨
      (∀ value, s.env "XDG_CONFIG_HOME" = some value → value = "") ∧
        s.directory = some directory) ∧
    path = directory ++
      (if directory = "" ∨ directory.toList.getLast? = some '/' then "" else "/") ++
      "canterbury/config.toml"

/-- The file with the settings: the given one, or else the first that there is of
the project's and the user's. -/
inductive Sources.Chosen (s : Sources) : (explicit chosen : Option String) → Prop
  | explicit (file : String) : Chosen s (some file) (some file)
  | project (h : s.files.isFile "canterbury.toml" = true) : Chosen s none (some "canterbury.toml")
  | user {path : String} (hproject : s.files.isFile "canterbury.toml" = false)
    (hpath : s.UserPath path) (h : s.files.isFile path = true) : Chosen s none (some path)
  | nothing (hproject : s.files.isFile "canterbury.toml" = false)
    (h : ∀ path, s.UserPath path → s.files.isFile path = false) : Chosen s none none

namespace Sources

variable {s : Sources} {explicit chosen : Option String} {file : String} {config : Config}
  {warnings : List ConfigWarning} {failure : Failure}

theorem join_eq (directory name : String) :
    join directory name = directory ++
      (if directory = "" ∨ directory.toList.getLast? = some '/' then "" else "/") ++ name := by
  unfold join
  split
  · next h =>
      have hempty : directory = "" := by simpa using h
      rw [if_pos (.inl hempty), String.append_empty]
  · next h => rw [if_pos (.inr h), String.append_empty]
  · next c hc h =>
      have hsome : directory ≠ "" := by
        rintro rfl
        cases h
      rw [if_neg]
      rintro (hempty | hslash)
      · exact hsome hempty
      · exact hc (Option.some.inj (h.symm.trans hslash))

theorem join_join (directory : String) :
    join (join directory "canterbury") "config.toml" = directory ++
      (if directory = "" ∨ directory.toList.getLast? = some '/' then "" else "/") ++
      "canterbury/config.toml" := by
  have hlast : (join directory "canterbury").toList.getLast? = some 'y' := by
    rw [join_eq, String.toList_append, List.getLast?_append]
    rfl
  have hopen : ¬(join directory "canterbury" = "" ∨
      (join directory "canterbury").toList.getLast? = some '/') := by
    rintro (hempty | hslash)
    · rw [hempty] at hlast
      cases hlast
    · rw [hslash] at hlast
      revert hlast
      decide
  rw [join_eq (join directory "canterbury"), if_neg hopen, join_eq]
  simp only [String.append_assoc]
  rfl

theorem userFileBelow?_eq_some_iff {path : String} :
    userFileBelow? s.env s.directory = some path ↔ s.UserPath path := by
  unfold userFileBelow? UserPath
  simp only [Option.map_eq_some_iff, join_join, eq_comm (b := path)]
  refine exists_congr fun directory => and_congr_left' ?_
  cases s.env "XDG_CONFIG_HOME" with
  | none => simp
  | some value =>
      by_cases hvalue : value = ""
      · simp [Option.filter, hvalue]
      · simp only [ne_eq, hvalue, not_false_eq_true, decide_true, Option.filter, if_true,
          Option.some_or, Option.some.injEq, forall_eq', false_and, or_false]
        exact (and_iff_left_of_imp (by rintro rfl; exact hvalue)).symm

theorem chosen_discover (s : Sources) : s.Chosen none s.discover := by
  unfold discover
  split
  · next hproject => exact .project hproject
  · next hproject =>
      rw [Bool.not_eq_true] at hproject
      cases hfilter : (userFileBelow? s.env s.directory).filter s.files.isFile with
      | some path =>
          obtain ⟨hpath, hfile⟩ := Option.filter_eq_some_iff.mp hfilter
          exact .user hproject (userFileBelow?_eq_some_iff.mp hpath) hfile
      | none =>
          refine .nothing hproject fun path hpath => ?_
          rw [← userFileBelow?_eq_some_iff] at hpath
          simpa [hpath, Option.filter] using hfilter

/-- The given file is chosen, or else the one that is discovered. -/
theorem chosen_or (s : Sources) (explicit : Option String) :
    s.Chosen explicit (explicit.or s.discover) := by
  cases explicit with
  | none => exact s.chosen_discover
  | some file => exact .explicit file

theorem load_eq_ok_iff : s.load file = .ok (config, warnings) ↔
    ∃ content document, s.Holds file content ∧ s.reader content = .ok document ∧
      document.InRange ∧ config = document.config ∧
      warnings = document.unknown.map fun path =>
        ConfigWarning.ofPath file content (dotted path) := by
  constructor
  · intro h
    unfold load at h
    split at h
    · cases h
    next bytes hfile =>
    split at h
    · cases h
    next content hcontent =>
    split at h
    · cases h
    next document hread =>
    rcases document.inRange_or with ⟨hrange, hproblem⟩ | ⟨depth, -, -, hproblem⟩
    · rw [hproblem] at h
      cases h
      exact ⟨content, document, ⟨bytes, hfile, hcontent⟩, hread, hrange, rfl, rfl⟩
    · rw [hproblem] at h
      cases h
  · rintro ⟨content, document, ⟨bytes, hfile, hcontent⟩, hread, hrange, rfl, rfl⟩
    unfold load
    simp only [hfile, hcontent, hread]
    rcases document.inRange_or with ⟨-, hproblem⟩ | ⟨depth, hdepth, hbounds, -⟩
    · rw [hproblem]
    · exact absurd (hrange depth hdepth) hbounds

theorem load_eq_error_iff : s.load file = .error failure ↔ s.Refuses file failure := by
  constructor
  · intro h
    unfold load at h
    split at h
    · next e hfile =>
        cases h
        exact .unreadable hfile
    next bytes hfile =>
    split at h
    · next hcontent =>
        cases h
        exact .noText hfile hcontent
    next content hcontent =>
    have hholds : s.Holds file content := ⟨bytes, hfile, hcontent⟩
    split at h
    · next message hread =>
        cases h
        exact .noDocument hholds hread
    next document hread =>
    rcases document.inRange_or with ⟨-, hproblem⟩ | ⟨depth, hdepth, hbounds, hproblem⟩
    · rw [hproblem] at h
      cases h
    · rw [hproblem] at h
      cases h
      exact .outOfRange (.file hholds hread) hdepth hbounds
  · intro h
    cases h with
    | unreadable hfile => simp only [load, hfile]
    | noText hfile hcontent => simp only [load, hfile, hcontent]
    | noDocument hholds hread =>
        obtain ⟨bytes, hfile, hcontent⟩ := hholds
        simp only [load, hfile, hcontent, hread]
    | @outOfRange document depth hgives hdepth hbounds =>
        cases hgives with | file hholds hread =>
        obtain ⟨bytes, hfile, hcontent⟩ := hholds
        rcases document.inRange_or with ⟨hrange, -⟩ | ⟨depth', hdepth', -, hproblem⟩
        · exact absurd (hrange depth hdepth) hbounds
        · rw [hdepth] at hdepth'
          cases hdepth'
          simp only [load, hfile, hcontent, hread, hproblem]

theorem Gives.unique {document document' : Document} (h : s.Gives chosen document)
    (h' : s.Gives chosen document') : document = document' := by
  cases h with
  | nothing =>
      cases h'
      rfl
  | file hholds hread =>
      obtain ⟨bytes, hfile, hcontent⟩ := hholds
      cases h' with | file hholds' hread' =>
      obtain ⟨bytes', hfile', hcontent'⟩ := hholds'
      obtain rfl := Except.ok.inj (hfile.symm.trans hfile')
      obtain rfl := Option.some.inj (hcontent.symm.trans hcontent')
      exact Except.ok.inj (hread.symm.trans hread')

theorem resolve_eq (s : Sources) (explicit : Option String) :
    s.resolve explicit =
      match explicit.or s.discover with
      | none => .ok (⟨(override s.env Config.default).1, none, []⟩,
          .noConfig :: (override s.env Config.default).2)
      | some file =>
        match s.load file with
        | .error failure => .error failure
        | .ok (config, warnings) => .ok (⟨(override s.env config).1, some file, warnings⟩,
            .configLoaded file :: (override s.env config).2) := by
  cases explicit <;> rfl

theorem resolve_eq_error_iff : s.resolve explicit = .error failure ↔
    ∃ file, explicit.or s.discover = some file ∧ s.Refuses file failure := by
  rw [resolve_eq]
  cases explicit.or s.discover with
  | none => simp
  | some file =>
      simp only [Option.some.injEq, exists_eq_left', ← load_eq_error_iff]
      rcases s.load file with failure' | ⟨config, warnings⟩ <;> simp

/-- A configuration that is resolved comes from a document within the limits. -/
theorem document_of_resolve {loaded : Loaded} {events : List Event}
    (h : s.resolve explicit = .ok (loaded, events)) :
    loaded.source = explicit.or s.discover ∧
      ∃ document, s.Gives (explicit.or s.discover) document ∧ document.InRange ∧
        loaded.config = (override s.env document.config).1 := by
  rw [resolve_eq] at h
  cases hchosen : explicit.or s.discover with
  | none =>
      rw [hchosen] at h
      cases h
      have hempty : Document.config ⟨none, none, none, []⟩ = Config.default := rfl
      exact ⟨rfl, _, .nothing, nofun, by rw [hempty]⟩
  | some file =>
      rw [hchosen] at h
      rcases hload : s.load file with failure | ⟨config, warnings⟩
      · simp [hload] at h
      · simp only [hload] at h
        cases h
        obtain ⟨content, document, hholds, hread, hrange, rfl, -⟩ := load_eq_ok_iff.mp hload
        exact ⟨rfl, document, .file hholds hread, hrange, rfl⟩

/-- A document within the limits is resolved. -/
theorem resolve_of_document {document : Document}
    (h : s.Gives (explicit.or s.discover) document) (hrange : document.InRange) :
    ∃ loaded events, s.resolve explicit = .ok (loaded, events) := by
  rw [resolve_eq]
  generalize explicit.or s.discover = chosen at h
  cases h with
  | nothing => exact ⟨_, _, rfl⟩
  | file hholds hread =>
      have hload := load_eq_ok_iff.mpr ⟨_, document, hholds, hread, hrange, rfl, rfl⟩
      simp only [hload]
      exact ⟨_, _, rfl⟩

/-- There is a resolved configuration exactly if the chosen file, if any, can be read
as a document within the limits, and it fails as loading this file does, whatever the
environment says.  A resolved configuration is within the limits, and each setting in
it is the one of the environment if that is usable, else the one of the chosen file,
else its default.  Names that are listed in the environment with commas between them
are the modules of the configuration. -/
theorem resolve_layered_and_valid (s : Sources) (explicit : Option String) :
    ∃ chosen, s.Chosen explicit chosen ∧
      ((∃ loaded events, s.resolve explicit = .ok (loaded, events)) ↔
        ∃ document, s.Gives chosen document ∧ document.InRange) ∧
      (∀ failure, s.resolve explicit = .error failure ↔
        ∃ file, chosen = some file ∧ s.Refuses file failure) ∧
      (∀ loaded events, s.resolve explicit = .ok (loaded, events) →
        loaded.config.problem? = none ∧
        (1 ≤ loaded.config.maxCallDepth ∧ loaded.config.maxCallDepth ≤ 4096) ∧
        loaded.source = chosen ∧
        ∃ document, s.Gives chosen document ∧ Layered s.env document loaded.config) ∧
      ∀ names : List String,
        (∀ name ∈ names, name ≠ "" ∧ ',' ∉ name.toList ∧ Bare name.toList) →
        s.env "CANTERBURY_MODULES" = some (",".intercalate names) →
        ∀ loaded events, s.resolve explicit = .ok (loaded, events) →
          loaded.config.modules = names := by
  refine ⟨explicit.or s.discover, s.chosen_or explicit, ?total, fun _ => resolve_eq_error_iff,
    ?valid, ?names⟩
  case total =>
    constructor
    · rintro ⟨loaded, events, h⟩
      obtain ⟨-, document, hgives, hrange, -⟩ := document_of_resolve h
      exact ⟨document, hgives, hrange⟩
    · rintro ⟨document, hgives, hrange⟩
      exact resolve_of_document hgives hrange
  case valid =>
    intro loaded events h
    obtain ⟨hsource, document, hgives, hrange, hconfig⟩ := document_of_resolve h
    have hlayered : Layered s.env document loaded.config :=
      hconfig ▸ layered_override s.env document
    have hbounds := hlayered.bounds hrange
    exact ⟨by rw [problem?_eq, if_pos hbounds], hbounds, hsource, document, hgives, hlayered⟩
  case names =>
    intro names hnames hvalue loaded events h
    obtain ⟨-, document, -, -, hconfig⟩ := document_of_resolve h
    rw [hconfig, override_fst, hvalue]
    exact modulesOverride_intercalate hnames

end Sources

theorem fromUTF8?_toUTF8 (text : String) : String.fromUTF8? text.toUTF8 = some text := by
  rw [String.fromUTF8?, String.toUTF8_eq_toByteArray, dif_pos text.isValidUTF8]
  rfl

/-- A world with one file. -/
def onlyFile (file text : String) : Files where
  read path := if path = file then .ok text.toUTF8 else .error .notFound
  isFile path := path = file

/-- An environment that lists two modules, and has a depth that is no number. -/
def twoModules : Environment
  | "CANTERBURY_MODULES" => some "math,io"
  | "CANTERBURY_MAX_CALL_DEPTH" => some "many"
  | _ => none

/-- A project with a file that sets a depth, in this environment. -/
def depthNine : Sources :=
  .usual (onlyFile "canterbury.toml" "[interpreter]\nmax_call_depth = 9\n") twoModules

theorem gives_depthNine :
    depthNine.Gives (some "canterbury.toml") ⟨none, some (some 9), none, []⟩ := by
  refine .file ⟨_, rfl, fromUTF8?_toUTF8 _⟩ ?_
  decide +kernel

/-- With these, the modules are those of the environment, and the unusable depth
in it changes nothing about the one of the file, which is 9. -/
theorem resolve_depthNine :
    ∃ loaded events, depthNine.resolve none = .ok (loaded, events) ∧
      loaded.source = some "canterbury.toml" ∧
      loaded.config = { prompt := "> ", maxCallDepth := 9, modules := ["math", "io"] } := by
  obtain ⟨chosen, hchosen, htotal, -, hvalid, hnames⟩ :=
    Sources.resolve_layered_and_valid depthNine none
  obtain rfl : chosen = some "canterbury.toml" := by
    cases hchosen with
    | project => rfl
    | user hproject | nothing hproject => exact absurd hproject (by decide)
  have hrange : Document.InRange ⟨none, some (some 9), none, []⟩ := by
    rintro depth ⟨⟩
    decide
  obtain ⟨loaded, events, h⟩ := htotal.mpr ⟨_, gives_depthNine, hrange⟩
  obtain ⟨-, -, hsource, document, hgives, hlayered⟩ := hvalid loaded events h
  obtain rfl := hgives.unique gives_depthNine
  refine ⟨loaded, events, h, hsource, ?_⟩
  have hprompt : loaded.config.prompt = "> " := by
    rcases hlayered.prompt with hvalue | ⟨-, hsettled⟩
    · cases hvalue
    · exact hsettled.eq_fallback
  have hdepth : loaded.config.maxCallDepth = 9 := by
    rcases hlayered.depth with ⟨value, hvalue, hin⟩ | ⟨-, hsettled⟩
    · obtain rfl : "many" = value := Option.some.inj hvalue
      rw [← depthOverride?_eq_some_iff] at hin
      exact absurd hin (by simp [show depthOverride? "many" = none by decide +kernel])
    · exact hsettled.eq_set
  have hmodules := hnames ["math", "io"] (by decide +kernel) rfl loaded events h
  rw [← hprompt, ← hdepth, ← hmodules]

end Config
end BracketScript
