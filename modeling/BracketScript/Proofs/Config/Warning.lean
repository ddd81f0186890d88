import BracketScript.Proofs.Config.Layers

/-!
# What the warnings say

For each unknown key of a document there is one warning, in order
(`warnings_tell_first_mention`).  It names the key, if there is no point in the
key's name, and otherwise what follows the last one.  Its line is the first one
on which the text of that name stands anywhere.  Where a comment or another key
has the same text before, that is not the line of the key
(`promt_mentioned_before`).
-/

namespace BracketScript

theorem Text.occursIn_iff {needle cs : List Char} : occursIn needle cs = true ↔ needle <:+: cs := by
  induction cs with
  | nil => simp [occursIn]
  | cons c cs ih =>
      rw [occursIn, Bool.or_eq_true, List.isPrefixOf_iff_prefix, ih, List.infix_cons_iff]

namespace Config

theorem entries_of_ofToml {content : String} {document : Document}
    (h : Document.ofToml content = .ok document) :
    ∃ entries, Toml.entries? content = some entries ∧
      document.unknown = entries.flatMap unknownKeys := by
  unfold Document.ofToml at h
  split at h
  · cases h
  · next entries hentries =>
      split at h
      · cases h
        exact ⟨entries, hentries, rfl⟩
      · cases h

end Config

namespace ConfigWarning

open Text Config

/-- The text of a key stands on a line, counted from one. -/
def MentionedOn (content key : String) (n : Nat) : Prop :=
  ∃ i line, n = i + 1 ∧ (Text.lines content.toList)[i]? = some line ∧ key.toList <:+: line

theorem lineOf?_eq_some_iff {content key : String} {n : Nat} :
    lineOf? content key = some n ↔
      MentionedOn content key n ∧ ∀ m < n, ¬ MentionedOn content key m := by
  unfold lineOf? MentionedOn
  rw [Option.map_eq_some_iff]
  simp only [List.findIdx?_eq_some_iff_getElem, occursIn_iff]
  constructor
  · rintro ⟨i, ⟨hi, hmention, hbefore⟩, rfl⟩
    refine ⟨⟨i, _, rfl, List.getElem?_eq_getElem hi, hmention⟩, ?_⟩
    rintro _ hlt ⟨j, line, rfl, hline, hmention'⟩
    obtain ⟨hj, rfl⟩ := List.getElem?_eq_some_iff.mp hline
    exact hbefore j (Nat.lt_of_succ_lt_succ hlt) hmention'
  · rintro ⟨⟨i, line, rfl, hline, hmention⟩, hbefore⟩
    obtain ⟨hi, rfl⟩ := List.getElem?_eq_some_iff.mp hline
    refine ⟨i, ⟨hi, hmention, ?_⟩, rfl⟩
    intro j hj hmention'
    exact hbefore (j + 1) (Nat.succ_lt_succ hj)
      ⟨j, _, rfl, List.getElem?_eq_getElem (Nat.lt_trans hj hi), hmention'⟩

theorem lineOf?_eq_none_iff {content key : String} :
    lineOf? content key = none ↔ ∀ n, ¬ MentionedOn content key n := by
  unfold lineOf? MentionedOn
  rw [Option.map_eq_none_iff, List.findIdx?_eq_none_iff]
  constructor
  · rintro h n ⟨i, line, -, hline, hmention⟩
    have hnot := h line (List.mem_of_getElem? hline)
    rw [occursIn_iff.mpr hmention] at hnot
    cases hnot
  · intro h line hline
    obtain ⟨i, hi⟩ := List.mem_iff_getElem?.mp hline
    rw [← Bool.not_eq_true, occursIn_iff]
    exact fun hmention => h (i + 1) ⟨i, line, rfl, hi, hmention⟩

/-- What is behind the last separator is the last text, whatever the others are. -/
theorem getLast?_splitOn_intercalate {separator : Char} {texts : List (List Char)}
    {text : List Char} (hlast : texts.getLast? = some text) (h : separator ∉ text) :
    (([separator].intercalate texts).splitOn separator).getLast? = some text := by
  induction texts with
  | nil => cases hlast
  | cons first rest ih =>
      cases rest with
      | nil =>
          obtain rfl : first = text := by simpa using hlast
          rw [List.intercalate_singleton, List.splitOn_eq_singleton h, List.getLast?_singleton]
      | cons second rest =>
          rw [List.getLast?_cons_cons] at hlast
          have hsplit : (first ++ separator :: [separator].intercalate (second :: rest)).splitOn
              separator = first.splitOn separator ++
                ([separator].intercalate (second :: rest)).splitOn separator :=
            List.splitOnP_append_cons _ _ (beq_self_eq_true separator)
          rw [List.intercalate_cons_cons, List.append_assoc, List.singleton_append, hsplit,
            List.getLast?_append, ih hlast, Option.some_or]

theorem lastName_dotted {path : List String} {name : String} (hlast : path.getLast? = some name)
    (h : '.' ∉ name.toList) : lastName (dotted path) = name := by
  have hpieces : (pieces '.' (dotted path).toList).getLast? = some name.toList := by
    rw [pieces_eq_splitOn, dotted, String.toList_intercalate]
    exact getLast?_splitOn_intercalate (by rw [List.getLast?_map, hlast, Option.map_some]) h
  rw [lastName, List.getLastD_eq_getLast?, hpieces, Option.getD_some, String.ofList_toList]

/-- A warning about an unknown key, given by the names on the way to it. -/
structure Describes (file content : String) (path : List String) (w : ConfigWarning) : Prop where
  file : w.file = file
  key : w.key = lastName (dotted path)
  ownName {name : String} (hname : path.getLast? = some name) (hpoint : '.' ∉ name.toList) :
    w.key = name
  line {n : Nat} : w.line = some n ↔
    MentionedOn content w.key n ∧ ∀ m < n, ¬ MentionedOn content w.key m
  noLine : w.line = none ↔ ∀ n, ¬ MentionedOn content w.key n

theorem describes_ofPath (file content : String) (path : List String) :
    Describes file content path (ofPath file content (dotted path)) where
  file := rfl
  key := rfl
  ownName := lastName_dotted
  line := lineOf?_eq_some_iff
  noLine := lineOf?_eq_none_iff

/-- There is one warning for each unknown key of a file that was loaded, in
order.  Its line is the first one with the text of the key. -/
theorem warnings_tell_first_mention {s : Sources} {file : String} {config : Config}
    {warnings : List ConfigWarning} (h : s.load file = .ok (config, warnings)) :
    ∃ bytes content document, s.files file = .ok bytes ∧ String.fromUTF8? bytes = some content ∧
      s.reader content = .ok document ∧
      List.Forall₂ (Describes file content) document.unknown warnings ∧
      (s.reader = Document.ofToml → ∃ entries, Toml.entries? content = some entries ∧
        document.unknown = entries.flatMap unknownKeys) := by
  obtain ⟨content, document, ⟨bytes, hfile, hcontent⟩, hread, -, -, rfl⟩ :=
    Sources.load_eq_ok_iff.mp h
  refine ⟨bytes, content, document, hfile, hcontent, hread, ?_, ?_⟩
  · rw [List.forall₂_map_right_iff, List.forall₂_same]
    exact fun path _ => describes_ofPath file content path
  · intro htoml
    rw [htoml] at hread
    exact entries_of_ofToml hread

/-- A project with a slip in its file, and a comment about it. -/
def commentedSlip : Sources :=
  .usual (onlyFile projectFile "# promt\n[repl]\npromt = 1\n") fun _ => none

theorem load_commentedSlip : commentedSlip.load projectFile =
    .ok (Config.default, [ofPath projectFile "# promt\n[repl]\npromt = 1\n" "repl.promt"]) := by
  have hread : commentedSlip.reader "# promt\n[repl]\npromt = 1\n" =
      .ok ⟨some none, none, none, [["repl", "promt"]]⟩ := by
    decide +kernel
  have hpath : dotted ["repl", "promt"] = "repl.promt" := by decide
  have hholds : commentedSlip.Holds projectFile "# promt\n[repl]\npromt = 1\n" :=
    ⟨_, rfl, fromUTF8?_toUTF8 _⟩
  rw [Sources.load_eq_ok_iff]
  refine ⟨_, _, hholds, hread, nofun, rfl, ?_⟩
  rw [List.map_singleton, hpath]

theorem warnings_of_commentedSlip :
    ∃ bytes content document, commentedSlip.files projectFile = .ok bytes ∧
      String.fromUTF8? bytes = some content ∧ Document.ofToml content = .ok document ∧
      List.Forall₂ (Describes projectFile content) document.unknown
        [ofPath projectFile "# promt\n[repl]\npromt = 1\n" "repl.promt"] ∧
      ∃ entries, Toml.entries? content = some entries ∧
        document.unknown = entries.flatMap unknownKeys := by
  obtain ⟨bytes, content, document, hfile, hcontent, hread, hwarnings, hentries⟩ :=
    warnings_tell_first_mention load_commentedSlip
  exact ⟨bytes, content, document, hfile, hcontent, hread, hwarnings, hentries rfl⟩

/-- The key stands on the third line, and the warning about it tells the first
one, where a comment mentions it. -/
theorem promt_mentioned_before :
    commentedSlip.load projectFile =
        .ok (Config.default, [⟨"promt", projectFile, some 1, some "prompt"⟩]) ∧
      Text.lines "# promt\n[repl]\npromt = 1\n".toList =
        ["# promt".toList, "[repl]".toList, "promt = 1".toList] := by
  have hwarning : ofPath projectFile "# promt\n[repl]\npromt = 1\n" "repl.promt" =
      ⟨"promt", projectFile, some 1, some "prompt"⟩ := by
    decide +kernel
  rw [load_commentedSlip, hwarning]
  exact ⟨rfl, by decide⟩

end ConfigWarning

end BracketScript
