import BracketScript.Config.Warning
import BracketScript.Proofs.Text.EditDistance

/-!
# Which key is suggested

For an unknown key the nearest known one is suggested, the first of them if
several are equally near, unless all of them are more than two edits away
(`suggestion_by_least_edits`).  How far a key is away is said by the edits that
lead to it (`Text.Apart`), and not by the computation.
-/

namespace BracketScript
namespace ConfigWarning

open Text

/-- One of several candidates, with its number of edits from a key: those before
it are farther away, and none of those after it is nearer. -/
def FirstNearest (key : String) (candidates : List String) (c : String) (n : Nat) : Prop :=
  ∃ before after, candidates = before ++ c :: after ∧ Apart n key.toList c.toList ∧
    (∀ other ∈ before, ∀ m, Apart m key.toList other.toList → n < m) ∧
    ∀ other ∈ after, ∀ m, Apart m key.toList other.toList → n ≤ m

variable {key : String} {candidates : List String} {c : String} {n : Nat}

namespace FirstNearest

theorem le (h : FirstNearest key candidates c n) {other : String} (hother : other ∈ candidates)
    {m : Nat} (hm : Apart m key.toList other.toList) : n ≤ m := by
  obtain ⟨before, after, rfl, hc, hbefore, hafter⟩ := h
  rcases List.mem_append.mp hother with hother | hother
  · exact Nat.le_of_lt (hbefore other hother m hm)
  rcases List.mem_cons.mp hother with rfl | hother
  · exact Nat.le_of_eq (hc.unique hm)
  · exact hafter other hother m hm

theorem mem (h : FirstNearest key candidates c n) : c ∈ candidates := by
  obtain ⟨before, after, rfl, -⟩ := h
  simp

theorem apart (h : FirstNearest key candidates c n) : Apart n key.toList c.toList := by
  obtain ⟨before, after, -, hc, -⟩ := h
  exact hc

/-- Of two candidates that are both the first of the nearest, neither stands
before the other. -/
theorem unique {c' : String} {n' : Nat} (h : FirstNearest key candidates c n)
    (h' : FirstNearest key candidates c' n') : c = c' ∧ n = n' := by
  have hn : n = n' := Nat.le_antisymm (h.le h'.mem h'.apart) (h'.le h.mem h.apart)
  subst hn
  obtain ⟨before, after, rfl, hc, hbefore, -⟩ := h
  obtain ⟨before', after', hsplit, hc', hbefore', -⟩ := h'
  rcases List.append_eq_append_iff.mp hsplit with ⟨between, rfl, hafter⟩ | ⟨between, rfl, hafter⟩
  · cases between with
    | nil => exact ⟨(List.cons.inj hafter).1, rfl⟩
    | cons first between =>
        obtain rfl := (List.cons.inj hafter).1
        exact absurd (hbefore' c (by simp) n hc) (Nat.lt_irrefl n)
  · cases between with
    | nil => exact ⟨(List.cons.inj hafter).1.symm, rfl⟩
    | cons first between =>
        obtain rfl := (List.cons.inj hafter).1
        exact absurd (hbefore c' (by simp) n hc') (Nat.lt_irrefl n)

theorem cons_of_lt (h : FirstNearest key candidates c n) {first : String}
    (hfar : n < editDistance key.toList first.toList) :
    FirstNearest key (first :: candidates) c n := by
  obtain ⟨before, after, rfl, hc, hbefore, hafter⟩ := h
  refine ⟨first :: before, after, rfl, hc, ?_, hafter⟩
  intro other hother m hm
  rcases List.mem_cons.mp hother with rfl | hother
  · rwa [hm.unique (apart_editDistance _ _)]
  · exact hbefore other hother m hm

theorem cons_of_le (h : FirstNearest key candidates c n) {first : String}
    (hnear : editDistance key.toList first.toList ≤ n) :
    FirstNearest key (first :: candidates) first (editDistance key.toList first.toList) := by
  refine ⟨[], candidates, rfl, apart_editDistance _ _, nofun, ?_⟩
  intro other hother m hm
  exact Nat.le_trans hnear (h.le hother hm)

end FirstNearest

/-- The search among candidates ends with the first of the nearest. -/
theorem nearest?_cons (key first : String) (rest : List String) :
    ∃ c n, nearest? key (first :: rest) = some (c, n) ∧ FirstNearest key (first :: rest) c n := by
  induction rest generalizing first with
  | nil => exact ⟨first, _, rfl, [], [], rfl, apart_editDistance _ _, nofun, nofun⟩
  | cons second rest ih =>
      obtain ⟨c, n, hfound, hnearest⟩ := ih second
      unfold nearest?
      rw [hfound]
      by_cases hfar : n < editDistance key.toList first.toList
      · exact ⟨c, n, by simp [hfar], hnearest.cons_of_lt hfar⟩
      · exact ⟨first, _, by simp [hfar], hnearest.cons_of_le (Nat.le_of_not_lt hfar)⟩

theorem suggest?_eq (key : String) : ∃ c n, FirstNearest key knownKeys c n ∧
    suggest? key = if n ≤ 2 then some c else none := by
  obtain ⟨c, n, hfound, hnearest⟩ := nearest?_cons key "repl" knownKeys.tail
  refine ⟨c, n, hnearest, ?_⟩
  unfold suggest?
  rw [show nearest? key knownKeys = some (c, n) from hfound]
  rfl

/-- The computed distance is the least number of insertions, deletions and
replacements.  There is no suggestion exactly if all known keys are more than two
of them away; otherwise it is the first of the nearest known keys. -/
theorem suggestion_by_least_edits :
    (∀ a b : List Char, IsLeast {n | Edits n a b} (editDistance a b)) ∧
    ∀ key : String,
      (suggest? key = none ↔
        ∀ known ∈ knownKeys, ∀ n, Edits n key.toList known.toList → 2 < n) ∧
      ∀ known, suggest? key = some known ↔ ∃ n ≤ 2, FirstNearest key knownKeys known n := by
  refine ⟨apart_editDistance, fun key => ?_⟩
  obtain ⟨c, n, hnearest, heq⟩ := suggest?_eq key
  rw [heq]
  by_cases hn : n ≤ 2
  · rw [if_pos hn]
    constructor
    · refine ⟨nofun, fun h => ?_⟩
      exact absurd (h c hnearest.mem n hnearest.apart.1) (Nat.not_lt.mpr hn)
    · intro known
      constructor
      · rintro ⟨⟩
        exact ⟨n, hn, hnearest⟩
      · rintro ⟨m, -, hknown⟩
        rw [(hknown.unique hnearest).1]
  · rw [if_neg hn]
    constructor
    · refine ⟨fun _ known hknown m hm => ?_, fun _ => rfl⟩
      have hleast := hnearest.le hknown (apart_editDistance key.toList known.toList)
      have hsteps := (apart_editDistance key.toList known.toList).2 hm
      omega
    · intro known
      constructor
      · nofun
      · rintro ⟨m, hm, hknown⟩
        rw [(hknown.unique hnearest).2] at hm
        exact absurd hm hn

example : suggest? "promt" = some "prompt" ∧ suggest? "colour" = none := by decide +kernel

end ConfigWarning
end BracketScript
