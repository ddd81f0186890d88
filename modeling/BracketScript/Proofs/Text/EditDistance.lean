import BracketScript.Text.EditDistance
import Mathlib.Order.Bounds.Basic
import Mathlib.Order.MinMax

/-!
# The edit distance is the least number of edits

One `Edit` inserts, deletes or replaces a character anywhere in a text.  The
number that `editDistance` computes is the least one that turns one text into
the other (`apart_editDistance`).

Between the two stands `distance`, the recurrence that the rows follow, on texts
that are read from the end.  So many edits suffice (`edits_distance`), and fewer
do not, as one edit changes the distance to any text by at most one
(`Edit.distance_le`).

A row is written over one that is out of date.  As each entry is written before it
is read, nothing is left of that (`toList_fillRow`), and the rows are those that a
fold builds afresh (`Rows.Fits.toList_advanceAll`).
-/

namespace BracketScript
namespace Text

/-- One edit: a character is inserted, deleted or replaced. -/
inductive Edit : List Char → List Char → Prop
  | insert (before : List Char) (c : Char) (after : List Char) :
    Edit (before ++ after) (before ++ c :: after)
  | delete (before : List Char) (c : Char) (after : List Char) :
    Edit (before ++ c :: after) (before ++ after)
  | replace (before : List Char) (c d : Char) (after : List Char) :
    Edit (before ++ c :: after) (before ++ d :: after)

/-- A number of edits, one after the other. -/
inductive Edits : Nat → List Char → List Char → Prop
  | none (a : List Char) : Edits 0 a a
  | more {n : Nat} {a b c : List Char} (first : Edit a b) (rest : Edits n b c) : Edits (n + 1) a c

/-- The least number of edits that turn one text into the other. -/
def Apart (n : Nat) (a b : List Char) : Prop :=
  IsLeast {m | Edits m a b} n

/-! ### Edits inside of longer texts -/

theorem Edit.cons (x : Char) {a b : List Char} (h : Edit a b) : Edit (x :: a) (x :: b) := by
  cases h with
  | insert before c after => exact .insert (x :: before) c after
  | delete before c after => exact .delete (x :: before) c after
  | replace before c d after => exact .replace (x :: before) c d after

theorem Edits.cons (x : Char) {n : Nat} {a b : List Char} (h : Edits n a b) :
    Edits n (x :: a) (x :: b) := by
  induction h with
  | none a => exact .none (x :: a)
  | more first _ ih => exact .more (first.cons x) ih

theorem Edit.reverse {a b : List Char} (h : Edit a b) : Edit a.reverse b.reverse := by
  cases h with
  | insert before c after => simpa using Edit.insert after.reverse c before.reverse
  | delete before c after => simpa using Edit.delete after.reverse c before.reverse
  | replace before c d after => simpa using Edit.replace after.reverse c d before.reverse

theorem Edits.reverse {n : Nat} {a b : List Char} (h : Edits n a b) :
    Edits n a.reverse b.reverse := by
  induction h with
  | none a => exact .none a.reverse
  | more first _ ih => exact .more first.reverse ih

/-- Texts are as far apart read from the end. -/
theorem Apart.reverse {n : Nat} {a b : List Char} (h : Apart n a b) :
    Apart n a.reverse b.reverse := by
  refine ⟨h.1.reverse, fun m hm => h.2 ?_⟩
  simpa using Edits.reverse hm

theorem Apart.unique {n m : Nat} {a b : List Char} (h : Apart n a b) (h' : Apart m a b) : n = m :=
  IsLeast.unique h h'

/-! ### The recurrence -/

/-- What it costs to have one character where the other is. -/
def mismatch (c d : Char) : Nat :=
  if c = d then 0 else 1

theorem mismatch_le_one (c d : Char) : mismatch c d ≤ 1 := by
  unfold mismatch
  split <;> omega

/-- The edit distance, with the first characters of both texts taken off. -/
def distance : List Char → List Char → Nat
  | [], b => b.length
  | c :: a, [] => a.length + 1
  | c :: a, d :: b =>
    min (min (distance a (d :: b) + 1) (distance (c :: a) b + 1)) (distance a b + mismatch c d)
termination_by a b => a.length + b.length

@[simp] theorem distance_nil_left (b : List Char) : distance [] b = b.length := by
  rw [distance]

@[simp] theorem distance_nil_right (a : List Char) : distance a [] = a.length := by
  cases a <;> simp [distance]

theorem distance_cons_cons (c d : Char) (a b : List Char) :
    distance (c :: a) (d :: b) =
      min (min (distance a (d :: b) + 1) (distance (c :: a) b + 1))
        (distance a b + mismatch c d) := by
  rw [distance]

/-- As many edits as the distance says do suffice. -/
theorem edits_distance (a b : List Char) : Edits (distance a b) a b := by
  fun_induction distance a b with
  | case1 b =>
      induction b with
      | nil => exact .none []
      | cons d b ih => exact .more (.insert [] d []) (ih.cons d)
  | case2 c a =>
      induction a generalizing c with
      | nil => exact .more (.delete [] c []) (.none [])
      | cons x a ih => exact .more (.delete [] c (x :: a)) (ih x)
  | case3 c a d b hdelete hinsert hkeep =>
      -- The least of the three entries is the number of edits of its own script.
      rcases min_choice (min (distance a (d :: b) + 1) (distance (c :: a) b + 1))
        (distance a b + mismatch c d) with h | h <;> rw [h]
      · rcases min_choice (distance a (d :: b) + 1) (distance (c :: a) b + 1) with h | h <;> rw [h]
        · exact .more (.delete [] c a) hdelete
        · exact .more (.insert [] d (c :: a)) (hinsert.cons d)
      · by_cases hcd : c = d
        · subst hcd
          simpa [mismatch] using hkeep.cons c
        · simpa [mismatch, hcd] using Edits.more (.replace [] c d a) (hkeep.cons d)

/-! ### Fewer edits do not suffice -/

theorem distance_delete_le (c : Char) (a b : List Char) :
    distance (c :: a) b ≤ distance a b + 1 := by
  cases b with
  | nil => simp
  | cons d b =>
      rw [distance_cons_cons]
      omega

theorem distance_lengthen_le (a : List Char) (d : Char) (b : List Char) :
    distance a (d :: b) ≤ distance a b + 1 := by
  cases a with
  | nil => simp
  | cons c a =>
      rw [distance_cons_cons]
      omega

theorem distance_insert_le (c : Char) (a b : List Char) :
    distance a b ≤ distance (c :: a) b + 1 := by
  induction b with
  | nil =>
      simp
      omega
  | cons d b ih =>
      have hlonger := distance_lengthen_le a d b
      rw [distance_cons_cons]
      omega

theorem distance_replace_le (c c' : Char) (a b : List Char) :
    distance (c :: a) b ≤ distance (c' :: a) b + 1 := by
  induction b with
  | nil => simp
  | cons d b ih =>
      have hcost := mismatch_le_one c d
      rw [distance_cons_cons, distance_cons_cons]
      omega

/-- What is true of the distances from two texts to all others stays true with a
character in front of both. -/
theorem distance_cons_le {a a' : List Char} (h : ∀ b, distance a b ≤ distance a' b + 1) (x : Char)
    (b : List Char) : distance (x :: a) b ≤ distance (x :: a') b + 1 := by
  induction b with
  | nil => simpa using h []
  | cons d b ih =>
      have hwhole := h (d :: b)
      have hrest := h b
      rw [distance_cons_cons, distance_cons_cons]
      omega

/-- One edit changes the distance to any text by at most one. -/
theorem Edit.distance_le {a a' : List Char} (h : Edit a a') (b : List Char) :
    distance a b ≤ distance a' b + 1 := by
  cases h with
  | insert before c after =>
      induction before generalizing b with
      | nil => exact distance_insert_le c after b
      | cons x before ih => exact distance_cons_le ih x b
  | delete before c after =>
      induction before generalizing b with
      | nil => exact distance_delete_le c after b
      | cons x before ih => exact distance_cons_le ih x b
  | replace before c d after =>
      induction before generalizing b with
      | nil => exact distance_replace_le c d after b
      | cons x before ih => exact distance_cons_le ih x b

theorem distance_self (a : List Char) : distance a a = 0 := by
  induction a with
  | nil => simp
  | cons c a ih => simp [distance_cons_cons, ih, mismatch]

theorem Edits.distance_le {n : Nat} {a b : List Char} (h : Edits n a b) : distance a b ≤ n := by
  induction h with
  | none a => rw [distance_self]
  | @more n a a' b first _ ih =>
      have hfirst := first.distance_le b
      omega

theorem apart_distance (a b : List Char) : Apart (distance a b) a b :=
  ⟨edits_distance a b, fun _ h => h.distance_le⟩

/-! ### Rows built afresh -/

/-- The rest of the next row, given the entry to the left of it and the entry
above that one. -/
def extendRow (c : Char) (left corner : Nat) : List Char → List Nat → List Nat
  | d :: ds, above :: row =>
    let entry := min (min (above + 1) (left + 1)) (corner + mismatch c d)
    entry :: extendRow c entry above ds row
  | _, _ => []

/-- The row of a prefix that is longer by one character. -/
def nextRow (target : List Char) (row : List Nat) (c : Char) : List Nat :=
  match row with
  | [] => []
  | first :: rest => (first + 1) :: extendRow c (first + 1) first target rest

/-- The distances from a text to the prefixes of a target, past those that were
seen.  All texts are read from the end. -/
def rowFrom (text : List Char) : List Char → List Char → List Nat
  | _, [] => []
  | seen, d :: ds => distance text (d :: seen) :: rowFrom text (d :: seen) ds

/-- The distances from a text to all prefixes of a target. -/
def rowOf (text target : List Char) : List Nat :=
  distance text [] :: rowFrom text [] target

theorem rowOf_nil (target : List Char) : rowOf [] target = List.range (target.length + 1) := by
  have hfrom : ∀ seen, rowFrom [] seen target =
      List.range' (seen.length + 1) target.length := by
    induction target with
    | nil => exact fun _ => rfl
    | cons d ds ih =>
        intro seen
        rw [rowFrom, ih, List.length_cons, List.length_cons, List.range'_succ, distance_nil_left,
          List.length_cons]
  rw [rowOf, hfrom, List.range_eq_range', List.range'_succ, distance_nil_left, List.length_nil]

/-- A row is filled in from the entry to the left and from the row above. -/
theorem extendRow_rowFrom (c : Char) (text seen ds : List Char) :
    extendRow c (distance (c :: text) seen) (distance text seen) ds (rowFrom text seen ds) =
      rowFrom (c :: text) seen ds := by
  induction ds generalizing seen with
  | nil => rfl
  | cons d ds ih =>
      rw [rowFrom, rowFrom, extendRow, ← ih, distance_cons_cons]

theorem nextRow_rowOf (c : Char) (text target : List Char) :
    nextRow target (rowOf text target) c = rowOf (c :: text) target := by
  have hfirst : distance text [] + 1 = distance (c :: text) [] := by simp
  rw [rowOf, nextRow, hfirst, extendRow_rowFrom, rowOf]

theorem foldl_nextRow (source text target : List Char) :
    source.foldl (nextRow target) (rowOf text target) = rowOf (source.reverse ++ text) target := by
  induction source generalizing text with
  | nil => rfl
  | cons c source ih =>
      rw [List.foldl_cons, nextRow_rowOf, ih, List.reverse_cons, List.append_assoc,
        List.singleton_append]

theorem getLastD_rowFrom (text seen ds : List Char) :
    (rowFrom text seen ds).getLastD (distance text seen) = distance text (ds.reverse ++ seen) := by
  induction ds generalizing seen with
  | nil => rfl
  | cons d ds ih => rw [rowFrom, List.getLastD_cons, ih, List.reverse_cons, List.append_assoc,
      List.singleton_append]

/-! ### Rows written over others -/

theorem take_set_succ {row : List Nat} {j entry : Nat} (h : j < row.length) :
    (row.set j entry).take (j + 1) = row.take j ++ [entry] := by
  rw [List.take_succ_eq_append_getElem (by simpa using h), List.take_set_of_le (Nat.le_refl j),
    List.getElem_set_self]

@[simp] theorem size_fillRow (c : Char) (above row : Array Nat) (j : Nat) (ds : List Char) :
    (fillRow c above row j ds).size = row.size := by
  induction ds generalizing row j with
  | nil => rfl
  | cons d ds ih => rw [fillRow, ih, Array.size_setIfInBounds]

/-- Behind the given place the entries are new, whatever there was before. -/
theorem toList_fillRow {c : Char} {above row : Array Nat} {j : Nat} {ds : List Char}
    (habove : above.size = j + ds.length + 1) (hrow : row.size = j + ds.length + 1) :
    (fillRow c above row j ds).toList = row.toList.take (j + 1) ++
      extendRow c (row.getD j 0) (above.getD j 0) ds (above.toList.drop (j + 1)) := by
  induction ds generalizing row j with
  | nil =>
      have hall : row.toList.length ≤ j + 1 := by simp [hrow]
      rw [fillRow, extendRow, List.append_nil, List.take_of_length_le hall]
      exact nofun
  | cons d ds ih =>
      rw [List.length_cons] at habove hrow
      have hplace : j + 1 < row.toList.length := by
        rw [Array.length_toList]
        omega
      have hdrop : above.toList.drop (j + 1) =
          above.getD (j + 1) 0 :: above.toList.drop (j + 1 + 1) := by
        rw [List.drop_eq_getElem_cons (by rw [Array.length_toList]; omega), Array.getElem_toList,
          Array.getElem_eq_getD 0]
      have hwritten : ∀ entry, (row.setIfInBounds (j + 1) entry).getD (j + 1) 0 = entry := by
        intro entry
        rw [Array.getD_eq_getD_getElem?, Array.getElem?_setIfInBounds_self_of_lt (by omega),
          Option.getD_some]
      rw [fillRow, ih (by omega) (by rw [Array.size_setIfInBounds]; omega), hwritten,
        Array.toList_setIfInBounds, take_set_succ hplace, hdrop, extendRow, List.append_assoc]
      rfl

namespace Rows

/-- Rows for the prefix of the given length. -/
structure Fits (target : List Char) (i : Nat) (rows : Rows) : Prop where
  finished : rows.finished.size = target.length + 1
  spare : rows.spare.size = target.length + 1
  first : rows.finished.toList.head? = some i

variable {target : List Char} {i : Nat} {rows : Rows}

theorem fits_first (target : List Char) : (first target).Fits target 0 where
  finished := by simp [Rows.first]
  spare := by simp [Rows.first]
  first := by simp [Rows.first, List.range_succ_eq_map]

theorem Fits.toList_advance (h : rows.Fits target i) (c : Char) :
    (rows.advance target i c).finished.toList = nextRow target rows.finished.toList c := by
  obtain ⟨rest, hrest⟩ := List.head?_eq_some_iff.mp h.first
  have hcorner : rows.finished.getD 0 0 = i := by
    rw [Array.getD_eq_getD_getElem?, ← Array.getElem?_toList, hrest]
    rfl
  have hspare : 0 < rows.spare.size := by
    rw [h.spare]
    omega
  have hleft : (rows.spare.setIfInBounds 0 (i + 1)).getD 0 0 = i + 1 := by
    rw [Array.getD_eq_getD_getElem?, Array.getElem?_setIfInBounds_self_of_lt hspare,
      Option.getD_some]
  have hplace : 0 < rows.spare.toList.length := by
    rwa [Array.length_toList]
  rw [Rows.advance, toList_fillRow (by rw [h.finished]; omega)
    (by rw [Array.size_setIfInBounds, h.spare]; omega), hcorner, hleft, Array.toList_setIfInBounds,
    take_set_succ hplace, hrest]
  rfl

theorem Fits.advance (h : rows.Fits target i) (c : Char) :
    (rows.advance target i c).Fits target (i + 1) where
  finished := by rw [Rows.advance, size_fillRow, Array.size_setIfInBounds, h.spare]
  spare := h.finished
  first := by
    obtain ⟨rest, hrest⟩ := List.head?_eq_some_iff.mp h.first
    rw [h.toList_advance, hrest]
    rfl

theorem Fits.toList_advanceAll (h : rows.Fits target i) (source : List Char) :
    (rows.advanceAll target i source).finished.toList =
      source.foldl (nextRow target) rows.finished.toList := by
  induction source generalizing rows i with
  | nil => rfl
  | cons c source ih => rw [Rows.advanceAll, ih (h.advance c), h.toList_advance, List.foldl_cons]

theorem Fits.size_advanceAll (h : rows.Fits target i) (source : List Char) :
    (rows.advanceAll target i source).finished.size = target.length + 1 := by
  induction source generalizing rows i with
  | nil => exact h.finished
  | cons c source ih => exact ih (h.advance c)

end Rows

theorem getD_eq_getLastD {row : Array Nat} {n : Nat} (h : row.size = n + 1) :
    row.getD n 0 = row.toList.getLastD 0 := by
  rw [List.getLastD_eq_getLast?, List.getLast?_eq_getElem?, Array.length_toList, h,
    Nat.add_sub_cancel, Array.getElem?_toList, Array.getD_eq_getD_getElem?]

/-- Texts that differ are compared by the rows of the prefixes. -/
theorem editDistance_of_ne {a b : List Char} (h : a ≠ b) :
    editDistance a b = (a.foldl (nextRow b) (List.range (b.length + 1))).getLastD 0 := by
  have hfits := Rows.fits_first b
  rw [editDistance, if_neg h, getD_eq_getLastD (hfits.size_advanceAll a), hfits.toList_advanceAll]
  rfl

theorem editDistance_eq (a b : List Char) : editDistance a b = distance a.reverse b.reverse := by
  by_cases h : a = b
  · rw [editDistance, if_pos h, h, distance_self]
  · rw [editDistance_of_ne h, ← rowOf_nil, foldl_nextRow, rowOf, List.getLastD_cons,
      getLastD_rowFrom, List.append_nil, List.append_nil]

/-- The computed distance is the least number of edits. -/
theorem apart_editDistance (a b : List Char) : Apart (editDistance a b) a b := by
  rw [editDistance_eq]
  simpa using (apart_distance a.reverse b.reverse).reverse

end Text
end BracketScript
