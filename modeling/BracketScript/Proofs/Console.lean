import BracketScript.Console
import Mathlib.Data.List.TakeDrop
import Mathlib.Data.List.TakeWhile

/-!
# Streams

What writing does depends on the output alone, and what reading gives on the
input alone.  A text of lines comes back line by line when it is read
(`readLine_line` and `readLine_last`): its line ends are the bytes `10` of its
encoding, because a byte `10` never stands inside a longer character.
-/

namespace BracketScript

namespace Console

/-- What writing does depends on what was written and on the room left. -/
theorem write_alike {c c' : Console} (hwritten : c.written = c'.written) (hroom : c.room = c'.room)
    (text : String) :
    (c.write text).1 = (c'.write text).1 ∧
      (c.write text).2.written = (c'.write text).2.written ∧
      (c.write text).2.room = (c'.write text).2.room := by
  unfold write
  rw [hwritten, hroom]
  cases c'.room with
  | none => simp
  | some room =>
      dsimp only
      split <;> simp

theorem write_input (c : Console) (text : String) : (c.write text).2.input = c.input := by
  unfold write
  dsimp only
  split
  · rfl
  · split <;> rfl

theorem readLine_of_nil {c : Console} (h : c.input = []) : c.readLine = (.ok none, c) := by
  simp only [readLine, h]

theorem readLine_of_ne_nil {c : Console} (h : c.input ≠ []) :
    c.readLine =
      ((String.fromUTF8?
          ((c.input.span (· ≠ 10)).1 ++ (c.input.span (· ≠ 10)).2.take 1).toByteArray).elim
          (.error .invalidText) fun text => .ok (some (chomp text)),
        { c with input := (c.input.span (· ≠ 10)).2.drop 1 }) := by
  simp only [readLine]
  cases String.fromUTF8?
    ((c.input.span (· ≠ 10)).1 ++ (c.input.span (· ≠ 10)).2.take 1).toByteArray <;> rfl

/-- What reading a line gives depends on the input alone. -/
theorem readLine_alike {c c' : Console} (h : c.input = c'.input) :
    c.readLine.1 = c'.readLine.1 ∧ c.readLine.2.input = c'.readLine.2.input := by
  by_cases hnil : c'.input = []
  · rw [readLine_of_nil hnil, readLine_of_nil (h.trans hnil)]
    exact ⟨rfl, h⟩
  · rw [readLine_of_ne_nil hnil, readLine_of_ne_nil (h ▸ hnil), h]
    exact ⟨rfl, rfl⟩

theorem readLine_output (c : Console) :
    c.readLine.2.written = c.written ∧ c.readLine.2.room = c.room := by
  by_cases hnil : c.input = []
  · rw [readLine_of_nil hnil]
    exact ⟨rfl, rfl⟩
  · rw [readLine_of_ne_nil hnil]
    exact ⟨rfl, rfl⟩

/-! ### Texts as input -/

/-- The bytes of a text. -/
def bytes (text : String) : List UInt8 :=
  text.toUTF8.data.toList

theorem bytes_eq_flatMap (text : String) :
    bytes text = text.toList.flatMap String.utf8EncodeChar := by
  rw [bytes, String.toUTF8, ← String.utf8Encode_toList, List.utf8Encode, List.data_toByteArray]

theorem bytes_append (first second : String) :
    bytes (first ++ second) = bytes first ++ bytes second := by
  simp only [bytes_eq_flatMap, String.toList_append, List.flatMap_append]

theorem bytes_ne_nil {text : String} (h : text ≠ "") : bytes text ≠ [] := by
  intro hnil
  rw [bytes_eq_flatMap, List.flatMap_eq_nil_iff] at hnil
  have hchars : text.toList = [] :=
    List.eq_nil_iff_forall_not_mem.mpr fun c hc => String.utf8EncodeChar_ne_nil (hnil c hc)
  exact h (String.toList_eq_nil_iff.mp hchars)

/-- Only the line end has the byte of a line end in it. -/
theorem eq_newline_of_mem_encode {c : Char} (h : (10 : UInt8) ∈ String.utf8EncodeChar c) :
    c = '\n' := by
  have hbyte : ∀ n : Nat, (10 : UInt8) = UInt8.ofNat n → n % 256 = 10 := by
    intro n hn
    have hnat := congrArg UInt8.toNat hn
    simpa [UInt8.toNat_ofNat'] using hnat.symm
  have hten : c.val.toNat = 10 := by
    unfold String.utf8EncodeChar at h
    dsimp only at h
    -- In a longer encoding the highest bit of every byte is set.
    split at h
    · rw [List.mem_singleton] at h
      have := hbyte _ h
      omega
    · split at h
      · simp only [List.mem_cons, List.not_mem_nil, or_false] at h
        rcases h with h | h <;> have := hbyte _ h <;> omega
      · split at h
        · simp only [List.mem_cons, List.not_mem_nil, or_false] at h
          rcases h with h | h | h <;> have := hbyte _ h <;> omega
        · simp only [List.mem_cons, List.not_mem_nil, or_false] at h
          rcases h with h | h | h | h <;> have := hbyte _ h <;> omega
  exact Char.ext (UInt32.toNat_inj.mp hten)

theorem ne_newline_of_mem_bytes {text : String} (h : '\n' ∉ text.toList) :
    ∀ b ∈ bytes text, decide (b ≠ 10) = true := by
  intro b hb
  rw [bytes_eq_flatMap, List.mem_flatMap] at hb
  obtain ⟨c, hc, hbyte⟩ := hb
  refine decide_eq_true fun hten => h ?_
  subst hten
  exact eq_newline_of_mem_encode hbyte ▸ hc

theorem fromUTF8?_bytes (text : String) :
    String.fromUTF8? (bytes text).toByteArray = some text := by
  have hbytes : (bytes text).toByteArray = text.toByteArray := by
    rw [bytes_eq_flatMap, ← String.utf8Encode_toList]
    rfl
  rw [hbytes, String.fromUTF8?, dif_pos text.isValidUTF8]
  rfl

theorem chomp_append_newline (line : String) : chomp (line ++ "\n") = chomp line := by
  simp [chomp]

/-- A text without line ends is left as it is. -/
theorem chomp_of_noLineEnd {line : String} (hline : '\n' ∉ line.toList ∧ '\r' ∉ line.toList) :
    chomp line = line := by
  have hkeeps : line.toList.reverse.dropWhile (fun c => c = '\n' || c = '\r') =
      line.toList.reverse := by
    rcases hlast : line.toList.reverse with _ | ⟨c, cs⟩
    · rfl
    · have hc : c ∈ line.toList := by
        rw [← List.mem_reverse, hlast]
        exact List.mem_cons_self
      have hn : c ≠ '\n' := fun h => hline.1 (h ▸ hc)
      have hr : c ≠ '\r' := fun h => hline.2 (h ▸ hc)
      simp [hn, hr]
  rw [chomp, hkeeps, List.reverse_reverse, String.ofList_toList]

/-- A line that is followed by a line end. -/
theorem readLine_line {c : Console} {line : String} {rest : List UInt8}
    (hline : '\n' ∉ line.toList ∧ '\r' ∉ line.toList) (h : c.input = bytes line ++ 10 :: rest) :
    c.readLine = (.ok (some line), { c with input := rest }) := by
  have htext : bytes line ++ [10] = bytes (line ++ "\n") := by
    rw [bytes_append]
    rfl
  have hspan : (bytes line ++ 10 :: rest).span (· ≠ 10) = (bytes line, 10 :: rest) := by
    have hall := ne_newline_of_mem_bytes hline.1
    rw [List.span_eq_takeWhile_dropWhile, List.takeWhile_append_of_pos hall,
      List.dropWhile_append_of_pos hall]
    simp
  have hne : c.input ≠ [] := by simp [h]
  rw [readLine_of_ne_nil hne, h, hspan, List.take_one, List.head?_cons,
    Option.toList_some, htext, fromUTF8?_bytes, List.drop_one, List.tail_cons]
  simp only [Option.elim_some, chomp_append_newline, chomp_of_noLineEnd hline]

/-- A last line without a line end. -/
theorem readLine_last {c : Console} {line : String}
    (hline : '\n' ∉ line.toList ∧ '\r' ∉ line.toList) (hne : line ≠ "")
    (h : c.input = bytes line) : c.readLine = (.ok (some line), { c with input := [] }) := by
  have hspan : (bytes line).span (· ≠ 10) = (bytes line, []) := by
    have hall := ne_newline_of_mem_bytes hline.1
    rw [List.span_eq_takeWhile_dropWhile, List.takeWhile_eq_self_iff.mpr hall,
      List.dropWhile_eq_nil_iff.mpr hall]
  have hinput : c.input ≠ [] := h ▸ bytes_ne_nil hne
  rw [readLine_of_ne_nil hinput, h, hspan, List.take_nil, List.append_nil, fromUTF8?_bytes,
    List.drop_nil]
  simp only [Option.elim_some, chomp_of_noLineEnd hline]

end Console

end BracketScript
