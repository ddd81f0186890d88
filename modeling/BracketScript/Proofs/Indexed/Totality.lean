import BracketScript.Proofs.Indexed.Productions
import BracketScript.Proofs.Grammar.Composition

/-!
# Reading by places ends properly

For every list of tokens, reading by places ends with what `parse` gives.  It
never looks beyond the first end marker, and so the tokens behind that marker
play no part.

The token before the next one is mostly looked at right after it was taken.  The
exception is resuming after a fault at the end marker, where nothing may have been
taken at all, as far as the statement with the fault knows.  But statements are read
only where a token is left.  If none is left afterwards, one was taken, and it
stands before the marker.
-/

namespace BracketScript
namespace Indexed

open Grammar

variable {x : Setting} {c : Cursor} {s : State}

namespace Setting

theorem Tracks.exists_after (h : x.Tracks c s) (hplace : 0 < s.place) : ∃ t, x.After t s := by
  obtain ⟨i, hi⟩ : ∃ i, s.place = i + 1 := ⟨s.place - 1, by omega⟩
  obtain ⟨hlt, -⟩ := Array.getElem?_eq_some_iff.mp h.getElem?_place
  have hbefore : i < x.tokens.size := by omega
  exact ⟨x.tokens[i], i, hi, Array.getElem?_eq_getElem hbefore⟩

/-! ### Resuming -/

/-- One round of skipping: it goes on behind the next token, or stops. -/
theorem Tracks.skipRound (h : x.Tracks c s) {t : Token} (hafter : x.After t s) :
    (∃ u rest s', c.rest = u :: rest ∧ skip t.kind c.rest = skip u.kind rest ∧
      Calls.skipRound s = .done (some (.yield ())) s' ∧ x.Tracks { c with rest := rest } s' ∧
      x.After u s' ∧ s.place ≤ s'.place) ∨
    ∃ s', skip t.kind c.rest = c.rest ∧ Calls.skipRound s = .done (some (.done ())) s' ∧
      x.Tracks c s' ∧ s.place ≤ s'.place := by
  obtain ⟨s₁, hs₁, h₁, hplace₁⟩ := h.hasNext
  rw [Calls.skipRound, Action.bind_of_done hs₁]
  rcases hrest : c.rest with _ | ⟨u, rest⟩
  · exact Or.inr ⟨s₁, rfl, rfl, h₁, by omega⟩
  · simp only [List.isEmpty_cons, Bool.not_false, if_true]
    have hafter₁ : x.After t s₁ := by rwa [After, hplace₁]
    obtain ⟨s₂, hs₂, h₂, hplace₂⟩ := h₁.previous hafter₁
    rw [Action.bind_of_done hs₂]
    by_cases hlast : t.kind = .semicolon
    · refine Or.inr ⟨s₂, by simp [skip, hlast], ?_, h₂, by omega⟩
      simp only [hlast, if_true]
      rfl
    · obtain ⟨s₃, hs₃, h₃, hplace₃⟩ := h₂.peek
      have hpeek : c.peek = u := by simp [Cursor.peek, hrest]
      rw [hpeek] at hs₃
      simp only [hlast, if_false, Action.bind_of_done hs₃]
      by_cases hopens : opensStatement u.kind = true
      · refine Or.inr ⟨s₃, by simp [skip, hopens], ?_, h₃, by omega⟩
        simp only [hopens, if_true]
        rfl
      · obtain ⟨s₄, hs₄, h₄, hafter₄, hlt⟩ := h₃.advance hrest
        refine Or.inl ⟨u, rest, s₄, rfl, by simp [skip, hlast, hopens], ?_, h₄, hafter₄, by omega⟩
        rw [if_neg hopens, Action.bind_of_done hs₄]
        rfl

theorem Tracks.skip (h : x.Tracks c s) {t : Token} (hafter : x.After t s) {fuel : Nat}
    (hfuel : c.rest.length < fuel) :
    x.Agrees s (some (), { c with rest := Grammar.skip t.kind c.rest })
      (Action.loop (fun _ => Calls.skipRound) fuel () s) := by
  -- The token skipped last stands before the place, so it is the one looked at next.
  induction fuel generalizing c s t with
  | zero => omega
  | succ fuel ih =>
      rw [Action.loop]
      rcases h.skipRound hafter with
        ⟨u, rest, s₁, hrest, hskip, hs₁, h₁, hafter₁, hle₁⟩ | ⟨s₁, hskip, hs₁, h₁, hle₁⟩
      · have hless : rest.length < fuel := by
          simp only [hrest, List.length_cons] at hfuel
          omega
        rw [hskip]
        exact .bind hs₁ hle₁ (ih h₁ hafter₁ hless)
      · rw [hskip, Action.bind_of_done hs₁]
        exact ⟨s₁, rfl, h₁, hle₁⟩

/-- Resuming needs a token: the next one, or one before the end marker. -/
theorem Tracks.resume (h : x.Tracks c s) (htoken : c.rest = [] → 0 < s.place) {calls : Calls}
    (hrounds : c.rest.length < calls.rounds) :
    x.Agrees s (some (), resumed c) (calls.resume s) := by
  rcases hrest : c.rest with _ | ⟨t, rest⟩
  · obtain ⟨t, hafter⟩ := h.exists_after (htoken hrest)
    obtain ⟨s₁, hs₁, h₁, hplace₁⟩ := h.advance_atEnd hrest hafter
    have hafter₁ : x.After t s₁ := by rwa [After, hplace₁]
    refine .bind hs₁ (by omega) ?_
    simpa [resumed, hrest, Grammar.resume, Grammar.skip] using h₁.skip hafter₁ hrounds
  · obtain ⟨s₁, hs₁, h₁, hafter₁, hlt⟩ := h.advance hrest
    have hless : rest.length < calls.rounds := by
      simp only [hrest, List.length_cons] at hrounds
      omega
    refine .bind hs₁ (Nat.le_of_lt hlt) ?_
    simpa [resumed, hrest, Grammar.resume] using h₁.skip hafter₁ hless

end Setting

/-! ### All statements -/

theorem attempt_of_done {α : Type} {p : Action α} {value : Option α} {s s' : State}
    (h : p s = .done value s') : Action.attempt p s = .done (some value) s' := by
  simp only [Action.attempt, h]

section Statements

variable {room : Nat} {calls : Calls} {one : Reader Stmt}

/-- One round of reading statements: nothing is left, a statement is read, or one
is given up and reading resumes behind it. -/
theorem Setting.Tracks.statementRound (hone : Follows x room one calls.statement)
    (hrounds : room < calls.rounds) (h : x.Tracks c s) (hroom : c.rest.length ≤ room)
    (done : Array Stmt) :
    (∃ s', c.rest = [] ∧ calls.statementRound done s = .done (some (.done done)) s' ∧
      x.Tracks c s' ∧ s.place ≤ s'.place) ∨
    (∃ stmt d s', c.rest ≠ [] ∧ one c = (some stmt, d) ∧
      calls.statementRound done s = .done (some (.yield (done.push stmt))) s' ∧
      x.Tracks d s' ∧ s.place ≤ s'.place) ∨
    ∃ d s', c.rest ≠ [] ∧ one c = (none, d) ∧
      calls.statementRound done s = .done (some (.yield done)) s' ∧
      x.Tracks (resumed d) s' ∧ s.place ≤ s'.place := by
  obtain ⟨s₁, hs₁, h₁, hplace₁⟩ := h.hasNext
  rw [Calls.statementRound, Action.bind_of_done hs₁]
  rcases round_cases one c with hrest | ⟨hrest, hround⟩
  · refine Or.inl ⟨s₁, hrest, ?_, h₁, by omega⟩
    rw [hrest]
    rfl
  have hnext : (!c.rest.isEmpty) = true := by simpa using hrest
  obtain ⟨s₂, hs₂, h₂, hle₂⟩ := hone c s₁ h₁ hroom
  rw [if_pos hnext, Action.bind_of_done (attempt_of_done hs₂)]
  rcases hround with ⟨stmt, d, hd⟩ | ⟨d, hd⟩
  · rw [hd] at h₂ ⊢
    exact Or.inr (Or.inl ⟨stmt, d, s₂, hrest, rfl, rfl, h₂, by omega⟩)
  · rw [hd] at h₂ ⊢
    have hstop₁ := h₁.stop
    have hstop₂ : s₂.place + d.rest.length = x.stop := h₂.stop
    have hpos := List.length_pos_iff.mpr hrest
    -- Tokens were left before, so where none is left one was taken.
    have htoken : d.rest = [] → 0 < s₂.place := by
      intro hnil
      simp only [hnil, List.length_nil] at hstop₂
      omega
    obtain ⟨s₃, hs₃, h₃, hle₃⟩ := h₂.resume htoken (show d.rest.length < calls.rounds by omega)
    refine Or.inr (Or.inr ⟨d, s₃, hrest, rfl, ?_, h₃, by omega⟩)
    exact Action.bind_of_done hs₃

/-- The loop over statements gives what reading them gives. -/
theorem Setting.Tracks.statements {g : Stmt → Stmt} (hparallel : Reader.Parallel id g one one)
    (hconsumes : Reader.Consumes one) (hone : Follows x room one calls.statement)
    (hrounds : room < calls.rounds) {fuel n : Nat} (h : x.Tracks c s)
    (hroom : c.rest.length ≤ room) (hfuel : c.rest.length < fuel) (hn : c.rest.length ≤ n)
    (done : Array Stmt) :
    x.Agrees s (some (statements one n done c).1, (statements one n done c).2)
      (Action.loop calls.statementRound fuel done s) := by
  -- Every round takes a token, also one that gives a statement up, so the fuel and
  -- the bound `n` of the reader both outlast the tokens.
  induction fuel generalizing n c s done with
  | zero => omega
  | succ fuel ih =>
      rw [Action.loop]
      rcases h.statementRound hone hrounds hroom done with
        ⟨s₁, hrest, hs₁, h₁, hle₁⟩ | ⟨stmt, d, s₁, hrest, hd, hs₁, h₁, hle₁⟩ |
          ⟨d, s₁, hrest, hd, hs₁, h₁, hle₁⟩
      · rw [statements_of_nil hrest, Action.bind_of_done hs₁]
        exact ⟨s₁, rfl, h₁, hle₁⟩
      · have hlt := hconsumes c stmt d hd
        obtain ⟨n, rfl⟩ : ∃ k, n = k + 1 := ⟨n - 1, by omega⟩
        rw [statements_of_some hrest hd]
        exact .bind hs₁ hle₁ (ih h₁ (by omega) (by omega) (by omega) (done.push stmt))
      · have hlt := length_resumed_lt hparallel hrest hd
        obtain ⟨n, rfl⟩ : ∃ k, n = k + 1 := ⟨n - 1, by omega⟩
        rw [statements_of_none hrest hd]
        exact .bind hs₁ hle₁ (ih h₁ (by omega) (by omega) (by omega) done)

end Statements

/-! ### The beginning -/

/-- The place of the first end marker, or of the one to be added. -/
def endPlace (tokens : List Token) : Nat :=
  tokens.findIdx fun t => t.kind = .eof

/-- The tokens up to the first end marker and that marker. -/
def uptoEnd (tokens : List Token) : List Token :=
  tokens.take (endPlace tokens + 1)

/-- Either there is a first end marker among the tokens, or there is none. -/
theorem marker_cases (tokens : List Token) :
    (∃ front marker back, tokens = front ++ marker :: back ∧ (∀ t ∈ front, t.kind ≠ .eof) ∧
      marker.kind = .eof) ∨ ∀ t ∈ tokens, t.kind ≠ .eof := by
  rcases hfind : tokens.find? (fun t => t.kind = .eof) with _ | marker
  · exact Or.inr (by simpa using List.find?_eq_none.mp hfind)
  · obtain ⟨hmarker, front, back, htokens, hfront⟩ := List.find?_eq_some_iff_append.mp hfind
    exact Or.inl ⟨front, marker, back, htokens, by simpa using hfront, by simpa using hmarker⟩

theorem endPlace_of_noEof {tokens : List Token} (h : ∀ t ∈ tokens, t.kind ≠ .eof) :
    endPlace tokens = tokens.length :=
  List.findIdx_eq_length_of_false (by simpa using h)

section Marker

variable {front back : List Token} {marker : Token}

theorem endPlace_marker (hfront : ∀ t ∈ front, t.kind ≠ .eof) (hmarker : marker.kind = .eof) :
    endPlace (front ++ marker :: back) = front.length := by
  have hlength : front.findIdx (fun t => t.kind = .eof) = front.length :=
    endPlace_of_noEof hfront
  simp [endPlace, List.findIdx_append, List.findIdx_cons, hlength, hmarker]

theorem ofTokens_marker (hfront : ∀ t ∈ front, t.kind ≠ .eof) (hmarker : marker.kind = .eof) :
    Cursor.ofTokens (front ++ marker :: back) = ⟨front, marker, #[], #[]⟩ := by
  have hrest : (front ++ marker :: back).takeWhile (fun t => t.kind ≠ .eof) = front := by
    rw [List.takeWhile_append_of_pos (by simpa using hfront)]
    simp [hmarker]
  have hnone : front.find? (fun t => t.kind = .eof) = none := by simpa using hfront
  have hfind : (front ++ marker :: back).find? (fun t => t.kind = .eof) = some marker := by
    simp [List.find?_append, hnone, hmarker]
  simp only [Cursor.ofTokens, hrest, hfind, Option.getD_some]

end Marker

theorem closed_of_noEof {tokens : List Token} (h : ∀ t ∈ tokens, t.kind ≠ .eof) :
    closed tokens = tokens ++ [Token.eof ((tokens.getLast?.map Token.line).getD 1)] := by
  have hlast : tokens.getLast?.map Token.kind ≠ some .eof := by
    intro hlast
    obtain ⟨t, ht, hkind⟩ := Option.map_eq_some_iff.mp hlast
    exact h t (List.mem_of_getLast? ht) hkind
  rw [closed, if_neg hlast]

theorem closed_eq_append (tokens : List Token) : ∃ more, closed tokens = tokens ++ more := by
  unfold closed
  split
  · exact ⟨[], by simp⟩
  · exact ⟨_, rfl⟩

/-- What reading begins with. -/
def Setting.ofTokens (tokens : List Token) : Setting :=
  { tokens := (closed tokens).toArray
    stop := endPlace tokens
    depth := 0
    functions := 0 }

/-- A list that is closed has a first end marker, and reading begins in front of
it. -/
theorem tracks_ofTokens (tokens : List Token) :
    (Setting.ofTokens tokens).Tracks (Cursor.ofTokens tokens) (State.ofTokens tokens) := by
  suffices h : ∃ front marker back, closed tokens = front ++ marker :: back ∧
      (∀ t ∈ front, t.kind ≠ .eof) ∧ marker.kind = .eof ∧ endPlace tokens = front.length ∧
      Cursor.ofTokens tokens = ⟨front, marker, #[], #[]⟩ by
    obtain ⟨front, marker, back, hclosed, hfront, hmarker, hplace, hcursor⟩ := h
    rw [hcursor]
    refine ⟨rfl, ?_, ?_, hfront, hmarker, rfl, rfl, rfl, rfl, rfl, by simp [State.ofTokens]⟩
    · simp [Setting.ofTokens, State.ofTokens, hclosed, hplace]
    · simp [Setting.ofTokens, State.ofTokens, hplace]
  rcases marker_cases tokens with ⟨front, marker, back, rfl, hfront, hmarker⟩ | hnone
  · obtain ⟨more, hmore⟩ := closed_eq_append (front ++ marker :: back)
    exact ⟨front, marker, back ++ more, by simp [hmore], hfront, hmarker,
      endPlace_marker hfront hmarker, ofTokens_marker hfront hmarker⟩
  · exact ⟨tokens, _, [], closed_of_noEof hnone, hnone, rfl, endPlace_of_noEof hnone,
      Cursor.ofTokens_of_noEof hnone⟩

/-- Nothing behind the first end marker plays a part. -/
theorem ofTokens_uptoEnd (tokens : List Token) :
    Cursor.ofTokens (uptoEnd tokens) = Cursor.ofTokens tokens := by
  rcases marker_cases tokens with ⟨front, marker, back, rfl, hfront, hmarker⟩ | hnone
  · have hupto : uptoEnd (front ++ marker :: back) = front ++ marker :: [] := by
      simp [uptoEnd, endPlace_marker hfront hmarker, List.take_append, List.take_of_length_le]
    rw [hupto, ofTokens_marker hfront hmarker, ofTokens_marker hfront hmarker]
  · have hupto : uptoEnd tokens = tokens := by
      simp [uptoEnd, endPlace_of_noEof hnone, List.take_of_length_le]
    rw [hupto]

/-! ### Reading all tokens -/

theorem length_ofTokens_le (tokens : List Token) :
    (Cursor.ofTokens tokens).rest.length ≤ tokens.length :=
  (List.takeWhile_prefix _).length_le

/-- With fuel for all levels and all tokens, reading by places ends at the first
end marker with what `parse` gives. -/
theorem parse_of_enough {tokens : List Token} {fuel : Nat}
    (hfuel : maxNesting + tokens.length < fuel) :
    ∃ s, parse fuel tokens = .done (some (BracketScript.parse tokens)) s ∧
      (Setting.ofTokens tokens).Tracks (program (Cursor.ofTokens tokens)).2 s := by
  have hlength := length_ofTokens_le tokens
  have hrounds : (Calls.within fuel).rounds = fuel := by
    cases fuel with
    | zero => omega
    | succ fuel => rfl
  have hfollow : (Calls.within fuel).Follow (.ofTokens tokens) tokens.length (level maxNesting) :=
    follow_within (Nat.zero_add _) hfuel
  obtain ⟨s, hs, h, -⟩ := (tracks_ofTokens tokens).statements parallel_top consumes_top
    (hfollow.statement 0) hfollow.rounds hlength (show _ < fuel by omega) (Nat.le_refl _) #[]
  refine ⟨s, ?_, h⟩
  rw [parse, Calls.program, hrounds, Action.bind_of_done hs, Calls.conclude, h.errors]
  rfl

/-- Reading ends properly on every list of tokens.  With fuel for all levels and
all tokens it gives what `parse` gives.  The place of the next token has gone
from one token to the next up to the first end marker and not beyond, all places
that were looked at are among these and inside the array, and all levels and
function bodies are closed again.  Hence lists that agree up to and including
their first end markers are read alike. -/
theorem parse_total (tokens : List Token) :
    (∀ fuel, maxNesting + tokens.length < fuel →
      ∃ s, parse fuel tokens = .done (some (BracketScript.parse tokens)) s ∧
        s.path.toList = List.range (endPlace tokens + 1) ∧
        (∀ i ∈ s.seen, i ≤ endPlace tokens ∧ i < (closed tokens).length) ∧
        s.depth = 0 ∧ s.functions = 0) ∧
    ∀ others, uptoEnd others = uptoEnd tokens →
      BracketScript.parse others = BracketScript.parse tokens := by
  constructor
  · intro fuel hfuel
    obtain ⟨s, hs, h⟩ := parse_of_enough hfuel
    have hrest : (program (Cursor.ofTokens tokens)).2.rest = [] :=
      statements_rest parallel_top consumes_top _ _ _ (Nat.le_refl _)
    have hplace : s.place = endPlace tokens := by
      have hstop := h.stop
      rwa [hrest] at hstop
    -- The end marker is the last token that was there to be looked at.
    have hinside : s.place < (closed tokens).length := by
      obtain ⟨hlt, -⟩ := Array.getElem?_eq_some_iff.mp h.getElem?_place
      exact hlt
    refine ⟨s, hs, hplace ▸ h.path, fun i hi => ?_, h.depth, h.functions⟩
    have hle := h.seen i hi
    exact ⟨by omega, by omega⟩
  · intro others hothers
    have hcursor : Cursor.ofTokens others = Cursor.ofTokens tokens := by
      rw [← ofTokens_uptoEnd others, hothers, ofTokens_uptoEnd tokens]
    rw [parse_eq, parse_eq, hcursor]

/-- The name `x` and an end marker, with a bracket behind it.  The missing semicolon
is found at the marker, where reading resumes although nothing is left. -/
theorem parse_total_behind_marker :
    (∃ s, parse 259 [⟨.identifier, "x", none, 1⟩, Token.eof 1, ⟨.rightBracket, "]", none, 2⟩] =
        .done (some (.error [⟨1, .atEnd, .noSemicolon⟩])) s ∧ s.path.toList = [0, 1]) ∧
      BracketScript.parse [⟨.identifier, "x", none, 1⟩, Token.eof 1] =
        .error [⟨1, .atEnd, .noSemicolon⟩] := by
  have htotal := parse_total
    [⟨.identifier, "x", none, 1⟩, Token.eof 1, ⟨.rightBracket, "]", none, 2⟩]
  obtain ⟨s, hs, hpath, -⟩ := htotal.1 259 (by decide)
  have hparse : BracketScript.parse
      [⟨.identifier, "x", none, 1⟩, Token.eof 1, ⟨.rightBracket, "]", none, 2⟩] =
      .error [⟨1, .atEnd, .noSemicolon⟩] := by rfl
  rw [hparse] at hs
  exact ⟨⟨s, hs, hpath⟩, (htotal.2 _ rfl).trans hparse⟩

end Indexed
end BracketScript
