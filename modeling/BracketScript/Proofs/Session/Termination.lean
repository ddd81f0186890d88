import BracketScript.Proofs.Eval.Fuel
import BracketScript.Proofs.Grammar.Tokens
import BracketScript.Proofs.Session.Comparison
import BracketScript.Proofs.Session.Sources

/-!
# Units without loops

If no unit of a session has a `while` or a `for`, then each of them comes to an
end, however its functions call each other (`Session.runSource_terminates`).

A call may run code that is larger than the call itself, so the size of the code
alone bounds nothing.  But calls nest only up to the limit of depth, and the
bodies that can be called are written in the unit or kept in the store when it
starts.  With `bound` at least the size of each of these, what is left to do is
at most the size of the code at hand and, for each call that may still be opened,
`bound` and one more.
-/

namespace BracketScript

/-! ### Code without loops -/

/-- A token that starts no loop. -/
def Token.NotLoop (t : Token) : Prop :=
  t.kind ≠ .whileKw ∧ t.kind ≠ .forKw

instance : DecidablePred Token.NotLoop := fun t =>
  inferInstanceAs (Decidable (t.kind ≠ .whileKw ∧ t.kind ≠ .forKw))

/-- No loops, and bodies up to some size. -/
def NodeLaw.bounded (bound : Nat) : NodeLaw where
  expr
    | .func _ _ body => sizeOf body ≤ bound
    | .struct _ _ body => sizeOf body ≤ bound
    | _ => True
  stmt _
    | .whileLoop _ _ _ => False
    | _ => True

theorem NodeLaw.bounded_steps (bound : Nat) :
    TreeSteps
      (fun e => sizeOf e ≤ bound → e.EveryNode (Grammar.tokensLaw Token.NotLoop) →
        e.EveryNode (bounded bound))
      (fun s => sizeOf s ≤ bound → ∀ inFunction,
        s.EveryNode (Grammar.tokensLaw Token.NotLoop) inFunction →
          s.EveryNode (bounded bound) inFunction) := by
  apply NodeLaw.imp_steps
  · intro e hsize _
    cases e with
    | func keyword params body =>
        show sizeOf body ≤ bound
        simp at hsize
        omega
    | struct keyword params body =>
        show sizeOf body ≤ bound
        simp at hsize
        omega
    | _ => exact trivial
  · intro inFunction s _ h
    cases s with
    | whileLoop keyword condition body =>
        -- A loop is read from one of its two keywords only.
        obtain ⟨hnot, hkind | hkind⟩ := h
        · exact hnot.1 hkind
        · exact hnot.2 hkind
    | _ => exact trivial

namespace Allowance

/-- An allowance for code and fuel alone. -/
def ofCode (law : NodeLaw) (enough : (fuel size depth : Nat) → Prop) (mayExhaust : Prop) :
    Allowance where
  law := law
  bindable _ := True
  native _ := True
  module _ := True
  fault _ := True
  enough := enough
  mayExhaust := mayExhaust

theorem ofCode_laws {setup : Setup} {law : NodeLaw} {enough : (fuel size depth : Nat) → Prop}
    {mayExhaust : Prop}
    (exhausted : ∀ {size depth}, enough 0 size depth → mayExhaust)
    (part : ∀ {fuel size size' depth}, size' < size → enough (fuel + 1) size depth →
      enough fuel size' depth)
    (again : ∀ {inFunction t e s fuel size depth}, law.stmt inFunction (.whileLoop t e s) →
      enough (fuel + 1) size depth → enough fuel size depth)
    (functionBody : ∀ {t params body fuel size depth}, law.expr (.func t params body) →
      depth < setup.maxDepth → enough (fuel + 1) size depth →
        enough fuel (sizeOf body) (depth + 1))
    (structBody : ∀ {t params body fuel size depth}, law.expr (.struct t params body) →
      depth < setup.maxDepth → enough (fuel + 1) size depth →
        enough fuel (sizeOf body) (depth + 1)) :
    (ofCode law enough mayExhaust).Laws setup where
  exhausted := exhausted
  part := part
  again := again
  functionBody := functionBody
  structBody := structBody
  functionParams _ _ _ := trivial
  structParams _ _ _ := trivial
  structFields _ _ _ := trivial
  assigned _ := trivial
  moduleName _ := trivial
  memberName _ := trivial
  module _ := trivial
  member _ _ := trivial
  foreseen _ := trivial
  unary _ _ := trivial
  binary _ _ := trivial
  self _ := Or.inr trivial

/-- Code without loops. -/
def loopless : Allowance :=
  ofCode (Grammar.tokensLaw Token.NotLoop) (fun _ _ _ => True) True

theorem loopless_laws (setup : Setup) : loopless.Laws setup :=
  ofCode_laws (fun _ => trivial) (fun _ _ => trivial) (fun _ _ => trivial)
    (fun _ _ _ => trivial) (fun _ _ _ => trivial)

/-- Code without loops, bodies up to some size, and fuel enough to run them up
to the limit of depth. -/
def bounded (bound maxDepth : Nat) : Allowance :=
  ofCode (NodeLaw.bounded bound)
    (fun fuel size depth => size + (maxDepth - depth) * (bound + 1) < fuel) False

theorem enough_call {fuel size size' bound maxDepth depth : Nat} (hsize : size' ≤ bound)
    (hdepth : depth < maxDepth) (h : size + (maxDepth - depth) * (bound + 1) < fuel + 1) :
    size' + (maxDepth - (depth + 1)) * (bound + 1) < fuel := by
  have hopen : maxDepth - depth = maxDepth - (depth + 1) + 1 := by omega
  rw [hopen, Nat.succ_mul] at h
  omega

theorem bounded_laws (setup : Setup) (bound : Nat) :
    (bounded bound setup.maxDepth).Laws setup := by
  apply ofCode_laws
  case exhausted => exact fun h => absurd h (Nat.not_lt_zero _)
  case part => omega
  case again => exact fun hlaw _ => hlaw.elim
  case functionBody => exact fun hlaw => enough_call hlaw
  case structBody => exact fun hlaw => enough_call hlaw

end Allowance

/-! ### Code at hand -/

/-- The size of the code that a value stands for. -/
noncomputable def Value.codeSize : Value → Nat
  | .func c => sizeOf c.body
  | .struct d | .inst _ d => sizeOf d.body
  | _ => 0

/-- The size of the largest code that is kept in a store. -/
noncomputable def Store.codeSize (s : Store) : Nat :=
  (s.values.map Value.codeSize).max?.getD 0

theorem Store.codeSize_le {s : Store} {v : Value} (h : v ∈ s.values) : v.codeSize ≤ s.codeSize :=
  List.le_max?_getD_of_mem (List.mem_map_of_mem h)

namespace Allowance

variable {bound maxDepth : Nat}

theorem struct_bounded {t : Token} {d : StructDef} (hsize : sizeOf d.body ≤ bound)
    (h : (Expr.struct t d.params d.body).EveryNode loopless.law) :
    (Expr.struct t d.params d.body).EveryNode (bounded bound maxDepth).law := by
  refine ⟨hsize, fieldsEveryNode_iff.mpr fun entry hentry => ?_⟩
  have hpart := List.sizeOf_lt_of_mem hentry
  refine (NodeLaw.bounded_steps bound).expr entry.value ?_
    (fieldsEveryNode_iff.mp h.2 entry hentry)
  obtain ⟨name, value⟩ := entry
  simp at hpart ⊢
  omega

theorem value_bounded {v : Value} (hsize : v.codeSize ≤ bound) (h : loopless.value v) :
    (bounded bound maxDepth).value v := by
  cases v with
  | func c =>
      obtain ⟨t, hlaw, hbody⟩ := h
      refine ⟨t, hsize, stmtsEveryNode_iff.mpr fun s hs => ?_⟩
      have hpart : sizeOf s ≤ bound := (List.sizeOf_lt_of_mem hs).le.trans hsize
      exact (NodeLaw.bounded_steps bound).stmt s hpart true (stmtsEveryNode_iff.mp hbody s hs)
  | struct d =>
      obtain ⟨t, hlaw⟩ := h
      exact ⟨t, struct_bounded hsize hlaw⟩
  | inst id d =>
      obtain ⟨t, hlaw⟩ := h
      exact ⟨t, struct_bounded hsize hlaw⟩
  | _ => exact trivial

theorem rests_bounded {m : Machine} (h : loopless.regime.Rests m)
    (hsize : m.store.codeSize ≤ bound) : (bounded bound maxDepth).regime.Rests m where
  inv := by
    have hvalue : ∀ v ∈ m.store.values, loopless.value v → (bounded bound maxDepth).value v :=
      fun v hv => value_bounded ((Store.codeSize_le hv).trans hsize)
    exact h.inv.imp (fun _ v hv hbound => ⟨hvalue v hv hbound.1, Or.inl trivial⟩) hvalue
  place := trivial
  depth := h.depth

end Allowance

namespace Session

variable {options : SessionOptions}

/-- A unit with no token that starts a loop.  One that cannot be cut into tokens
is not run at all. -/
def LoopFree (source : String) : Prop :=
  ∀ tokens, Token.scan source = .ok tokens → ∀ t ∈ tokens, t.NotLoop

instance (source : String) : Decidable (LoopFree source) :=
  match hscan : Token.scan source with
  | .error _ => .isTrue fun _ h => nomatch hscan.symm.trans h
  | .ok tokens =>
    decidable_of_iff (∀ t ∈ tokens, t.NotLoop)
      ⟨fun htokens _ h => Except.ok.inj (hscan.symm.trans h) ▸ htokens, fun h => h tokens hscan⟩

/-- The size of the code of a unit. -/
noncomputable def unitSize (source : String) : Nat :=
  match Token.scan source with
  | .error _ => 0
  | .ok tokens =>
    match parse tokens with
    | .error _ => 0
    | .ok trees => sizeOf trees

theorem unitSize_of_parse {source : String} {tokens : List Token} {trees : List Stmt}
    (hscan : Token.scan source = .ok tokens) (hparse : parse tokens = .ok trees) :
    unitSize source = sizeOf trees := by
  simp only [unitSize, hscan, hparse]

theorem loopless_admits (fuel : Nat) {source : String} (h : LoopFree source) :
    Allowance.loopless.regime.Admits fuel source := by
  intro tokens trees hscan hparse
  exact ⟨everyNode_tokensLaw_of_parse hparse (h tokens hscan), trivial⟩

theorem bounded_admits {fuel bound maxDepth : Nat} {source : String} (h : LoopFree source)
    (hsize : unitSize source ≤ bound)
    (hfuel : unitSize source + maxDepth * (bound + 1) < fuel) :
    (Allowance.bounded bound maxDepth).regime.Admits fuel source := by
  intro tokens trees hscan hparse
  rw [unitSize_of_parse hscan hparse] at hsize hfuel
  refine ⟨fun s hs => ?_, hfuel⟩
  have hpart : sizeOf s ≤ bound := (List.sizeOf_lt_of_mem hs).le.trans hsize
  exact (NodeLaw.bounded_steps bound).stmt s hpart false
    (everyNode_tokensLaw_of_parse hparse (h tokens hscan) s hs)

/-- Fuel that suffices for a unit without loops. -/
noncomputable def fuelFor (options : SessionOptions) (source : String) (m : Machine) : Nat :=
  unitSize source + options.setup.maxDepth * (m.store.codeSize + unitSize source + 1) + 1

/-- With fuel enough a unit without loops is not stopped. -/
theorem runSource_within {m : Machine} (h : Allowance.loopless.regime.Rests m) {source : String}
    (hsource : LoopFree source) {e : Failure}
    (he : (runSource options (fuelFor options source m) source m).1 = .error e) :
    e ≠ .exhausted ∧ e ≠ .broken := by
  have laws := Allowance.regime_laws
    (Allowance.bounded_laws options.setup (m.store.codeSize + unitSize source))
  have hkeeps := laws.keeps_runSource (Allowance.rests_bounded h (Nat.le_add_right _ _))
    (bounded_admits hsource (Nat.le_add_left _ _) (Nat.lt_succ_self _))
  have hfailure := hkeeps.error he
  constructor <;> rintro rfl <;> exact hfailure

/-! ### Units with more fuel -/

/-- A unit that is not out of fuel does the same with more fuel. -/
theorem refines_runSource {n k : Nat} (hk : n ≤ k) (source : String) :
    Refines .exhausted Eq (runSource options n source) (runSource options k source) := by
  have hshow : ∀ text, Comparison.fuel.Follows Failure.stop? Eq (writeLine text) (writeLine text) :=
    fun _ => Comparison.same_refl _
  apply Comparison.fuel_refines
    ((Comparison.fuel_laws options.setup).runSource hk (Or.inr hshow) source)
  intro e he
  cases e <;> cases he
  rfl

theorem runProgram_error {fuel : Nat} {trees : List Stmt} {m : Machine} {e : Failure}
    (h : (runProgram options fuel trees m).1 = .error e) : ∃ stop, e = .ofStop stop := by
  unfold runProgram at h
  rcases hrun : interpret options.setup fuel trees m with ⟨stop | v, m'⟩ <;> rw [hrun] at h
  · exact ⟨stop, (Except.error.inj h).symm⟩
  · cases h

/-- However a session without loops has gone so far, one more unit without loops
comes to an end: from some amount of fuel on, all runs of it are the same and
not stopped for want of fuel.  If it can be read and is to be run, then it has a
value or fails with a runtime error. -/
theorem runSource_terminates (options : SessionOptions) (fuel : Nat) (names : List String)
    (console : Console) (sources : List String) (hsources : ∀ source ∈ sources, LoopFree source)
    (source : String) (hsource : LoopFree source) :
    ∃ enough outcome,
      (∀ fuel', enough ≤ fuel' →
        runSource options fuel' source (runEach options fuel sources (start console names)).2 =
          outcome) ∧
      outcome.1 ≠ .error .exhausted ∧
      (options.emit = none → ∀ tokens trees, Token.scan source = .ok tokens →
        parse tokens = .ok trees →
          (∃ v, outcome.1 = .ok v) ∨ ∃ e, outcome.1 = .error (.runtime e)) := by
  have laws := Allowance.regime_laws (Allowance.loopless_laws options.setup)
  have hstart : Allowance.loopless.regime.Rests (start console names) :=
    Allowance.rests_start console names trivial trivial ⟨trivial, trivial⟩
  have hrests := (laws.kept_runEach hstart
    fun source hmem => loopless_admits fuel (hsources source hmem)).rests
  generalize (runEach options fuel sources (start console names)).2 = m at hrests ⊢
  have hlost : (runSource options (fuelFor options source m) source m).1 ≠ .error .exhausted :=
    fun hend => (runSource_within hrests hsource hend).1 rfl
  refine ⟨fuelFor options source m, runSource options (fuelFor options source m) source m,
    ?_, hlost, ?_⟩
  · intro fuel' hfuel
    exact (refines_runSource hfuel source).apply_eq hlost
  · intro hemit tokens trees hscan hparse
    cases hend : (runSource options (fuelFor options source m) source m).1 with
    | ok v => exact Or.inl ⟨v, rfl⟩
    | error e =>
        obtain ⟨hexhausted, hbroken⟩ := runSource_within hrests hsource hend
        obtain ⟨m', -, hrun⟩ := runSource_of_parse hemit hscan hparse (fuelFor options source m) m
        rw [hrun] at hend
        obtain ⟨stop, rfl⟩ := runProgram_error hend
        cases stop with
        | error e => exact Or.inr ⟨e, rfl⟩
        | exhausted => exact absurd rfl hexhausted
        | broken => exact absurd rfl hbroken

/-- A function that does nothing but call itself. -/
theorem runSource_terminates_recursion :
    LoopFree "f := func [x] [f[x];];" ∧ LoopFree "f[null];" ∧
      ∃ enough outcome,
        (∀ fuel, enough ≤ fuel →
          runSource bareOptions fuel "f[null];"
              (runEach bareOptions 12 ["f := func [x] [f[x];];"] (start (.ofInput [] none) [])).2 =
            outcome) ∧
        ((∃ v, outcome.1 = .ok v) ∨ ∃ e, outcome.1 = .error (.runtime e)) := by
  have hdefinition : LoopFree "f := func [x] [f[x];];" := by decide +kernel
  have hcall : LoopFree "f[null];" := by decide +kernel
  have hscan : Token.scan "f[null];" =
      .ok [⟨.identifier, "f", none, 1⟩, ⟨.leftBracket, "[", none, 1⟩, ⟨.nullKw, "null", none, 1⟩,
        ⟨.rightBracket, "]", none, 1⟩, ⟨.semicolon, ";", none, 1⟩, .eof 1] := rfl
  obtain ⟨enough, outcome, hsame, -, hends⟩ := runSource_terminates bareOptions 12 []
    (.ofInput [] none) ["f := func [x] [f[x];];"] (by simpa using hdefinition) "f[null];" hcall
  exact ⟨hdefinition, hcall, enough, outcome, hsame, hends rfl _ _ hscan rfl⟩

end Session

end BracketScript
