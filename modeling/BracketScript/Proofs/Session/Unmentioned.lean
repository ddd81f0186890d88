import BracketScript.Proofs.Eval.Unmentioned
import BracketScript.Proofs.Session.Units

/-!
# Unmentioned globals are inert

A unit of source text that does not mention a name, run in a session whose code
does not mention it either, does the same whatever the name is globally bound to:
it gives the same value or failure, writes the same and leaves the same machine
behind, and the binding is what it was (`runSource_of_unmentioned`).

Only the code that the unit can get at matters.  What is bound to the name itself
may well mention it.
-/

namespace BracketScript

open Grammar

/-- Units that agree. -/
abbrev Variation.Units (V : Variation) (p q : Run Failure Value) : Prop :=
  V.Agrees .exhausted (fun _ => True) V.Same p q

namespace Session

theorem storeless_writeLine (text : String) : (writeLine text).Storeless := by
  constructor
  · intro m s
    unfold writeLine
    rw [show (m.withStore s).console = m.console from rfl]
    rcases m.console.writeLine text with ⟨_ | _, c⟩ <;> rfl
  · intro m
    unfold writeLine
    rcases m.console.writeLine text with ⟨_ | _, c⟩ <;> rfl

variable {V : Variation} {options : SessionOptions} {fuel : Nat}

/-- A step of a session that has nothing to do with the store, before the rest. -/
theorem units_aside {p : Run Failure Unit} {x : Run Failure Value} (hp : p.Storeless)
    (hx : V.Units x x) : V.Units (p >>= fun _ => x) (p >>= fun _ => x) := by
  have hfirst : V.Agrees .exhausted (fun _ => True) Eq p p :=
    .storeless hp (fun _ _ _ => rfl) fun _ _ _ => trivial
  exact hfirst.bind fun _ _ _ => hx

/-- What is shown instead of running. -/
theorem units_show (text : String) :
    V.Units (do writeLine text; pure .null) (do writeLine text; pure .null) :=
  units_aside (storeless_writeLine text) (.pure ⟨rfl, .constant .null⟩)

theorem units_runProgram (hself : V.name ≠ "self") {trees : List Stmt}
    (htrees : ∀ tree ∈ trees, tree.EveryNode (.lacking V.name) false) :
    V.Units (runProgram options fuel trees) (runProgram options fuel trees) := by
  intro m s hm hends
  have hexec := V.execAll hself options.setup fuel htrees m s hm
  unfold runProgram interpret at hends ⊢
  rcases hfirst : execAll options.setup fuel trees .null m with ⟨r, m₁⟩
  rcases hsecond : execAll options.setup fuel trees .null (m.withStore s) with ⟨r', m₂⟩
  rw [hfirst, hsecond] at hexec
  rw [hfirst] at hends
  have hlost : r ≠ .error (.stopped .exhausted) := by
    rintro rfl
    exact hends rfl
  cases hexec hlost with
  | intro hend hearly hapart =>
      cases hend with
      | ok h => exact ⟨.ok h, nofun, hapart⟩
      | @error e e' h =>
          obtain rfl : e = e' := h
          cases e with
          | returned v => exact ⟨.ok ⟨rfl, hearly _ rfl⟩, nofun, hapart⟩
          | stopped stop =>
              -- A fault leaves no call open, on either machine.
              exact .intro (m := { m₁ with depth := 0 }) (.error rfl) (fun _ _ => trivial)
                { hapart with }

theorem units_runTokens (hself : V.name ≠ "self") {tokens : List Token}
    (htokens : Token.Avoid V.name tokens) :
    V.Units (runTokens options fuel tokens) (runTokens options fuel tokens) := by
  apply units_aside ⟨fun _ _ => rfl, fun _ => rfl⟩
  cases hparse : (Parse.ofTokens tokens).outcome with
  | error errors => exact .stop trivial
  | ok trees =>
      apply units_aside (.note _)
      split
      · exact units_show _
      · exact units_aside (.note _)
          (units_runProgram hself (everyNode_lacking_of_parse hparse htokens))

theorem units_runSource (hself : V.name ≠ "self") {source : String}
    (hsource : ∀ tokens, Token.scan source = .ok tokens → Token.Avoid V.name tokens) :
    V.Units (runSource options fuel source) (runSource options fuel source) := by
  unfold runSource
  cases hscan : Token.scan source with
  | error errors => exact .stop trivial
  | ok tokens =>
      apply units_aside (.note _)
      split
      · exact units_show _
      · exact units_runTokens hself (hsource tokens hscan)

/-- Units that agree give the same, and leave machines that are the same but for
the binding. -/
theorem outcome_of_units {p : Run Failure Value} (h : V.Units p p) {m : Machine} {s : Store}
    (hm : V.Apart m s) (hends : (p m).1 ≠ .error .exhausted) :
    (p (m.withStore s)).1 = (p m).1 ∧
      (p (m.withStore s)).2.forget V.name = (p m).2.forget V.name ∧
      (p m).2.store.own? 0 V.name = V.first ∧
      (p (m.withStore s)).2.store.own? 0 V.name = V.second := by
  have hout := h m s hm hends
  generalize p m = first, p (m.withStore s) = second at hout ⊢
  cases hout with
  | @intro _ _ m₁ s₁ hend _ hapart =>
      refine ⟨?_, ?_, hapart.first, hapart.second⟩
      · cases hend with
        | ok h => exact congrArg Except.ok h.1
        | error h => exact congrArg Except.error h.symm
      · exact congrArg m₁.withStore hapart.store

/-- A unit of source text, and a name that is no lexeme of it, nor of the code of
any function or struct that can be got at in the session, and not `self`.  Bind the
name to any value globally, whether or not it was bound before.  The unit gives the
same value or failure as without.  Unless it does not end, it leaves the same
machine behind, with all that it wrote, up to that binding; and the binding is what
it was, with the new value and without. -/
theorem runSource_of_unmentioned (options : SessionOptions) (fuel : Nat) (source : String)
    (m : Machine) (name : String) (v : Value) (hself : name ≠ "self")
    (hsource : ∀ tokens, Token.scan source = .ok tokens → Token.Avoid name tokens)
    (hheld : ∀ w, m.store.Reaches name m.scope (.value w) → w.Lacks name) :
    let m' := m.withGlobal name v
    let run := runSource options fuel source m
    let run' := runSource options fuel source m'
    run'.1 = run.1 ∧
      (run.1 ≠ .error .exhausted →
        run'.2.forget name = run.2.forget name ∧
          run.2.store.own? 0 name = m.store.own? 0 name ∧
          run'.2.store.own? 0 name = m'.store.own? 0 name) := by
  intro m' run run'
  have hstore : m'.store.forget name = m.store.forget name := Store.forget_define_self v
  have hclosed := Region.closed_reach hheld
  -- The two machines, and the same two the other way round.
  let V : Variation :=
    ⟨name, m.store.own? 0 name, m'.store.own? 0 name, .reach m.store name m.scope⟩
  let W : Variation := ⟨name, V.second, V.first, V.region⟩
  have hapart : V.Apart m m'.store := ⟨hstore, hclosed, .inl .here, rfl, rfl⟩
  have hback : W.Apart m' m.store :=
    ⟨hstore.symm, hclosed.of_forget_eq hstore, .inl .here, rfl, rfl⟩
  by_cases hends : run.1 = .error .exhausted
  · -- If the second run had an end, then the first would have the same.
    have hends' : run'.1 = .error .exhausted := by
      by_contra hother
      have hsame := (outcome_of_units (V := W) (units_runSource hself hsource) hback hother).1
      exact hother (hsame.symm.trans hends)
    exact ⟨hends'.trans hends.symm, fun hnot => absurd hends hnot⟩
  · obtain ⟨hsame, hmachine⟩ :=
      outcome_of_units (V := V) (units_runSource hself hsource) hapart hends
    exact ⟨hsame, fun _ => hmachine⟩

/-- A function that greets, written in the global scope. -/
def greeter : Value :=
  .func ⟨0, [], [.returning ⟨.returnKw, "return", none, 1⟩ (some (.literal (.str "hi")))], 0⟩

/-- A session in which `greet` is such a function. -/
def greeterSession : Machine :=
  (start (.ofInput [] none) []).withGlobal "greet" greeter

/-- A function that mentions `secret`. -/
def keeper : Value :=
  .func ⟨1, [], [.expression (.variable ⟨.identifier, "secret", none, 1⟩)], 0⟩

/-- The tokens of `greet[];`. -/
def greetTokens : List Token :=
  [⟨.identifier, "greet", none, 1⟩, ⟨.leftBracket, "[", none, 1⟩, ⟨.rightBracket, "]", none, 1⟩,
    ⟨.semicolon, ";", none, 1⟩, .eof 1]

/-- A call of `greet`. -/
def greet : Run Failure Value :=
  runSource bareOptions 12 "greet[];"

/-- To a call of `greet` it makes no difference that `secret` is bound, be it to a
function that mentions `secret`. -/
theorem greet_of_unmentioned_secret :
    (Token.scan "greet[];" = .ok greetTokens ∧ Token.Avoid "secret" greetTokens) ∧
      (∀ w, greeterSession.store.Reaches "secret" greeterSession.scope (.value w) →
        w.Lacks "secret") ∧
      (greet (greeterSession.withGlobal "secret" keeper)).1 = .ok (.str "hi") ∧
      (greet (greeterSession.withGlobal "secret" keeper)).2.forget "secret" =
        (greet greeterSession).2.forget "secret" ∧
      (greet greeterSession).2.store.own? 0 "secret" = none ∧
      (greet (greeterSession.withGlobal "secret" keeper)).2.store.own? 0 "secret" =
        some keeper := by
  have hscan : Token.scan "greet[];" = .ok greetTokens := rfl
  have hparse : parse greetTokens = .ok [.expression (.call
      (.variable ⟨.identifier, "greet", none, 1⟩) ⟨.rightBracket, "]", none, 1⟩ [])] := rfl
  have havoid : Token.Avoid "secret" greetTokens := by decide
  have hsource : ∀ tokens, Token.scan "greet[];" = .ok tokens → Token.Avoid "secret" tokens := by
    intro tokens htokens
    rw [hscan] at htokens
    exact Except.ok.inj htokens ▸ havoid
  have hheld : ∀ w, greeterSession.store.Reaches "secret" greeterSession.scope (.value w) →
      w.Lacks "secret" := by
    intro w hw
    have hvalues : greeterSession.store.values = [.native .clock, .native .print, greeter] := rfl
    have hmem := hw.mem_values
    rw [hvalues] at hmem
    simp only [List.mem_cons, List.not_mem_nil, or_false] at hmem
    rcases hmem with rfl | rfl | rfl
    · exact trivial
    · exact trivial
    · simp [greeter, Value.Lacks, Token.Avoid, Stmt.EveryNode, Expr.EveryNode, NodeLaw.lacking,
        Stmt.kept, Expr.kept]
  have hgreet : (greet greeterSession).1 = .ok (.str "hi") := by
    rw [greet, runSource_loaded rfl hscan hparse]
    rfl
  obtain ⟨hsame, hmachine⟩ := runSource_of_unmentioned bareOptions 12 "greet[];" greeterSession
    "secret" keeper (by decide) hsource hheld
  rw [← greet] at hsame hmachine
  obtain ⟨hforget, hunbound, hbound⟩ := hmachine (by rw [hgreet]; simp)
  have hnone : greeterSession.store.own? 0 "secret" = none := rfl
  have hsome : (greeterSession.withGlobal "secret" keeper).store.own? 0 "secret" = some keeper := rfl
  exact ⟨⟨hscan, havoid⟩, hheld, hsame.trans hgreet, hforget, hunbound.trans hnone,
    hbound.trans hsome⟩

end Session

end BracketScript
