import BracketScript.Proofs.Grammar.Tokens
import BracketScript.Proofs.Session.Moments
import BracketScript.Proofs.Token.Spelling

/-!
# Reading and running fit together

Running has branches for trees and states that never come up: operators without
a meaning, a field set in what is no instance, a `return` outside functions, a
call of what cannot be called, a built-in function short of arguments.  That
they never come up takes all stages.  Scanning spells only the keyword `self`
like that; reading puts operators and names where running expects them and
refuses a misplaced `return`; and running binds `self` in no other way than to
an instance, between units and at every job in them (`Session.runEach_coherent`).
-/

namespace BracketScript

/-! ### Names -/

theorem Token.SelfSpelled.lexeme_ne {t : Token} (h : t.SelfSpelled) (hkind : t.kind ≠ .selfKw) :
    t.lexeme ≠ "self" :=
  fun hlexeme => hkind (h.mpr hlexeme)

theorem Grammar.Named.lexeme_ne {t : Token} (h : Grammar.Named Token.SelfSpelled t) :
    t.lexeme ≠ "self" := by
  apply h.1.lexeme_ne
  rw [h.2]
  decide

theorem Grammar.Read.lexeme_ne {t : Token} (h : Grammar.Read Token.SelfSpelled t) :
    t.lexeme ≠ "self" := by
  apply h.1.lexeme_ne
  rcases h.2 with hkind | hkind <;> rw [hkind] <;> decide

/-! ### Operators -/

namespace Operator

theorem onNumbers_error {f : Float → Float → Value} {left right : Value} {fault : RuntimeFault}
    (h : onNumbers f left right = .error fault) : fault.unforeseen = false := by
  unfold onNumbers at h
  split at h <;> cases h
  rfl

theorem add_error {left right : Value} {fault : RuntimeFault}
    (h : add left right = .error fault) : fault.unforeseen = false := by
  unfold add at h
  split at h <;> cases h
  rfl

/-- An operator that stands before an operand is known. -/
theorem unary_error {op : Token} {v : Value} {fault : RuntimeFault}
    (hop : op.kind = .bang ∨ op.kind = .minus ∨ op.kind = .bitNeg)
    (h : unary op v = .error fault) : fault.unforeseen = false := by
  unfold unary at h
  rcases hop with hop | hop | hop <;> rw [hop] at h
  · cases h
  · cases v <;> cases h <;> rfl
  · cases v <;> cases h <;> rfl

/-- An operator that stands between operands is known. -/
theorem binary_error {op : Token} {p : Grammar.Place} {v w : Value} {fault : RuntimeFault}
    (hp : p.isStrict = true) (hop : op.kind ∈ p.operators) (h : binary v op w = .error fault) :
    fault.unforeseen = false := by
  unfold binary at h
  cases p <;> simp only [Grammar.Place.operators, Grammar.Place.isStrict, List.mem_cons,
    List.not_mem_nil, or_false, Bool.false_eq_true] at hp hop
  case equality => rcases hop with hop | hop | hop <;> rw [hop] at h <;> cases h
  case comparison =>
    rcases hop with hop | hop | hop | hop <;> rw [hop] at h <;> exact onNumbers_error h
  case bitwise => rcases hop with hop | hop <;> rw [hop] at h <;> exact onNumbers_error h
  case term =>
    rcases hop with hop | hop <;> rw [hop] at h
    · exact onNumbers_error h
    · exact add_error h
  case factor => rcases hop with hop | hop <;> rw [hop] at h <;> exact onNumbers_error h

end Operator

/-! ### The invariant -/

/-- Code as it is read, `self` bound to instances only, and no faults but those
that are foreseen. -/
def Allowance.coherent : Allowance where
  law := Grammar.tokensLaw Token.SelfSpelled
  bindable name := name ≠ "self"
  native _ := True
  module _ := True
  fault f := f.unforeseen = false
  enough _ _ _ := True
  mayExhaust := True

theorem Allowance.coherent_laws (setup : Setup) : Allowance.coherent.Laws setup where
  exhausted _ := trivial
  part _ _ := trivial
  again _ _ := trivial
  functionBody _ _ _ := trivial
  structBody _ _ _ := trivial
  functionParams hlaw p hp := (hlaw.2 p hp).lexeme_ne
  structParams hlaw p hp := (hlaw.2.1 p hp).lexeme_ne
  structFields hlaw entry hentry := (hlaw.2.2 entry hentry).lexeme_ne
  assigned hlaw := Grammar.Read.lexeme_ne hlaw
  moduleName g := by cases g <;> simp [coherent, Module.name]
  memberName {g name v} h := by
    have hmem := mem_members h
    rintro rfl
    cases g <;> simp [Module.members] at hmem
  module _ := trivial
  member _ _ := trivial
  foreseen h := h
  unary hlaw h := Operator.unary_error hlaw.2 h
  binary hlaw h := by
    obtain ⟨-, p, hp, hop⟩ := hlaw
    exact Operator.binary_error hp hop h
  self hlaw := by
    obtain ⟨⟨hspelled, hkind⟩, -⟩ := hlaw
    exact Or.inl fun hname => hname (hspelled.mp hkind)

theorem Allowance.coherent_admits (fuel : Nat) (source : String) :
    Allowance.coherent.regime.Admits fuel source := by
  intro tokens trees hscan hparse
  exact ⟨everyNode_tokensLaw_of_parse hparse (Token.selfSpelled_of_scan hscan), trivial⟩

/-- Every scope binds `self`, if at all, to an instance. -/
def Store.BindsSelf (s : Store) : Prop :=
  ∀ scope v, s.own? scope "self" = some v → ∃ id d, v = .inst id d

theorem Allowance.bindsSelf_of_inv {s : Store} (h : Allowance.coherent.regime.inv s) :
    s.BindsSelf := by
  intro scope v hv
  exact (h.own? hv).2.resolve_left fun hname => hname rfl

theorem Allowance.coherent_lasting : Allowance.coherent.regime.Lasting where
  enough _ _ _ := trivial
  line _ := trivial

namespace Session

section Moments

variable {options : SessionOptions} {console : Console} {names : List String}
variable {last m : Machine} {n : Nat} {job : Job}

theorem coherent_laws (options : SessionOptions) :
    Allowance.coherent.regime.Laws options.setup :=
  Allowance.regime_laws (Allowance.coherent_laws options.setup)

theorem coherent_rests (console : Console) (names : List String) :
    Allowance.coherent.regime.Rests (start console names) :=
  Allowance.rests_start console names trivial trivial
    ⟨by simp [Allowance.coherent], by simp [Allowance.coherent]⟩

theorem Runs.bindsSelf (h : Runs options (Session.start console names) m) : m.store.BindsSelf :=
  Allowance.bindsSelf_of_inv
    (h.rests (coherent_laws options) Allowance.coherent_admits (coherent_rests console names)).inv

/-- However deep in calls, when a job begins and when it ends, also if it fails. -/
theorem Does.bindsSelf (h : Does options (start console names) last n job m) :
    m.store.BindsSelf ∧ (job.after options.setup n m).store.BindsSelf := by
  have laws := coherent_laws options
  have hfits := h.fits laws Allowance.coherent_admits Allowance.coherent_lasting
    (coherent_rests console names)
  have hdone := hfits.completes laws Allowance.coherent_lasting n
  exact ⟨Allowance.bindsSelf_of_inv hfits.inv, Allowance.bindsSelf_of_inv hdone.reaches.inv⟩

end Moments

/-- Whatever units are run in a session, with whatever bound on fuel: no unit
fails with one of the faults that are there for completeness only, and none gets
the machine into a state that no program leads to, where something is called
that cannot be called or a built-in function lacks an argument.  The statements
of a unit never end with a `return`.  And every scope binds `self`, if at all, to
an instance: when the units have been run, and whenever in a session a job begins
or ends. -/
theorem runEach_coherent (options : SessionOptions) (fuel : Nat) (names : List String)
    (console : Console) (sources : List String) :
    (∀ e, .error (.runtime e) ∈ (runEach options fuel sources (start console names)).1 →
        e.fault ≠ .unknownUnary ∧ e.fault ≠ .unknownBinary ∧ e.fault ≠ .noFields) ∧
      .error .broken ∉ (runEach options fuel sources (start console names)).1 ∧
      (∀ source ∈ sources, ∀ tokens trees, Token.scan source = .ok tokens →
        parse tokens = .ok trees →
          ∀ m v, (execAll options.setup fuel trees .null m).1 ≠ .error (.returned v)) ∧
      (runEach options fuel sources (start console names)).2.store.BindsSelf ∧
      ∀ last n job m, Does options (start console names) last n job m →
        m.store.BindsSelf ∧ (job.after options.setup n m).store.BindsSelf := by
  have hkept := (coherent_laws options).kept_runEach (coherent_rests console names)
    fun source (_ : source ∈ sources) => Allowance.coherent_admits fuel source
  refine ⟨?_, ?_, ?_, ?_, fun _ _ _ _ h => h.bindsSelf⟩
  · intro e he
    have hforeseen : e.fault.unforeseen = false := hkept.error he
    refine ⟨?_, ?_, ?_⟩ <;> intro hfault <;> rw [hfault] at hforeseen <;> cases hforeseen
  · intro hbroken
    exact hkept.error hbroken
  · intro source _ tokens trees _ hparse m v
    exact execAll_noReturn hparse options.setup fuel .null m v
  · exact (runs_runEach .start).bindsSelf

end Session

end BracketScript
