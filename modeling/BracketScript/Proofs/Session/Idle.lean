import BracketScript.Proofs.Eval.Frame
import BracketScript.Proofs.Eval.Restoration
import BracketScript.Proofs.Session.Sources

/-!
# Between the units of a session

Whatever a unit did and however it ended, afterwards the session is again in its
global scope with no call open (`Machine.Idle`), so that the next unit sees the
global names and may open as many calls as the first one could.  This holds of
units that are run one by one and of the lines of an interactive session
(`Session.scope_and_depth_restored`).

The scope and the depth come from what every run restores.  That the scope is
still a global one, with nothing around it, takes the regime of frames: scopes
keep their kind and their place.
-/

namespace BracketScript

/-- A machine that waits for a unit: it is in the global scope, and no call is
open. -/
structure Machine.Idle (m : Machine) : Prop where
  scope : m.scope = 0
  kind : m.store.kind? 0 = some .global
  outermost : m.store.parent? 0 = none
  depth : m.depth = 0

namespace Machine.Idle

variable {m m' : Machine}

theorem of_eq (h : m.Idle) (hstore : m'.store = m.store) (hscope : m'.scope = m.scope)
    (hdepth : m'.depth = m.depth) : m'.Idle where
  scope := hscope.trans h.scope
  kind := by
    rw [hstore]
    exact h.kind
  outermost := by
    rw [hstore]
    exact h.outermost
  depth := hdepth.trans h.depth

/-- The names that an idle machine knows are the global ones. -/
theorem lookup_eq (h : m.Idle) (name : String) :
    m.store.lookup m.scope name = m.store.own? 0 name := by
  rw [h.scope]
  show m.store.lookupWithin name 1 0 = m.store.own? 0 name
  unfold Store.lookupWithin
  cases m.store.own? 0 name with
  | some v => rfl
  | none => simp only [h.outermost]

theorem exists_scope (h : m.Idle) :
    ∃ found, m.store.scopes[0]? = some found ∧ found.kind = .global ∧ found.parent = none := by
  obtain ⟨found, hfound, hkind⟩ := Option.map_eq_some_iff.mp h.kind
  have hparent := h.outermost
  rw [Store.parent?, hfound, Option.bind_some] at hparent
  exact ⟨found, hfound, hkind, hparent⟩

/-- An idle machine rests in the regime of frames. -/
theorem rests (h : m.Idle) : (Regime.frame 0).Rests m where
  inv := Nat.zero_le _
  place := by
    obtain ⟨found, hfound, hkind, -⟩ := h.exists_scope
    rw [h.scope]
    apply Store.Confined.function hfound (Nat.zero_le 0)
    rw [hkind]
    exact nofun
  depth := h.depth

/-- A run from an idle machine that keeps up the regime of frames leaves it
idle. -/
theorem reached (h : m.Idle) (hreaches : (Regime.frame 0).Reaches m m') : m'.Idle := by
  obtain ⟨found, hfound, hkind, hparent⟩ := h.exists_scope
  obtain ⟨found', hfound', hkind', hparent'⟩ := hreaches.moves.frame hfound
  constructor
  · exact hreaches.scope.trans h.scope
  · rw [Store.kind?, hfound', Option.map_some, hkind', hkind]
  · rw [Store.parent?, hfound', Option.bind_some, hparent', hparent]
  · exact hreaches.depth.trans h.depth

end Machine.Idle

namespace Session

theorem idle_start (console : Console) (names : List String) : (start console names).Idle where
  scope := rfl
  kind := rfl
  outermost := rfl
  depth := rfl

/-- A part of a session that leaves an idle machine idle, however it ends. -/
def KeepsIdle {α : Type} (p : Run Failure α) : Prop :=
  ∀ m : Machine, m.Idle → (p m).2.Idle

namespace KeepsIdle

variable {α β : Type}

theorem aside {p : Run Failure α}
    (h : ∀ m, (p m).2.store = m.store ∧ (p m).2.scope = m.scope ∧ (p m).2.depth = m.depth) :
    KeepsIdle p :=
  fun m hm => hm.of_eq (h m).1 (h m).2.1 (h m).2.2

theorem bind {p : Run Failure α} {k : α → Run Failure β} (hp : KeepsIdle p)
    (hk : ∀ a, KeepsIdle (k a)) : KeepsIdle (p >>= k) := by
  intro m hm
  have hfirst := hp m hm
  rcases hpm : p m with ⟨e | a, m'⟩
  · rw [Run.bind_of_error hpm]
    rw [hpm] at hfirst
    exact hfirst
  · rw [Run.bind_of_ok hpm]
    rw [hpm] at hfirst
    exact hk a m' hfirst

theorem write (text : String) : KeepsIdle (Session.write text) := by
  apply aside
  intro m
  unfold Session.write
  rcases m.console.write text with ⟨_ | _, console⟩ <;> exact ⟨rfl, rfl, rfl⟩

theorem readLine : KeepsIdle Session.readLine := by
  apply aside
  intro m
  unfold Session.readLine
  rcases m.console.readLine with ⟨_ | _, console⟩ <;> exact ⟨rfl, rfl, rfl⟩

theorem note (event : Event) : KeepsIdle (Run.note event) :=
  aside fun _ => ⟨rfl, rfl, rfl⟩

variable (options : SessionOptions) (fuel : Nat)

theorem runSource (source : String) : KeepsIdle (Session.runSource options fuel source) := by
  intro m hm
  have laws : (Regime.frame 0).Laws options.setup := Regime.frame_laws options.setup
  have hadmits : (Regime.frame 0).Admits fuel source :=
    fun _ _ _ _ => ⟨fun s _ => s.everyNode_any false, trivial⟩
  exact hm.reached (laws.keeps_runSource hm.rests hadmits).reaches

theorem runLine (line : String) : KeepsIdle (Session.runLine options fuel line) := by
  intro m hm
  have hready : Machine.Idle { m with interrupted := false } := hm.of_eq rfl rfl rfl
  have hrun := runSource options fuel line _ hready
  unfold Session.runLine
  -- A failure that is reported shows in the log only.
  rcases hend : Session.runSource options fuel line { m with interrupted := false } with
    ⟨e | v, m'⟩ <;> rw [hend] at hrun
  · cases e <;> exact hrun.of_eq rfl rfl rfl
  · exact hrun

theorem interactWithin (prompt : Option String) (lines : Nat) :
    KeepsIdle (Session.interactWithin options fuel prompt lines) :=
  interactWithin_of_steps (P := KeepsIdle) prompt (aside fun _ => ⟨rfl, rfl, rfl⟩) bind write
    readLine (note .endOfInput) (runLine options fuel) lines

theorem runEach (sources : List String) {m : Machine} (hm : m.Idle) :
    (Session.runEach options fuel sources m).2.Idle := by
  induction sources generalizing m with
  | nil => exact hm
  | cons source sources ih => exact ih (runSource options fuel source m hm)

end KeepsIdle

/-- Whatever is executed, evaluated or called, on whatever machine, and however
it ends: the current scope and the depth of calls are afterwards what they were
before.  Hence after any units of a session, whatever became of each, and after
any number of lines of an interactive one, the session is in its global scope
with no call open, and the names it knows are the global ones. -/
theorem scope_and_depth_restored (options : SessionOptions) (fuel : Nat) :
    (∀ (m : Machine) (s : Stmt), m.Restored (exec options.setup fuel s m).2) ∧
      (∀ (m : Machine) (e : Expr), m.Restored (eval options.setup fuel e m).2) ∧
      (∀ (m : Machine) (callee : Value) (args : List Value) (bracket : Token),
        m.Restored (call options.setup fuel callee args bracket m).2) ∧
      ∀ (console : Console) (names : List String),
        (∀ sources,
          let m := (runEach options fuel sources (start console names)).2
          m.Idle ∧ ∀ name, m.store.lookup m.scope name = m.store.own? 0 name) ∧
        ∀ prompt lines,
          (interactWithin options fuel prompt lines (start console names)).2.Idle := by
  refine ⟨?_, ?_, ?_, ?_⟩
  · exact fun m s => Job.restored options.setup fuel m (.stmt s)
  · exact fun m e => Job.restored options.setup fuel m (.expr e)
  · exact fun m callee args bracket =>
      Job.restored options.setup fuel m (.call callee args bracket)
  · intro console names
    have hstart := idle_start console names
    constructor
    · intro sources
      have hidle := KeepsIdle.runEach options fuel sources hstart
      exact ⟨hidle, hidle.lookup_eq⟩
    · intro prompt lines
      exact KeepsIdle.interactWithin options fuel prompt lines _ hstart

end Session

end BracketScript
