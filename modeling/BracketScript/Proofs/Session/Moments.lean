import BracketScript.Proofs.Eval.Course
import BracketScript.Proofs.Session.Sources

/-!
# What is done in a session

A session runs units of source text one after the other; in between, lines are
read, prompts written and failures reported, none of which concerns the store
(`Session.Runs`).  While the units run, jobs are done (`Session.Does`).

A regime that admits all source text and holds when the session begins is kept
up all along: each job fits where it begins (`Session.Does.fits`), and the store
at any moment turns into the one at the end of the session
(`Session.Does.moves`).  So what a regime keeps fixed is the same at any two
moments, whichever comes first.
-/

namespace BracketScript

namespace Session

/-- A session that has begun on the first machine gets to the second.  Between
units anything can happen to the streams, the flag, the clock and the log. -/
inductive Runs (options : SessionOptions) (first : Machine) : Machine → Prop
  | start : Runs options first first
  | unit {m : Machine} (fuel : Nat) (source : String) (h : Runs options first m) :
    Runs options first (runSource options fuel source m).2
  | aside {m m' : Machine} (h : Runs options first m) (hstore : m'.store = m.store)
    (hscope : m'.scope = m.scope) (hdepth : m'.depth = m.depth) : Runs options first m'

/-- A job that is done in a session, which goes from the first machine to the
last: the statements of a unit, or part of a job. -/
inductive Does (options : SessionOptions) (first last : Machine) : Nat → Job → Machine → Prop
  | unit {m : Machine} {fuel : Nat} {source : String} {tokens : List Token} {trees : List Stmt}
    (hbefore : Runs options first m) (hemit : options.emit = none)
    (hscan : Token.scan source = .ok tokens) (hparse : parse tokens = .ok trees)
    (hafter : Runs options (runSource options fuel source m).2 last) :
    Does options first last fuel (.stmts trees .null) (loaded m tokens trees)
  | part {n : Nat} {job job' : Job} {m m' : Machine} (h : Does options first last (n + 1) job m)
    (hpart : Part options.setup n job m job' m') : Does options first last n job' m'

theorem runs_runEach {options : SessionOptions} {fuel : Nat} {sources : List String}
    {first m : Machine} (h : Runs options first m) :
    Runs options first (runEach options fuel sources m).2 := by
  induction sources generalizing m with
  | nil => exact h
  | cons source sources ih => exact ih (.unit fuel source h)

section Regime

variable {R : Regime} {options : SessionOptions} {first last m : Machine}
variable (laws : R.Laws options.setup) (hadmits : ∀ fuel source, R.Admits fuel source)

include laws hadmits

theorem Runs.rests (h : Runs options first m) (hfirst : R.Rests first) : R.Rests m := by
  induction h with
  | start => exact hfirst
  | unit fuel source _ ih => exact laws.rests_runSource ih (hadmits fuel source)
  | aside _ hstore hscope hdepth ih =>
      have hm := laws.reaches_of_eq ih.inv hstore hscope hdepth
      exact ⟨hm.inv, hm.place laws ih.place, hm.depth.trans ih.depth⟩

theorem Runs.moves (h : Runs options first m) (hfirst : R.Rests first) :
    R.moves first.store m.store := by
  induction h with
  | start => exact laws.refl first.store
  | unit fuel source h ih =>
      have hunit := laws.keeps_runSource (h.rests laws hadmits hfirst) (hadmits fuel source)
      exact laws.trans ih hunit.reaches.moves
  | aside _ hstore _ _ ih => rwa [hstore]

variable (lasting : R.Lasting) {n : Nat} {job : Job}

include lasting

/-- Whatever is done in a session fits. -/
theorem Does.fits (h : Does options first last n job m) (hfirst : R.Rests first) :
    R.Fits job m := by
  induction h with
  | unit hbefore _ hscan hparse _ =>
      have hm := hbefore.rests laws hadmits hfirst
      obtain ⟨hlaw, -⟩ := hadmits 0 _ _ _ hscan hparse
      exact ⟨hm.inv, hm.place, laws.null, false, hlaw⟩
  | part _ hpart ih => exact (ih.part laws lasting hpart).fits

/-- What there is when a job ends turns into what there is when the session
ends. -/
theorem Does.remainder (h : Does options first last n job m) (hfirst : R.Rests first) :
    R.moves (job.after options.setup n m).store last.store := by
  induction h with
  | @unit m fuel source tokens trees hbefore hemit hscan hparse hafter =>
      have hm := hbefore.rests laws hadmits hfirst
      have hend : (runSource options fuel source m).2.store =
          (execAll options.setup fuel trees .null (loaded m tokens trees)).2.store := by
        have hdepth := ((Job.stmts trees .null).restored options.setup fuel
          (loaded m tokens trees)).depth
        rw [runSource_loaded hemit hscan hparse, runProgram_apply (hdepth.trans hm.depth)]
      have hrests := laws.rests_runSource hm (hadmits fuel source)
      have hmoves := hafter.moves laws hadmits hrests
      rw [hend] at hmoves
      exact hmoves
  | part h hpart ih =>
      exact laws.trans ((h.fits laws hadmits lasting hfirst).remainder laws lasting hpart) ih

/-- What there is when a job begins turns into what there is when the session
ends. -/
theorem Does.moves (h : Does options first last n job m) (hfirst : R.Rests first) :
    R.moves m.store last.store := by
  have hdone := (h.fits laws hadmits lasting hfirst).completes laws lasting n
  exact laws.trans hdone.reaches.moves (h.remainder laws hadmits lasting hfirst)

end Regime

end Session

end BracketScript
