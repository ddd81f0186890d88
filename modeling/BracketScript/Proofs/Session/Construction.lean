import BracketScript.Proofs.Eval.Instances
import BracketScript.Proofs.Eval.Opening
import BracketScript.Proofs.Session.Moments

/-!
# The making of instances

A call of a struct opens a scope, makes an instance, gives it the arguments as
fields and evaluates the entries of the struct's body; each becomes a name in
that scope and a field.  The entries can be any expressions, and names can turn
up more than once.

What there is in between is said by `Building`: the fields of the instance are
what has been set so far, the last value of each name, and nothing in the store
refers to the instance.  As nothing does, the evaluation of an entry leaves its
fields alone.  From this follows what a call of a struct comes to
(`call_struct_constructs`).
-/

namespace BracketScript

/-! ### Entries, one after the other -/

/-- The evaluation of an entry of a struct's body. -/
structure Evaluation where
  fuel : Nat
  entry : FieldInit
  start : Machine
  value : Value
  finish : Machine

namespace Evaluation

/-- The name that gets the value. -/
def binding (step : Evaluation) : String × Value :=
  (step.entry.name.lexeme, step.value)

/-- The machine once the value is a name in the current scope and a field. -/
def bound (step : Evaluation) (id : InstanceId) : Machine :=
  { step.finish with
    store := (step.finish.store.define step.finish.scope step.binding.1 step.binding.2).setField
      id step.binding.1 step.binding.2 }

end Evaluation

/-- Entries are evaluated one after the other, from the first machine to the
second, and each that has a value is bound before the next begins. -/
inductive Initialized (setup : Setup) (id : InstanceId) :
    Machine → List Evaluation → Machine → Prop
  | done {m : Machine} : Initialized setup id m [] m
  | next {step : Evaluation} {steps : List Evaluation} {m : Machine}
    (heval : eval setup step.fuel step.entry.value step.start = (.ok step.value, step.finish))
    (hrest : Initialized setup id (step.bound id) steps m) :
    Initialized setup id step.start (step :: steps) m

theorem initFields_ok {setup : Setup} {n : Nat} {id : InstanceId} {entries : List FieldInit}
    {m m' : Machine} (h : initFields setup n id entries m = (.ok (), m')) :
    ∃ steps : List Evaluation,
      steps.map Evaluation.entry = entries ∧ Initialized setup id m steps m' := by
  induction entries generalizing n m with
  | nil =>
      cases n with
      | zero =>
          rw [initFields] at h
          cases h
      | succ n =>
          rw [initFields] at h
          obtain ⟨-, rfl⟩ := Prod.mk.inj h
          exact ⟨[], rfl, .done⟩
  | cons entry entries ih =>
      cases n with
      | zero =>
          rw [initFields] at h
          cases h
      | succ n =>
          obtain ⟨name, e⟩ := entry
          rw [initFields_cons] at h
          rcases heval : eval setup n e m with ⟨stop | v, m₁⟩
          · rw [Run.bind_of_error heval] at h
            cases h
          · rw [Run.bind_of_ok heval] at h
            obtain ⟨steps, hentries, hrest⟩ := ih h
            refine ⟨⟨n, ⟨name, e⟩, m, v, m₁⟩ :: steps, by rw [List.map_cons, hentries], ?_⟩
            exact @Initialized.next setup id ⟨n, ⟨name, e⟩, m, v, m₁⟩ steps m' heval hrest

/-- The instance is being made: its fields are those in the list, as far as it
goes, and nothing in the store refers to it.  The current scope is the one opened
for the purpose, and it binds the names of the fields. -/
structure Building (d : StructDef) (place : ScopeId) (id : InstanceId)
    (fields : List (String × Value)) (m : Machine) : Prop where
  scope : m.scope = place
  there : place < m.store.scopes.size
  kind : m.store.kind? place = some .function
  parent : m.store.parent? place = some d.scope
  bound {name : String} (h : name ∈ fields.map Prod.fst) : (m.store.own? place name).isSome
  field (name : String) : m.store.field? id name = lastOf name fields
  apart : (Regime.apart (· = id)).inv m.store

namespace Building

variable {setup : Setup} {n : Nat} {d : StructDef} {place : ScopeId} {id : InstanceId}
variable {fields : List (String × Value)} {m m' : Machine}

/-- Expressions can be evaluated without getting at the instance. -/
theorem fits (h : Building d place id fields m) (e : Expr) :
    (Regime.apart (· = id)).Fits (.expr e) m :=
  ⟨h.apart, trivial, List.forall_mem_nil _, e.everyNode_any⟩

theorem step {step : Evaluation} (h : Building d place id fields step.start)
    (heval : eval setup step.fuel step.entry.value step.start = (.ok step.value, step.finish)) :
    Building d place id (fields ++ [step.binding]) (step.bound id) := by
  have laws := Regime.apart_laws (· = id) setup
  obtain ⟨hm, hv⟩ := (h.fits step.entry.value).after_eval laws Regime.apart_lasting
    step.entry.value.everyNode_any heval
  have hscope : step.finish.scope = place := hm.scope.trans h.scope
  have hthere : place < step.finish.store.scopes.size :=
    Nat.lt_of_lt_of_le h.there hm.moves.size
  have hdefine := Regime.apart_define step.finish.scope step.binding.1 hm.inv hv
  have hmoves := hm.moves.trans hdefine.moves
  have hid : id < step.finish.store.instances.size := hm.inv.2 id rfl
  constructor
  · exact hscope
  · exact Nat.lt_of_lt_of_le h.there hmoves.size
  · exact (hmoves.kind h.there).trans h.kind
  · exact (hmoves.parent h.there).trans h.parent
  · intro name hname
    rw [List.map_append, List.mem_append] at hname
    rcases hname with hname | hname
    · exact hmoves.bound (h.bound hname)
    · obtain rfl : name = step.binding.1 := by simpa using hname
      show ((step.finish.store.define step.finish.scope _ _).own? place _).isSome
      rw [hscope, Store.own?_define_self _ _ _ hthere]
      rfl
  · intro name
    rw [lastOf_append]
    have hkept : step.finish.store.field? id name = step.start.store.field? id name := by
      rw [Store.field?, Store.field?, hm.moves.untouched rfl]
    by_cases hname : step.binding.1 = name
    · subst hname
      simp only [lastOf, if_true, Option.none_or, Option.some_or]
      exact Store.field?_setField_self id _ _ hid
    · simp only [lastOf, if_neg hname, Option.none_or]
      rw [← h.field, ← hkept]
      exact Store.field?_setField_of_ne id _ _ (.inr (Ne.symm hname))
  · refine ⟨hdefine.inv.1.setField _ hv, fun other hother => ?_⟩
    show other < (Store.setField _ _ _ _).instances.size
    rw [Store.size_setField]
    exact hdefine.inv.2 other hother

/-- Before each entry, and after the last one, the instance is as far as it can
be. -/
theorem initialized {steps : List Evaluation} (h : Building d place id fields m)
    (hsteps : Initialized setup id m steps m') :
    (∀ before step after, steps = before ++ step :: after →
        Building d place id (fields ++ before.map Evaluation.binding) step.start) ∧
      Building d place id (fields ++ steps.map Evaluation.binding) m' := by
  induction hsteps generalizing fields with
  | done =>
      refine ⟨fun before step after hsplit => ?_, by simpa using h⟩
      simp at hsplit
  | @next first steps _ heval hrest ih =>
      obtain ⟨hbefore, hlast⟩ := ih (h.step heval)
      refine ⟨fun before step after hsplit => ?_, by simpa using hlast⟩
      cases before with
      | nil =>
          obtain ⟨rfl, -⟩ := List.cons.inj hsplit
          simpa using h
      | cons other before =>
          obtain ⟨rfl, hsteps⟩ := List.cons.inj hsplit
          simpa using hbefore before step after hsteps

end Building

/-! ### Calls of structs -/

/-- A new instance is unknown to the store, and is so still when it has got its
first fields. -/
theorem Store.apart_newInstance {s : Store} (pairs : List (Token × Value))
    (hs : s.Knows fun _ => False)
    (hpairs : ∀ pair ∈ pairs, pair.2.Known (fun _ => False) s.instances.size) :
    (Regime.apart (· = s.newInstance.1)).inv
      (pairs.foldl (fun s' pair => s'.setField s.newInstance.1 pair.1.lexeme pair.2)
        s.newInstance.2) := by
  have hsize : s.newInstance.2.instances.size = s.instances.size + 1 := by simp [newInstance]
  have hother : ∀ v : Value, v.Known (fun _ => False) s.instances.size →
      v.Known (· = s.newInstance.1) s.newInstance.2.instances.size := by
    intro v hv
    cases v with
    | inst id d =>
        rw [hsize]
        exact ⟨Nat.lt_succ_of_lt hv.1, Nat.ne_of_lt hv.1⟩
    | _ => exact trivial
  have hstart : s.newInstance.2.Knows (· = s.newInstance.1) :=
    (Holds.newInstance hs).imp (fun _ v _ hv => hother v hv) fun v _ hv => hother v hv
  have hlast : ∀ id, id = s.newInstance.1 → id < s.newInstance.2.instances.size := by
    rintro id rfl
    rw [hsize]
    exact Nat.lt_succ_self _
  generalize s.newInstance.2 = s' at hstart hlast hother
  clear hsize
  induction pairs generalizing s' with
  | nil => exact ⟨hstart, hlast⟩
  | cons pair pairs ih =>
      rw [List.forall_mem_cons] at hpairs
      apply ih hpairs.2
      · exact hstart.setField _ (hother _ hpairs.1)
      · rwa [size_setField]
      · rwa [size_setField]

/-- When the first entry is evaluated, the parameters are names and fields. -/
theorem Building.start (setup : Setup) {d : StructDef} {args : List Value} {m m₁ m₂ : Machine}
    {place : ScopeId} {id : InstanceId} (hs : m.store.Knows fun _ => False)
    (hargs : ∀ v ∈ args, v.Known (fun _ => False) m.store.instances.size)
    (hopen : openCall d.scope d.params args m = (.ok place, m₁))
    (hnew : openInstance d.params args m₁ = (.ok id, m₂)) :
    Building d place id (given d.params args) { m₂ with scope := place } := by
  have hscope := openCall_ok hopen
  have hmade := openInstance_ok hnew
  have laws := Regime.apart_laws (fun _ => False) setup
  have hcallee : (Regime.apart fun _ => False).value m.store (.struct d) := trivial
  have hopened := laws.evals_openCall (m := m) ⟨hs, fun _ h => h.elim⟩ hcallee rfl
    (fun (_ : Token) (_ : _ ∈ d.params) => trivial) hargs
  have hpairs : ∀ pair ∈ d.params.zip args,
      pair.2.Known (fun _ => False) m₁.store.instances.size := by
    intro pair hpair
    rw [hscope.instances]
    exact hargs _ (List.of_mem_zip hpair).2
  have hapart := Store.apart_newInstance (d.params.zip args) (hopened.of_ok hopen).1.inv.1 hpairs
  constructor
  · rfl
  · rw [hmade.scopes]
    exact hscope.there
  · rw [Store.kind?, hmade.scopes]
    exact hscope.kind
  · rw [Store.parent?, hmade.scopes]
    exact hscope.parent
  · intro name hname
    rw [Store.own?, hmade.scopes]
    exact (congrArg Option.isSome (hscope.own name)).trans (isSome_lastOf_iff.mpr hname)
  · exact hmade.field
  · obtain ⟨hid, hstore⟩ := Prod.mk.inj hnew
    obtain rfl := Except.ok.inj hid
    rw [← hstore]
    exact hapart

/-- An instance is out of reach of a job: no value in the store is this instance,
neither when the job begins nor when it ends, and no value that it begins or ends
with. -/
structure OutOfReach (setup : Setup) (id : InstanceId) (n : Nat) (job : Job) (m : Machine) :
    Prop where
  before : ∀ v ∈ m.store.values, ∀ d, v ≠ .inst id d
  inHand : ∀ v ∈ job.inHand, ∀ d, v ≠ .inst id d
  yields : ∀ v, job.Yields setup n m v → ∀ d, v ≠ .inst id d
  after : ∀ v ∈ (job.after setup n m).store.values, ∀ d, v ≠ .inst id d

theorem Value.Known.ne {id : InstanceId} {size : Nat} {v : Value} (h : v.Known (· = id) size)
    (d : StructDef) : v ≠ .inst id d := by
  rintro rfl
  exact h.2 rfl

theorem Regime.Fits.outOfReach {setup : Setup} {id : InstanceId} {job : Job} {m : Machine}
    (h : (Regime.apart (· = id)).Fits job m) (n : Nat) : OutOfReach setup id n job m := by
  have hdone := h.completes (Regime.apart_laws _ setup) Regime.apart_lasting n
  have hstore : ∀ s : Store, (Regime.apart (· = id)).inv s →
      ∀ v ∈ s.values, ∀ d, v ≠ .inst id d :=
    fun s hs v hv => (hs.1.of_mem_values (fun _ _ h => h) hv).ne
  constructor
  · exact hstore m.store h.inv
  · exact fun v hv => (h.inHand v hv).ne
  · exact fun v hv => (hdone.yields hv).ne
  · exact hstore _ hdone.reaches.inv

/-- How a call of a struct has made an instance.  The call began on the machine
`m` and ended on `m'`; `place` is the scope of the entries of the struct's body,
`first` the machine on which the first of them was evaluated, and `steps` are
the evaluations of all of them. -/
structure Constructed (setup : Setup) (d : StructDef) (args : List Value) (m : Machine)
    (id : InstanceId) (m' : Machine) (place : ScopeId) (first : Machine)
    (steps : List Evaluation) : Prop where
  -- The instance and the scope are new; the scope lies in the one of the struct,
  -- and at first it binds the parameters to their arguments.
  instance_new : id = m.store.instances.size
  scope_new : place = m.store.scopes.size
  scope_first (name : String) : first.store.own? place name = lastOf name (given d.params args)
  -- Each entry is evaluated once, in order, in that scope; parameters and entries
  -- that came before are bound there.
  entries : steps.map Evaluation.entry = d.body
  evaluated : ∃ last, Initialized setup id first steps last ∧ m'.store = last.store
  scope {before after : List Evaluation} {step : Evaluation}
    (h : steps = before ++ step :: after) :
    step.start.scope = place ∧ step.start.store.kind? place = some .function ∧
      step.start.store.parent? place = some d.scope ∧
      ∀ name ∈ d.params.map Token.lexeme ++ before.map (fun earlier => earlier.binding.1),
        (step.start.store.own? place name).isSome
  -- The fields are the parameters and the entries, the last of each name.
  field (name : String) : m'.store.field? id name =
    (lastOf name (steps.map Evaluation.binding)).or (lastOf name (given d.params args))
  domain (name : String) : (m'.store.field? id name).isSome ↔
    name ∈ d.params.map Token.lexeme ∨ name ∈ d.body.map fun entry => entry.name.lexeme
  -- Nothing that is done meanwhile gets at the instance.
  hidden {step : Evaluation} (h : step ∈ steps) {k : Nat} {job : Job} {m₁ : Machine}
    (hinside : Inside setup step.fuel (.expr step.entry.value) step.start k job m₁) :
    OutOfReach setup id k job m₁

/-- What a successful call of a struct consists of. -/
theorem enterStruct_ok {d : StructDef} {args : List Value} {x : InstanceId → Run Stop Unit}
    {v : Value} {m m' : Machine} (h : enterStruct d args x m = (.ok v, m')) :
    ∃ place m₁ id m₂ m₃, openCall d.scope d.params args m = (.ok place, m₁) ∧
      openInstance d.params args m₁ = (.ok id, m₂) ∧
      x id { m₂ with scope := place } = (.ok (), m₃) ∧ v = .inst id d ∧
      m' = { m₃ with scope := m₂.scope } := by
  obtain ⟨place, m₁, hopen⟩ :
      ∃ place m₁, openCall d.scope d.params args m = (.ok place, m₁) := ⟨_, _, rfl⟩
  obtain ⟨id, m₂, hnew⟩ : ∃ id m₂, openInstance d.params args m₁ = (.ok id, m₂) := ⟨_, _, rfl⟩
  rw [enterStruct, Run.bind_of_ok hopen, Run.bind_of_ok hnew] at h
  rcases hx : x id { m₂ with scope := place } with ⟨stop | _, m₃⟩
  · have hstop : Run.inScope place (x id) m₂ = (.error stop, { m₃ with scope := m₂.scope }) := by
      rw [Run.inScope, hx]
    rw [Run.bind_of_error hstop] at h
    cases h
  · have hdone : Run.inScope place (x id) m₂ = (.ok (), { m₃ with scope := m₂.scope }) := by
      rw [Run.inScope, hx]
    rw [Run.bind_of_ok hdone] at h
    obtain ⟨hvalue, rfl⟩ := Prod.mk.inj h
    exact ⟨place, m₁, id, m₂, m₃, hopen, hnew, hx, (Except.ok.inj hvalue).symm, rfl⟩

/-- What a value refers to exists. -/
theorem Value.known_of_lt {v : Value} {size : Nat} (h : ∀ id d, v = .inst id d → id < size) :
    v.Known (fun _ => False) size := by
  cases v with
  | inst id d => exact ⟨h id d rfl, not_false⟩
  | _ => exact trivial

theorem Store.knows_of_values {s : Store}
    (h : ∀ v ∈ s.values, ∀ id d, v = .inst id d → id < s.instances.size) :
    s.Knows fun _ => False := by
  have hany : s.Holds (fun _ _ => True) fun _ => True :=
    ⟨fun _ _ _ _ => trivial, fun _ _ _ _ => trivial⟩
  exact hany.imp (fun _ v hv _ => Value.known_of_lt (h v hv)) fun v hv _ =>
    Value.known_of_lt (h v hv)

/-- If a call of a struct has a value, then this is a new instance of the struct,
made as the struct tells, and nobody gets hold of it before.  The instances that
the store and the arguments refer to have to exist; in a session they do
(`Session.Does.exists_instance`). -/
theorem call_struct_constructs (setup : Setup) (n : Nat) (d : StructDef) (args : List Value)
    (bracket : Token) (m : Machine)
    (hexist : ∀ v ∈ m.store.values ++ args, ∀ id d', v = .inst id d' →
      id < m.store.instances.size)
    {v : Value} {m' : Machine} (h : call setup n (.struct d) args bracket m = (.ok v, m')) :
    ∃ id place first steps,
      v = .inst id d ∧ Constructed setup d args m id m' place first steps := by
  obtain ⟨hstore, hargs⟩ := List.forall_mem_append.mp hexist
  obtain ⟨k, m₁, rfl, harity, -, -, hinvoke, rfl⟩ := call_ok h
  have fits : args.length = d.params.length := (Option.some.inj harity).symm
  obtain ⟨place, m₂, id, m₃, m₄, hopen, hnew, hfields, rfl, rfl⟩ := enterStruct_ok hinvoke
  have hknown := fun v hv => Value.known_of_lt (hargs v hv)
  have hscope := openCall_ok hopen
  have hmade := openInstance_ok hnew
  have hbuilding := Building.start (m := m.called (.struct d)) setup
    (Store.knows_of_values hstore) hknown hopen hnew
  obtain ⟨steps, hentries, hsteps⟩ := initFields_ok hfields
  obtain ⟨hbefore, hlast⟩ := hbuilding.initialized hsteps
  have hnames : steps.map (fun step => step.binding.1) =
      d.body.map fun entry => entry.name.lexeme := by
    rw [← hentries, List.map_map]
    rfl
  refine ⟨id, place, { m₃ with scope := place }, steps, rfl, ?_⟩
  constructor
  · exact hmade.id_eq.trans (congrArg Array.size hscope.instances)
  · exact hscope.place_eq
  · intro name
    rw [Store.own?, hmade.scopes]
    exact hscope.own name
  · exact hentries
  · exact ⟨m₄, hsteps, rfl⟩
  · intro before after step hsplit
    have hstep := hbefore before step after hsplit
    refine ⟨hstep.scope, hstep.kind, hstep.parent, fun name hname => hstep.bound ?_⟩
    simpa [map_fst_given fits, Function.comp_def] using hname
  · intro name
    rw [← lastOf_append]
    exact hlast.field name
  · intro name
    show (m₄.store.field? id name).isSome ↔ _
    rw [hlast.field name, isSome_lastOf_iff, List.map_append, List.mem_append,
      map_fst_given fits, List.map_map, ← hnames]
    rfl
  · intro step hmem k job m₁ hinside
    obtain ⟨before, after, hsplit⟩ := List.append_of_mem hmem
    have hfits := (hbefore before step after hsplit).fits step.entry.value
    exact (hinside.fits (Regime.apart_laws _ setup) Regime.apart_lasting hfits).outOfReach k

theorem eq_ok_of_isOk {out : Except Stop Value × Machine} (h : out.1.isOk = true) :
    ∃ v, out = (.ok v, out.2) := by
  obtain ⟨_ | v, m⟩ := out
  · cases h
  · exact ⟨v, rfl⟩

/-- A struct with a parameter twice, and an entry of the same name after one that
reads it. -/
def repeatedNames : StructDef :=
  let a : Token := ⟨.identifier, "a", none, 1⟩
  let b : Token := ⟨.identifier, "b", none, 1⟩
  ⟨0, [a, a], [⟨b, .variable a⟩, ⟨a, .literal (.bool true)⟩], 0⟩

/-- A call of it on a new machine. -/
def repeatedCall : Except Stop Value × Machine :=
  call Session.bareOptions.setup 5 (.struct repeatedNames) [.bool true, .null] (.eof 1)
    (Machine.start (.ofInput [] none))

/-- The second argument wins over the first, and the entry over both. -/
theorem call_struct_constructs_repeated :
    let m := Machine.start (.ofInput [] none)
    (∀ v ∈ m.store.values ++ [.bool true, .null], ∀ id d, v = .inst id d →
        id < m.store.instances.size) ∧
      (repeatedCall.2.store.field? 0 "a").map Value.display = some "true" ∧
      (repeatedCall.2.store.field? 0 "b").map Value.display = some "null" ∧
      ∃ v, repeatedCall = (.ok v, repeatedCall.2) ∧
        ∃ id place first steps, v = .inst id repeatedNames ∧
          Constructed Session.bareOptions.setup repeatedNames [.bool true, .null] m id
            repeatedCall.2 place first steps := by
  intro m
  have hexist : ∀ v ∈ m.store.values ++ [.bool true, .null], ∀ id d, v = .inst id d →
      id < m.store.instances.size := by
    have hvalues : m.store.values ++ [.bool true, .null] =
        [.native .clock, .native .print, .bool true, .null] := rfl
    rw [hvalues]
    rintro v hv id d rfl
    simp at hv
  have hok : repeatedCall.1.isOk = true := by decide +kernel
  obtain ⟨v, hcall⟩ := eq_ok_of_isOk hok
  exact ⟨hexist, by decide +kernel, by decide +kernel, v, hcall,
    call_struct_constructs _ 5 _ _ _ m hexist hcall⟩

namespace Session

/-- The instances that a job of a session has to do with exist. -/
theorem Does.exists_instance {options : SessionOptions} {console : Console}
    {names : List String} {last : Machine} {n : Nat} {job : Job} {m : Machine}
    (h : Does options (start console names) last n job m) :
    ∀ v ∈ m.store.values ++ job.inHand, ∀ id d, v = .inst id d →
      id < m.store.instances.size := by
  have hstart : (Regime.apart fun _ => False).Rests (start console names) := by
    have hclock : (Store.empty.define 0 "clock" (.native .clock)).Knows fun _ => False :=
      Store.holds_empty.define 0 trivial
    exact ⟨⟨hclock.define 0 trivial, fun _ h => h.elim⟩, trivial, rfl⟩
  have hadmits : ∀ fuel source, (Regime.apart fun _ => False).Admits fuel source :=
    fun _ _ _ _ _ _ => ⟨fun s _ => s.everyNode_any false, trivial⟩
  have hfits := h.fits (Regime.apart_laws _ options.setup) hadmits Regime.apart_lasting hstart
  rintro v hv id d rfl
  rcases List.mem_append.mp hv with hv | hv
  · exact (hfits.inv.1.of_mem_values (fun _ _ hknown => hknown) hv).1
  · exact (hfits.inHand _ hv).1

end Session

end BracketScript
