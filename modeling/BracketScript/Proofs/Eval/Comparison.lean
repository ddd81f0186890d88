import BracketScript.Proofs.Eval.Inner

/-!
# One program in different surroundings

A program meets the world where it prints, where it reads a line and where it is
asked to stop.  Everything else that a machine holds is the program's own, and
no step looks at both.  So two runs of one program in different surroundings do
the same for as long as the world answers them alike.  Then they may part: the
second stops, and the first goes on alone.

A `Comparison` says what is to be seen of the two surroundings before and after
that, and `Follows` what it means that one computation follows another in this
sense.  All that has to be shown are the three steps that meet the world
(`Comparison.Laws`); from them it follows for whole programs
(`Comparison.Laws.execAll`).  The second run may have more fuel than the first,
and a greater limit of depth if nothing is asked of runs that exceed theirs.
-/

namespace BracketScript

/-- What lies around a program: its streams, and whether it has been asked to
stop. -/
structure Surroundings where
  console : Console
  interrupted : Bool

namespace Machine

/-- The surroundings of the program that runs on a machine. -/
def surroundings (m : Machine) : Surroundings :=
  ⟨m.console, m.interrupted⟩

/-- The machine in other surroundings. -/
def within (m : Machine) (s : Surroundings) : Machine :=
  { m with console := s.console, interrupted := s.interrupted }

@[simp] theorem within_surroundings (m : Machine) : m.within m.surroundings = m :=
  rfl

end Machine

/-- The reason for ending early, unless it is a `return`. -/
def Unwind.stop? : Unwind → Option Stop
  | .returned _ => none
  | .stopped s => some s

/-- How a run is compared with a second one in other surroundings. -/
structure Comparison where
  /-- The surroundings for as long as the runs do the same. -/
  together : Surroundings → Surroundings → Prop
  /-- The surroundings once the second run has stopped for some reason, with the
  first going on. -/
  parted : Stop → Surroundings → Surroundings → Prop
  /-- What running does to the surroundings of the first. -/
  onward : Surroundings → Surroundings → Prop
  /-- Ends of the first run of which nothing is asked. -/
  lost : Stop → Prop
  onward_refl (s : Surroundings) : onward s s
  onward_trans {s s' s'' : Surroundings} (h : onward s s') (h' : onward s' s'') : onward s s''
  parted_onward {reason : Stop} {s s' u : Surroundings} (h : parted reason s u)
    (h' : onward s s') : parted reason s' u

namespace Comparison

/-- The first run ends in a way of which nothing is asked. -/
def Lost {ε α : Type} (C : Comparison) (stop? : ε → Option Stop) : Except ε α → Prop
  | .ok _ => False
  | .error e => ∃ s, stop? e = some s ∧ C.lost s

/-- What comes of two runs: both have ended in the same way and on machines that
are the same but for their surroundings, or the second has stopped before. -/
inductive Outcome {ε α : Type} (C : Comparison) (stop? : ε → Option Stop) (R : α → α → Prop) :
    Except ε α × Machine → Except ε α × Machine → Prop
  | together {r r' : Except ε α} {m : Machine} {s : Surroundings} (ends : Ends id R r r')
    (h : C.together m.surroundings s) : Outcome C stop? R (r, m) (r', m.within s)
  | parted {r : Except ε α} {m m' : Machine} {e : ε} {reason : Stop} (he : stop? e = some reason)
    (h : C.parted reason m.surroundings m'.surroundings) : Outcome C stop? R (r, m) (.error e, m')

/-- The second computation does the same as the first in other surroundings, up
to where they part. -/
structure Follows {ε α : Type} (C : Comparison) (stop? : ε → Option Stop) (R : α → α → Prop)
    (p q : Run ε α) : Prop where
  onward (m : Machine) : C.onward m.surroundings (p m).2.surroundings
  total {m : Machine} {a : α} (h : (p m).1 = .ok a) : ∃ b, R a b
  follow {m : Machine} {s : Surroundings} (h : C.together m.surroundings s)
    (hends : ¬C.Lost stop? (p m).1) : C.Outcome stop? R (p m) (q (m.within s))

end Comparison

/-! ### Steps that do not meet the world -/

/-- A computation that neither looks at the surroundings nor changes them. -/
structure Run.Aloof {ε α : Type} (p : Run ε α) : Prop where
  within (m : Machine) (s : Surroundings) : p (m.within s) = ((p m).1, (p m).2.within s)
  surroundings (m : Machine) : (p m).2.surroundings = m.surroundings

namespace Run.Aloof

variable {ε α β : Type}

theorem note (event : Event) : (Run.note event : Run ε Unit).Aloof :=
  ⟨fun _ _ => rfl, fun _ => rfl⟩

theorem depth : (Run.get Machine.depth : Run ε Nat).Aloof :=
  ⟨fun _ _ => rfl, fun _ => rfl⟩

end Run.Aloof

theorem Run.Inner.aloof {ε α : Type} {p : Run ε α} (h : p.Inner) : p.Aloof := by
  obtain ⟨f, hf⟩ := h
  constructor
  · intro m s
    rw [hf, hf]
    rfl
  · intro m
    rw [hf]
    rfl

namespace Comparison

/-! ### Computations in general -/

namespace Follows

variable {C : Comparison} {ε α β : Type} {stop? : ε → Option Stop}
variable {R : α → α → Prop} {T : β → β → Prop} {p q : Run ε α}

theorem pure {a b : α} (h : R a b) : C.Follows stop? R (pure a : Run ε α) (pure b) where
  onward _ := C.onward_refl _
  total hok := ⟨b, Except.ok.inj hok ▸ h⟩
  follow halike _ := .together (.ok h) halike

theorem stop (e : ε) : C.Follows stop? R (Run.stop e : Run ε α) (Run.stop e) where
  onward _ := C.onward_refl _
  total hok := by cases hok
  follow halike _ := .together (.error rfl) halike

/-- A run of which nothing is asked is followed by all. -/
theorem of_lost {e : ε} {s : Stop} (he : stop? e = some s) (hs : C.lost s) (q : Run ε α) :
    C.Follows stop? R (Run.stop e : Run ε α) q where
  onward _ := C.onward_refl _
  total hok := by cases hok
  follow _ hends := absurd ⟨s, he, hs⟩ hends

theorem aloof (hp : p.Aloof) : C.Follows stop? Eq p p where
  onward m := by
    rw [hp.surroundings m]
    exact C.onward_refl _
  total {_ a} _ := ⟨a, rfl⟩
  follow {m s} halike _ := by
    have hafter : C.together (p m).2.surroundings s := by
      rw [hp.surroundings m]
      exact halike
    rw [hp.within m s]
    refine .together ?_ hafter
    cases (p m).1 with
    | error e => exact .error rfl
    | ok a => exact .ok rfl

theorem inner (hp : p.Inner) : C.Follows stop? Eq p p :=
  aloof hp.aloof

theorem bind {k l : α → Run ε β} (hp : C.Follows stop? R p q)
    (hk : ∀ a b, R a b → C.Follows stop? T (k a) (l b)) :
    C.Follows stop? T (p >>= k) (q >>= l) where
  onward m := by
    have hfirst := hp.onward m
    rcases hpm : p m with ⟨e | a, m₁⟩ <;> rw [hpm] at hfirst
    · rw [Run.bind_of_error hpm]
      exact hfirst
    · obtain ⟨b, hab⟩ := hp.total (m := m) (by rw [hpm])
      rw [Run.bind_of_ok hpm]
      exact C.onward_trans hfirst ((hk a b hab).onward m₁)
  total {m c} hok := by
    rcases hpm : p m with ⟨e | a, m₁⟩
    · rw [Run.bind_of_error hpm] at hok
      cases hok
    · obtain ⟨b, hab⟩ := hp.total (m := m) (by rw [hpm])
      rw [Run.bind_of_ok hpm] at hok
      exact (hk a b hab).total hok
  follow {m s} halike hends := by
    have hfirst := hp.follow halike
    rcases hpm : p m with ⟨e | a, m₁⟩ <;> rcases hqm : q (m.within s) with ⟨r', m₂⟩ <;>
      rw [hpm, hqm] at hfirst
    · rw [Run.bind_of_error hpm] at hends ⊢
      cases hfirst hends with
      | together hend hnow =>
          cases hend with
          | error he =>
              rw [Run.bind_of_error hqm]
              exact .together (.error he) hnow
      | parted he hapart =>
          rw [Run.bind_of_error hqm]
          exact .parted he hapart
    · rw [Run.bind_of_ok hpm] at hends ⊢
      cases hfirst id with
      | together hend hnow =>
          cases hend with
          | ok hab =>
              rw [Run.bind_of_ok hqm]
              exact (hk a _ hab).follow hnow hends
      | parted he hapart =>
          -- The first run goes on alone.
          obtain ⟨b, hab⟩ := hp.total (m := m) (by rw [hpm])
          rw [Run.bind_of_error hqm]
          exact .parted he (C.parted_onward hapart ((hk a b hab).onward m₁))

/-- Computations whose ends are taken for other ends. -/
theorem mapEnd {ε' : Type} {stop?' : ε' → Option Stop} {g : Except ε α → Except ε' β}
    {x y : Run ε' β} (hp : C.Follows stop? R p q) (hx : ∀ m, x m = (g (p m).1, (p m).2))
    (hy : ∀ m, y m = (g (q m).1, (q m).2))
    (hstop : ∀ e s, stop? e = some s → ∃ e', g (.error e) = .error e' ∧ stop?' e' = some s)
    (htotal : ∀ r c, g r = .ok c → (∀ a, r = .ok a → ∃ b, R a b) → ∃ d, T c d)
    (hends : ∀ r r', Ends id R r r' → Ends id T (g r) (g r')) : C.Follows stop?' T x y where
  onward m := by
    rw [hx]
    exact hp.onward m
  total {m c} hok := by
    rw [hx] at hok
    exact htotal _ c hok fun a ha => hp.total ha
  follow {m s} halike hkept := by
    rw [hx] at hkept ⊢
    rw [hy]
    have hinside : ¬C.Lost stop? (p m).1 := by
      intro hlost
      apply hkept
      cases hpm : (p m).1 with
      | ok a =>
          rw [hpm] at hlost
          exact hlost.elim
      | error e =>
          rw [hpm] at hlost
          obtain ⟨s, he, hs⟩ := hlost
          obtain ⟨e', hg, he'⟩ := hstop e s he
          rw [hg]
          exact ⟨s, he', hs⟩
    have hout := hp.follow halike hinside
    generalize p m = first, q (m.within s) = second at hout ⊢
    cases hout with
    | together hend hnow => exact .together (hends _ _ hend) hnow
    | parted he hapart =>
        obtain ⟨e', hg, he'⟩ := hstop _ _ he
        dsimp only
        rw [hg]
        exact .parted he' hapart

theorem inScope (hp : C.Follows stop? R p q) (scope : ScopeId) :
    C.Follows stop? R (Run.inScope scope p) (Run.inScope scope q) where
  onward m := hp.onward { m with scope := scope }
  total hok := hp.total hok
  follow {m s} halike hends := by
    have hout := hp.follow (m := { m with scope := scope }) halike hends
    show C.Outcome stop? R _ ((q (Machine.within { m with scope := scope } s)).1,
      { (q (Machine.within { m with scope := scope } s)).2 with scope := m.scope })
    unfold Run.inScope
    generalize p { m with scope := scope } = first,
      q (Machine.within { m with scope := scope } s) = second at hout ⊢
    cases hout with
    | @together _ _ m₁ _ hend hnow => exact .together (m := { m₁ with scope := m.scope }) hend hnow
    | parted he hapart => exact .parted he hapart

theorem deeper (hp : C.Follows stop? R p q) :
    C.Follows stop? R (Run.deeper p) (Run.deeper q) where
  onward m := hp.onward { m with depth := m.depth + 1 }
  total hok := hp.total hok
  follow {m s} halike hends := by
    have hout := hp.follow (m := { m with depth := m.depth + 1 }) halike hends
    show C.Outcome stop? R _ ((q (Machine.within { m with depth := m.depth + 1 } s)).1,
      { (q (Machine.within { m with depth := m.depth + 1 } s)).2 with
        depth := (q (Machine.within { m with depth := m.depth + 1 } s)).2.depth - 1 })
    unfold Run.deeper
    generalize p { m with depth := m.depth + 1 } = first,
      q (Machine.within { m with depth := m.depth + 1 } s) = second at hout ⊢
    cases hout with
    | @together _ _ m₁ _ hend hnow =>
        exact .together (m := { m₁ with depth := m₁.depth - 1 }) hend hnow
    | parted he hapart => exact .parted he hapart

theorem inBlock (hp : C.Follows stop? R p q) :
    C.Follows stop? R (Run.inBlock p) (Run.inBlock q) := by
  rw [Run.inBlock_eq_bind, Run.inBlock_eq_bind]
  apply bind (inner (.atScope _))
  rintro scope _ rfl
  exact hp.inScope scope

end Follows

variable {C : Comparison}

/-- An evaluation as a part of an execution. -/
theorem Follows.eval {α : Type} {R : α → α → Prop} {p q : Run Stop α}
    (hp : C.Follows some R p q) : C.Follows Unwind.stop? R (Run.eval p) (Run.eval q) := by
  apply hp.mapEnd p.eval_apply q.eval_apply
  · rintro e s he
    exact ⟨.stopped e, rfl, he⟩
  · intro r c hok htotal
    cases r with
    | error e => cases hok
    | ok a => exact htotal c (congrArg Except.ok (Except.ok.inj hok))
  · intro r r' hends
    cases hends with
    | ok h => exact .ok h
    | error h => exact .error (congrArg Unwind.stopped h)

/-- The execution of a body as an evaluation. -/
theorem Follows.body {p q : Run Unwind Value} (hp : C.Follows Unwind.stop? Eq p q) :
    C.Follows some Eq (Run.body p) (Run.body q) := by
  apply hp.mapEnd p.body_apply q.body_apply
  · intro e s he
    cases e with
    | returned v => cases he
    | stopped stop => exact ⟨stop, rfl, he⟩
  · exact fun _ c _ _ => ⟨c, rfl⟩
  · intro r r' hends
    cases hends with
    | ok h => exact .ok h
    | @error e e' h =>
        obtain rfl : e = e' := h
        cases e with
        | returned v => exact .ok rfl
        | stopped stop => exact .error rfl

theorem Follows.enterFunction {x y : Run Unwind Value} (c : Closure) (args : List Value)
    (hx : C.Follows Unwind.stop? Eq x y) :
    C.Follows some Eq (enterFunction c args x) (enterFunction c args y) := by
  apply Follows.bind (inner (.openCall _ _ _))
  rintro scope _ rfl
  exact (hx.inScope scope).body

theorem Follows.enterStruct {x y : InstanceId → Run Stop Unit} (d : StructDef)
    (args : List Value) (hx : ∀ id, C.Follows some Eq (x id) (y id)) :
    C.Follows some Eq (enterStruct d args x) (enterStruct d args y) := by
  apply Follows.bind (inner (.openCall _ _ _))
  rintro scope _ rfl
  apply Follows.bind (inner (.openInstance _ _))
  rintro id _ rfl
  apply Follows.bind ((hx id).inScope scope)
  intro _ _ _
  exact .pure rfl

end Comparison

/-! ### Whole programs -/

/-- The same setup with another limit of depth. -/
def Setup.withLimit (setup : Setup) (limit : Nat) : Setup :=
  { setup with maxDepth := limit }

namespace Comparison

theorem Follows.importModule {C : Comparison} (setup : Setup) (limit : Nat) (t : Token)
    (names : List Token) :
    C.Follows some Eq (importModule setup t names)
      (importModule (setup.withLimit limit) t names) := by
  show C.Follows some Eq _ (BracketScript.importModule setup t names)
  unfold BracketScript.importModule
  split
  · exact .stop _
  · split
    · exact .inner (.define _ _)
    · apply Follows.bind (.inner (.importMembers _ names))
      intro _ _ _
      exact .aloof (.note _)

/-- What has to be shown of a comparison: the steps that meet the world are
followed by themselves, nothing is asked of runs that are out of fuel, and the
limits of depth are the same unless nothing is asked of runs that exceed the
lower one. -/
structure Laws (C : Comparison) (setup : Setup) (limit : Nat) : Prop where
  poll (t : Token) : C.Follows some Eq (Run.poll t) (Run.poll t)
  printLine (t : Token) (v : Value) :
    C.Follows some Eq (Native.printLine t v) (Native.printLine t v)
  inputLine (t : Token) : C.Follows some Eq (Native.inputLine t) (Native.inputLine t)
  exhausted : C.lost .exhausted
  depth : limit = setup.maxDepth ∨
    setup.maxDepth ≤ limit ∧ ∀ line, C.lost (.error ⟨.stackOverflow, line⟩)

/-- Values are compared with themselves. -/
def relations (C : Comparison) : RunRelations where
  value := Eq
  field _ := True
  evals := C.Follows some
  execs := C.Follows Unwind.stop?

namespace Laws

variable {C : Comparison} {setup : Setup} {limit : Nat} (laws : C.Laws setup limit)

include laws in
theorem enterCall {x y : Run Stop Value} (callee : Value) (t : Token)
    (hx : C.Follows some Eq x y) :
    C.Follows some Eq (enterCall setup callee t x) (enterCall (setup.withLimit limit) callee t y) := by
  apply Follows.bind (.aloof .depth)
  rintro depth _ rfl
  have hinside : C.Follows some Eq
      (do Run.note (.called callee depth); Run.deeper x)
      (do Run.note (.called callee depth); Run.deeper y) := by
    apply Follows.bind (.aloof (.note _))
    intro _ _ _
    exact hx.deeper
  rcases laws.depth with rfl | ⟨hle, hlost⟩
  · show C.Follows some Eq _ (if setup.maxDepth ≤ depth then _ else _)
    split
    · exact .stop _
    · exact hinside
  · show C.Follows some Eq _ (if limit ≤ depth then _ else _)
    by_cases hdeep : setup.maxDepth ≤ depth
    · rw [if_pos hdeep]
      exact .of_lost rfl (hlost t.line) _
    · rw [if_neg hdeep, if_neg (by omega)]
      exact hinside

include laws in
theorem native (f : Native) (args : List Value) (t : Token) :
    C.Follows some Eq (Native.apply setup f args t)
      (Native.apply (setup.withLimit limit) f args t) := by
  show C.Follows some Eq _ (Native.apply setup f args t)
  rcases Native.apply_cases setup f args t with ⟨v, hprint⟩ | hinput | hinner
  · rw [hprint]
    exact laws.printLine t v
  · rw [hinput]
    exact laws.inputLine t
  · exact .inner hinner

include laws in
theorem evalSteps : EvalSteps id .any setup (setup.withLimit limit) C.relations where
  key_keepsText := keepsText_id
  evals_pure := .pure
  evals_bind := .bind
  evals_exhausted := .of_lost rfl laws.exhausted
  evals_raise := by
    rintro _ _ t _ rfl fault
    exact .stop _
  execs_pure := .pure
  execs_bind := .bind
  execs_exhausted := .of_lost rfl laws.exhausted
  execs_returned := by
    rintro _ _ v _ rfl
    exact .stop _
  execs_eval := .eval
  execs_block := .inBlock
  constant _ := rfl
  isTruthy h := by rw [h]
  isEqual h h' := by rw [h, h']
  arity h := by rw [h]
  name {t u} _ ht := by
    obtain rfl : t = u := ht
    exact .inner (.lookup t)
  self {t u} _ ht := by
    obtain rfl : t = u := ht
    exact .inner (.lookup t)
  assign {_ _ _ v w} _ htarget h := by
    rw [Target.mapTokens_id, Target.mapTokens_id] at htarget
    obtain rfl : v = w := h
    rw [htarget]
    exact .inner (.assignTo _ v)
  unary {t u _ v w} _ ht h := by
    obtain rfl : t = u := ht
    obtain rfl : v = w := h
    exact .inner (.orRaise t _)
  binary {t u _ _ v w v' w'} _ ht h h' := by
    obtain rfl : t = u := ht
    obtain rfl : v = w := h
    obtain rfl : v' = w' := h'
    exact .inner (.orRaise t _)
  member {t u _ v w} _ ht h := by
    obtain rfl : t = u := ht
    obtain rfl : v = w := h
    exact .inner (.readAttribute v t)
  function _ hparams hbody := by
    rw [List.map_id, List.map_id] at hparams
    rw [hparams, stmts_eq_of_mapTokens_id hbody]
    exact .inner (.makeFunction _ _)
  struct _ hparams hbody := by
    rw [List.map_id, List.map_id] at hparams
    rw [hparams, fields_eq_of_mapTokens_id hbody]
    exact .inner (.makeStruct _ _)
  poll {t u} ht := by
    obtain rfl : t = u := ht
    exact laws.poll t
  callFunction {c w args args' t u} h hargs ht _ := by
    rw [show C.relations.value = Eq from rfl, List.forall₂_eq_eq_eq] at hargs
    obtain rfl : t = u := ht
    refine ⟨c, h.symm, fun s _ => s.everyNode_any true, rfl, ?_⟩
    intro p q hpq
    rw [hargs]
    exact laws.enterCall _ t (.enterFunction c args' hpq)
  callStruct {d w args args' t u} h hargs ht _ := by
    rw [show C.relations.value = Eq from rfl, List.forall₂_eq_eq_eq] at hargs
    obtain rfl : t = u := ht
    refine ⟨d, h.symm, fun entry _ => ⟨entry.value.everyNode_any, trivial⟩, rfl, ?_⟩
    intro p q hpq
    rw [hargs]
    exact laws.enterCall _ t (.enterStruct d args' hpq)
  callNative {f w args args' t u} h hargs ht _ := by
    rw [show C.relations.value = Eq from rfl, List.forall₂_eq_eq_eq] at hargs
    obtain rfl : t = u := ht
    rw [hargs]
    exact ⟨h.symm, laws.enterCall _ t (laws.native f args' t)⟩
  bindField {t u v w} id _ ht h := by
    obtain rfl : t = u := ht
    obtain rfl : v = w := h
    exact .inner (.bindField id t v)
  importing {_ t u _ _} _ ht hnames := by
    rw [List.map_id, List.map_id] at hnames
    obtain rfl : t = u := ht
    rw [hnames]
    exact .importModule setup limit t _
  selected {t u} ht := by
    obtain rfl : t = u := ht
    exact .aloof (.note _)

include laws in
/-- Programs follow themselves, with more fuel. -/
theorem execAll {n k : Nat} (hk : n ≤ k) (ss : List Stmt) (v : Value) :
    C.Follows Unwind.stop? Eq (execAll setup n ss v) (execAll (setup.withLimit limit) k ss v) :=
  (laws.evalSteps.atFuel hk).execAll (fun s _ => s.everyNode_any false) rfl rfl

end Laws

/-! ### The same surroundings -/

/-- Runs in the same surroundings, with nothing asked of some ends. -/
def same (lost : Stop → Prop) : Comparison where
  together := Eq
  parted _ _ _ := False
  onward _ _ := True
  lost := lost
  onward_refl _ := trivial
  onward_trans _ _ := trivial
  parted_onward h _ := h

section Same

variable {lost : Stop → Prop} {ε α : Type} {stop? : ε → Option Stop}

theorem same_refl (p : Run ε α) : (same lost).Follows stop? Eq p p where
  onward _ := trivial
  total {_ a} _ := ⟨a, rfl⟩
  follow {m s} h _ := by
    obtain rfl : m.surroundings = s := h
    rw [Machine.within_surroundings]
    refine .together (s := (p m).2.surroundings) ?_ rfl
    cases (p m).1 with
    | error e => exact .error rfl
    | ok a => exact .ok rfl

theorem same_apply_eq {p q : Run ε α} (h : (same lost).Follows stop? Eq p q) {m : Machine}
    (hends : ¬(same lost).Lost stop? (p m).1) : q m = p m := by
  have hout := h.follow (s := m.surroundings) rfl hends
  rw [Machine.within_surroundings] at hout
  rcases hp : p m with ⟨r, m₁⟩
  rcases hq : q m with ⟨r', m₂⟩
  rw [hp, hq] at hout
  cases hout with
  | @together _ _ _ s hend hnow =>
      obtain rfl : m₁.surroundings = s := hnow
      cases hend with
      | ok heq => rw [heq, Machine.within_surroundings]
      | @error e e' heq => rw [show e = e' from heq, Machine.within_surroundings]
  | parted _ hapart => exact hapart.elim

theorem same_laws {setup : Setup} {limit : Nat} (hexhausted : lost .exhausted)
    (hdepth : limit = setup.maxDepth ∨
      setup.maxDepth ≤ limit ∧ ∀ line, lost (.error ⟨.stackOverflow, line⟩)) :
    (same lost).Laws setup limit where
  poll _ := same_refl _
  printLine _ _ := same_refl _
  inputLine _ := same_refl _
  exhausted := hexhausted
  depth := hdepth

end Same

end Comparison

end BracketScript
