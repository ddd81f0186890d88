import BracketScript.Proofs.Session.Receiver
import BracketScript.Proofs.Store.Ancestry

/-!
# All scopes of a session lead to its globals

Functions, structs, instances and methods refer to scopes, and scopes hold such
values, so the values of a session can refer to each other in circles.  The scopes
that are around each other cannot.  A scope is opened inside one that is there, and
it is never put elsewhere.  What values refer to is there as well, whenever it is
made and ever after, and this is all that new scopes are opened in
(`Store.Closed`).

So at any moment of a session all scopes lead to the one global scope, and a way
out stays the same for good (`Session.scopes_lead_to_globals`).
-/

namespace BracketScript

/-- The scope that a value refers to: where it was written, or where the struct of
an instance was.  A method refers to the scope in which it finds `self`. -/
def Value.scope? : Value → Option ScopeId
  | .func c => some c.scope
  | .struct d | .inst _ d => some d.scope
  | _ => none

/-- The value refers to none but the first `size` scopes. -/
def Value.Within (size : Nat) (v : Value) : Prop :=
  ∀ i, v.scope? = some i → i < size

theorem Value.Within.mono {size size' : Nat} {v : Value} (h : v.Within size)
    (hsize : size ≤ size') : v.Within size' :=
  fun i hi => Nat.lt_of_lt_of_le (h i hi) hsize

theorem Value.within_of_none {size : Nat} {v : Value} (h : v.scope? = none) : v.Within size := by
  intro i hi
  rw [h] at hi
  cases hi

theorem Value.within_of_eq {size : Nat} {scope : ScopeId} {v : Value} (h : v.scope? = some scope)
    (hscope : scope < size) : v.Within size := by
  intro i hi
  obtain rfl := Option.some.inj (h.symm.trans hi)
  exact hscope

/-- The members of modules do not refer to scopes. -/
theorem Value.scope?_member {g : Module} {name : String} {v : Value}
    (h : g.member? name = some v) : v.scope? = none := by
  have hmem := Allowance.mem_members h
  cases v with
  | func c => cases g <;> simp [Module.members] at hmem
  | struct d => cases g <;> simp [Module.members] at hmem
  | inst id d => cases g <;> simp [Module.members] at hmem
  | _ => rfl

theorem Value.scope?_of_home? {v : Value} {home : ScopeId} (h : v.home? = some home) :
    v.scope? = some home := by
  cases v with
  | func c => exact h
  | struct d => exact h
  | _ => cases h

/-! ### The regime -/

namespace Store

/-- All scopes lead to the global one, and all that is referred to is there. -/
structure Closed (s : Store) : Prop where
  founded : s.Founded
  holds : s.Holds (fun _ v => v.Within s.scopes.size) fun v => v.Within s.scopes.size

variable {s s' : Store}

theorem Closed.of_scopes_eq (h : s.Closed) (hscopes : s'.scopes = s.scopes)
    (hholds : s'.Holds (fun _ v => v.Within s.scopes.size) fun v => v.Within s.scopes.size) :
    s'.Closed := by
  refine ⟨h.founded.of_scopes_eq hscopes, ?_⟩
  rwa [hscopes]

theorem Closed.define (h : s.Closed) (scope : ScopeId) (name : String) {v : Value}
    (hv : v.Within s.scopes.size) : (s.define scope name v).Closed := by
  refine ⟨h.founded.define scope name v, ?_⟩
  rw [size_define]
  exact h.holds.define scope hv

theorem Closed.child (h : s.Closed) {outer : ScopeId} {kind : ScopeKind} (hkind : kind ≠ .global)
    (houter : outer < s.scopes.size) : (s.child outer kind).2.Closed := by
  have hsize := (Grows.child s outer kind).size
  refine ⟨h.founded.child hkind houter, ?_⟩
  exact (h.holds.child outer kind).imp (fun _ _ _ hv => hv.mono hsize) fun _ _ hv => hv.mono hsize

theorem Closed.freshId (h : s.Closed) : s.freshId.2.Closed :=
  h.of_scopes_eq rfl h.holds.freshId

end Store

/-- Runs that keep scopes and references in order. -/
def Regime.closed : Regime where
  law := .any
  bindable _ := True
  inv := Store.Closed
  place s scope := scope < s.scopes.size
  moves := Store.Grows
  value s v := v.Within s.scopes.size
  fault _ := True
  enough _ _ _ := True
  mayExhaust := True

open Store in
theorem Regime.closed_laws (setup : Setup) : Regime.closed.Laws setup where
  refl _ := .of_scopes_eq rfl
  trans := .trans
  mono h hv := hv.mono h.size
  stay h hscope := Nat.lt_of_lt_of_le hscope h.size
  exhausted _ := trivial
  part _ _ := trivial
  again _ _ := trivial
  functionBody _ _ _ := trivial
  structBody _ _ _ := trivial
  functionLaw _ t _ := t.everyNode_any true
  structLaw _ entry _ := ⟨entry.value.everyNode_any, trivial⟩
  functionParams _ _ _ := trivial
  structParams _ _ _ := trivial
  assigned _ := trivial
  moduleName _ := trivial
  memberName _ := trivial
  constant _ c := Value.within_of_none (by cases c <;> rfl)
  lookup h hv := h.holds.lookup hv
  field h hv := h.holds.field? hv
  inst _ hd := hd
  module _ _ := Value.within_of_none rfl
  member _ hv := Value.within_of_none (Value.scope?_member hv)
  foreseen _ := trivial
  unary _ _ := trivial
  binary _ _ := trivial
  self _ _ _ := .inr trivial
  define h _ _ hv := ⟨h.define _ _ hv, .define _ _ _ _⟩
  assign h _ _ hv := ⟨h.define _ _ hv, .define _ _ _ _⟩
  setField name h _ hv := ⟨h.of_scopes_eq rfl (h.holds.setField _ name hv), .of_scopes_eq rfl⟩
  newInstance h := ⟨h.of_scopes_eq rfl h.holds.newInstance, .of_scopes_eq rfl⟩
  newFunction h hscope _ := ⟨⟨h.freshId, .of_scopes_eq rfl⟩, Value.within_of_eq rfl hscope⟩
  newStruct h hscope _ := ⟨⟨h.freshId, .of_scopes_eq rfl⟩, Value.within_of_eq rfl hscope⟩
  openBlock h hscope := ⟨⟨h.child nofun hscope, .child _ _ _⟩, lt_size_child _ _ _⟩
  openInner h hv houter :=
    ⟨⟨h.child nofun (hv _ (Value.scope?_of_home? houter)), .child _ _ _⟩, lt_size_child _ _ _⟩
  bindMethod {s c id d} h hc hd := by
    have hopen : (s.child c.scope .block).2.Closed := h.child nofun (hc _ rfl)
    have hself : (Value.inst id d).Within (s.child c.scope .block).2.scopes.size :=
      Value.Within.mono hd (Grows.child s c.scope .block).size
    exact ⟨⟨(hopen.define s.scopes.size "self" hself).freshId, .method s c _⟩,
      Value.within_of_eq rfl (s.lt_size_method c _)⟩

/-! ### Moments of a session -/

/-- There is one global scope.  All scopes of the machine lead to it, and the
current scope and what the values refer to, those in the store and those in hand,
are among them. -/
structure Machine.Grounded (m : Machine) (inHand : List Value) : Prop where
  global (i : ScopeId) : m.store.kind? i = some .global ↔ i = 0
  scopes {i : ScopeId} (h : i < m.store.scopes.size) : ∃ way, m.store.WayOut i way
  current : ∃ way, m.store.WayOut m.scope way
  values {v : Value} (h : v ∈ m.store.values ++ inHand) {i : ScopeId} (hi : v.scope? = some i) :
    ∃ way, m.store.WayOut i way

theorem Machine.grounded {m : Machine} {inHand : List Value} (h : m.store.Closed)
    (hscope : m.scope < m.store.scopes.size)
    (hinHand : ∀ v ∈ inHand, v.Within m.store.scopes.size) : m.Grounded inHand := by
  have hscopes : ∀ i, i < m.store.scopes.size → ∃ way, m.store.WayOut i way := by
    intro i hi
    obtain ⟨way, hway⟩ := h.founded.exists_chain hi
    exact ⟨way, h.founded.wayOut hway⟩
  refine ⟨h.founded.global, fun {i} => hscopes i, hscopes m.scope hscope, fun {v} hv {i} hi => ?_⟩
  rcases List.mem_append.mp hv with hstored | hheld
  · exact hscopes i (h.holds.of_mem_values (fun _ _ hv => hv) hstored i hi)
  · exact hscopes i (hinHand v hheld i hi)

/-- A way out stays what it is. -/
theorem Store.WayOut.grows {s s' : Store} {i : ScopeId} {way : List ScopeId}
    (h : s.WayOut i way) (hs : s.Grows s') (hs' : s'.Closed) : s'.WayOut i way :=
  hs'.founded.wayOut (h.chain.grows hs)

namespace Session

theorem closed_admits (fuel : Nat) (source : String) : Regime.closed.Admits fuel source :=
  fun _ _ _ _ => ⟨fun s _ => s.everyNode_any false, trivial⟩

theorem closed_lasting : Regime.closed.Lasting where
  enough _ _ _ := trivial
  line _ := trivial

theorem closed_rests (console : Console) (names : List String) :
    Regime.closed.Rests (start console names) where
  inv := by
    have hempty : Store.empty.Closed := ⟨.empty, Store.holds_empty⟩
    have hclock : (Store.empty.define 0 "clock" (.native .clock)).Closed :=
      hempty.define 0 "clock" (Value.within_of_none rfl)
    exact hclock.define 0 "print" (Value.within_of_none rfl)
  place := Nat.zero_lt_one
  depth := rfl

section Moments

variable {options : SessionOptions} {console : Console} {names : List String}
variable {last m : Machine} {n : Nat} {job : Job}

theorem Runs.closed (h : Runs options (Session.start console names) m) : Regime.closed.Rests m :=
  h.rests (Regime.closed_laws options.setup) closed_admits (closed_rests console names)

theorem Does.closed (h : Does options (start console names) last n job m) :
    Regime.closed.Fits job m :=
  h.fits (Regime.closed_laws options.setup) closed_admits closed_lasting
    (closed_rests console names)

theorem Does.closed_after (h : Does options (start console names) last n job m) :
    Regime.closed.Completes options.setup n job m :=
  h.closed.completes (Regime.closed_laws options.setup) closed_lasting n

end Moments

/-- At all moments of a session, between units and wherever a job begins or ends
in one, however it ends, all scopes and all that is referred to lead to the one
global scope, through ever older scopes; names are looked for along this way, the
global scope last.  From the beginning of a job on, the ways out of the scopes that
are there stay what they are: throughout the job and to the end of the session. -/
theorem scopes_lead_to_globals (options : SessionOptions) (console : Console)
    (names : List String) :
    (∀ m, Runs options (start console names) m → m.Grounded [] ∧
      ∀ fuel source v, (runSource options fuel source m).1 = .ok v →
        (runSource options fuel source m).2.Grounded [v]) ∧
    ∀ last n job m, Does options (start console names) last n job m →
      m.Grounded job.inHand ∧
      (∀ vs, (∀ v ∈ vs, job.Yields options.setup n m v) →
        (job.after options.setup n m).Grounded vs) ∧
      ∀ i way, m.store.WayOut i way → last.store.WayOut i way ∧
        ∀ k job' m', Inside options.setup n job m k job' m' →
          m'.store.WayOut i way ∧ (job'.after options.setup k m').store.WayOut i way := by
  have laws := Regime.closed_laws options.setup
  constructor
  · intro m hruns
    have hrests := hruns.closed
    refine ⟨Machine.grounded hrests.inv hrests.place (List.forall_mem_nil _), ?_⟩
    intro fuel source v hv
    have hunit := laws.keeps_runSource hrests (closed_admits fuel source)
    refine Machine.grounded hunit.reaches.inv (hunit.reaches.place laws hrests.place) ?_
    rw [List.forall_mem_singleton]
    exact hunit.ok hv
  · intro last n job m hdoes
    have hfits := hdoes.closed
    have hdone := hdoes.closed_after
    refine ⟨Machine.grounded hfits.inv hfits.place hfits.inHand, ?_, ?_⟩
    · intro vs hvs
      exact Machine.grounded hdone.reaches.inv (hdone.reaches.place laws hfits.place)
        fun v hv => hdone.yields (hvs v hv)
    · intro i way hway
      have hmoves := hdoes.moves laws closed_admits closed_lasting (closed_rests console names)
      refine ⟨hway.grows hmoves hdoes.runs.closed.inv, ?_⟩
      intro k job' m' hinside
      have hfits' := hinside.fits laws closed_lasting hfits
      have hbegin := hway.grows (hinside.moves laws closed_lasting hfits) hfits'.inv
      have hend := (hfits'.completes laws closed_lasting k).reaches
      exact ⟨hbegin, hbegin.grows hend.moves hend.inv⟩

/-- A method of one instance is passed to another one and read from it again, so it
refers to a scope inside the one that the first reading opened; then the unit fails. -/
def readTwice : Except Failure Value × Machine :=
  runSource bareOptions 17 "x := [struct [f]][[struct [f]][func [] [self;]] f] f; y;"
    (start (.ofInput [] none) [])

theorem readTwice_scopes :
    readTwice.1.isOk = false ∧ 4 ∈ readTwice.2.store.values.filterMap Value.scope? ∧
      [4, 2, 0].map readTwice.2.store.parent? = [some 2, some 0, none] ∧
      0 < readTwice.2.store.scopes.size := by
  decide +kernel

/-- All is in order behind this failure, and while such a method is called. -/
theorem scopes_lead_to_globals_rebound :
    let source := "x := [struct [f]][[struct [f]][func [] [self;]] f] f[];"
    let first := start (.ofInput [] none) []
    let last := (runSource bareOptions 17 source first).2
    readTwice.1.isOk = false ∧ 4 ∈ readTwice.2.store.values.filterMap Value.scope? ∧
      readTwice.2.store.WayOut 4 [4, 2, 0] ∧
      ∃ n job m, Does bareOptions first last n job m ∧ m.Grounded job.inHand ∧
        (job.after bareOptions.setup n m).Grounded [] := by
  intro source first last
  obtain ⟨hunits, hjobs⟩ := scopes_lead_to_globals bareOptions (.ofInput [] none) []
  obtain ⟨hfailed, hrefers, hparents, hthere⟩ := readTwice_scopes
  refine ⟨hfailed, hrefers, ?_, ?_⟩
  · simp only [List.map_cons, List.map_nil, List.cons.injEq] at hparents
    obtain ⟨hfourth, hsecond, hzeroth, -⟩ := hparents
    have hchain : readTwice.2.store.Chain 4 [4, 2, 0] :=
      .inside hfourth (.inside hsecond (.outermost hthere hzeroth))
    obtain ⟨v, hv, hscope⟩ := List.mem_filterMap.mp hrefers
    have hgrounded := (hunits readTwice.2 (.unit 17 _ .start)).1
    obtain ⟨way, hway⟩ := hgrounded.values (List.mem_append_left [] hv) hscope
    rwa [hchain.unique hway.chain]
  · have hsource : callsMethod bareOptions 12 first source = true := by decide +kernel
    obtain ⟨e, t, bracket, -, -, -, -, m, -, hcall, -⟩ := exists_of_callsMethod rfl hsource
    obtain ⟨hbegin, hend, -⟩ := hjobs last _ _ m hcall
    exact ⟨_, _, m, hcall, hbegin, hend [] (List.forall_mem_nil _)⟩

end Session

end BracketScript
