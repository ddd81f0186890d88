import BracketScript.Proofs.Eval.Lines

/-!
# Inner steps

Most steps of evaluation concern the program's own state: they look at the store,
the current scope and the number of clock readings alone, and change the store
and that number at most (`Run.Inner`).  What remains are the steps that print,
read a line, answer a request to stop or write to the log.
-/

namespace BracketScript

/-- A computation on the store, in a scope, with a number of clock readings. -/
def Run.Inner {ε α : Type} (p : Run ε α) : Prop :=
  ∃ f : Store → ScopeId → Nat → Except ε α × Store × Nat, ∀ m, p m =
    ((f m.store m.scope m.readings).1,
      { m with
        store := (f m.store m.scope m.readings).2.1
        readings := (f m.store m.scope m.readings).2.2 })

namespace Run.Inner

variable {ε α β : Type}

theorem log_eq {p : Run ε α} (h : p.Inner) (m : Machine) : (p m).2.log = m.log := by
  obtain ⟨f, hf⟩ := h
  rw [hf]

theorem atScope (f : Store → ScopeId → Except ε α × Store) : (Run.atScope f).Inner :=
  ⟨fun store scope readings => ((f store scope).1, (f store scope).2, readings), fun _ => rfl⟩

theorem pure (a : α) : (pure a : Run ε α).Inner :=
  atScope fun store _ => (.ok a, store)

theorem stop (e : ε) : (Run.stop e : Run ε α).Inner :=
  atScope fun store _ => (.error e, store)

theorem raise (t : Token) (fault : RuntimeFault) : (Run.raise t fault : Run Stop α).Inner :=
  stop _

theorem bind {p : Run ε α} {k : α → Run ε β} (hp : p.Inner) (hk : ∀ a, (k a).Inner) :
    (p >>= k).Inner := by
  obtain ⟨f, hf⟩ := hp
  choose g hg using hk
  refine ⟨fun store scope readings =>
    match f store scope readings with
    | (.ok a, store, readings) => g a store scope readings
    | (.error e, store, readings) => (.error e, store, readings), fun m => ?_⟩
  have hfirst := hf m
  dsimp only
  generalize f m.store m.scope m.readings = first at hfirst ⊢
  rcases first with ⟨e | a, store, readings⟩
  · rw [Run.bind_of_error hfirst]
  · rw [Run.bind_of_ok hfirst, hg]

theorem lookup (t : Token) : (Run.lookup t).Inner := by
  rw [Run.lookup_eq_atScope]
  exact atScope _

theorem define (name : String) (v : Value) : (Run.define name v : Run ε Unit).Inner :=
  atScope fun store scope => (.ok (), store.define scope name v)

theorem setField (id : InstanceId) (name : String) (v : Value) :
    (Run.update fun m => { m with store := m.store.setField id name v } : Run ε Unit).Inner :=
  atScope fun store _ => (.ok (), store.setField id name v)

theorem assignTo (target : Target) (v : Value) : (assignTo target v).Inner := by
  cases target with
  | «variable» name => exact atScope fun store scope => (.ok (), store.assign scope name.lexeme v)
  | selfField keyword name =>
      apply bind (lookup keyword)
      intro object
      cases object with
      | inst id definition => exact setField id _ v
      | _ => exact raise name .noFields

theorem orRaise (t : Token) (r : Except RuntimeFault Value) : (orRaise t r).Inner := by
  cases r with
  | ok v => exact pure v
  | error fault => exact raise t fault

theorem readAttribute (object : Value) (name : Token) : (readAttribute object name).Inner := by
  cases object with
  | inst id definition =>
      rw [readAttribute_inst]
      exact atScope _
  | module g =>
      rw [readAttribute_module]
      cases g.member? name.lexeme with
      | some v => exact pure v
      | none => exact raise name _
  | _ => exact raise name .noAttributes

theorem makeFunction (params : List Token) (body : List Stmt) :
    (makeFunction params body).Inner :=
  atScope fun store scope =>
    (.ok (Value.func ⟨store.freshId.1, params, body, scope⟩), store.freshId.2)

theorem makeStruct (params : List Token) (body : List FieldInit) :
    (makeStruct params body).Inner :=
  atScope fun store scope =>
    (.ok (Value.struct ⟨store.freshId.1, params, body, scope⟩), store.freshId.2)

theorem importMembers (g : Module) (names : List Token) : (importMembers g names).Inner := by
  induction names with
  | nil => exact pure ()
  | cons name names ih =>
      unfold BracketScript.importMembers
      cases g.member? name.lexeme with
      | some v => exact bind (define _ v) fun _ => ih
      | none => exact bind (raise name _) fun _ => ih

theorem openCall (outer : ScopeId) (params : List Token) (args : List Value) :
    (openCall outer params args).Inner := by
  rw [openCall_eq_atScope]
  exact atScope _

theorem openInstance (params : List Token) (args : List Value) :
    (openInstance params args).Inner := by
  rw [openInstance_eq_atScope]
  exact atScope _

theorem bindField (id : InstanceId) (name : Token) (v : Value) : (bindField id name v).Inner :=
  bind (define _ v) fun _ => setField id _ v

theorem readClock (setup : Setup) : (Native.readClock setup).Inner :=
  ⟨fun store _ readings => (.ok (setup.clock readings), store, readings + 1), fun _ => rfl⟩

theorem onNumber (name : String) (f : Float → Float) (t : Token) (v : Value) :
    (Native.onNumber name f t v).Inner := by
  cases v with
  | num x => exact pure _
  | _ => exact raise t _

theorem onNumbers (name : String) (f : Float → Float → Float) (t : Token) (v w : Value) :
    (Native.onNumbers name f t v w).Inner := by
  unfold Native.onNumbers
  split
  · exact pure _
  · exact raise t _

end Run.Inner

/-- A built-in function prints, reads a line, or is an inner step. -/
theorem Native.apply_cases (setup : Setup) (f : Native) (args : List Value) (t : Token) :
    (∃ v, Native.apply setup f args t = Native.printLine t v) ∨
      Native.apply setup f args t = Native.inputLine t ∨
      (Native.apply setup f args t).Inner := by
  have hclock : ∀ g : Moment → Value,
      (Native.readClock setup >>= fun moment => (pure (g moment) : Run Stop Value)).Inner :=
    fun _ => .bind (.readClock setup) fun _ => .pure _
  unfold Native.apply
  split
  case h_1 | h_2 | h_3 => exact Or.inr (Or.inr (hclock _))
  case h_4 => exact Or.inr (Or.inl rfl)
  case h_5 | h_6 => exact Or.inl ⟨_, rfl⟩
  case h_7 | h_8 | h_9 | h_10 => exact Or.inr (Or.inr (.onNumber _ _ t _))
  case h_11 | h_12 | h_13 => exact Or.inr (Or.inr (.onNumbers _ _ t _ _))
  case h_14 => exact Or.inr (Or.inr (.stop _))

end BracketScript
