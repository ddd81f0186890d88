import BracketScript.Proofs.Console
import BracketScript.Proofs.Eval.Agreement

/-!
# Evaluation does not see lines

Each step of evaluation agrees with the same step on other lines.  So do whole
evaluations and executions (`agrees_atFuel`), for programs and machines that
differ in lines only.
-/

namespace BracketScript

variable {shared : Bool}

theorem Token.lexeme_eq {t u : Token} (h : t.sansLine = u.sansLine) : t.lexeme = u.lexeme := by
  rw [← keepsText_sansLine.lexeme t, h, keepsText_sansLine.lexeme]

/-! ### Values that are alike -/

theorem Value.Alike.refl (v : Value) : v.Alike v :=
  rfl

theorem alike_isTruthy {v w : Value} (h : v.Alike w) : w.isTruthy = v.isTruthy := by
  rw [← Value.isTruthy_mapTokens (f := Token.sansLine) w, ← h, Value.isTruthy_mapTokens]

theorem alike_isEqual {v w v' w' : Value} (h : v.Alike w) (h' : v'.Alike w') :
    w.isEqual w' = v.isEqual v' := by
  rw [← Value.isEqual_mapTokens (f := Token.sansLine) w, ← h, ← h', Value.isEqual_mapTokens]

theorem alike_arity? {v w : Value} (h : v.Alike w) : w.arity? = v.arity? := by
  rw [← Value.arity?_mapTokens (f := Token.sansLine) w, ← h, Value.arity?_mapTokens]

theorem alike_display {v w : Value} (h : v.Alike w) : w.display = v.display := by
  rw [← Value.display_mapTokens keepsText_sansLine w, ← h,
    Value.display_mapTokens keepsText_sansLine]

theorem alike_func {c : Closure} {w : Value} (h : (Value.func c).Alike w) :
    ∃ c', w = .func c' ∧ c.mapTokens Token.sansLine = c'.mapTokens Token.sansLine := by
  cases w <;> simp only [Value.Alike, Value.mapTokens, reduceCtorEq, Value.func.injEq] at h
  exact ⟨_, rfl, h⟩

theorem alike_struct {d : StructDef} {w : Value} (h : (Value.struct d).Alike w) :
    ∃ d', w = .struct d' ∧ d.mapTokens Token.sansLine = d'.mapTokens Token.sansLine := by
  cases w <;> simp only [Value.Alike, Value.mapTokens, reduceCtorEq, Value.struct.injEq] at h
  exact ⟨_, rfl, h⟩

theorem alike_inst {id : InstanceId} {d : StructDef} {w : Value} (h : (Value.inst id d).Alike w) :
    ∃ d', w = .inst id d' ∧ d.mapTokens Token.sansLine = d'.mapTokens Token.sansLine := by
  cases w <;> simp only [Value.Alike, Value.mapTokens, reduceCtorEq, Value.inst.injEq] at h
  obtain ⟨rfl, h⟩ := h
  exact ⟨_, rfl, h⟩

/-! ### Reading and writing the store -/

theorem agrees_raise {α : Type} {R : α → α → Prop} (t u : Token) (fault : RuntimeFault) :
    EvalsAgree shared R (Run.raise t fault : Run Stop α) (Run.raise u fault) :=
  .stop rfl

theorem agrees_orRaise (t u : Token) {r r' : Except RuntimeFault Value}
    (h : r.map (Value.mapTokens Token.sansLine) = r'.map (Value.mapTokens Token.sansLine)) :
    EvalsAgree shared Value.Alike (orRaise t r) (orRaise u r') := by
  cases r <;> cases r' <;> simp only [Except.map, reduceCtorEq, Except.ok.injEq,
    Except.error.injEq] at h
  · rw [h]
    exact agrees_raise t u _
  · exact .pure h

theorem agrees_lookup {t u : Token} (ht : t.sansLine = u.sansLine) :
    EvalsAgree shared Value.Alike (Run.lookup t) (Run.lookup u) := by
  have hlexeme := Token.lexeme_eq ht
  rw [Run.lookup_eq_atScope, Run.lookup_eq_atScope, hlexeme]
  refine .atScope Value.Alike.refl fun store store' scope hstore => ⟨?_, hstore⟩
  have hfound := congrArg (fun s => Store.lookup s scope u.lexeme) hstore
  simp only [Store.lookup_mapTokens] at hfound
  cases h : store.lookup scope u.lexeme <;> cases h' : store'.lookup scope u.lexeme <;>
    simp only [h, h', Option.map_none, Option.map_some, reduceCtorEq, Option.some.injEq] at hfound
  · exact .error rfl
  · exact .ok hfound

theorem agrees_define {v w : Value} (name : String) (h : v.Alike w) :
    EvalsAgree shared Eq (Run.define name v) (Run.define name w) := by
  have hstep : ∀ v, (Run.define name v : Run Stop Unit) =
      Run.atScope fun store scope => (.ok (), store.define scope name v) := fun _ => rfl
  rw [hstep, hstep]
  refine .atScope (fun _ => rfl) fun store store' scope hstore => ⟨.ok rfl, ?_⟩
  rw [Store.Alike, Store.define_mapTokens, Store.define_mapTokens, hstore, h]

theorem agrees_assign {v w : Value} (name : String) (h : v.Alike w) :
    EvalsAgree shared Eq (Run.assign name v) (Run.assign name w) := by
  have hstep : ∀ v, (Run.assign name v : Run Stop Unit) =
      Run.atScope fun store scope => (.ok (), store.assign scope name v) := fun _ => rfl
  rw [hstep, hstep]
  refine .atScope (fun _ => rfl) fun store store' scope hstore => ⟨.ok rfl, ?_⟩
  rw [Store.Alike, Store.assign_mapTokens, Store.assign_mapTokens, hstore, h]

theorem agrees_setField {v w : Value} (id : InstanceId) (name : String) (h : v.Alike w) :
    EvalsAgree shared Eq (Run.update fun m => { m with store := m.store.setField id name v })
      (Run.update fun m => { m with store := m.store.setField id name w }) := by
  have hstep : ∀ v, (Run.update fun m => { m with store := m.store.setField id name v }) =
      (Run.atScope fun store _ => (.ok (), store.setField id name v) : Run Stop Unit) :=
    fun _ => rfl
  rw [hstep, hstep]
  refine .atScope (fun _ => rfl) fun store store' scope hstore => ⟨.ok rfl, ?_⟩
  rw [Store.Alike, Store.setField_mapTokens, Store.setField_mapTokens, hstore, h]

/-- Storing arguments under the names of parameters, one after the other. -/
theorem alike_foldl {g : Store → String → Value → Store}
    (hg : ∀ store name v, (g store name v).mapTokens Token.sansLine =
      g (store.mapTokens Token.sansLine) name (v.mapTokens Token.sansLine))
    {params params' : List Token} {args args' : List Value} {store store' : Store}
    (hparams : params.map Token.sansLine = params'.map Token.sansLine)
    (hargs : List.Forall₂ Value.Alike args args') (hstore : store.Alike store') :
    ((params.zip args).foldl (fun store pair => g store pair.1.lexeme pair.2) store).Alike
      ((params'.zip args').foldl (fun store pair => g store pair.1.lexeme pair.2) store') := by
  induction params generalizing params' args args' store store' with
  | nil =>
      obtain rfl := List.map_eq_nil_iff.mp hparams.symm
      exact hstore
  | cons t params ih =>
      obtain ⟨u, rest, rfl, ht, hrest⟩ := List.map_eq_cons_iff.mp hparams.symm
      cases hargs with
      | nil => exact hstore
      | cons hv hargs =>
          have hlexeme := Token.lexeme_eq ht.symm
          simp only [List.zip_cons_cons, List.foldl_cons]
          refine ih hrest.symm hargs ?_
          rw [Store.Alike, hg, hg, hstore, hlexeme, hv]

theorem agrees_openCall (outer : ScopeId) {params params' : List Token} {args args' : List Value}
    (hparams : params.map Token.sansLine = params'.map Token.sansLine)
    (hargs : List.Forall₂ Value.Alike args args') :
    EvalsAgree shared Eq (openCall outer params args) (openCall outer params' args') := by
  rw [openCall_eq_atScope, openCall_eq_atScope]
  refine .atScope (fun _ => rfl) fun store store' scope hstore => ?_
  have hchild := congrArg (fun s => Store.child s outer .function) hstore
  simp only [Store.child_mapTokens, Prod.mk.injEq] at hchild
  rw [hchild.1]
  refine ⟨.ok rfl, ?_⟩
  exact alike_foldl (g := fun s => s.define _) (fun s name v => s.define_mapTokens _ _ name v)
    hparams hargs hchild.2

theorem agrees_openInstance {params params' : List Token} {args args' : List Value}
    (hparams : params.map Token.sansLine = params'.map Token.sansLine)
    (hargs : List.Forall₂ Value.Alike args args') :
    EvalsAgree shared Eq (openInstance params args) (openInstance params' args') := by
  rw [openInstance_eq_atScope, openInstance_eq_atScope]
  refine .atScope (fun _ => rfl) fun store store' scope hstore => ?_
  have hnew := congrArg Store.newInstance hstore
  simp only [Store.newInstance_mapTokens, Prod.mk.injEq] at hnew
  rw [hnew.1]
  refine ⟨.ok rfl, ?_⟩
  exact alike_foldl (g := fun s => s.setField _) (fun s name v => s.setField_mapTokens _ _ name v)
    hparams hargs hnew.2

theorem agrees_makeFunction {params params' : List Token} {body body' : List Stmt}
    (hparams : params.map Token.sansLine = params'.map Token.sansLine)
    (hbody : body.map (Stmt.mapTokens Token.sansLine) =
      body'.map (Stmt.mapTokens Token.sansLine)) :
    EvalsAgree shared Value.Alike (makeFunction params body) (makeFunction params' body') := by
  have hstep : ∀ params body, makeFunction params body = Run.atScope fun store scope =>
      (.ok (.func ⟨store.freshId.1, params, body, scope⟩), store.freshId.2) := fun _ _ => rfl
  rw [hstep, hstep]
  refine .atScope Value.Alike.refl fun store store' scope hstore => ?_
  have hfresh := congrArg Store.freshId hstore
  simp only [Store.freshId_mapTokens, Prod.mk.injEq] at hfresh
  refine ⟨.ok ?_, hfresh.2⟩
  simp only [Value.Alike, Value.mapTokens, Closure.mapTokens, hfresh.1, hparams, hbody]

theorem agrees_makeStruct {params params' : List Token} {body body' : List FieldInit}
    (hparams : params.map Token.sansLine = params'.map Token.sansLine)
    (hbody : body.map (FieldInit.mapTokens Token.sansLine) =
      body'.map (FieldInit.mapTokens Token.sansLine)) :
    EvalsAgree shared Value.Alike (makeStruct params body) (makeStruct params' body') := by
  have hstep : ∀ params body, makeStruct params body = Run.atScope fun store scope =>
      (.ok (.struct ⟨store.freshId.1, params, body, scope⟩), store.freshId.2) := fun _ _ => rfl
  rw [hstep, hstep]
  refine .atScope Value.Alike.refl fun store store' scope hstore => ?_
  have hfresh := congrArg Store.freshId hstore
  simp only [Store.freshId_mapTokens, Prod.mk.injEq] at hfresh
  refine ⟨.ok ?_, hfresh.2⟩
  simp only [Value.Alike, Value.mapTokens, StructDef.mapTokens, hfresh.1, hparams, hbody]

/-! ### Attributes and targets -/

/-- What a field found in an instance is read as. -/
def takeField (object : Value) (name : Token) (store : Store) :
    Option Value → Except Stop Value × Store
  | some (.func closure) =>
    (.ok (.func { closure with
        id := ((store.child closure.scope .block).2.define (store.child closure.scope .block).1
          "self" object).freshId.1
        scope := (store.child closure.scope .block).1 }),
      ((store.child closure.scope .block).2.define (store.child closure.scope .block).1
        "self" object).freshId.2)
  | some value => (.ok value, store)
  | none => (.error (.error ⟨.undefinedAttribute name.lexeme, name.line⟩), store)

theorem readAttribute_inst (id : InstanceId) (definition : StructDef) (name : Token) :
    readAttribute (.inst id definition) name = Run.atScope fun store _ =>
      takeField (.inst id definition) name store (store.field? id name.lexeme) := by
  funext m
  delta readAttribute Run.atScope
  dsimp only
  rcases m.store.field? id name.lexeme with _ | v
  · rfl
  · cases v <;> rfl

theorem readAttribute_module (g : Module) (name : Token) :
    readAttribute (.module g) name =
      (g.member? name.lexeme).elim (Run.raise name (.undefinedMember g.name name.lexeme)) pure := by
  delta readAttribute
  dsimp only
  cases g.member? name.lexeme <;> rfl

theorem alike_takeField {object object' : Value} {t u : Token} {store store' : Store}
    {found found' : Option Value} (hobject : object.Alike object') (ht : t.sansLine = u.sansLine)
    (hstore : store.Alike store')
    (hfound : found.map (Value.mapTokens Token.sansLine) =
      found'.map (Value.mapTokens Token.sansLine)) :
    Ends Stop.sansLine Value.Alike (takeField object t store found).1
        (takeField object' u store' found').1 ∧
      (takeField object t store found).2.Alike (takeField object' u store' found').2 := by
  cases found with
  | none =>
      obtain rfl : found' = none := by simpa using hfound.symm
      refine ⟨.error ?_, hstore⟩
      simp only [Stop.sansLine, Token.lexeme_eq ht]
  | some v =>
      obtain ⟨w, rfl, hw⟩ := Option.map_eq_some_iff.mp hfound.symm
      have hvw : v.Alike w := hw.symm
      cases v with
      | func c =>
          obtain ⟨c', rfl, hc⟩ := alike_func hvw
          simp only [Closure.mapTokens, Closure.mk.injEq] at hc
          have hchild := congrArg (fun s => Store.child s c.scope .block) hstore
          simp only [Store.child_mapTokens, Prod.mk.injEq] at hchild
          have hself : ((store.child c.scope .block).2.define (store.child c.scope .block).1
              "self" object).Alike ((store'.child c'.scope .block).2.define
                (store'.child c'.scope .block).1 "self" object') := by
            rw [Store.Alike, Store.define_mapTokens, Store.define_mapTokens, ← hc.2.2.2, hchild.1,
              hchild.2, hobject]
          have hfresh := congrArg Store.freshId hself
          simp only [Store.freshId_mapTokens, Prod.mk.injEq] at hfresh
          refine ⟨.ok (congrArg Value.func ?_), hfresh.2⟩
          simp only [Closure.mapTokens, Closure.mk.injEq]
          exact ⟨hfresh.1, hc.2.1, hc.2.2.1, by rw [← hc.2.2.2, hchild.1]⟩
      | _ =>
          cases w <;> simp only [Value.mapTokens, reduceCtorEq] at hw
          exact ⟨.ok hvw, hstore⟩

theorem agrees_readAttribute {v w : Value} {t u : Token} (h : v.Alike w)
    (ht : t.sansLine = u.sansLine) :
    EvalsAgree shared Value.Alike (readAttribute v t) (readAttribute w u) := by
  have hlexeme := Token.lexeme_eq ht
  cases v with
  | inst id d =>
      obtain ⟨d', rfl, hd⟩ := alike_inst h
      rw [readAttribute_inst, readAttribute_inst, hlexeme]
      refine .atScope Value.Alike.refl fun store store' _ hstore => ?_
      have hfound := congrArg (fun s => Store.field? s id u.lexeme) hstore
      simp only [Store.field?_mapTokens] at hfound
      exact alike_takeField h ht hstore hfound
  | module g =>
      cases w <;> simp only [Value.Alike, Value.mapTokens, reduceCtorEq, Value.module.injEq] at h
      subst h
      rw [readAttribute_module, readAttribute_module, hlexeme]
      cases g.member? u.lexeme with
      | none => exact agrees_raise t u _
      | some member => exact .pure (Value.Alike.refl member)
  | _ =>
      cases w <;> simp only [Value.Alike, Value.mapTokens, reduceCtorEq] at h
      exact agrees_raise t u _

theorem agrees_assignTo {target target' : Target} {v w : Value}
    (htarget : target.mapTokens Token.sansLine = target'.mapTokens Token.sansLine)
    (h : v.Alike w) : EvalsAgree shared Eq (assignTo target v) (assignTo target' w) := by
  cases target with
  | «variable» t =>
      cases target' <;> simp only [Target.mapTokens, reduceCtorEq, Target.variable.injEq] at htarget
      simp only [assignTo, Token.lexeme_eq htarget]
      exact agrees_assign _ h
  | selfField keyword t =>
      cases target' <;>
        simp only [Target.mapTokens, reduceCtorEq, Target.selfField.injEq] at htarget
      next keyword' u =>
      simp only [assignTo, Token.lexeme_eq htarget.2]
      refine .bind (agrees_lookup htarget.1) fun object object' hobject => ?_
      cases object with
      | inst id d =>
          obtain ⟨d', rfl, -⟩ := alike_inst hobject
          exact agrees_setField id _ h
      | _ =>
          cases object' <;> simp only [Value.Alike, Value.mapTokens, reduceCtorEq] at hobject
          exact agrees_raise t u _

/-! ### Modules, the flag and the log -/

theorem agrees_importMembers (g : Module) {names names' : List Token}
    (hnames : names.map Token.sansLine = names'.map Token.sansLine) :
    EvalsAgree shared Eq (importMembers g names) (importMembers g names') := by
  induction names generalizing names' with
  | nil =>
      obtain rfl := List.map_eq_nil_iff.mp hnames.symm
      exact .pure rfl
  | cons t names ih =>
      obtain ⟨u, rest, rfl, ht, hrest⟩ := List.map_eq_cons_iff.mp hnames.symm
      simp only [importMembers, Token.lexeme_eq ht]
      cases g.member? t.lexeme with
      | none => exact .bind (R := Eq) (agrees_raise t u _) fun _ _ _ => ih hrest.symm
      | some member =>
          exact .bind (agrees_define _ (Value.Alike.refl member)) fun _ _ _ => ih hrest.symm

theorem agrees_importModule (setup : Setup) {t u : Token} {names names' : List Token}
    (ht : t.sansLine = u.sansLine) (hnames : names.map Token.sansLine = names'.map Token.sansLine) :
    EvalsAgree shared Eq (importModule setup t names) (importModule setup u names') := by
  have hlength : names.length = names'.length := by
    rw [← List.length_map (f := Token.sansLine), hnames, List.length_map]
  have hempty : names.isEmpty = names'.isEmpty := by
    rw [Bool.eq_iff_iff, List.isEmpty_iff_length_eq_zero, hlength, List.isEmpty_iff_length_eq_zero]
  simp only [importModule, Token.lexeme_eq ht, hlength, hempty]
  cases setup.modules.find? fun m => m.name = u.lexeme with
  | none => exact agrees_raise t u _
  | some found =>
      dsimp only
      split
      · exact agrees_define _ (Value.Alike.refl _)
      · exact .bind (agrees_importMembers found hnames) fun _ _ _ => .note rfl

theorem Run.poll_apply (t : Token) (m : Machine) :
    Run.poll t m =
      (if m.interrupted then .error (.error ⟨.interrupted, t.line⟩) else .ok (),
        { m with interrupted := false }) := by
  unfold Run.poll
  split
  · rfl
  · next hflag => rw [← Bool.not_eq_true _ |>.mp hflag]

theorem agrees_poll (t u : Token) : EvalsAgree shared Eq (Run.poll t) (Run.poll u) where
  onward m := by
    unfold Run.poll
    split
    · exact ⟨⟨[], by simp⟩, nofun⟩
    · exact .refl m
  total {m a} _ := ⟨a, rfl⟩
  agree {m m'} halike _ _ := by
    unfold Run.poll
    rw [← halike.interrupted]
    split
    · exact ⟨.error rfl, { halike with interrupted := rfl }, fun _ => rfl⟩
    · exact ⟨.ok rfl, halike, fun _ => rfl⟩

/-! ### Built-in functions -/

theorem agrees_readClock (setup : Setup) :
    EvalsAgree shared Eq (Native.readClock setup) (Native.readClock setup) where
  onward _ := .of_eq rfl rfl
  total {_ a} _ := ⟨a, rfl⟩
  agree halike _ _ :=
    ⟨.ok (congrArg setup.clock halike.readings),
      { halike with readings := congrArg (· + 1) halike.readings }, fun _ => rfl⟩

theorem printLine_apply (t : Token) (v : Value) (m : Machine) :
    Native.printLine t v m =
      (((m.console.writeLine v.display).1.map fun _ => Value.null).mapError
        fun e => .error ⟨.writeFailed e, t.line⟩,
        { m with console := (m.console.writeLine v.display).2 }) := by
  unfold Native.printLine
  rcases m.console.writeLine v.display with ⟨_ | _, c⟩ <;> rfl

theorem agrees_printLine {v w : Value} (t u : Token) (h : v.Alike w) :
    EvalsAgree shared Value.Alike (Native.printLine t v) (Native.printLine u w) where
  onward m := by
    rw [printLine_apply]
    exact .of_eq rfl rfl
  total {_ a} _ := ⟨a, rfl⟩
  agree {m m'} halike _ _ := by
    obtain ⟨hend, hwritten, hroom⟩ :=
      Console.write_alike halike.written halike.room (v.display ++ "\n")
    rw [printLine_apply, printLine_apply, alike_display h]
    refine ⟨?_, ?_, fun _ => Console.write_input m'.console _⟩
    · simp only [Console.writeLine, hend]
      cases (m'.console.write (v.display ++ "\n")).1 with
      | error e => exact .error rfl
      | ok _ => exact .ok rfl
    · refine { halike with written := hwritten, room := hroom, input := fun hs => ?_ }
      simp only [Console.writeLine, Console.write_input]
      exact halike.input hs

theorem inputLine_apply (t : Token) (m : Machine) :
    Native.inputLine t m =
      ((m.console.readLine.1.map fun line => line.elim Value.null Value.str).mapError
        fun e => .error ⟨.readFailed e, t.line⟩,
        { m with console := m.console.readLine.2 }) := by
  unfold Native.inputLine
  rcases m.console.readLine with ⟨_ | (_ | _), c⟩ <;> rfl

theorem agrees_inputLine (t u : Token) :
    EvalsAgree true Value.Alike (Native.inputLine t) (Native.inputLine u) where
  onward m := by
    rw [inputLine_apply]
    exact .of_eq rfl rfl
  total {_ a} _ := ⟨a, rfl⟩
  agree {m m'} halike _ _ := by
    obtain ⟨hend, hinput⟩ := Console.readLine_alike (halike.input rfl)
    rw [inputLine_apply, inputLine_apply, hend]
    refine ⟨?_, ?_, nofun⟩
    · cases m'.console.readLine.1 with
      | error e => exact .error rfl
      | ok _ => exact .ok rfl
    · have hfirst := Console.readLine_output m.console
      have hsecond := Console.readLine_output m'.console
      exact { halike with
        written := hfirst.1.trans (halike.written.trans hsecond.1.symm)
        room := hfirst.2.trans (halike.room.trans hsecond.2.symm)
        input := fun _ => hinput }

theorem agrees_onNumber (name : String) (g : Float → Float) (t u : Token) {v w : Value}
    (h : v.Alike w) :
    EvalsAgree shared Value.Alike (Native.onNumber name g t v) (Native.onNumber name g u w) := by
  cases v <;> cases w <;>
    simp only [Value.Alike, Value.mapTokens, reduceCtorEq, Value.num.injEq] at h
  case num.num => exact h ▸ .pure rfl
  all_goals exact agrees_raise t u _

theorem agrees_onNumbers (name : String) (g : Float → Float → Float) (t u : Token)
    {v w v' w' : Value} (h : v.Alike w) (h' : v'.Alike w') :
    EvalsAgree shared Value.Alike (Native.onNumbers name g t v v')
      (Native.onNumbers name g u w w') := by
  cases v <;> cases w <;>
    simp only [Value.Alike, Value.mapTokens, reduceCtorEq, Value.num.injEq] at h
  case num.num =>
    cases v' <;> cases w' <;>
      simp only [Value.Alike, Value.mapTokens, reduceCtorEq, Value.num.injEq] at h'
    case num.num => exact h ▸ h' ▸ .pure rfl
    all_goals exact agrees_raise t u _
  all_goals exact agrees_raise t u _

theorem agrees_apply (setup : Setup) {f : Native} {args args' : List Value} (t u : Token)
    (hargs : List.Forall₂ Value.Alike args args') (harity : args.length = f.arity)
    (hinput : shared = true ∨ f ≠ .input) :
    EvalsAgree shared Value.Alike (Native.apply setup f args t) (Native.apply setup f args' u) := by
  have hclock : EvalsAgree shared Value.Alike (Native.seconds setup) (Native.seconds setup) :=
    .bind (agrees_readClock setup) fun moment _ h => h ▸ .pure rfl
  cases hargs with
  | nil =>
      cases f with
      | clock => exact hclock
      | timeClock => exact hclock
      | date => exact .bind (agrees_readClock setup) fun moment _ h => h ▸ .pure rfl
      | input =>
          rcases hinput with rfl | h
          · exact agrees_inputLine t u
          · exact absurd rfl h
      | _ => simp [Native.arity] at harity
  | cons h hrest =>
      cases hrest with
      | nil =>
          cases f with
          | print => exact agrees_printLine t u h
          | ioPrint => exact agrees_printLine t u h
          | sqrt => exact agrees_onNumber _ _ t u h
          | abs => exact agrees_onNumber _ _ t u h
          | floor => exact agrees_onNumber _ _ t u h
          | ceil => exact agrees_onNumber _ _ t u h
          | _ => simp [Native.arity] at harity
      | cons h' hrest =>
          cases f with
          | pow => exact agrees_onNumbers _ _ t u h h'
          | max => exact agrees_onNumbers _ _ t u h h'
          | min => exact agrees_onNumbers _ _ t u h h'
          | _ => simp [Native.arity] at harity

/-! ### Calls -/

theorem agrees_enterCall (setup : Setup) {v w : Value} {x y : Run Stop Value} (t u : Token)
    (hx : EvalsAgree shared Value.Alike x y) :
    EvalsAgree shared Value.Alike (enterCall setup v t x) (enterCall setup w u y) := by
  have hdepth : EvalsAgree shared Eq (Run.get Machine.depth) (Run.get Machine.depth) :=
    { onward := fun m => .refl m
      total := fun {_ a} _ => ⟨a, rfl⟩
      agree := fun halike _ _ => ⟨.ok halike.depth, halike, fun _ => rfl⟩ }
  refine .bind hdepth fun depth depth' hd => ?_
  subst hd
  split
  · exact agrees_raise t u _
  · exact .bind (.note rfl) fun _ _ _ => hx.deeper

/-- A call of `input` is in the log, however it ends. -/
theorem inputCalls_enterCall (setup : Setup) (t : Token) (m : Machine)
    (h : m.depth < setup.maxDepth) :
    m.inputCalls <
      (enterCall setup (.native .input) t (Native.inputLine t) m).2.inputCalls := by
  rw [enterCall_of_lt setup h]
  have honward := (agrees_inputLine t t).deeper.onward
    { m with log := m.log.push (.called (.native .input) m.depth) }
  refine Nat.lt_of_lt_of_le ?_ honward.inputCalls_le
  simp [Machine.inputCalls, Event.isInputCall]

theorem agrees_callNative (setup : Setup) {f : Native} {args args' : List Value} (t u : Token)
    (hargs : List.Forall₂ Value.Alike args args') (harity : args.length = f.arity) :
    EvalsAgree shared Value.Alike
      (enterCall setup (.native f) t (Native.apply setup f args t))
      (enterCall setup (.native f) u (Native.apply setup f args' u)) := by
  by_cases hquiet : shared = true ∨ f ≠ .input
  · exact agrees_enterCall setup t u (agrees_apply setup t u hargs harity hquiet)
  · -- A call of `input` that is not shared: where it happens, the run is not quiet.
    obtain ⟨hshared, rfl⟩ : shared = false ∧ f = .input := by simpa using hquiet
    subst hshared
    have hlinked : EvalsAgree true Value.Alike
        (enterCall setup (.native .input) t (Native.inputLine t))
        (enterCall setup (.native .input) u (Native.inputLine u)) :=
      agrees_enterCall setup t u (agrees_inputLine t u)
    refine ⟨hlinked.onward, hlinked.total, fun {m m'} halike hends hcalls => ?_⟩
    by_cases hdepth : m.depth < setup.maxDepth
    · have hmore := inputCalls_enterCall setup t m hdepth
      rcases hcalls with hcalls | hcalls
      · cases hcalls
      · exact absurd hcalls.symm (Nat.ne_of_lt hmore)
    · have hfull : setup.maxDepth ≤ m.depth := Nat.le_of_not_lt hdepth
      rw [enterCall_of_full setup hfull, enterCall_of_full setup (halike.depth ▸ hfull)]
      exact ⟨.error rfl, halike, fun _ => rfl⟩

theorem agrees_enterFunction {c c' : Closure} {args args' : List Value} {x y : Run Unwind Value}
    (hc : c.mapTokens Token.sansLine = c'.mapTokens Token.sansLine)
    (hargs : List.Forall₂ Value.Alike args args') (hx : ExecsAgree shared Value.Alike x y) :
    EvalsAgree shared Value.Alike (enterFunction c args x) (enterFunction c' args' y) := by
  simp only [Closure.mapTokens, Closure.mk.injEq] at hc
  rw [enterFunction, enterFunction, hc.2.2.2]
  refine .bind (agrees_openCall c'.scope hc.2.1 hargs) fun scope _ h => ?_
  subst h
  exact ExecsAgree.body (hx.inScope scope)

theorem agrees_enterStruct {d d' : StructDef} {args args' : List Value}
    {x y : InstanceId → Run Stop Unit}
    (hd : d.mapTokens Token.sansLine = d'.mapTokens Token.sansLine)
    (hargs : List.Forall₂ Value.Alike args args') (hx : ∀ id, EvalsAgree shared Eq (x id) (y id)) :
    EvalsAgree shared Value.Alike (enterStruct d args x) (enterStruct d' args' y) := by
  have halike : ∀ id, (Value.inst id d).Alike (.inst id d') := fun id => congrArg (Value.inst id) hd
  simp only [StructDef.mapTokens, StructDef.mk.injEq] at hd
  rw [enterStruct, enterStruct, hd.2.2.2]
  refine .bind (agrees_openCall d'.scope hd.2.1 hargs) fun scope _ h => ?_
  subst h
  refine .bind (agrees_openInstance hd.2.1 hargs) fun id _ h => ?_
  subst h
  refine .bind ((hx id).inScope scope) fun _ _ _ => ?_
  exact .pure (halike id)

/-! ### Whole runs -/

/-- Runs are compared up to lines. -/
def lineRelations (shared : Bool) : RunRelations where
  value := Value.Alike
  field _ := True
  evals := EvalsAgree shared
  execs := ExecsAgree shared

/-- The steps of runs agree up to lines. -/
theorem evalSteps_lines (setup : Setup) :
    EvalSteps Token.sansLine .any setup setup (lineRelations shared) where
  key_keepsText := keepsText_sansLine
  evals_pure := .pure
  evals_bind := .bind
  evals_exhausted := .exhausted
  evals_raise _ := agrees_raise _ _
  execs_pure := .pure
  execs_bind := .bind
  execs_exhausted := .exhausted
  execs_returned h := .stop (congrArg Unwind.returned h)
  execs_eval h := h.eval
  execs_block h := h.inBlock
  constant c := Value.Alike.refl c.value
  isTruthy := alike_isTruthy
  isEqual := alike_isEqual
  arity := alike_arity?
  name _ := agrees_lookup
  self _ := agrees_lookup
  assign _ := agrees_assignTo
  unary {t u _ v w} _ ht h := by
    refine agrees_orRaise t u ?_
    rw [← Operator.unary_mapTokens keepsText_sansLine,
      ← Operator.unary_mapTokens keepsText_sansLine, ht, h]
  binary {t u _ _ v w v' w'} _ ht h h' := by
    refine agrees_orRaise t u ?_
    rw [← Operator.binary_mapTokens keepsText_sansLine,
      ← Operator.binary_mapTokens keepsText_sansLine, ht, h, h']
  member _ ht h := agrees_readAttribute h ht
  function _ := agrees_makeFunction
  struct _ := agrees_makeStruct
  poll _ := agrees_poll _ _
  callFunction {c w args args' t u} h hargs _ _ := by
    obtain ⟨c', rfl, hc⟩ := alike_func h
    refine ⟨c', rfl, fun s _ => Stmt.everyNode_any s true, ?_, fun p q hpq => ?_⟩
    · simp only [Closure.mapTokens, Closure.mk.injEq] at hc
      exact hc.2.2.1
    · exact agrees_enterCall setup t u (agrees_enterFunction hc hargs hpq)
  callStruct {d w args args' t u} h hargs _ _ := by
    obtain ⟨d', rfl, hd⟩ := alike_struct h
    refine ⟨d', rfl, fun entry _ => ⟨Expr.everyNode_any entry.value, trivial⟩, ?_,
      fun p q hpq => ?_⟩
    · simp only [StructDef.mapTokens, StructDef.mk.injEq] at hd
      exact hd.2.2.1
    · exact agrees_enterCall setup t u (agrees_enterStruct hd hargs hpq)
  callNative {f w args args' t u} h hargs _ harity := by
    cases w <;> simp only [lineRelations, Value.Alike, Value.mapTokens, reduceCtorEq,
      Value.native.injEq] at h
    subst h
    exact ⟨rfl, agrees_callNative setup t u hargs harity⟩
  bindField {t u v w} id _ ht h := by
    rw [bindField, bindField, Token.lexeme_eq ht]
    exact .bind (agrees_define _ h) fun _ _ _ => agrees_setField id _ h
  importing _ ht hnames := agrees_importModule setup ht hnames
  selected _ := .note rfl

/-- Programs that differ in lines only do the same, up to lines. -/
theorem agrees_atFuel (setup : Setup) {n m : Nat} (h : n ≤ m) :
    AtFuel Token.sansLine .any setup setup (lineRelations shared) n m :=
  (evalSteps_lines setup).atFuel h

theorem execAll_onward (setup : Setup) (n : Nat) (ss : List Stmt) (v : Value) (m : Machine) :
    m.Onward (execAll setup n ss v m).2 := by
  have hfuel : AtFuel Token.sansLine .any setup setup (lineRelations true) n n :=
    agrees_atFuel setup (Nat.le_refl n)
  have hself := hfuel.execAll (v := v) (fun s _ => s.everyNode_any false)
    (rfl : ss.map _ = ss.map _) rfl
  exact hself.onward m

end BracketScript
