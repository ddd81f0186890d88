import BracketScript.Proofs.Eval.Lineage
import BracketScript.Proofs.Eval.Opening
import BracketScript.Proofs.Session.Coherence
import BracketScript.Proofs.Session.Moments

/-!
# Methods and their receivers

A function that is read from an instance gets a scope of its own that binds
`self` to the instance.  Nothing that is done in a session binds `self`
otherwise, so it has one value in a scope at all moments
(`Session.Does.lookup_self`).  The jobs in the body of a function
(`Session.OfBody`) are done in scopes inside of the one that the function
remembers, and none in between binds `self`.  Hence in the body of the function
that was read `self` is the instance (`Session.method_refers_to_receiver`).
-/

namespace BracketScript

namespace Session

/-! ### `self` at all moments -/

theorem Runs.trans {options : SessionOptions} {first m m' : Machine} (h : Runs options first m)
    (h' : Runs options m m') : Runs options first m' := by
  induction h' with
  | start => exact h
  | unit fuel source _ ih => exact .unit fuel source ih
  | aside _ hstore hscope hdepth ih => exact .aside ih hstore hscope hdepth

theorem Does.runs {options : SessionOptions} {first last m : Machine} {n : Nat} {job : Job}
    (h : Does options first last n job m) : Runs options first last := by
  induction h with
  | unit hbefore _ _ _ hafter => exact (Runs.unit _ _ hbefore).trans hafter
  | part _ _ ih => exact ih

section Moments

variable {options : SessionOptions} {console : Console} {names : List String}
variable {last m : Machine} {n : Nat} {job : Job}

theorem rooted_laws (options : SessionOptions) :
    Allowance.coherent.rooted.Laws options.setup :=
  Allowance.rooted_laws (Allowance.coherent_laws options.setup)

theorem rooted_admits (fuel : Nat) (source : String) :
    Allowance.coherent.rooted.Admits fuel source :=
  Allowance.coherent_admits fuel source

theorem rooted_lasting : Allowance.coherent.rooted.Lasting where
  enough _ _ _ := trivial
  line _ := trivial

theorem rooted_rests (console : Console) (names : List String) :
    Allowance.coherent.rooted.Rests (start console names) where
  inv := Allowance.rooted_start console trivial trivial
    ⟨by simp [Allowance.coherent], by simp [Allowance.coherent]⟩
  place := Nat.zero_lt_one
  depth := rfl

theorem not_bindable_self : ¬Allowance.coherent.bindable "self" :=
  fun hname => hname rfl

theorem Does.rooted (h : Does options (start console names) last n job m) :
    Allowance.coherent.rooted.Fits job m :=
  h.fits (rooted_laws options) rooted_admits rooted_lasting (rooted_rests console names)

theorem Does.settles (h : Does options (start console names) last n job m) :
    Allowance.coherent.rooted.moves m.store last.store :=
  h.moves (rooted_laws options) rooted_admits rooted_lasting (rooted_rests console names)

theorem Does.tree (h : Does options (start console names) last n job m) : last.store.Tree :=
  (h.runs.rests (rooted_laws options) rooted_admits (rooted_rests console names)).inv.tree

/-- What `self` is in a scope when a job begins, it is at the end of the session. -/
theorem Does.lookup_self (h : Does options (start console names) last n job m)
    {scope : ScopeId} (hscope : scope < m.store.scopes.size) :
    last.store.lookup scope "self" = m.store.lookup scope "self" :=
  h.settles.lookup_eq h.rooted.inv.tree h.tree not_bindable_self hscope

/-- What `self` is in a scope when a job ends, it is at the end of the session. -/
theorem Does.lookup_self_after (h : Does options (start console names) last n job m)
    {scope : ScopeId} (hscope : scope < (job.after options.setup n m).store.scopes.size) :
    last.store.lookup scope "self" = (job.after options.setup n m).store.lookup scope "self" := by
  have hdone := h.rooted.completes (rooted_laws options) rooted_lasting n
  have hmoves := h.remainder (rooted_laws options) rooted_admits rooted_lasting
    (rooted_rests console names)
  exact hmoves.lookup_eq hdone.reaches.inv.tree h.tree not_bindable_self hscope

/-- In a scope that does not bind `self` it is what it is in the scope around. -/
theorem Does.lookup_self_around (h : Does options (start console names) last n job m)
    {scope outer : ScopeId} (hscope : scope < m.store.scopes.size)
    (hown : m.store.own? scope "self" = none) (hparent : m.store.parent? scope = some outer) :
    last.store.lookup scope "self" = last.store.lookup outer "self" := by
  rw [h.tree.lookup_eq, h.settles.same hscope not_bindable_self, h.settles.parent hscope, hown,
    hparent, Option.none_or, Option.bind_some]

end Moments

/-! ### The body of a function -/

/-- A job in the body of a function, that begins in some call of it: the body,
and what is part of such a job, except for what a call in the body leads to.  The
entries of a struct that is written in the body belong to it, and are evaluated
when the struct is called.  Functions written in the body do not: they have
bodies of their own. -/
inductive OfBody (options : SessionOptions) (first last : Machine) (c : Closure) :
    Nat → Job → Machine → Prop
  | enter {n : Nat} {args : List Value} {bracket : Token} {m m' : Machine} {job : Job}
    (h : Does options first last (n + 1) (.call (.func c) args bracket) m)
    (hpart : Part options.setup n (.call (.func c) args bracket) m job m') :
    OfBody options first last c n job m'
  | part {n : Nat} {job job' : Job} {m m' : Machine}
    (h : OfBody options first last c (n + 1) job m) (hjob : job.isCall = false)
    (hpart : Part options.setup n job m job' m') : OfBody options first last c n job' m'
  | construct {n k : Nat} {keyword bracket : Token} {params : List Token}
    {body : List FieldInit} {d : StructDef} {args : List Value} {m m₁ m₂ m₃ : Machine} {job : Job}
    (h : OfBody options first last c (n + 1) (.expr (.struct keyword params body)) m)
    (heval : eval options.setup (n + 1) (.struct keyword params body) m = (.ok (.struct d), m₁))
    (hcall : Does options first last (k + 1) (.call (.struct d) args bracket) m₂)
    (hpart : Part options.setup k (.call (.struct d) args bracket) m₂ job m₃) :
    OfBody options first last c k job m₃

theorem OfBody.does {options : SessionOptions} {first last m : Machine} {c : Closure} {n : Nat}
    {job : Job} (h : OfBody options first last c n job m) : Does options first last n job m := by
  induction h with
  | enter h hpart => exact .part h hpart
  | part _ _ hpart ih => exact .part ih hpart
  | construct _ _ hcall hpart => exact .part hcall hpart

/-- A call that is not refused gets to the body. -/
theorem exists_ofBody {options : SessionOptions} {first last m : Machine} {c : Closure} {n : Nat}
    {args : List Value} {bracket : Token}
    (h : Does options first last (n + 1) (.call (.func c) args bracket) m)
    (fits : args.length = c.params.length) (hpoll : m.interrupted = false)
    (hdepth : m.depth < options.setup.maxDepth) :
    ∃ m', OfBody options first last c n (.stmts c.body .null) m' :=
  ⟨_, .enter h (.body fits hpoll hdepth rfl)⟩

section Bodies

variable {options : SessionOptions} {console : Console} {names : List String}
variable {last m : Machine} {c : Closure} {n : Nat} {job : Job}

/-- All along the body of a function, `self` is what it is where the function was
written. -/
theorem OfBody.lookup_self (h : OfBody options (start console names) last c n job m) :
    last.store.lookup m.scope "self" = last.store.lookup c.scope "self" := by
  induction h with
  | enter hcall hpart =>
      have hdoes := hcall.part hpart
      have hparams := (rooted_laws options).functionParams
        (hcall.rooted.inHand (.func c) List.mem_cons_self)
      cases hpart with
      | body fits _ _ hopen =>
          have hopened := openCall_ok hopen
          exact hdoes.lookup_self_around hopened.there (hopened.own?_eq_none fits hparams)
            hopened.parent
  | @part n job job' m m' h hjob hpart ih =>
      rcases hpart.place hjob with hrestored | hblock
      · rw [hrestored.scope, ih]
      · have hdoes := h.does.part hpart
        subst hblock
        have hown : (m.store.child m.scope .block).2.own? m.store.scopes.size "self" = none := by
          rw [Store.own?_child, Store.own?_size]
        have hparent : (m.store.child m.scope .block).2.parent? m.store.scopes.size =
            some m.scope := by
          rw [Store.parent?_child, if_pos rfl]
        exact (hdoes.lookup_self_around (Store.lt_size_child _ _ _) hown hparent).trans ih
  | @construct n k keyword bracket params body d args m m₁ m₂ m₃ job h heval hcall hpart ih =>
      have hscope : d.scope = m.scope := by
        rw [eval_struct] at heval
        cases heval
        rfl
      have hdoes := hcall.part hpart
      have hparams := (rooted_laws options).structParams
        (hcall.rooted.inHand (.struct d) List.mem_cons_self)
      cases hpart with
      | «instance» fits _ _ hopen hnew =>
          have hopened := openCall_ok hopen
          have hmade := openInstance_ok hnew
          rw [← ih, ← hscope]
          apply hdoes.lookup_self_around
          · rw [hmade.scopes]
            exact hopened.there
          · rw [Store.own?, hmade.scopes]
            exact hopened.own?_eq_none fits hparams
          · rw [Store.parent?, hmade.scopes]
            exact hopened.parent

variable {id : InstanceId} {d : StructDef}

theorem OfBody.lookup_self_begin (h : OfBody options (start console names) last c n job m)
    (hself : last.store.lookup c.scope "self" = some (.inst id d)) :
    m.store.lookup m.scope "self" = some (.inst id d) := by
  rw [← h.does.lookup_self h.does.rooted.place, h.lookup_self, hself]

theorem OfBody.lookup_self_end (h : OfBody options (start console names) last c n job m)
    (hself : last.store.lookup c.scope "self" = some (.inst id d)) :
    (job.after options.setup n m).store.lookup (job.after options.setup n m).scope "self" =
      some (.inst id d) := by
  have hreaches := (h.does.rooted.completes (rooted_laws options) rooted_lasting n).reaches
  have hplace := hreaches.place (rooted_laws options) h.does.rooted.place
  rw [← h.does.lookup_self_after hplace, hreaches.scope, h.lookup_self, hself]

end Bodies

/-! ### Reading a method -/

/-- A function has been read from an instance: it has the parameters and the body
of the one in the field, and what there was before is still as it was. -/
structure MethodRead (c : Closure) (m : Machine) (c' : Closure) (m' : Machine) : Prop where
  params : c'.params = c.params
  body : c'.body = c.body
  machine : m' = { m with store := m'.store }
  fields : m'.store.instances = m.store.instances
  scopes {i : ScopeId} (h : i < m.store.scopes.size) :
    m'.store.scopes[i]? = m.store.scopes[i]?

/-- Where `self` is read or a field of it set in one of some jobs, it is an
instance. -/
structure SelfIs (setup : Setup) (id : InstanceId) (d : StructDef)
    (jobs : Nat → Job → Machine → Prop) : Prop where
  read {n : Nat} {t : Token} {m : Machine} (h : jobs (n + 1) (.expr (.selfRef t)) m) :
    eval setup (n + 1) (.selfRef t) m = (.ok (.inst id d), m)
  set {n : Nat} {t u : Token} {e : Expr} {v : Value} {m m' : Machine}
    (h : jobs (n + 1) (.expr (.assign (.selfField t u) e)) m)
    (heval : eval setup n e m = (.ok v, m')) :
    eval setup (n + 1) (.assign (.selfField t u) e) m =
      (.ok v, { m' with store := m'.store.setField id u.lexeme v })

theorem methodRead (c : Closure) (object : Value) (m : Machine) :
    ∃ c', (m.store.method c object).1 = .func c' ∧ c'.scope = m.store.scopes.size ∧
      MethodRead c m c' { m with store := (m.store.method c object).2 } :=
  ⟨_, rfl, rfl, rfl, rfl, rfl, rfl, fun hi => Store.scopes_method_of_lt c object hi⟩

section Keyword

variable {options : SessionOptions} {console : Console} {names : List String}
variable {last m m' : Machine} {c : Closure} {id : InstanceId} {d : StructDef} {n : Nat}

theorem OfBody.eval_selfRef {t : Token}
    (h : OfBody options (start console names) last c (n + 1) (.expr (.selfRef t)) m)
    (hself : last.store.lookup c.scope "self" = some (.inst id d)) :
    eval options.setup (n + 1) (.selfRef t) m = (.ok (.inst id d), m) := by
  have hlaw : Allowance.coherent.law.expr (.selfRef t) := h.does.rooted.code
  have hfound := h.lookup_self_begin hself
  rw [eval, Run.lookup, hlaw.1.mp hlaw.2, hfound]

theorem OfBody.eval_assign_selfField {t u : Token} {e : Expr} {v : Value}
    (h : OfBody options (start console names) last c (n + 1)
      (.expr (.assign (.selfField t u) e)) m)
    (heval : eval options.setup n e m = (.ok v, m'))
    (hself : last.store.lookup c.scope "self" = some (.inst id d)) :
    eval options.setup (n + 1) (.assign (.selfField t u) e) m =
      (.ok v, { m' with store := m'.store.setField id u.lexeme v }) := by
  have hlaw : Allowance.coherent.law.expr (.assign (.selfField t u) e) := h.does.rooted.code.1
  have hvalue : OfBody options (start console names) last c n (.expr e) m :=
    h.part rfl .assigned
  have hfound : m'.store.lookup m'.scope "self" = some (.inst id d) := by
    have hafter := hvalue.lookup_self_end hself
    rwa [Job.after, heval] at hafter
  have hassign : assignTo (.selfField t u) v m' =
      (.ok (), { m' with store := m'.store.setField id u.lexeme v }) := by
    have hlookup : Run.lookup t m' = (.ok (.inst id d), m') := by
      rw [Run.lookup, hlaw.1.1.mp hlaw.1.2, hfound]
    rw [assignTo, Run.bind_of_ok hlookup]
    rfl
  rw [eval, Run.bind_of_ok heval, Run.bind_of_ok hassign]
  rfl

end Keyword

/-- In every session, whatever instance a function is read from, and however the
function got there: the stored function and all scopes stay as they are, and all
along the body of the function that was read, whenever it is called, `self` is
the instance. -/
theorem method_refers_to_receiver (options : SessionOptions) (console : Console)
    (names : List String) {last m m₁ : Machine} {n : Nat} {e : Expr} {t : Token}
    {id : InstanceId} {d : StructDef} {c : Closure}
    (hdoes : Does options (start console names) last (n + 1) (.expr (.attribute e t)) m)
    (hobject : eval options.setup n e m = (.ok (.inst id d), m₁))
    (hfield : m₁.store.field? id t.lexeme = some (.func c)) :
    ∃ c' m₂, eval options.setup (n + 1) (.attribute e t) m = (.ok (.func c'), m₂) ∧
      MethodRead c m₁ c' m₂ ∧
      SelfIs options.setup id d (OfBody options (start console names) last c') := by
  obtain ⟨c', hvalue, hscope, hread⟩ := methodRead c (.inst id d) m₁
  have hattribute : eval options.setup (n + 1) (.attribute e t) m =
      (.ok (.func c'), { m₁ with store := (m₁.store.method c (.inst id d)).2 }) := by
    rw [eval, Run.bind_of_ok hobject, readAttribute_inst, Run.atScope, hfield, takeField_func,
      hvalue]
  have hself : last.store.lookup c'.scope "self" = some (.inst id d) := by
    have hafter : (Job.expr (.attribute e t)).after options.setup (n + 1) m =
        { m₁ with store := (m₁.store.method c (.inst id d)).2 } := congrArg Prod.snd hattribute
    have hplace : m₁.store.scopes.size <
        ((Job.expr (.attribute e t)).after options.setup (n + 1) m).store.scopes.size := by
      rw [hafter]
      exact Store.lt_size_method _ _ _
    rw [hscope, hdoes.lookup_self_after hplace, hafter, Store.lookup_method]
  exact ⟨c', _, hattribute, hread,
    fun h => h.eval_selfRef hself, fun h heval => h.eval_assign_selfField heval hself⟩

/-- A unit of one statement, which assigns what a method without parameters
returns, and the body of the method is `self`. -/
def callsMethod (options : SessionOptions) (n : Nat) (m : Machine) (source : String) : Bool :=
  match Token.scan source with
  | .error _ => false
  | .ok tokens =>
    match parse tokens with
    | .ok [.expression (.assign target (.call (.attribute e t) bracket []))] =>
      let out := eval options.setup n e
        (loaded m tokens [.expression (.assign target (.call (.attribute e t) bracket []))])
      match out.1 with
      | .ok (.inst id _) =>
        match out.2.store.field? id t.lexeme with
        | some (.func ⟨_, [], [.expression (.selfRef _)], _⟩) =>
          !out.2.interrupted && out.2.depth < options.setup.maxDepth
        | _ => false
      | _ => false
    | _ => false

theorem exists_of_callsMethod {options : SessionOptions} {n : Nat} {m : Machine}
    {source : String} (hemit : options.emit = none) (h : callsMethod options n m source = true) :
    ∃ e t bracket id d c keyword m₁ m₂,
      Does options m (runSource options (n + 5) source m).2 (n + 2)
        (.expr (.call (.attribute e t) bracket [])) m₁ ∧
      eval options.setup n e m₁ = (.ok (.inst id d), m₂) ∧
      m₂.store.field? id t.lexeme = some (.func c) ∧
      c.params = [] ∧ c.body = [.expression (.selfRef keyword)] ∧
      m₂.interrupted = false ∧ m₂.depth < options.setup.maxDepth := by
  unfold callsMethod at h
  split at h
  · cases h
  · next tokens hscan =>
      split at h
      · next target e t bracket hparse =>
          dsimp only at h
          split at h
          · next id d hvalue =>
              split at h
              · next c keyword scope hfield =>
                  simp only [Bool.and_eq_true, Bool.not_eq_true', decide_eq_true_eq] at h
                  have hunit : Does options m (runSource options (n + 5) source m).2 (n + 5) _ _ :=
                    .unit .start hemit hscan hparse .start
                  have hcall := ((hunit.part .first).part .expression).part .assigned
                  exact ⟨e, t, bracket, id, d, _, keyword, _, _, hcall, Prod.ext hvalue rfl,
                    hfield, rfl, rfl, h.1, h.2⟩
              · cases h
          · cases h
      · cases h

/-- A method of one instance is passed to another one and called there. -/
theorem method_refers_to_receiver_rebound :
    let source := "x := [struct [f]][[struct [f]][func [] [self;]] f] f[];"
    let first := start (.ofInput [] none) []
    let last := (runSource bareOptions 17 source first).2
    ∃ n e t id d c m m₁,
      Does bareOptions first last (n + 1) (.expr (.attribute e t)) m ∧
      eval bareOptions.setup n e m = (.ok (.inst id d), m₁) ∧
      m₁.store.field? id t.lexeme = some (.func c) ∧
      ∃ c' m₂, eval bareOptions.setup (n + 1) (.attribute e t) m = (.ok (.func c'), m₂) ∧
        MethodRead c m₁ c' m₂ ∧
        SelfIs bareOptions.setup id d (OfBody bareOptions first last c') ∧
        ∃ k keyword m', OfBody bareOptions first last c' (k + 1) (.expr (.selfRef keyword)) m' := by
  intro source first last
  have hsource : callsMethod bareOptions 12 first source = true := by decide +kernel
  obtain ⟨e, t, bracket, id, d, c, keyword, m, m₁, hcall, hobject, hfield, hparams, hbody, hflag,
    hdepth⟩ := exists_of_callsMethod rfl hsource
  obtain ⟨c', m₂, hattribute, hread, hself⟩ :=
    method_refers_to_receiver bareOptions _ _ (hcall.part .callee) hobject hfield
  refine ⟨12, e, t, id, d, c, m, m₁, hcall.part .callee, hobject, hfield, c', m₂, hattribute,
    hread, hself, 9, keyword, ?_⟩
  have hdoes : Does bareOptions first last 13 (.call (.func c') [] bracket) m₂ :=
    hcall.part (.call hattribute rfl)
  have hparams' : c'.params = [] := hread.params.trans hparams
  have hbody' : c'.body = [.expression (.selfRef keyword)] := hread.body.trans hbody
  have hmachine := hread.machine
  obtain ⟨m', henter⟩ := exists_ofBody hdoes (by rw [hparams']; rfl) (by rwa [hmachine])
    (by rwa [hmachine])
  rw [hbody'] at henter
  exact ⟨m', (henter.part rfl .first).part rfl .expression⟩

end Session

end BracketScript
