import HandleForms.Proofs.World.Script

/-!
# Relations that running a form keeps

A relation between computations inside an invocation that relates every computation in the world to
itself, and that is kept by sequencing, by frames, by the fuel and by the trace, is a congruence. A
form runs to related computations as soon as the forms that it calls do (`Congruence.runForm`). What
is proved about runs is proved through congruences, so the interpreter is taken apart only here.
-/

namespace HandleForms

variable {σ α β : Type}

/-- Gives a direct handle the form without the barrier. -/
def Act.dropBarrier (h : Handle) (m : Member) : Act σ Form := do
  let prepared ← directForm h.type m.kind false
  modify fun w => { w with swapped := TypeForms.assign (h.id, h.type, m) prepared w.swapped }
  return prepared

/-- Gives a direct handle the form without the barrier if its form passes one. Answers the form that
it had and the one that it got. -/
def Act.swapBarrier (h : Handle) (m : Member) : Act σ (Option (Form × Form)) := do
  let current := (← get).currentForm h
  if current.kind.hasBarrier then return some (current, ← dropBarrier h m) else return none

/-- A handle whose form passes no barrier is left alone. -/
theorem Act.swapBarrier_apply (h : Handle) (m : Member) (w : World σ) :
    Act.swapBarrier h m w =
      if (w.currentForm h).kind.hasBarrier then
        ((dropBarrier h m w).1.map fun prepared => some (w.currentForm h, prepared),
          (dropBarrier h m w).2)
      else (.ok none, w) := by
  show (if (w.currentForm h).kind.hasBarrier then _ else _ : Act σ _) w = _
  split
  · rw [Act.bind_apply]
    cases (dropBarrier h m w).1 <;> rfl
  · rfl

theorem Act.dropBarrier_apply (h : Handle) (m : Member) (w : World σ) :
    Act.dropBarrier h m w =
      let prepare := (Act.directForm h.type m.kind false : Act σ Form) w
      match prepare.1 with
      | .ok prepared => (.ok prepared, { prepare.2 with
          swapped := TypeForms.assign (h.id, h.type, m) prepared prepare.2.swapped })
      | .error stop => (.error stop, prepare.2) := by
  rw [Act.dropBarrier, Act.bind_apply]
  dsimp only
  cases (Act.directForm h.type m.kind false w).1 <;> rfl

/-- A law that holds of everything that an invocation asks of the world. -/
structure Act.Serves (host : Host σ) (re : Reentry σ)
    (P : (β : Type) → StateM (World σ) β → Prop) : Prop extends Act.Law P where
  perform : ∀ op, P _ (Act.perform host op)
  swapBarrier : ∀ h id m, h.member? = some (id, m) → P _ (Act.swapBarrier h m)
  invoke : ∀ h site args, P _ (re.invoke h site args)
  ensure : ∀ cls, P _ (re.ensure cls)

/-- Everything satisfies a law that says nothing. -/
theorem Act.Serves.trivial (host : Host σ) (re : Reentry σ) : Act.Serves host re fun _ _ => True where
  outer _ := .intro
  andThen _ _ := .intro
  withFrame _ _ _ := .intro
  perform _ := .intro
  swapBarrier _ _ _ _ := .intro
  invoke _ _ _ := .intro
  ensure _ := .intro

namespace Exec

/-! ## What the steps of a run do -/

theorem bind_apply (x : Exec σ α) (k : α → Exec σ β) (e : Execution σ) :
    (x >>= k) e = match (x e).1 with
      | .ok a => k a (x e).2
      | .error stop => (.error stop, (x e).2) := by
  show (ExceptT.bindCont k (x e).1 : StateM (Execution σ) _) (x e).2 = _
  cases (x e).1 <;> rfl

theorem consumeFuel_apply (e : Execution σ) : consumeFuel e = match e.fuel with
    | 0 => (.error (.error .outOfFuel), e)
    | fuel + 1 => (.ok (), { e with fuel }) := by
  show (match e.fuel with
    | 0 => fail .outOfFuel
    | fuel + 1 => set { e with fuel } : Exec σ Unit) e = _
  cases e.fuel <;> rfl

theorem traceEnter_apply (form : Form) (args : List Value) (e : Execution σ) :
    traceEnter form args e = match e.trace with
      | none => (.ok (), e)
      | some t => match t.enter form args with
        | .ok t => (.ok (), { e with trace := some t })
        | .error v => (.error (.violation v), e) := by
  show (match e.trace with
    | none => pure ()
    | some t => do
      let t ← act (Act.ofViolation (t.enter form args))
      set { e with trace := some t } : Exec σ Unit) e = _
  cases e.trace with
  | none => rfl
  | some t =>
    dsimp only
    cases t.enter form args <;> rfl

theorem runForm_of_length_ne (host : Host σ) (re : Reentry σ) {form : Form} {args : List Value}
    (hlength : args.length ≠ form.arity) (depth : Nat) :
    runForm host re depth form args = fail (.arityMismatch form.arity args.length) := by
  unfold runForm
  simp only [if_pos hlength]
  rfl

theorem runForm_zero (host : Host σ) (re : Reentry σ) {form : Form} {args : List Value}
    (hlength : args.length = form.arity) : runForm host re 0 form args = fail .recursionLimit := by
  unfold runForm
  simp only [hlength, ne_eq, not_true_eq_false, if_false]

/-! ## Congruences -/

/-- A relation that is kept by what an expression does, and that relates computations in the world
with the property `P` to themselves. -/
structure Steps (P : (β : Type) → StateM (World σ) β → Prop)
    (R : (α : Type) → Exec σ α → Exec σ α → Prop) : Prop where
  act : ∀ {α : Type} {x : Act σ α}, P _ x → R α (Exec.act x) (Exec.act x)
  bind : ∀ {α β : Type} {x y : Exec σ α} {k l : α → Exec σ β}, R α x y → (∀ a, R β (k a) (l a)) →
    R β (x >>= k) (y >>= l)
  withFrame : ∀ {α : Type} (F : Frame) {x y : Exec σ α}, R α x y →
    R α (Exec.withFrame F x) (Exec.withFrame F y)
  tracing : ∀ f, R Unit (Exec.tracing f) (Exec.tracing f)
  traceEnter : ∀ form args, R Unit (Exec.traceEnter form args) (Exec.traceEnter form args)

/-- A relation that is kept by the steps of a run, of which each expression pays for itself. -/
structure Congruence (P : (β : Type) → StateM (World σ) β → Prop)
    (R : (α : Type) → Exec σ α → Exec σ α → Prop) : Prop extends Steps P R where
  consumeFuel : R Unit Exec.consumeFuel Exec.consumeFuel

/-- What runs ask of the host is related. -/
structure Asks (host : Host σ) (re re' : Reentry σ) (R : (α : Type) → Exec σ α → Exec σ α → Prop) :
    Prop where
  primitive : ∀ name args,
    R _ (callHost host re (.primitive name args) args (host.primitive name args))
      (callHost host re' (.primitive name args) args (host.primitive name args))
  member : ∀ kind m args,
    R _ (callHost host re (.member kind m args) args (host.member kind m args))
      (callHost host re' (.member kind m args) args (host.member kind m args))
  allocate : ∀ cls, R _ (callHost host re (.allocate cls) [] (host.allocate cls))
    (callHost host re' (.allocate cls) [] (host.allocate cls))
  ensure : ∀ cls, R _ (Exec.act (Act.ensure host re cls)) (Exec.act (Act.ensure host re' cls))

/-! ## Passing a barrier -/

/-- The trace line of a barrier that was dropped. -/
def traceSwap : Option (Form × Form) → Exec σ Unit
  | some (current, prepared) => tracing fun t => t.swap current prepared
  | none => return

/-- What a direct handle does at its barrier. -/
def passAs (host : Host σ) (re : Reentry σ) (h : Handle) (m : Member) : Exec σ Value := do
  match ← act (Act.ensure host re m.cls) with
  | .reentrant => return .void
  | .done =>
    traceSwap (← act (Act.swapBarrier h m))
    return .void

/-- The last steps of passing a barrier: what is written into the trace does not matter to the
world. -/
theorem swapBarrier_eq (h : Handle) (m : Member) :
    (do
      let current := (← get).world.currentForm h
      if current.kind.hasBarrier then
        let prepared ← act (Act.directForm h.type m.kind false)
        tracing fun t => t.swap current prepared
        act (modify fun w =>
          { w with swapped := TypeForms.assign (h.id, h.type, m) prepared w.swapped })
      return .void : Exec σ Value) =
    (do
      traceSwap (← act (Act.swapBarrier h m))
      return .void) := by
  funext e
  rw [bind_apply (act (Act.swapBarrier h m)), act, Act.swapBarrier_apply]
  show (if (e.world.currentForm h).kind.hasBarrier then _ else _ : Exec σ _) e = _
  dsimp only
  split
  · rw [Act.dropBarrier_apply]
    simp only [bind_apply, act]
    rcases (Act.directForm h.type m.kind false : Act σ Form) e.world with ⟨_ | _, w⟩ <;> rfl
  · rfl

section

variable {host : Host σ} {re : Reentry σ} {v : Value} {h : Handle}

theorem passBarrier_error {e : RuntimeError} (hv : v.asHandle = .error e) :
    passBarrier host re v = fail e := by
  rw [passBarrier, hv]
  rfl

/-- Only direct handles have a barrier. -/
theorem passBarrier_plain (hv : v.asHandle = .ok h) (hmember : h.member? = none) :
    passBarrier host re v =
      (do fail (.classCast "direct method handle" ((← get).world.describe h))) := by
  have hdirect : (directMember v : Exec σ _) =
      (do fail (.classCast "direct method handle" ((← get).world.describe h))) := by
    have hpure : act (Act.ofError (.ok h)) = (pure h : Exec σ Handle) := rfl
    rw [directMember, hv, hpure, pure_bind, hmember]
  have hpure : act (Act.ofError (.ok h)) = (pure h : Exec σ Handle) := rfl
  rw [passBarrier, hv, hpure, pure_bind, hdirect, bind_assoc]
  exact bind_congr fun _ => rfl

/-- What a direct handle does when it passes its barrier. -/
theorem passBarrier_member {id : Nat} {m : Member} (hv : v.asHandle = .ok h)
    (hmember : h.member? = some (id, m)) : passBarrier host re v = passAs host re h m := by
  have hdirect : (directMember v : Exec σ _) = pure (id, m) := by
    have hpure : act (Act.ofError (.ok h)) = (pure h : Exec σ Handle) := rfl
    rw [directMember, hv, hpure, pure_bind, hmember]
  rw [passBarrier, hdirect, hv]
  refine bind_congr (x := act (Act.ensure host re m.cls)) fun status => ?_
  cases status with
  | done => exact swapBarrier_eq h m
  | reentrant => rfl

end

namespace Steps

variable {host : Host σ} {re re₁ re₂ : Reentry σ} {P : (β : Type) → StateM (World σ) β → Prop}
  {R : (α : Type) → Exec σ α → Exec σ α → Prop} {run run' : Runner σ}
  (hP : Act.Serves host re P) (hR : Steps P R)
include hP hR

/-! ## Steps -/

theorem pure (a : α) : R α (Pure.pure a) (Pure.pure a) := hR.act (hP.pure a)

theorem throw (stop : Stop RuntimeError) :
    R α (MonadExcept.throw stop) (MonadExcept.throw stop) :=
  hR.act (hP.throw stop)

theorem ofViolation (r : Except Violation α) :
    R α (Exec.act (Act.ofViolation r)) (Exec.act (Act.ofViolation r)) :=
  hR.act (hP.ofStop _)

theorem ofError (r : Except RuntimeError α) :
    R α (Exec.act (Act.ofError r)) (Exec.act (Act.ofError r)) :=
  hR.act (hP.ofStop _)

/-- A look at the world in front of a computation. -/
theorem look {g : World σ → β} {k l : β → Exec σ α}
    (hg : ∀ w gs l, g { w with frames := gs, limits := l } = g w) (h : ∀ b, R α (k b) (l b)) :
    R α (get >>= fun e => k (g e.world)) (get >>= fun e => l (g e.world)) :=
  hR.bind (x := Exec.act (modifyGet fun w => (g w, w)))
    (hR.act (hP.outer (World.Outer.look (g := fun w => Except.ok (g w)) fun w gs l =>
      congrArg Except.ok (hg w gs l)))) h

theorem callHost (call : HostCall) (args : List Value)
    (code : Script σ RuntimeError Value) :
    R _ (Exec.callHost host re call args code) (Exec.callHost host re call args code) :=
  hR.act (hP.bind (hP.callHost hP.perform hP.invoke hP.ensure call args code) fun _ => hP.ofStop _)

theorem asks : Asks host re re R where
  primitive _ _ := callHost hP hR _ _ _
  member _ _ _ := callHost hP hR _ _ _
  allocate _ := callHost hP hR _ _ _
  ensure cls := hR.act (hP.toLaw.ensure hP.perform hP.invoke hP.ensure cls)

/-- The error that shows a handle. -/
theorem failShowing (h : Handle) (e : String → RuntimeError) :
    R α (get >>= fun s => Exec.fail (e (s.world.describe h)))
      (get >>= fun s => Exec.fail (e (s.world.describe h))) :=
  look hP hR (g := fun w => w.describe h) (k := fun text => Exec.fail (e text))
    (l := fun text => Exec.fail (e text)) (fun _ _ _ => rfl) fun _ => throw hP hR _

/-! ## Intrinsics -/

theorem directMember (v : Value) :
    R _ (Exec.directMember (σ := σ) v) (Exec.directMember v) := by
  refine hR.bind (ofError hP hR _) fun h => ?_
  split
  · exact pure hP hR _
  · exact failShowing hP hR h (RuntimeError.classCast "direct method handle")

theorem boundField (species : Species) (index : Nat) (v : Value) :
    R _ (Exec.boundField (σ := σ) species index v) (Exec.boundField species index v) := by
  refine hR.bind (ofError hP hR _) fun h => ?_
  have hfail := failShowing (α := Value) hP hR h (RuntimeError.classCast "bound method handle")
  split
  · split
    · exact ofViolation hP hR _
    · exact hfail
  · exact hfail

theorem passBarrier (hasks : Asks host re₁ re₂ R) (v : Value) :
    R _ (Exec.passBarrier host re₁ v) (Exec.passBarrier host re₂ v) := by
  cases hv : v.asHandle with
  | error e =>
    rw [passBarrier_error hv, passBarrier_error hv]
    exact throw hP hR _
  | ok h =>
  cases hm : h.member? with
  | none =>
    rw [passBarrier_plain hv hm, passBarrier_plain hv hm]
    exact failShowing hP hR h (RuntimeError.classCast "direct method handle")
  | some p =>
  obtain ⟨id, m⟩ := p
  rw [passBarrier_member hv hm, passBarrier_member hv hm]
  refine hR.bind (hasks.ensure _) fun status => ?_
  cases status with
  | reentrant => exact pure hP hR _
  | done =>
    refine hR.bind (hR.act (hP.swapBarrier h id m hm)) fun swap => ?_
    cases swap with
    | none => exact pure hP hR _
    | some swap => exact hR.bind (hR.tracing _) fun _ => pure hP hR _

variable (hrun : ∀ form args, R _ (run form args) (run' form args))
include hrun

variable (run run') in
theorem invokeHandle (h : Handle) (args : List Value) :
    R _ (Exec.invokeHandle run h args) (Exec.invokeHandle run' h args) :=
  look hP hR (g := fun w => w.currentForm h)
    (k := fun form => Exec.withFrame ⟨[form], []⟩ (run form (.handle h :: args)))
    (l := fun form => Exec.withFrame ⟨[form], []⟩ (run' form (.handle h :: args)))
    (fun _ _ _ => rfl) fun form => hR.withFrame _ (hrun form _)

theorem invokeBasic (callee : Signature) (args : List Value) :
    R _ (Exec.invokeBasic run callee args) (Exec.invokeBasic run' callee args) := by
  refine hR.bind (ofViolation hP hR _) fun v => hR.bind (ofError hP hR _) fun h => ?_
  dsimp only
  split
  · exact hR.bind (throw hP hR _) fun _ => invokeHandle run run' hP hR hrun h _
  · exact invokeHandle run run' hP hR hrun h _

theorem intrinsic (hasks : Asks host re₁ re₂ R) (op : Intrinsic) (args : List Value) :
    R _ (Exec.intrinsic host re₁ run op args) (Exec.intrinsic host re₂ run' op args) := by
  have harg : ∀ i, R _ (Exec.act (Act.ofViolation (valueAt args i)) : Exec σ Value)
      (Exec.act (Act.ofViolation (valueAt args i))) := fun i => ofViolation hP hR _
  cases op with
  | invokeBasic callee => exact invokeBasic hP hR hrun callee args
  | boundField species index => exact hR.bind (harg 0) fun v => boundField hP hR species index v
  | checkSpreadLength =>
    exact hR.bind (harg 1) fun _ => hR.bind (ofError hP hR _) fun _ => hR.bind (harg 0) fun _ =>
      ofError hP hR _
  | arrayLoad element =>
    exact hR.bind (harg 1) fun _ => hR.bind (ofError hP hR _) fun _ => hR.bind (harg 0) fun _ =>
      ofError hP hR _
  | zero type => exact pure hP hR _
  | identity type => exact harg 0
  | checkExactType =>
    refine hR.bind (harg 0) fun _ => hR.bind (ofError hP hR _) fun h => hR.bind (harg 1) fun _ =>
      hR.bind (ofError hP hR _) fun type => ?_
    split
    · exact throw hP hR _
    · exact pure hP hR _
  | checkGenericType =>
    exact hR.bind (harg 0) fun _ => hR.bind (ofError hP hR _) fun h => hR.bind (harg 1) fun _ =>
      hR.bind (ofError hP hR _) fun type => hR.bind (hR.act (hP.perform (.asType h type)))
        fun _ => pure hP hR _
  | ensureInitialized => exact hR.bind (harg 0) fun v => passBarrier hP hR hasks v
  | internalMemberName | constructorMember =>
    exact hR.bind (harg 0) fun v => hR.bind (directMember hP hR v) fun _ => pure hP hR _
  | allocateInstance =>
    exact hR.bind (harg 0) fun v => hR.bind (directMember hP hR v) fun _ =>
      hasks.allocate _
  | linkTo kind type =>
    unfold Exec.intrinsic
    dsimp only
    split
    · exact throw hP hR _
    · exact hR.bind (ofError hP hR _) fun _ => hasks.member _ _ _

/-! ## Forms -/

theorem apply_asks (hasks : Asks host re₁ re₂ R) (f : Function Form) (args : List Value) :
    R _ (Exec.apply host re₁ run f args) (Exec.apply host re₂ run' f args) := by
  cases f with
  | intrinsic op => exact intrinsic hP hR hrun hasks op args
  | external name type => exact hasks.primitive name args
  | form callee => exact hrun callee args

theorem apply (f : Function Form) (args : List Value) :
    R _ (Exec.apply host re run f args) (Exec.apply host re run' f args) :=
  apply_asks hP hR hrun (asks hP hR) f args

end Steps

namespace Congruence

variable {host : Host σ} {re re₁ re₂ : Reentry σ} {P : (β : Type) → StateM (World σ) β → Prop}
  {R : (α : Type) → Exec σ α → Exec σ α → Prop} {run : Runner σ}
  (hP : Act.Serves host re P) (hR : Congruence P R)
include hP hR

theorem evaluate {apply apply' : Function Form → List Value → Exec σ Value}
    (happly : ∀ f args, R _ (apply f args) (apply' f args)) (form : Form) (names : List (Name Form))
    (values : List Value) :
    R _ (Exec.evaluate apply form names values) (Exec.evaluate apply' form names values) := by
  induction names generalizing values with
  | nil => exact Steps.pure hP hR.toSteps values
  | cons n rest ih =>
    refine hR.bind hR.consumeFuel fun _ => ?_
    split
    · exact Steps.throw hP hR.toSteps _
    · exact hR.bind (hR.tracing _) fun _ => hR.bind (Steps.ofViolation hP hR.toSteps _) fun _ =>
        hR.bind (hR.withFrame _ (happly _ _)) fun _ => hR.bind (hR.tracing _) fun _ => ih _

variable (hself : ∀ form args, R _ (run form args) (run form args)) in
include hself in
theorem evaluate_self (form : Form) (names : List (Name Form)) (values : List Value) :
    R _ (Exec.evaluate (Exec.apply host re run) form names values)
      (Exec.evaluate (Exec.apply host re run) form names values) :=
  evaluate hP hR (Steps.apply hP hR.toSteps hself) form names values

/-- A form runs to related computations if the forms that it calls do. -/
theorem runForm_succ (hasks : Asks host re₁ re₂ R) (depth depth' : Nat)
    (hrun : ∀ form args, R _ (Exec.runForm host re₁ depth form args)
      (Exec.runForm host re₂ depth' form args)) (form : Form) (args : List Value) :
    R _ (Exec.runForm host re₁ (depth + 1) form args)
      (Exec.runForm host re₂ (depth' + 1) form args) := by
  have hexit : ∀ result, R _ (do
      Exec.tracing fun t => t.exit form result
      return result)
      (do
      Exec.tracing fun t => t.exit form result
      return result) := fun result => hR.bind (hR.tracing _) fun _ => Steps.pure hP hR.toSteps _
  unfold Exec.runForm
  dsimp only
  -- Behind a check that fails stands the same run as behind one that does not.
  split
  case' isTrue => refine hR.bind (Steps.throw hP hR.toSteps _) fun _ => ?_
  all_goals
    refine hR.bind (hR.traceEnter form args) fun _ =>
      hR.bind (evaluate hP hR (Steps.apply_asks hP hR.toSteps hrun hasks) form _ _) fun values => ?_
    split
    · exact hR.bind (Steps.pure hP hR.toSteps _) hexit
    · exact hR.bind (Steps.ofViolation hP hR.toSteps _) hexit

/-- Runs that ask related things of the host are related. -/
theorem runForm (hasks : Asks host re₁ re₂ R) (depth : Nat) (form : Form) (args : List Value) :
    R _ (Exec.runForm host re₁ depth form args) (Exec.runForm host re₂ depth form args) := by
  induction depth generalizing form args with
  | zero =>
    by_cases hlength : args.length = form.arity
    · rw [runForm_zero host re₁ hlength, runForm_zero host re₂ hlength]
      exact Steps.throw hP hR.toSteps _
    · rw [runForm_of_length_ne host re₁ hlength, runForm_of_length_ne host re₂ hlength]
      exact Steps.throw hP hR.toSteps _
  | succ depth ih => exact runForm_succ hP hR hasks depth depth ih form args

/-- A run is related to itself. -/
theorem runForm_self (depth : Nat) (form : Form) (args : List Value) :
    R _ (Exec.runForm host re depth form args) (Exec.runForm host re depth form args) :=
  runForm hP hR (Steps.asks hP hR.toSteps) depth form args

/-- A run is related to one of a greater depth, if what hits the limit is related to whatever is
related to itself. -/
theorem runForm_le (hlimit : ∀ y : Exec σ Value, R _ y y → R _ (Exec.fail .recursionLimit) y)
    {depth depth' : Nat} (hle : depth ≤ depth') (form : Form) (args : List Value) :
    R _ (Exec.runForm host re depth form args) (Exec.runForm host re depth' form args) := by
  induction depth generalizing depth' form args with
  | zero =>
    by_cases hlength : args.length = form.arity
    · rw [runForm_zero host re hlength]
      exact hlimit _ (runForm_self hP hR depth' form args)
    · rw [runForm_of_length_ne host re hlength, runForm_of_length_ne host re hlength]
      exact Steps.throw hP hR.toSteps _
  | succ depth ih =>
    obtain ⟨depth', rfl⟩ := Nat.exists_eq_add_of_le' hle
    exact runForm_succ hP hR (Steps.asks hP hR.toSteps) depth (depth' + depth)
      (fun form args => ih (Nat.le_add_left depth depth') form args) form args

end Congruence

/-- Equality is a congruence. -/
theorem congruence_eq : Congruence (σ := σ) (fun _ _ => True) fun _ x y => x = y where
  act _ := rfl
  bind hx hk := by rw [hx, funext hk]
  withFrame _ _ _ h := by rw [h]
  tracing _ := rfl
  traceEnter _ _ := rfl
  consumeFuel := rfl

/-! ## Invocations -/

/-- Calls a handle at a call site of a type, of which `run` runs the forms. -/
def linkAndCall (run : Runner σ) (h : Handle) (type : Signature) (generic : Bool) (args : List Value) :
    Exec σ Value := do
  act (Act.ofError (Act.checkArguments type args))
  let linker ← act (Act.invokerForm type ⟨generic, true⟩)
  withFrame ⟨[linker], []⟩ (run linker (.handle h :: args ++ [.signature type]))

/-- Invokes a handle, of which `run` runs the forms. -/
def invocation (run : Runner σ) (h : Handle) (args : List Value) : CallSite → Exec σ Value
  | .basic => do
    act (Act.ofError (Act.checkArguments h.type args))
    invokeHandle run h args
  | .exact type => linkAndCall run h type false args
  | .generic type => linkAndCall run h type true args

/-- Related runs make related invocations. -/
theorem Steps.invocation {host : Host σ} {re : Reentry σ}
    {P : (β : Type) → StateM (World σ) β → Prop} {R : (α : Type) → Exec σ α → Exec σ α → Prop}
    {run run' : Runner σ} (hP : Act.Serves host re P) (hR : Steps P R)
    (hform : ∀ type shape, P _ (Act.invokerForm type shape))
    (hrun : ∀ form args, R _ (run form args) (run' form args)) (h : Handle) (args : List Value)
    (site : CallSite) : R _ (Exec.invocation run h args site) (Exec.invocation run' h args site) := by
  have hlink (type : Signature) (generic : Bool) :
      R _ (linkAndCall run h type generic args) (linkAndCall run' h type generic args) :=
    hR.bind (ofError hP hR _) fun _ => hR.bind (hR.act (hform type _)) fun linker =>
      hR.withFrame _ (hrun linker _)
  cases site with
  | basic => exact hR.bind (ofError hP hR _) fun _ => invokeHandle run run' hP hR hrun h args
  | exact type => exact hlink type false
  | generic type => exact hlink type true

end Exec

end HandleForms
