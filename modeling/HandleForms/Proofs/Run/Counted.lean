import HandleForms.Proofs.Run.Body

/-!
# Counting expressions

`Exec.countedForm` runs a form as the interpreter does, but pays nothing: it counts an expression where
its evaluation starts. A run that comes to an answer or an error of its own has used as much fuel as
it counts expressions (`Exec.counts_runForm`), however the forms that it runs are nested.
-/

namespace HandleForms

variable {σ α β : Type}

/-- The computation comes to an answer or to an error that is no limit. -/
def Outcome.Settled (o : Outcome α) : Prop := ¬ o.Limited ∧ ∀ v, o ≠ .error (.violation v)

namespace Exec

/-- Counts an expression, in the place of the fuel. -/
def count : Exec σ Unit := modify fun e => { e with fuel := e.fuel + 1 }

/-- What is done with one name: its expression is counted, and then evaluated. -/
def countedStep (apply : Function Form → List Value → Exec σ Value) (form : Form) (n : Name Form)
    (values : List Value) : Exec σ Value :=
  match n.expr with
  | none => act (Act.violate .outOfBounds)
  | some e => do
    count
    tracing fun t => t.expression form values.length e
    let args ← act (Act.ofViolation (e.args.mapM (operand values)))
    let v ← withFrame ⟨[form], values⟩ (apply e.function args)
    tracing fun t => t.value v
    return v

/-- Runs a form without fuel, and counts the expressions that it starts. -/
def countedForm (host : Host σ) (re : Reentry σ) (depth : Nat) (form : Form) (args : List Value) :
    Exec σ Value := do
  if args.length ≠ form.arity then fail (.arityMismatch form.arity args.length)
  match depth with
  | 0 => fail .recursionLimit
  | depth + 1 =>
    traceEnter form args
    let values ← loop (countedStep (apply host re (countedForm host re depth)) form)
      (form.names.drop form.arity) args
    let result ← resultOf form values
    tracing fun t => t.exit form result
    return result

/-! ## Fuel and counts -/

/-- What the first computation uses up is what the second one counts. -/
def Counts (x y : Exec σ α) : Prop :=
  ∀ (e : Execution σ) (c : Nat), Outcome.Settled (x e).1 → (x e).2.fuel ≤ e.fuel ∧
    y { e with fuel := c } = ((x e).1, { (x e).2 with fuel := c + (e.fuel - (x e).2.fuel) })

namespace Counts

/-- A computation that uses nothing and looks at no fuel. -/
theorem of_same {x : Exec σ α} (hx : ∀ (e : Execution σ) c,
      x { e with fuel := c } = ((x e).1, { (x e).2 with fuel := c })) : Counts x x := by
  intro e c _
  have hfuel : (x e).2.fuel = e.fuel := congrArg (fun r => r.2.fuel) (hx e e.fuel)
  refine ⟨Nat.le_of_eq hfuel, ?_⟩
  rw [hx, hfuel, Nat.sub_self, Nat.add_zero]

theorem bind {x y : Exec σ α} {k l : α → Exec σ β} (hx : Counts x y) (hk : ∀ a, Counts (k a) (l a)) :
    Counts (x >>= k) (y >>= l) := by
  intro e c hsettled
  rw [bind_apply x k] at hsettled ⊢
  have hx := hx e c
  rw [bind_apply]
  cases hr : (x e).1 with
  | ok a =>
    rw [hr] at hsettled hx
    obtain ⟨hfuel, heq⟩ := hx ⟨Outcome.not_limited_ok a, nofun⟩
    -- The second part goes on from the count that the first one leaves.
    obtain ⟨hfuel', heq'⟩ := hk a (x e).2 (c + (e.fuel - (x e).2.fuel)) hsettled
    refine ⟨Nat.le_trans hfuel' hfuel, ?_⟩
    rw [heq]
    refine heq'.trans ?_
    rw [Nat.add_assoc, show e.fuel - (x e).2.fuel + ((x e).2.fuel - (k a (x e).2).2.fuel) =
      e.fuel - (k a (x e).2).2.fuel by omega]
  | error stop =>
    rw [hr] at hsettled hx
    obtain ⟨hfuel, heq⟩ := hx ⟨fun h => hsettled.1 ((Outcome.limited_error_iff stop).1 h),
      fun v hv => hsettled.2 v (by rw [Except.error.inj hv])⟩
    exact ⟨hfuel, by rw [heq]⟩

theorem withFrame (F : Frame) {x y : Exec σ α} (hx : Counts x y) :
    Counts (Exec.withFrame F x) (Exec.withFrame F y) := by
  intro e c hsettled
  obtain ⟨hfuel, heq⟩ :=
    hx { e with world := e.world.withFrames (F :: e.world.frames) } c hsettled
  refine ⟨hfuel, ?_⟩
  show (let r := y ⟨e.world.withFrames (F :: e.world.frames), c, e.trace⟩
    (r.1, ({ r.2 with world := r.2.world.withFrames e.world.frames } : Execution σ))) = _
  rw [show y ⟨e.world.withFrames (F :: e.world.frames), c, e.trace⟩ = _ from heq]
  rfl

/-- Fuel is paid where an expression is counted. -/
theorem consumeFuel : Counts (Exec.consumeFuel : Exec σ Unit) count := by
  rintro ⟨w, fuel, trace⟩ c hsettled
  cases fuel with
  | zero => exact absurd (.inl rfl) hsettled.1
  | succ fuel =>
    refine ⟨Nat.le_succ fuel, ?_⟩
    show (Except.ok (), (⟨w, c + 1, trace⟩ : Execution σ)) = (.ok (), ⟨w, c + (fuel + 1 - fuel), trace⟩)
    rw [Nat.add_sub_cancel_left]

theorem traceEnter (form : Form) (args : List Value) :
    Counts (Exec.traceEnter form args : Exec σ Unit) (Exec.traceEnter form args) := by
  refine of_same fun e c => ?_
  obtain ⟨w, fuel, _ | t⟩ := e
  · rfl
  · simp only [traceEnter_apply]
    cases t.enter form args <;> rfl

theorem steps : Steps (σ := σ) (fun _ _ => True) fun _ => Counts where
  act _ := of_same fun _ _ => rfl
  bind := bind
  withFrame := withFrame
  tracing _ := of_same fun _ _ => rfl
  traceEnter := traceEnter

end Counts

variable {host : Host σ} {re : Reentry σ}

theorem counts_nameStep {apply apply' : Function Form → List Value → Exec σ Value}
    (happly : ∀ f args, Counts (apply f args) (apply' f args)) (form : Form) (n : Name Form)
    (values : List Value) : Counts (nameStep apply form n values) (countedStep apply' form n values) := by
  unfold nameStep countedStep
  have hR := Counts.steps (σ := σ)
  cases n.expr with
  | some e =>
    refine Counts.consumeFuel.bind fun _ => hR.bind (hR.tracing _) fun _ =>
      hR.bind (hR.act trivial) fun args => hR.bind (hR.withFrame _ (happly _ args)) fun v =>
        hR.bind (hR.tracing _) fun _ => hR.act (x := Pure.pure v) trivial
  | none =>
    -- A name that is no expression violates a precondition, whether or not it can be paid.
    rintro ⟨w, _ | fuel, trace⟩ c hsettled
    · exact absurd (.inl rfl) hsettled.1
    · exact absurd rfl (hsettled.2 .outOfBounds)

theorem counts_loop {step step' : Name Form → List Value → Exec σ Value}
    (hstep : ∀ n values, Counts (step n values) (step' n values)) (names : List (Name Form))
    (values : List Value) : Counts (loop step names values) (loop step' names values) := by
  induction names generalizing values with
  | nil => exact Counts.steps.act (x := Pure.pure values) trivial
  | cons n names ih => exact (hstep n values).bind fun v => ih (values ++ [v])

/-- Arguments that do not fit stop both runs, and nothing is started. -/
theorem counts_of_length_ne (host : Host σ) (re : Reentry σ) (depth : Nat) {form : Form}
    {args : List Value} (hlength : args.length ≠ form.arity) :
    Counts (runForm host re depth form args) (countedForm host re depth form args) := by
  rw [runForm_of_length_ne host re hlength]
  unfold countedForm
  simp only [if_pos hlength]
  exact Steps.throw (Act.Serves.trivial host re) Counts.steps _

/-- The fuel that a run uses is the number of the expressions that it starts. -/
theorem counts_runForm (host : Host σ) (re : Reentry σ) (depth : Nat) (form : Form)
    (args : List Value) :
    Counts (runForm host re depth form args) (countedForm host re depth form args) := by
  have hR := Counts.steps (σ := σ)
  have hP := Act.Serves.trivial host re
  induction depth generalizing form args with
  | zero =>
    by_cases hlength : args.length = form.arity
    · rw [runForm_zero host re hlength]
      exact fun e c hsettled => absurd (.inr rfl) hsettled.1
    · exact counts_of_length_ne host re 0 hlength
  | succ depth ih =>
    by_cases hlength : args.length = form.arity
    · rw [runForm_succ_eq host re depth hlength]
      unfold countedForm
      simp only [if_neg (not_not.2 hlength)]
      refine hR.bind (hR.traceEnter form args) fun _ => hR.bind
        (counts_loop (counts_nameStep (Steps.apply hP hR ih) form) _ _) fun values => ?_
      exact hR.bind (Steps.resultOf hP hR form values) fun result => hR.bind (hR.tracing _) fun _ =>
        Steps.pure hP hR result
    · exact counts_of_length_ne host re (depth + 1) hlength

end Exec

end HandleForms
