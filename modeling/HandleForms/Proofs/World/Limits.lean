import HandleForms.Proofs.World.Making

/-!
# What computations see of the limits

Nothing but an invocation looks at the limits of a world. What host code asks for goes the same under
all limits as long as it invokes nothing (`Script.NeverInvokes`), and all that it does to the journal
is to add to it (`Act.Limitless`).
-/

namespace HandleForms

variable {σ α β ε : Type}

/-! ## What is alive under other limits -/

theorem World.closure_withLimits (w : World σ) (l : ExecLimits) (n : Nat) (objects : List Nat) :
    (w.withLimits l).closure n objects = w.closure n objects := by
  induction n generalizing objects with
  | zero => rfl
  | succ n ih => exact ih _

theorem World.live_withLimits (w : World σ) (l : ExecLimits) : (w.withLimits l).live = w.live := by
  -- What is reached, what is cyclic and the roots are read off the other fields.
  have hreached : (w.withLimits l).reached = w.reached := by
    funext values
    simp only [reached, reachedObjects, closure_withLimits]
    rfl
  have hcyclic : (w.withLimits l).isCyclic = w.isCyclic := by
    funext object
    simp only [isCyclic, reachedObjects, closure_withLimits]
    rfl
  have hroots : (w.withLimits l).roots = w.roots := by
    simp only [roots, hcyclic]
  simp only [live, hreached, hroots]
  rfl

namespace Act

/-! ## Computations that do not look at the limits -/

/-- The computation goes the same under all limits, and takes nothing out of the journal. -/
structure Limitless (x : StateM (World σ) β) : Prop where
  eq : ∀ (w : World σ) l, x (w.withLimits l) = ((x w).1, (x w).2.withLimits l)
  journal : ∀ w, w.journal <:+ (x w).2.journal

namespace Limitless

theorem andThen {x : StateM (World σ) α} {k : α → StateM (World σ) β} (hx : Limitless x)
    (hk : ∀ a, Limitless (k a)) : Limitless (x >>= k : StateM (World σ) β) := by
  refine ⟨fun w l => ?_, fun w => (hx.journal w).trans ((hk _).journal _)⟩
  show k (x (w.withLimits l)).1 (x (w.withLimits l)).2 = _
  rw [hx.eq w l]
  exact (hk _).eq _ l

theorem withFrame (F : Frame) {x : Act σ α} (hx : Limitless x) : Limitless (Act.withFrame F x) := by
  refine ⟨fun w l => ?_, fun w => hx.journal (w.withFrames (F :: w.frames))⟩
  have heq := hx.eq (w.withFrames (F :: w.frames)) l
  show ((x ((w.withFrames (F :: w.frames)).withLimits l)).1,
    (x ((w.withFrames (F :: w.frames)).withLimits l)).2.withFrames w.frames) = _
  rw [heq]
  rfl

theorem onShared (f : Live Kept → Context Kept → InvokerTable → α × Context Kept × InvokerTable) :
    Limitless (Act.onShared f : Act σ α) := by
  refine ⟨fun w l => ?_, fun w => List.suffix_refl _⟩
  show (Except.ok (f (w.withLimits l).live w.context w.invokers).1, { w.withLimits l with
    context := (f (w.withLimits l).live w.context w.invokers).2.1,
    invokers := (f (w.withLimits l).live w.context w.invokers).2.2 }) = _
  rw [w.live_withLimits l]
  rfl

theorem making : Making fun β => Limitless (σ := σ) (β := β) where
  outer hf := ⟨hf.limits, hf.journal⟩
  andThen := andThen
  withFrame := withFrame
  onShared := onShared

end Limitless

end Act

/-! ## Host code that invokes nothing -/

/-- Host code that invokes no handle, whatever it is answered. -/
def Script.NeverInvokes : Script σ ε α → Prop
  | .done _ | .panic _ => True
  | .getState next => ∀ s, (next s).NeverInvokes
  | .create _ next | .getField _ _ next => ∀ v, (next v).NeverInvokes
  | .setState _ next | .setField _ _ _ next | .hold _ next | .release next => next.NeverInvokes
  | .make _ next => ∀ r, (next r).NeverInvokes
  | .formKind _ next => ∀ kind, (next kind).NeverInvokes
  | .invoke _ _ _ _ => False
  | .ensure _ next => ∀ r, (next r).NeverInvokes

/-- No code of the host invokes a handle. -/
structure Host.NeverInvokes (host : Host σ) : Prop where
  primitive : ∀ name args, (host.primitive name args).NeverInvokes
  member : ∀ kind m args, (host.member kind m args).NeverInvokes
  initializer : ∀ cls, (host.initializer cls).NeverInvokes
  allocate : ∀ cls, (host.allocate cls).NeverInvokes

/-- What host code may ask for, without invocations. -/
def Reentry.withoutInvoke (re : Reentry σ) : Reentry σ :=
  ⟨fun _ _ _ => Act.violate .reentry, re.ensure⟩

namespace Act

variable {host : Host σ} {re : Reentry σ}

/-- Host code that invokes nothing does not miss it. -/
theorem script_withoutInvoke (host : Host σ) (re : Reentry σ) (pinned : List Value)
    {code : Script σ ε α} (hcode : code.NeverInvokes) :
    script host re pinned code = script host re.withoutInvoke pinned code := by
  induction code generalizing pinned with
  | done | panic => rfl
  | getState next ih => exact bind_congr fun w => ih _ _ (hcode _)
  | create plan next ih | getField object name next ih => exact bind_congr fun v => ih _ _ (hcode _)
  | setState state next ih | setField object name value next ih =>
    exact bind_congr fun _ => ih _ hcode
  | make op next ih => exact bind_congr fun r => ih _ _ (hcode r)
  | formKind target next ih => exact bind_congr fun w => bind_congr fun _ => ih _ _ (hcode _)
  | invoke => exact hcode.elim
  | ensure cls next ih => exact bind_congr fun r => ih _ _ (hcode r)
  | hold value next ih => exact ih _ hcode
  | release next ih => exact ih _ hcode

theorem callHost_withoutInvoke (host : Host σ) (re : Reentry σ) (call : HostCall) (args : List Value)
    {code : Script σ ε α} (hcode : code.NeverInvokes) :
    callHost host re call args code = callHost host re.withoutInvoke call args code :=
  bind_congr fun _ => script_withoutInvoke host re args hcode

theorem ensure_withoutInvoke (hhost : host.NeverInvokes) (re : Reentry σ) (cls : String) :
    ensure host re cls = ensure host re.withoutInvoke cls := by
  have hrun : runInitializer host re cls = runInitializer host re.withoutInvoke cls := by
    unfold runInitializer
    rw [callHost_withoutInvoke host re _ _ (hhost.initializer cls)]
  unfold ensure
  rw [hrun]

end Act

/-- Passing the class barrier goes the same under all limits. -/
theorem Host.NeverInvokes.limitless_reenter {host : Host σ} (hhost : host.NeverInvokes)
    (levels : Nat) (cls : String) : Act.Limitless ((host.reenter levels).ensure cls) := by
  have hP := Act.Limitless.making (σ := σ)
  induction levels generalizing cls with
  | zero => exact hP.throw _
  | succ levels ih =>
    have hinvoke : ∀ target site args,
        Act.Limitless ((host.reenter levels).withoutInvoke.invoke target site args) :=
      fun _ _ _ => hP.throw _
    show Act.Limitless (Act.ensure host (host.reenter levels) cls)
    rw [Act.ensure_withoutInvoke hhost]
    exact hP.ensure (hP.perform host) hinvoke ih cls

end HandleForms
