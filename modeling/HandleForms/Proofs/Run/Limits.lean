import HandleForms.Proofs.Run.Counted
import HandleForms.Proofs.World.Limits

/-!
# Limits cut runs short

A run that hits no limit goes the same under greater ones, and a run that does hit one has done what
a run with greater limits does first (`Exec.Cuts`, `Exec.cuts_runForm`). That holds for host code that
invokes nothing, as an invocation by host code has limits of its own; such host code does not miss
invocations either (`Exec.runForm_withoutInvoke`). Invocations come to executions with the limits of
the world (`Act.executes_invoke`).
-/

namespace HandleForms

variable {σ α β : Type}

/-- The execution with other limits, and some more fuel. -/
def Execution.more (e : Execution σ) (l : ExecLimits) (extra : Nat) : Execution σ :=
  ⟨e.world.withLimits l, e.fuel + extra, e.trace⟩

namespace Exec

/-! ## Runs that are cut short -/

/-- The first computation does what the second one does, unless a limit cuts it short. -/
structure Cuts (x y : Exec σ α) : Prop where
  same : ∀ (e : Execution σ) l extra, ¬ Outcome.Limited (x e).1 →
    y (e.more l extra) = ((x e).1, (x e).2.more l extra)
  cut : ∀ (e : Execution σ) l extra, Outcome.Limited (x e).1 →
    (x e).2.world.journal <:+ (y (e.more l extra)).2.world.journal
  grows : ∀ e : Execution σ, e.world.journal <:+ (y e).2.world.journal

namespace Cuts

theorem of_same {x y : Exec σ α} (hsame : ∀ (e : Execution σ) l extra,
      y (e.more l extra) = ((x e).1, (x e).2.more l extra))
    (hgrows : ∀ e : Execution σ, e.world.journal <:+ (y e).2.world.journal) : Cuts x y :=
  ⟨fun e l extra _ => hsame e l extra,
    fun e l extra _ => by rw [hsame e l extra]; exact List.suffix_refl _, hgrows⟩

theorem act {x : Act σ α} (hx : Act.Limitless x) : Cuts (Exec.act x) (Exec.act x) := by
  refine of_same (fun e l extra => ?_) fun e => hx.journal e.world
  show ((x (e.world.withLimits l)).1, (⟨(x (e.world.withLimits l)).2, _, _⟩ : Execution σ)) = _
  rw [hx.eq]
  rfl

theorem bind {x y : Exec σ α} {k l : α → Exec σ β} (hx : Cuts x y) (hk : ∀ a, Cuts (k a) (l a)) :
    Cuts (x >>= k) (y >>= l) := by
  have hgrows : ∀ e : Execution σ, (y e).2.world.journal <:+ ((y >>= l) e).2.world.journal := by
    intro e
    rw [bind_apply]
    cases (y e).1 with
    | ok a => exact (hk a).grows _
    | error stop => exact List.suffix_refl _
  refine ⟨fun e lim extra hlimits => ?_, fun e lim extra hlimits => ?_,
    fun e => (hx.grows e).trans (hgrows e)⟩
  · rw [bind_apply x k] at hlimits ⊢
    have hsame := hx.same e lim extra
    cases hr : (x e).1 with
    | ok a =>
      rw [hr] at hlimits hsame
      rw [bind_apply, hsame (Outcome.not_limited_ok a)]
      exact (hk a).same _ lim extra hlimits
    | error stop =>
      rw [hr] at hlimits hsame
      rw [bind_apply, hsame fun h => hlimits ((Outcome.limited_error_iff stop).1 h)]
  · rw [bind_apply x k] at hlimits ⊢
    cases hr : (x e).1 with
    | ok a =>
      rw [hr] at hlimits
      rw [bind_apply, hx.same e lim extra (hr ▸ Outcome.not_limited_ok a), hr]
      exact (hk a).cut _ lim extra hlimits
    | error stop =>
      -- The first part was cut short, and what comes behind only adds to the journal.
      rw [hr] at hlimits
      exact (hx.cut e lim extra (hr ▸ (Outcome.limited_error_iff stop).1 hlimits)).trans (hgrows _)

theorem withFrame (F : Frame) {x y : Exec σ α} (hx : Cuts x y) :
    Cuts (Exec.withFrame F x) (Exec.withFrame F y) := by
  let inner (e : Execution σ) : Execution σ :=
    { e with world := e.world.withFrames (F :: e.world.frames) }
  refine ⟨fun e l extra hlimits => ?_, fun e l extra hlimits => ?_, fun e => hx.grows (inner e)⟩
  · have hsame := hx.same (inner e) l extra hlimits
    show ((y ((inner e).more l extra)).1, ({ (y ((inner e).more l extra)).2 with
      world := (y ((inner e).more l extra)).2.world.withFrames e.world.frames } : Execution σ)) = _
    rw [hsame]
    rfl
  · exact hx.cut (inner e) l extra hlimits

theorem consumeFuel : Cuts (Exec.consumeFuel : Exec σ Unit) Exec.consumeFuel := by
  have hjournal : ∀ e : Execution σ, (Exec.consumeFuel e).2.world.journal = e.world.journal := by
    rintro ⟨w, fuel, trace⟩
    cases fuel <;> rfl
  refine ⟨fun e l extra hlimits => ?_,
    fun e l extra _ => hjournal e ▸ hjournal (e.more l extra) ▸ List.suffix_refl _,
    fun e => hjournal e ▸ List.suffix_refl _⟩
  · obtain ⟨w, fuel, trace⟩ := e
    cases fuel with
    | zero => exact absurd (.inl rfl) hlimits
    | succ fuel =>
      rw [consumeFuel_apply, consumeFuel_apply]
      simp only [Execution.more, Nat.add_right_comm fuel 1 extra]

theorem traceEnter (form : Form) (args : List Value) :
    Cuts (Exec.traceEnter form args : Exec σ Unit) (Exec.traceEnter form args) := by
  have henter := traceEnter_apply (σ := σ) form args
  refine of_same (fun e l extra => ?_) fun e => ?_ <;> obtain ⟨w, fuel, _ | t⟩ := e
  · rfl
  · simp only [henter, Execution.more]
    cases t.enter form args <;> rfl
  · exact List.suffix_refl _
  · rw [henter]
    dsimp only
    cases t.enter form args <;> exact List.suffix_refl _

/-- Being cut short is a congruence. -/
theorem congruence : Congruence (σ := σ) (fun _ => Act.Limitless) fun _ => Cuts where
  act := act
  bind := bind
  withFrame := withFrame
  consumeFuel := consumeFuel
  tracing _ := of_same (fun _ _ _ => rfl) fun _ => List.suffix_refl _
  traceEnter := traceEnter

end Cuts

end Exec

/-! ## Runs of forms -/

/-- What host code may ask for goes the same under all limits. -/
structure Reentry.Limitless (re : Reentry σ) : Prop where
  invoke : ∀ h site args, Act.Limitless (re.invoke h site args)
  ensure : ∀ cls, Act.Limitless (re.ensure cls)

namespace Act.Limitless

variable {re : Reentry σ}

theorem swapBarrier (h : Handle) (m : Member) : Limitless (Act.swapBarrier h m : Act σ _) := by
  have hdrop : Limitless (Act.dropBarrier h m : Act σ Form) :=
    making.bind (making.directForm _ _ _) fun form =>
      making.bind (x := modify fun w =>
        { w with swapped := TypeForms.assign (h.id, h.type, m) form w.swapped })
        ⟨fun _ _ => rfl, fun _ => List.suffix_refl _⟩ fun _ => making.pure form
  refine making.lookAt (fun w => ?_) fun _ _ _ => rfl
  dsimp only
  split
  · exact making.bind hdrop fun form => making.pure _
  · exact making.pure _

theorem serves (host : Host σ) (hre : re.Limitless) : Serves host re fun _ => Limitless where
  toLaw := making.toLaw
  perform := making.perform host
  swapBarrier h _ m _ := swapBarrier h m
  invoke := hre.invoke
  ensure := hre.ensure

end Act.Limitless

namespace Exec

variable {host : Host σ} {re : Reentry σ} {depth depth' : Nat}

/-- A run goes on where one of a smaller depth is cut short. -/
theorem cuts_runForm (host : Host σ) (hre : re.Limitless) (hle : depth ≤ depth') (form : Form)
    (args : List Value) : Cuts (runForm host re depth form args) (runForm host re depth' form args) :=
  Cuts.congruence.runForm_le (Act.Limitless.serves host hre)
    (fun _ hy => ⟨fun _ _ _ hlimits => absurd (.inr rfl) hlimits,
      fun e l extra _ => hy.grows (e.more l extra), hy.grows⟩) hle form args

end Exec

/-! ## Runs without invocations by host code -/

namespace Exec

variable {host : Host σ} (hhost : host.NeverInvokes) (re : Reentry σ)
include hhost

/-- Host code that invokes nothing is asked for the same. -/
theorem asks_withoutInvoke : Asks host re re.withoutInvoke fun _ x y => x = y where
  primitive name args := by
    rw [callHost, Act.callHost_withoutInvoke host re _ args (hhost.primitive name args)]
    rfl
  member kind m args := by
    rw [callHost, Act.callHost_withoutInvoke host re _ args (hhost.member kind m args)]
    rfl
  allocate cls := by
    rw [callHost, Act.callHost_withoutInvoke host re _ [] (hhost.allocate cls)]
    rfl
  ensure cls := congrArg act (Act.ensure_withoutInvoke hhost re cls)

/-- A run does not miss invocations that no host code asks for. -/
theorem runForm_withoutInvoke (depth : Nat) :
    runForm host re depth = runForm host re.withoutInvoke depth :=
  funext fun form => funext fun args => congruence_eq.runForm (Act.Serves.trivial host re)
    (asks_withoutInvoke hhost re) depth form args

end Exec

/-! ## Invocations -/

namespace Act

theorem Limitless.limits_eq {x : StateM (World σ) β} (hx : Limitless x) (w : World σ) :
    (x w).2.limits = w.limits :=
  congrArg (fun r => r.2.limits) (hx.eq w w.limits)

/-- In worlds with these limits the computation is an execution with their fuel and without a trace. -/
def Executes (l : ExecLimits) (x : Act σ α) (y : Exec σ α) : Prop :=
  ∀ w : World σ, w.limits = l → x w = ((y ⟨w, l.fuel, none⟩).1, (y ⟨w, l.fuel, none⟩).2.world)

namespace Executes

variable {l : ExecLimits}

theorem bind {x : Act σ α} {k : α → Act σ β} {m : α → Exec σ β} (hx : Limitless x)
    (hk : ∀ a, Executes l (k a) (m a)) : Executes l (x >>= k) (Exec.act x >>= m) := by
  intro w hw
  have hlimits := (hx.limits_eq w).trans hw
  have hact : Exec.act x ⟨w, l.fuel, none⟩ = ((x w).1, ⟨(x w).2, l.fuel, none⟩) := rfl
  rw [bind_apply, Exec.bind_apply, hact]
  cases (x w).1 with
  | ok a => exact hk a _ hlimits
  | error stop => rfl

/-- What is executed with the limits of the world, and then reported. -/
theorem report {f : World σ → Exec σ α} {y : Exec σ α} (hf : ∀ w : World σ, w.limits = l → f w = y) :
    Executes l (do ofError (← get >>= fun w => execute none (f w)).1) y := by
  intro w hw
  show (execute none (f w) >>= fun r => ofError r.1 : Act σ α) w = _
  rw [hf w hw, bind_apply, execute, hw]
  rcases y ⟨w, l.fuel, none⟩ with ⟨(_ | _) | _, e⟩ <;> rfl

theorem withFrame (F : Frame) {x : Act σ α} {y : Exec σ α} (hx : Executes l x y) :
    Executes l (Act.withFrame F x) (Exec.withFrame F y) := by
  intro w hw
  have hinner := hx (w.withFrames (F :: w.frames)) hw
  show ((x (w.withFrames (F :: w.frames))).1, (x (w.withFrames (F :: w.frames))).2.withFrames w.frames) = _
  rw [hinner]
  rfl

end Executes

/-- Reporting an error needs no frame. -/
theorem withFrame_ofError (F : Frame) (x : Act σ (Except RuntimeError α × β)) :
    (withFrame F x >>= fun r => ofError r.1 : Act σ α) =
      withFrame F (x >>= fun r => ofError r.1) := by
  funext w
  show _ = ((((x >>= fun r => ofError r.1) : Act σ α) (w.withFrames (F :: w.frames))).1,
    (((x >>= fun r => ofError r.1) : Act σ α) (w.withFrames (F :: w.frames))).2.withFrames w.frames)
  rw [bind_apply, bind_apply, withFrame]
  rcases x (w.withFrames (F :: w.frames)) with ⟨_ | ⟨_ | _, _⟩, _⟩ <;> rfl

variable (host : Host σ) (re : Reentry σ) (h : Handle) (args : List Value)

/-- An invocation is an execution with the limits of the world. -/
theorem executes_invoke (l : ExecLimits) (site : CallSite) : Executes l
    (invoke host re h site args) (Exec.invocation (Exec.runForm host re l.depth) h args site) := by
  have hP := Limitless.making (σ := σ)
  have hlink (type : Signature) (generic : Bool) : Executes l
      (linkAndCall host re h type generic args)
      (Exec.linkAndCall (Exec.runForm host re l.depth) h type generic args) :=
    .bind (hP.ofError _) fun _ => .bind (hP.invokerForm _ _) fun linker =>
      withFrame_ofError _ _ ▸ .withFrame _ (.report fun w hw => by rw [hw])
  cases site with
  | basic => exact .bind (hP.ofError _) fun _ => .report fun w hw => by rw [hw]
  | exact type => exact hlink type false
  | generic type => exact hlink type true

end Act

end HandleForms
