import HandleForms.Proofs.Guard.Ensure
import HandleForms.Proofs.Mirror.World
import HandleForms.Proofs.Run.Limits

/-!
# Runs without a limit

Host code may go on when an invocation that it asked for hit a limit. `Host.strict` cuts the whole
run off instead, so a run that is not cut off has hit no limit anywhere, and then it is the same run
as without strictness (`Host.echoes_strict`).
-/

namespace HandleForms

variable {σ α β ε : Type}

/-! ## Computations that may be cut off -/

namespace Act

/-- Cuts a computation off that hits a limit. -/
def strictly (x : Act σ α) : Act σ α := fun w =>
  if Outcome.Limited (x w).1 then (.error (.violation .reentry), (x w).2) else x w

/-- The second computation does what the first one does unless that is cut off. -/
def Echoes (x y : Act σ α) : Prop := ∀ w, Outcome.Cut (x w).1 ∨ y w = x w

namespace Echoes

variable {x y : Act σ α} {k l : α → Act σ β}

theorem refl (x : Act σ α) : Echoes x x := fun _ => .inr rfl

theorem bind (hx : Echoes x y) (hk : ∀ a, Echoes (k a) (l a)) : Echoes (x >>= k) (y >>= l) := by
  intro w
  rw [bind_apply, bind_apply]
  rcases hx w with hcut | hsame
  · rw [hcut]
    exact .inl rfl
  · rw [hsame]
    cases (x w).1 with
    | ok a => exact hk a _
    | error stop => exact .inr rfl

theorem withFrame (F : Frame) (hx : Echoes x y) :
    Echoes (Act.withFrame F x) (Act.withFrame F y) := by
  intro w
  refine (hx (w.withFrames (F :: w.frames))).imp_right fun hsame => ?_
  show ((y (w.withFrames (F :: w.frames))).1,
    (y (w.withFrames (F :: w.frames))).2.withFrames w.frames) = _
  rw [hsame]
  rfl

theorem attempt (hx : Echoes x y) : Echoes (Act.attempt x) (Act.attempt y) := by
  intro w
  unfold Act.attempt
  rcases hx w with hcut | hsame
  · left
    generalize x w = r at hcut
    obtain ⟨o, w'⟩ := r
    obtain rfl : o = _ := hcut
    rfl
  · rw [hsame]
    exact .inr rfl

theorem request (pinned : List Value) (hx : Echoes x y) :
    Echoes (Act.request pinned x) (Act.request pinned y) :=
  hx.attempt.withFrame _

/-- A computation that hits no limit does the same strictly. -/
theorem strictly (hx : Echoes x y) : Echoes (Act.strictly x) y := by
  intro w
  unfold Act.strictly
  split
  · exact .inl rfl
  · exact hx w

end Echoes

end Act

/-- What host code asks for is done unless it is cut off. -/
structure Reentry.Echoes (re re' : Reentry σ) : Prop where
  invoke : ∀ h site args, Act.Echoes (re.invoke h site args) (re'.invoke h site args)
  ensure : ∀ cls, Act.Echoes (re.ensure cls) (re'.ensure cls)

namespace Act.Echoes

variable {host : Host σ} {re re' : Reentry σ}

theorem script (hre : re.Echoes re') (code : Script σ ε α) (pinned : List Value) :
    Echoes (Act.script host re pinned code) (Act.script host re' pinned code) := by
  induction code generalizing pinned with
  | done | panic => exact .refl _
  | getState next ih => exact (refl _).bind fun w => ih w.host pinned
  | setState state next ih => exact (refl _).bind fun _ => ih pinned
  | create plan next ih => exact (refl _).bind fun v => ih v pinned
  | getField object name next ih => exact (refl _).bind fun w => ih (w.field object name) pinned
  | setField object name value next ih => exact (refl _).bind fun _ => ih pinned
  | make op next ih => exact (refl _).bind fun r => ih r pinned
  | formKind target next ih =>
    exact (refl _).bind fun w => (refl _).bind fun _ => ih (w.currentForm target).kind pinned
  | invoke target site args next ih =>
    exact ((hre.invoke target site args).request pinned).bind fun r => ih r pinned
  | ensure cls next ih => exact ((hre.ensure cls).request pinned).bind fun r => ih r pinned
  | hold value next ih => exact ih (value :: pinned)
  | release next ih => exact ih pinned.tail

theorem callHost (hre : re.Echoes re') (call : HostCall) (args : List Value) (code : Script σ ε α) :
    Echoes (Act.callHost host re call args code) (Act.callHost host re' call args code) :=
  (refl _).bind fun _ => script hre code args

variable (host) in
/-- An initializer that is cut off ends so. -/
theorem runInitializer (hre : re.Echoes re') (cls : String) (w : World σ) :
    (Act.runInitializer host re cls w).1 = .error (.violation .reentry) ∨
      Act.runInitializer host re' cls w = Act.runInitializer host re cls w := by
  have happly : ∀ re : Reentry σ, Act.runInitializer host re cls w =
      let ran := Act.callHost host re (.initializer cls) [] (host.initializer cls) w
      (initializerEnd ran.1, ran.2.push (.ended cls (initializerEnd ran.1))) := fun _ => rfl
  rw [happly, happly]
  rcases callHost hre (.initializer cls) [] (host.initializer cls) w with hcut | hsame
  · left
    dsimp only
    rw [hcut]
    rfl
  · rw [hsame]
    exact .inr rfl

theorem ensure (hre : re.Echoes re') (cls : String) :
    Echoes (Act.ensure host re cls) (Act.ensure host re' cls) := by
  intro w
  rw [ensure_apply, ensure_apply]
  by_cases hinit : host.isInitialized w.host cls = true
  · rw [if_pos hinit, if_pos hinit]
    exact .inr rfl
  rw [if_neg hinit, if_neg hinit]
  dsimp only
  -- Only the call that claims the class runs host code.
  split
  case h_5 =>
    rcases runInitializer host hre cls
      { w with barrier := ((w.barrier.enter cls).2.inspect (w.barrier.enter cls).1 0 false).2 } with
      hcut | hsame
    · rw [hcut]
      exact .inl rfl
    · rw [hsame]
      exact .inr rfl
  all_goals exact .inr rfl

end Act.Echoes

/-! ## Runs of forms -/

namespace Exec

/-- The second computation does what the first one does unless that is cut off. -/
def Echoes (x y : Exec σ α) : Prop := ∀ e, Outcome.Cut (x e).1 ∨ y e = x e

variable {host : Host σ} {re re' : Reentry σ}

theorem echoes_act {x y : Act σ α} (h : Act.Echoes x y) : Echoes (act x) (act y) := by
  intro e
  refine (h e.world).imp_right fun hsame => ?_
  unfold act
  rw [hsame]

/-- Doing the same unless cut off is a congruence. -/
theorem congruence_echoes : Congruence (σ := σ) (fun _ _ => True) fun _ => Echoes where
  act _ _ := .inr rfl
  bind {α β x y k l} hx hk e := by
    rw [bind_apply, bind_apply]
    rcases hx e with hcut | hsame
    · rw [hcut]
      exact .inl rfl
    · rw [hsame]
      cases (x e).1 with
      | ok a => exact hk a _
      | error stop => exact .inr rfl
  withFrame F x y hxy e := by
    refine (hxy { e with world := e.world.withFrames (F :: e.world.frames) }).imp_right fun hsame =>
      ?_
    unfold withFrame
    dsimp only
    rw [hsame]
  tracing _ _ := .inr rfl
  traceEnter _ _ _ := .inr rfl
  consumeFuel _ := .inr rfl

theorem echoes_callHost (hre : re.Echoes re') (call : HostCall) (args : List Value)
    (code : Script σ RuntimeError Value) :
    Echoes (callHost host re call args code) (callHost host re' call args code) :=
  echoes_act ((Act.Echoes.callHost hre call args code).bind fun _ => .refl _)

theorem asks_of_echoes (hre : re.Echoes re') : Asks host re re' fun _ => Echoes where
  primitive _ _ := echoes_callHost hre _ _ _
  member _ _ _ := echoes_callHost hre _ _ _
  allocate _ := echoes_callHost hre _ _ _
  ensure cls := echoes_act (.ensure hre cls)

theorem echoes_invocation (hre : re.Echoes re') (depth : Nat) (h : Handle) (args : List Value)
    (site : CallSite) : Echoes (invocation (runForm host re depth) h args site)
      (invocation (runForm host re' depth) h args site) :=
  Steps.invocation (Act.Serves.trivial host re) congruence_echoes.toSteps (fun _ _ => trivial)
    (congruence_echoes.runForm (Act.Serves.trivial host re) (asks_of_echoes hre) depth) h args site

end Exec

/-! ## Strict invocations -/

/-- What host code may ask for when the whole run is cut off at the first limit that is hit. -/
def Host.strict (host : Host σ) : Nat → Reentry σ
  | 0 => ⟨fun _ _ _ => Act.violate .reentry, fun _ => Act.violate .reentry⟩
  | levels + 1 =>
    ⟨fun h site args => Act.strictly (Act.invoke host (host.strict levels) h site args),
      fun cls => Act.ensure host (host.strict levels) cls⟩

/-- To cut a computation off sees nothing of the frames. -/
theorem Act.blind_strictly {x : Act σ α} (hx : Act.Blind x) : Act.Blind (Act.strictly x) := by
  have hworld : ∀ w, (Act.strictly x w).2 = (x w).2 := fun w => by
    unfold Act.strictly
    split <;> rfl
  refine ⟨fun w => ?_, fun w => ?_, fun w => ?_, fun w gs hsame => ?_⟩
  · rw [hworld]
    exact hx.frames w
  · rw [hworld]
    exact hx.held w
  · rw [hworld]
    exact hx.dropped w
  · unfold Act.strictly
    rw [hx.eq w gs hsame]
    split <;> rfl

/-- What host code may ask for sees nothing of the frames then either. -/
theorem Host.blind_strict (host : Host σ) (levels : Nat) : (host.strict levels).Blind := by
  induction levels with
  | zero => exact ⟨fun _ _ _ => .throw _, fun _ => .throw _⟩
  | succ levels ih =>
    exact ⟨fun h site args => Act.blind_strictly (Act.blind_invoke ih h site args),
      Act.blind_ensure ih⟩

theorem Act.Echoes.invoke {host : Host σ} {re re' : Reentry σ} (hre : re.Echoes re') (h : Handle)
    (site : CallSite) (args : List Value) :
    Echoes (Act.invoke host re h site args) (Act.invoke host re' h site args) := by
  intro w
  rw [executes_invoke host re h args w.limits site w rfl,
    executes_invoke host re' h args w.limits site w rfl]
  refine (Exec.echoes_invocation hre w.limits.depth h args site
    ⟨w, w.limits.fuel, none⟩).imp_right ?_
  intro hsame
  rw [hsame]

/-- A run that is not cut off is the same without strictness. -/
theorem Host.echoes_strict (host : Host σ) (levels : Nat) :
    (host.strict levels).Echoes (host.reenter levels) := by
  induction levels with
  | zero => exact ⟨fun _ _ _ => .refl _, fun _ => .refl _⟩
  | succ levels ih =>
    exact ⟨fun h site args => (Act.Echoes.invoke ih h site args).strictly,
      fun cls => .ensure ih cls⟩

end HandleForms
