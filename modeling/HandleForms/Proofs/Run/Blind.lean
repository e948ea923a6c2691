import HandleForms.Proofs.Association
import HandleForms.Proofs.Run.Congruence
import HandleForms.Proofs.World.Blind

/-!
# What invocations see of the frames

A run sees nothing of the frames around it but what they keep alive, whatever its limits are. So
neither does what host code may ask for, however deeply host code and forms call each other
(`Host.blind_reenter`).
-/

namespace HandleForms

variable {σ α β : Type}

namespace Exec

/-- The computation sees nothing of the frames but what they keep alive, neither frames nor held
values change, and no barrier returns. -/
structure Blind (x : Exec σ α) : Prop where
  frames : ∀ e, (x e).2.world.frames = e.world.frames
  held : ∀ e, (x e).2.world.held = e.world.held
  dropped : ∀ e : Execution σ, e.world.StaysDropped (x e).2.world
  eq : ∀ (e : Execution σ) gs, e.world.Indistinct gs →
    x { e with world := e.world.withFrames gs } =
      ((x e).1, { (x e).2 with world := (x e).2.world.withFrames gs })

namespace Blind

theorem act {x : Act σ α} (hx : Act.Blind x) : Blind (Exec.act x) := by
  refine ⟨fun e => hx.frames e.world, fun e => hx.held e.world, fun e => hx.dropped e.world,
    fun e gs hsame => ?_⟩
  show ((x (e.world.withFrames gs)).1, ({ e with world := (x (e.world.withFrames gs)).2 } :
    Execution σ)) = _
  rw [hx.eq e.world gs hsame]
  rfl

theorem bind {x : Exec σ α} {k : α → Exec σ β} (hx : Blind x) (hk : ∀ a, Blind (k a)) :
    Blind (x >>= k) := by
  refine ⟨fun e => ?_, fun e => ?_, fun e => ?_, fun e gs hsame => ?_⟩
  · rw [bind_apply]
    cases (x e).1 with
    | ok a => exact ((hk a).frames _).trans (hx.frames e)
    | error stop => exact hx.frames e
  · rw [bind_apply]
    cases (x e).1 with
    | ok a => exact ((hk a).held _).trans (hx.held e)
    | error stop => exact hx.held e
  · rw [bind_apply]
    cases (x e).1 with
    | ok a => exact (hx.dropped e).trans ((hk a).dropped _)
    | error stop => exact hx.dropped e
  · rw [bind_apply, bind_apply, hx.eq e gs hsame]
    cases (x e).1 with
    | ok a => exact (hk a).eq (x e).2 gs (hsame.later (hx.held e) (hx.frames e) (hx.dropped e))
    | error stop => rfl

theorem withFrame (F : Frame) {x : Exec σ α} (hx : Blind x) : Blind (Exec.withFrame F x) := by
  refine ⟨fun _ => rfl, fun e => hx.held _, fun e => ?_, fun e gs hsame => ?_⟩
  · exact fun key f =>
      hx.dropped { e with world := e.world.withFrames (F :: e.world.frames) } key f
  have heq := hx.eq { e with world := e.world.withFrames (F :: e.world.frames) } (F :: gs)
    (hsame.push F)
  show ((x { e with world := e.world.withFrames (F :: gs) }).1,
    ({ (x { e with world := e.world.withFrames (F :: gs) }).2 with
      world := (x { e with world := e.world.withFrames (F :: gs) }).2.world.withFrames gs } :
        Execution σ)) = _
  rw [show x { e with world := e.world.withFrames (F :: gs) } = _ from heq]
  rfl

theorem consumeFuel : Blind (Exec.consumeFuel : Exec σ Unit) := by
  refine ⟨?_, ?_, ?_, ?_⟩ <;> rintro ⟨w, _ | fuel, trace⟩ <;> intros <;> rfl

theorem traceEnter (form : Form) (args : List Value) :
    Blind (Exec.traceEnter form args : Exec σ Unit) := by
  have henter := traceEnter_apply (σ := σ) form args
  refine ⟨?_, ?_, ?_, ?_⟩ <;> rintro ⟨w, fuel, _ | t⟩ <;> intros <;> try simp only [henter]
  all_goals first | rfl | cases t.enter form args <;> rfl

/-- Blindness is a congruence. -/
theorem congruence : Congruence (σ := σ) (fun _ => Act.Blind) fun _ x _ => Blind x where
  act := act
  bind hx hk := bind hx hk
  withFrame F _ _ hx := withFrame F hx
  consumeFuel := consumeFuel
  tracing _ := ⟨fun _ => rfl, fun _ => rfl, fun _ => .of_eq rfl, fun _ _ _ => rfl⟩
  traceEnter := traceEnter

end Blind

variable {host : Host σ} {re : Reentry σ}

/-- Only a handle whose form passes a barrier gets another one. -/
theorem blind_swapBarrier {h : Handle} {id : Nat} {m : Member} (hm : h.member? = some (id, m)) :
    Act.Blind (Act.swapBarrier h m : Act σ _) := by
  have hform := Act.blind_directForm (σ := σ) h.type m.kind false
  have hdrop := Act.dropBarrier_apply (σ := σ) h m
  have happly := Act.swapBarrier_apply (σ := σ) h m
  refine ⟨fun w => ?_, fun w => ?_, fun w => ?_, fun w gs hsame => ?_⟩
  · rw [happly, hdrop]
    split
    · dsimp only
      cases (Act.directForm h.type m.kind false w).1 <;> exact hform.frames w
    · rfl
  · rw [happly, hdrop]
    split
    · dsimp only
      cases (Act.directForm h.type m.kind false w).1 <;> exact hform.held w
    · rfl
  · rw [happly, hdrop]
    split
    next hbarrier =>
      dsimp only
      cases (Act.directForm h.type m.kind false w).1 with
      | error stop => exact hform.dropped w
      | ok prepared =>
        intro key f hf hfree
        refine (TypeForms.lookup_assign_of_ne ?_).trans (hform.dropped w key f hf hfree)
        rintro rfl
        rw [World.currentForm_of_member? hm, hf, Option.getD_some, hfree] at hbarrier
        cases hbarrier
    · rfl
  · rw [happly, happly, hdrop, hdrop, hform.eq w gs hsame]
    show (if (w.currentForm h).kind.hasBarrier then _ else _) = _
    split
    · dsimp only
      cases (Act.directForm h.type m.kind false w).1 <;> rfl
    · rfl

variable (host) in
theorem blind_serves (hre : re.Blind) : Act.Serves host re fun _ => Act.Blind where
  toLaw := Act.Blind.law
  perform := Act.blind_perform host
  swapBarrier _ _ _ hm := blind_swapBarrier hm
  invoke := hre.invoke
  ensure := hre.ensure

/-- A run sees nothing of the frames. -/
theorem blind_runForm (host : Host σ) (hre : re.Blind) (depth : Nat) (form : Form) (args : List Value) :
    Blind (Exec.runForm host re depth form args) :=
  Blind.congruence.runForm_self (blind_serves host hre) depth form args

end Exec

namespace Act

variable {host : Host σ} {re : Reentry σ}

theorem blind_execute (trace : Option Trace) {x : Exec σ α} (hx : Exec.Blind x) :
    Blind (Act.execute trace x) := by
  have hworld : ∀ w, (Act.execute trace x w).2 = (x ⟨w, w.limits.fuel, trace⟩).2.world := by
    intro w
    unfold Act.execute
    rcases x ⟨w, w.limits.fuel, trace⟩ with ⟨(_ | _) | _, e⟩ <;> rfl
  refine ⟨fun w => ?_, fun w => ?_, fun w => ?_, fun w gs hsame => ?_⟩
  · rw [hworld]
    exact hx.frames _
  · rw [hworld]
    exact hx.held _
  · rw [hworld]
    exact hx.dropped ⟨w, w.limits.fuel, trace⟩
  · have heq := hx.eq ⟨w, w.limits.fuel, trace⟩ gs hsame
    unfold Act.execute
    rw [show x ⟨w.withFrames gs, (w.withFrames gs).limits.fuel, trace⟩ = _ from heq]
    rcases x ⟨w, w.limits.fuel, trace⟩ with ⟨(_ | _) | _, e⟩ <;> rfl

theorem blind_runForm (hre : re.Blind) (form : Form) (args : List Value) :
    Blind (Act.runForm host re form args) :=
  .look (fun _ => blind_execute none (Exec.blind_runForm host hre _ form args)) fun _ _ => rfl

theorem blind_invokeHandle (hre : re.Blind) (trace : Option Trace) (h : Handle)
    (args : List Value) : Blind (Act.invokeHandle host re trace h args) := by
  refine .look (fun w => blind_execute trace ?_) fun _ _ => rfl
  have hrun := Exec.blind_runForm host hre w.limits.depth
  exact Exec.Blind.congruence.invokeHandle _ (Exec.runForm host re w.limits.depth)
    (Exec.blind_serves host hre) hrun h args

theorem blind_linkAndCall (hre : re.Blind) (h : Handle) (type : Signature) (generic : Bool)
    (args : List Value) : Blind (Act.linkAndCall host re h type generic args) :=
  .bind (.ofError _) fun _ => .bind (blind_invokerForm _ _) fun _ =>
    .bind (.withFrame _ (blind_runForm hre _ _)) fun _ => .ofError _

theorem blind_invoke (hre : re.Blind) (h : Handle) (site : CallSite) (args : List Value) :
    Blind (Act.invoke host re h site args) := by
  cases site with
  | basic =>
    exact .bind (.ofError _) fun _ => .bind (blind_invokeHandle hre none h args) fun _ => .ofError _
  | exact type => exact blind_linkAndCall hre h type false args
  | generic type => exact blind_linkAndCall hre h type true args

end Act

/-- What host code may ask for sees nothing of the frames, however deep the calls go. -/
theorem Host.blind_reenter (host : Host σ) (levels : Nat) : (host.reenter levels).Blind := by
  induction levels with
  | zero => exact ⟨fun _ _ _ => .throw _, fun _ => .throw _⟩
  | succ levels ih => exact ⟨Act.blind_invoke ih, Act.blind_ensure ih⟩

end HandleForms
