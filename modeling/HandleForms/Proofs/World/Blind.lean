import HandleForms.Proofs.World.Live
import HandleForms.Proofs.World.Making

/-!
# What computations see of the frames

Computations in a world see nothing of the frames but what they keep alive. Under frames that keep
the same alive they answer the same and leave the same world, with the frames and the held values as
they found them (`Act.Blind`). The caches decide by what is alive, so that indistinct frames agree on it is
the only fact about them that is needed here.
-/

namespace HandleForms

variable {σ α β : Type}

namespace Act

/-- The computation sees nothing of the frames but what they keep alive, neither frames nor held
values change, and no barrier returns. -/
structure Blind (x : StateM (World σ) β) : Prop where
  frames : ∀ w, (x w).2.frames = w.frames
  held : ∀ w, (x w).2.held = w.held
  dropped : ∀ w : World σ, w.StaysDropped (x w).2
  eq : ∀ (w : World σ) gs, w.Indistinct gs → x (w.withFrames gs) = ((x w).1, (x w).2.withFrames gs)

namespace Blind

/-! ## Steps -/

theorem outer {f : World σ → β × World σ} (hf : World.Outer f) : Blind f :=
  ⟨hf.keepsFrames, hf.held, fun w => .of_eq (hf.swapped w), fun w gs _ => hf.frames w gs⟩

/-- One computation after another, of which the second looks at the first one's answer. -/
theorem andThen {x : StateM (World σ) α} {k : α → StateM (World σ) β} (hx : Blind x)
    (hk : ∀ a, Blind (k a)) : Blind (x >>= k : StateM (World σ) β) := by
  refine ⟨fun w => ?_, fun w => ?_, fun w => ?_, fun w gs hsame => ?_⟩
  · exact ((hk _).frames _).trans (hx.frames w)
  · exact ((hk _).held _).trans (hx.held w)
  · exact (hx.dropped w).trans ((hk _).dropped _)
  · show k (x (w.withFrames gs)).1 (x (w.withFrames gs)).2 = _
    rw [hx.eq w gs hsame]
    exact (hk _).eq _ gs (hsame.later (hx.held w) (hx.frames w) (hx.dropped w))

theorem withFrame (F : Frame) {x : Act σ α} (hx : Blind x) : Blind (Act.withFrame F x) := by
  refine ⟨fun _ => rfl, fun w => hx.held _, fun w => ?_, fun w gs hsame => ?_⟩
  · exact fun key f => hx.dropped (w.withFrames (F :: w.frames)) key f
  have heq := hx.eq (w.withFrames (F :: w.frames)) (F :: gs) (hsame.push F)
  show ((x (w.withFrames (F :: gs))).1, (x (w.withFrames (F :: gs))).2.withFrames gs) = _
  rw [show x (w.withFrames (F :: gs)) = _ from heq]
  rfl

theorem law : Law fun β => Blind (σ := σ) (β := β) := ⟨outer, andThen, withFrame⟩

theorem pure (a : α) : Blind (Pure.pure a : Act σ α) := law.pure a

theorem throw (stop : Stop RuntimeError) : Blind (MonadExcept.throw stop : Act σ α) :=
  law.throw stop

theorem bind {x : Act σ α} {k : α → Act σ β} (hx : Blind x) (hk : ∀ a, Blind (k a)) :
    Blind (x >>= k : Act σ β) :=
  law.bind hx hk

theorem ofStop (r : Except (Stop RuntimeError) α) : Blind (Act.ofStop r : Act σ α) := law.ofStop r

theorem ofError (r : Except RuntimeError α) : Blind (Act.ofError r : Act σ α) := ofStop _

/-- A look at what is no part of the frames. -/
theorem look {k : World σ → Act σ α} (hk : ∀ w, Blind (k w))
    (hframes : ∀ w gs, k (w.withFrames gs) = k w) : Blind (get >>= k : Act σ α) := by
  refine ⟨fun w => (hk w).frames w, fun w => (hk w).held w, fun w => (hk w).dropped w,
    fun w gs hsame => ?_⟩
  show k (w.withFrames gs) (w.withFrames gs) = _
  rw [hframes]
  exact (hk w).eq w gs hsame

/-- Caches see what is alive. -/
theorem onShared (f : Live Kept → Context Kept → InvokerTable → α × Context Kept × InvokerTable) :
    Blind (Act.onShared f : Act σ α) := by
  refine ⟨fun _ => rfl, fun _ => rfl, fun _ => .of_eq rfl, fun w gs hsame => ?_⟩
  have hlive : (w.withFrames gs).live = w.live := hsame.live.symm
  show (Except.ok (f (w.withFrames gs).live w.context w.invokers).1, { w.withFrames gs with
    context := (f (w.withFrames gs).live w.context w.invokers).2.1,
    invokers := (f (w.withFrames gs).live w.context w.invokers).2.2 }) = _
  rw [hlive]
  rfl

theorem making : Making fun β => Blind (σ := σ) (β := β) := ⟨law, onShared⟩

end Blind

/-- Making a handle sees nothing of the frames. -/
theorem blind_perform (host : Host σ) (op : HandleOp) : Blind (perform host op) :=
  Blind.making.perform host op

theorem blind_directForm (type : Signature) (kind : DispatchKind) (barrier : Bool) :
    Blind (directForm type kind barrier : Act σ Form) :=
  Blind.making.directForm type kind barrier

theorem blind_invokerForm (type : Signature) (shape : InvokerShape) :
    Blind (invokerForm type shape : Act σ Form) :=
  Blind.making.invokerForm type shape

end Act

/-! ## Host code -/

/-- What host code may ask for sees nothing of the frames. -/
structure Reentry.Blind (re : Reentry σ) : Prop where
  invoke : ∀ h site args, Act.Blind (re.invoke h site args)
  ensure : ∀ cls, Act.Blind (re.ensure cls)

namespace Act

variable {host : Host σ} {re : Reentry σ}

theorem blind_ensure (hre : re.Blind) (cls : String) : Blind (Act.ensure host re cls) :=
  Blind.law.ensure (blind_perform host) hre.invoke hre.ensure cls

end Act

end HandleForms
