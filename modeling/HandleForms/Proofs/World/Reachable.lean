import HandleForms.Proofs.Handle.Perform

/-!
# Reachable worlds

`World.Reachable` are the worlds that a client can bring about: handles are made, forms are edited,
barriers are dropped and what is retained is released, and in between the client, the host and the
class barrier do what they like with what is theirs. Reachable worlds are sound
(`Reachable.sound`), and an invocation of whatever handle leads from one to another, with all that
its host code does on the way (`Reachable.invoke`).
-/

namespace HandleForms

variable {σ α β : Type}

/-- The worlds that a client can bring about. -/
inductive World.Reachable (host : Host σ) : World σ → Prop
  | new (cache : CacheConfig) (limits : ExecLimits) (state : σ) :
      Reachable host (World.new cache limits state)
  /-- Objects, held values, limits and the states of host and barrier may be any. -/
  | outside {w w' : World σ} (h : Reachable host w) (hcontext : w'.context = w.context)
      (hswapped : w'.swapped = w.swapped) (hinvokers : w'.invokers = w.invokers) :
      Reachable host w'
  | release {w : World σ} (h : Reachable host w) :
      Reachable host { w with context := w.context.release }
  | edit {w : World σ} (h : Reachable host w) (base : Form) (e : Edit) :
      Reachable host ((Act.edit base e : Act σ Form) w).2
  | perform {w : World σ} (h : Reachable host w) (op : HandleOp) :
      Reachable host (Act.perform host op w).2
  | dropBarrier {w : World σ} (h : Reachable host w) (target : Handle) (m : Member) :
      Reachable host ((Act.dropBarrier target m : Act σ Form) w).2
  | invokerForm {w : World σ} (h : Reachable host w) (type : Signature) (shape : InvokerShape) :
      Reachable host ((Act.invokerForm type shape : Act σ Form) w).2
  | linkerForm {w : World σ} (h : Reachable host w) (type : Signature) (generic : Bool) :
      Reachable host ((Act.linkerForm type generic : Act σ Form) w).2

theorem Act.Triple.sound {x : Act σ α} {Q : α → Prop} {w : World σ} (h : Act.Triple [] x Q)
    (hw : w.Sound) : (x w).2.Sound :=
  (h w hw nofun).1.1

theorem Act.Triple.onlyShares {x : Act σ α} {Q : α → Prop} {w : World σ} (h : Act.Triple [] x Q)
    (hw : w.Sound) : w.OnlyShares (x w).2 :=
  (h w hw nofun).1.2

/-- The answer of a computation in a sound world. -/
theorem Act.Triple.answer {x : Act σ α} {Q : α → Prop} {w : World σ} {a : α}
    (h : Act.Triple [] x Q) (hw : w.Sound) (ha : (x w).1 = .ok a) : Q a :=
  (h w hw nofun).2.2 a ha

/-- A handle that drops its barrier gets a form that fits it. -/
theorem Act.sound_dropBarrier {w : World σ} (target : Handle) (m : Member) (hw : w.Sound) :
    ((Act.dropBarrier target m : Act σ Form) w).2.Sound := by
  have hform : Act.Triple (σ := σ) [] (Act.directForm target.type m.kind false) _ :=
    Act.triple_directForm _ _ _
  rw [Act.dropBarrier, Act.bind_apply]
  have hsound := hform.sound hw
  cases hf : ((Act.directForm target.type m.kind false : Act σ Form) w).1 with
  | error stop => exact hsound
  | ok f =>
    refine ⟨hsound.context, hsound.types, fun e he => ?_, hsound.invokers⟩
    rcases TypeForms.mem_assign he with rfl | he
    · exact hform.answer hw hf
    · exact hsound.swapped e he

namespace World.Reachable

variable {host : Host σ} {w : World σ}

/-- What a reachable world shares is what it is shared as. -/
theorem sound (h : w.Reachable host) : w.Sound := by
  induction h with
  | new cache limits state => exact sound_new cache limits state
  | outside _ hcontext hswapped hinvokers ih => exact ih.of_eq hcontext hswapped hinvokers
  | release _ ih => exact ⟨ih.context.of_eq rfl rfl, ih.types, ih.swapped, ih.invokers⟩
  | edit _ base e ih => exact (Act.triple_edit base e).sound ih
  | perform _ op ih => exact (Act.triple_perform host op).sound ih
  | dropBarrier _ target m ih => exact Act.sound_dropBarrier target m ih
  | invokerForm _ type shape ih => exact (Act.triple_invokerForm type shape).sound ih
  | linkerForm _ type generic ih =>
    exact ((Act.triple_invokers type).bind fun _ _ =>
      Act.triple_invokerForm type ⟨generic, true⟩).sound ih

/-- Frames are nobody's but of the runs. -/
theorem withFrames (h : w.Reachable host) (fs : List Frame) : (w.withFrames fs).Reachable host :=
  .outside h rfl rfl rfl

end World.Reachable

/-! ## Runs stay in reachable worlds -/

/-- The computation leads from reachable worlds to reachable worlds. -/
def Act.Stays (host : Host σ) (x : StateM (World σ) α) : Prop :=
  ∀ w : World σ, w.Reachable host → (x w).2.Reachable host

/-- What host code may ask for leads to reachable worlds. -/
structure Reentry.Stays (host : Host σ) (re : Reentry σ) : Prop where
  invoke : ∀ h site args, Act.Stays host (re.invoke h site args)
  ensure : ∀ cls, Act.Stays host (re.ensure cls)

namespace Act.Stays

variable (host : Host σ) in
theorem law : Act.Law (σ := σ) fun _ => Act.Stays host where
  outer hf w hw := .outside hw (hf.context w) (hf.swapped w) (hf.invokers w)
  andThen hx hk w hw := hk _ _ (hx w hw)
  withFrame _ _ hx _ hw := (hx _ (hw.withFrames _)).withFrames _

theorem serves {host : Host σ} {re : Reentry σ} (hre : re.Stays host) :
    Act.Serves host re fun _ => Act.Stays host where
  toLaw := law host
  perform op _ hw := hw.perform op
  swapBarrier target _ m _ _ hw := by
    rw [swapBarrier_apply]
    split
    · exact hw.dropBarrier target m
    · exact hw
  invoke := hre.invoke
  ensure := hre.ensure

end Act.Stays

namespace Exec

variable {host : Host σ} {re : Reentry σ}

/-- The step of a run leads from reachable worlds to reachable worlds. -/
def Stays (host : Host σ) (x : Exec σ α) : Prop :=
  ∀ e : Execution σ, e.world.Reachable host → (x e).2.world.Reachable host

theorem stays_congruence (host : Host σ) :
    Congruence (σ := σ) (fun _ => Act.Stays host) fun _ x _ => Stays host x where
  act hx e he := hx e.world he
  bind {_ _ x y k l} hx hk e he := by
    rw [bind_apply]
    have hx' := hx e he
    cases (x e).1 with
    | ok a => exact hk a _ hx'
    | error stop => exact hx'
  withFrame F x _ hx e he :=
    (hx { e with world := e.world.withFrames (F :: e.world.frames) } (he.withFrames _)).withFrames _
  consumeFuel e he := by
    rw [consumeFuel_apply]
    split <;> exact he
  tracing _ _ he := he
  traceEnter form args e he := by
    rw [traceEnter_apply]
    split
    · exact he
    · split <;> exact he

theorem stays_runForm (hre : re.Stays host) (depth : Nat) (form : Form) (args : List Value) :
    Stays host (runForm host re depth form args) :=
  (stays_congruence host).runForm_self (Act.Stays.serves hre) depth form args

end Exec

namespace Act

variable {host : Host σ} {re : Reentry σ}

theorem stays_execute (trace : Option Trace) {x : Exec σ α} (hx : Exec.Stays host x) :
    Stays host (Act.execute trace x) := by
  intro w hw
  have hworld : (Act.execute trace x w).2 = (x ⟨w, w.limits.fuel, trace⟩).2.world := by
    unfold Act.execute
    rcases x ⟨w, w.limits.fuel, trace⟩ with ⟨(_ | _) | _, e⟩ <;> rfl
  rw [hworld]
  exact hx _ hw

theorem stays_linkAndCall (hre : re.Stays host) (h : Handle) (type : Signature) (generic : Bool)
    (args : List Value) : Stays host (Act.linkAndCall host re h type generic args) := by
  have hlaw := Stays.law host
  refine hlaw.bind (hlaw.ofStop _) fun _ => hlaw.bind (fun w hw => hw.invokerForm type _) fun linker =>
    hlaw.bind (hlaw.withFrame _ ?_) fun _ => hlaw.ofStop _
  exact fun w hw => stays_execute none (Exec.stays_runForm hre _ linker _) w hw

theorem stays_invoke (hre : re.Stays host) (h : Handle) (site : CallSite) (args : List Value) :
    Stays host (Act.invoke host re h site args) := by
  have hlaw := Stays.law host
  cases site with
  | basic =>
    refine hlaw.bind (hlaw.ofStop _) fun _ => hlaw.bind (fun w hw => ?_) fun _ => hlaw.ofStop _
    refine stays_execute none (x := Exec.invokeHandle (Exec.runForm host re w.limits.depth) h args)
      ?_ w hw
    exact (Exec.stays_congruence host).invokeHandle _ (Exec.runForm host re w.limits.depth)
      (Stays.serves hre) (Exec.stays_runForm hre w.limits.depth) h args
  | exact type => exact stays_linkAndCall hre h type false args
  | generic type => exact stays_linkAndCall hre h type true args

end Act

/-- What host code may ask for leads to reachable worlds, however deep the calls go. -/
theorem Host.stays_reenter (host : Host σ) (levels : Nat) : (host.reenter levels).Stays host := by
  induction levels with
  | zero => exact ⟨fun _ _ _ _ hw => hw, fun _ _ hw => hw⟩
  | succ levels ih =>
    exact ⟨Act.stays_invoke ih, fun cls =>
      (Act.Stays.law host).ensure (fun op _ hw => hw.perform op) ih.invoke ih.ensure cls⟩

/-- An invocation leads from reachable worlds to reachable worlds. -/
theorem World.Reachable.invoke {host : Host σ} {w : World σ} (hw : w.Reachable host) (levels : Nat)
    (h : Handle) (site : CallSite) (args : List Value) :
    (Act.invoke host (host.reenter levels) h site args w).2.Reachable host :=
  Act.stays_invoke (host.stays_reenter levels) h site args w hw

end HandleForms
