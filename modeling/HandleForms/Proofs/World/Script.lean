import HandleForms.Invoke

/-!
# Properties that host code keeps

Host code reaches a world through a fixed set of requests. A property of computations that holds of
steps that touch nothing but the host, the fields, the barrier and the journal, and that is kept by
sequencing and by frames (`Act.Law`), holds of host code and of the class barrier as soon as it holds
of what host code may ask for: making handles, invoking them and passing the barrier.
-/

namespace HandleForms

variable {σ α β γ ε : Type}

theorem Act.bind_apply (x : Act σ α) (k : α → Act σ β) (w : World σ) :
    (x >>= k) w = match (x w).1 with
      | .ok a => k a (x w).2
      | .error stop => (.error stop, (x w).2) := by
  show (ExceptT.bindCont k (x w).1 : StateM (World σ) _) (x w).2 = _
  cases (x w).1 <;> rfl

/-- What is left of an outcome when an error is an answer, too. -/
def Act.settled : Except (Stop RuntimeError) α →
    Except (Stop RuntimeError) (Except RuntimeError α)
  | .ok a => .ok (.ok a)
  | .error (.error e) => .ok (.error e)
  | .error (.violation v) => .error (.violation v)

/-- The world with other frames. -/
abbrev World.withFrames (w : World σ) (fs : List Frame) : World σ := { w with frames := fs }

/-- The world with other limits. -/
abbrev World.withLimits (w : World σ) (l : ExecLimits) : World σ := { w with limits := l }

/-- A step that neither looks at nor changes what is derived, shared, held or kept alive, nor the
limits, and that takes nothing out of the journal. -/
structure World.Outer (f : World σ → β × World σ) : Prop where
  frames : ∀ w gs, f (w.withFrames gs) = ((f w).1, (f w).2.withFrames gs)
  limits : ∀ w l, f (w.withLimits l) = ((f w).1, (f w).2.withLimits l)
  journal : ∀ w, w.journal <:+ (f w).2.journal
  keepsFrames : ∀ w, (f w).2.frames = w.frames
  held : ∀ w, (f w).2.held = w.held
  context : ∀ w, (f w).2.context = w.context
  swapped : ∀ w, (f w).2.swapped = w.swapped
  invokers : ∀ w, (f w).2.invokers = w.invokers

namespace World.Outer

/-- A step that leaves the journal alone. -/
theorem silent {f : World σ → β × World σ}
    (hframes : ∀ w gs, f (w.withFrames gs) = ((f w).1, (f w).2.withFrames gs))
    (hlimits : ∀ w l, f (w.withLimits l) = ((f w).1, (f w).2.withLimits l))
    (hkeeps : ∀ w, (f w).2.journal = w.journal ∧ (f w).2.frames = w.frames ∧ (f w).2.held = w.held ∧
      (f w).2.context = w.context ∧ (f w).2.swapped = w.swapped ∧ (f w).2.invokers = w.invokers) :
    Outer f :=
  ⟨hframes, hlimits, fun w => (hkeeps w).1 ▸ List.suffix_refl _, fun w => (hkeeps w).2.1,
    fun w => (hkeeps w).2.2.1, fun w => (hkeeps w).2.2.2.1, fun w => (hkeeps w).2.2.2.2.1,
    fun w => (hkeeps w).2.2.2.2.2⟩

theorem pure (b : β) : Outer fun w : World σ => (b, w) :=
  silent (fun _ _ => rfl) (fun _ _ => rfl) fun _ => ⟨rfl, rfl, rfl, rfl, rfl, rfl⟩

/-- A look at the world. -/
theorem look {g : World σ → β} (hg : ∀ w gs l, g { w with frames := gs, limits := l } = g w) :
    Outer fun w => (g w, w) :=
  silent (fun w gs => congrArg (Prod.mk · _) (hg w gs w.limits))
    (fun w l => congrArg (Prod.mk · _) (hg w w.frames l)) fun _ => ⟨rfl, rfl, rfl, rfl, rfl, rfl⟩

/-- A step that changes the state of the host, the fields, the barrier or the next identity. -/
theorem change {f : World σ → World σ}
    (hframes : ∀ w gs, f (w.withFrames gs) = (f w).withFrames gs)
    (hlimits : ∀ w l, f (w.withLimits l) = (f w).withLimits l)
    (hkeeps : ∀ w, (f w).journal = w.journal ∧ (f w).frames = w.frames ∧ (f w).held = w.held ∧
      (f w).context = w.context ∧ (f w).swapped = w.swapped ∧ (f w).invokers = w.invokers) (b : β) :
    Outer fun w => (b, f w) :=
  silent (fun w gs => congrArg (Prod.mk b) (hframes w gs))
    (fun w l => congrArg (Prod.mk b) (hlimits w l)) hkeeps

/-- A step that puts something down. -/
theorem record (call : World σ → HostCall × σ)
    (hcall : ∀ w gs l, call { w with frames := gs, limits := l } = call w) (b : β) :
    Outer fun w : World σ => (b, { w with journal := call w :: w.journal }) := by
  refine ⟨fun w gs => ?_, fun w l => ?_, fun w => List.suffix_cons _ _, fun _ => rfl, fun _ => rfl,
    fun _ => rfl, fun _ => rfl, fun _ => rfl⟩
  · rw [show call (w.withFrames gs) = call w from hcall w gs w.limits]
  · rw [show call (w.withLimits l) = call w from hcall w w.frames l]

theorem andThen {f : World σ → β × World σ} {g : β → World σ → γ × World σ} (hf : Outer f)
    (hg : ∀ b, Outer (g b)) : Outer fun w => g (f w).1 (f w).2 := by
  refine ⟨fun w gs => ?_, fun w l => ?_, fun w => ?_, fun w => ?_, fun w => ?_, fun w => ?_,
    fun w => ?_, fun w => ?_⟩
  · rw [hf.frames w gs, (hg _).frames]
  · rw [hf.limits w l, (hg _).limits]
  · exact (hf.journal w).trans ((hg _).journal _)
  · exact ((hg _).keepsFrames _).trans (hf.keepsFrames w)
  · exact ((hg _).held _).trans (hf.held w)
  · exact ((hg _).context _).trans (hf.context w)
  · exact ((hg _).swapped _).trans (hf.swapped w)
  · exact ((hg _).invokers _).trans (hf.invokers w)

theorem freshId : Outer (World.freshId : World σ → Nat × World σ) :=
  silent (fun _ _ => rfl) (fun _ _ => rfl) fun _ => ⟨rfl, rfl, rfl, rfl, rfl, rfl⟩

mutual

theorem make (plan : Blueprint) : Outer (World.make plan : World σ → Value × World σ) := by
  cases plan with
  | given v => exact pure v
  | array element items =>
    simp only [World.make]
    exact (makeAll items).andThen (g := fun vs w => w.newArray element vs) fun vs =>
      freshId.andThen (g := fun id w => (Value.array id element vs, w)) fun _ => pure _
  | object cls =>
    simp only [World.make]
    exact freshId.andThen (g := fun id w => (Value.object id cls, w)) fun _ => pure _

theorem makeAll (plans : List Blueprint) :
    Outer (World.makeAll plans : World σ → List Value × World σ) := by
  cases plans with
  | nil => exact pure []
  | cons plan plans =>
    simp only [World.makeAll]
    exact (make plan).andThen (g := fun v w =>
      (v :: (World.makeAll plans w).1, (World.makeAll plans w).2)) fun _ =>
        (makeAll plans).andThen (g := fun vs w => (_ :: vs, w)) fun _ => pure _

end

end World.Outer

/-- A property of computations that outer steps have and that is kept by sequencing and by frames. -/
structure Act.Law (P : (β : Type) → StateM (World σ) β → Prop) : Prop where
  outer : ∀ {β : Type} {f : World σ → β × World σ}, World.Outer f → P β f
  andThen : ∀ {α β : Type} {x : StateM (World σ) α} {k : α → StateM (World σ) β}, P α x →
    (∀ a, P β (k a)) → P β (x >>= k : StateM (World σ) β)
  withFrame : ∀ {α : Type} (F : Frame) {x : Act σ α}, P _ x → P _ (Act.withFrame F x)

namespace Act.Law

variable {P : (β : Type) → StateM (World σ) β → Prop} (h : Law P)
include h

/-! ## Steps -/

theorem pure (a : α) : P _ (Pure.pure a : Act σ α) := h.outer (.pure _)

theorem throw (stop : Stop RuntimeError) : P _ (MonadExcept.throw stop : Act σ α) :=
  h.outer (.pure _)

theorem map (f : α → β) {x : StateM (World σ) α} (hx : P _ x) : P _ (f <$> x : StateM (World σ) β) :=
  h.andThen hx fun a => h.outer (.pure (f a))

theorem bind {x : Act σ α} {k : α → Act σ β} (hx : P _ x) (hk : ∀ a, P _ (k a)) :
    P _ (x >>= k : Act σ β) := by
  refine h.andThen (x := x) (k := ExceptT.bindCont k) hx fun r => ?_
  cases r with
  | ok a => exact hk a
  | error stop => exact h.throw stop

theorem lift {x : StateM (World σ) α} (hx : P _ x) : P _ (liftM x : Act σ α) := h.map Except.ok hx

theorem ofStop (r : Except (Stop RuntimeError) α) : P _ (Act.ofStop r : Act σ α) := by
  cases r <;> exact h.outer (.pure _)

/-- A look at the world in front of a computation. -/
theorem look {g : World σ → β} {k : β → Act σ α}
    (hg : ∀ w gs l, g { w with frames := gs, limits := l } = g w) (hk : ∀ b, P _ (k b)) :
    P _ (get >>= fun w => k (g w) : Act σ α) :=
  h.andThen (x := fun w => (g w, w)) (h.outer (.look hg)) hk

/-- A look at the world in front of computations that see neither frames nor limits there. -/
theorem lookAt {k : World σ → Act σ α} (hk : ∀ w, P _ (k w))
    (hg : ∀ w gs l, k { w with frames := gs, limits := l } = k w) : P _ (get >>= k : Act σ α) :=
  -- What is seen is the computation that comes next, which has the property.
  h.look (g := fun w => (⟨k w, hk w⟩ : { x : Act σ α // P _ x })) (k := Subtype.val)
    (fun w gs l => Subtype.ext (hg w gs l)) fun x => x.2

theorem attempt {x : Act σ α} (hx : P _ x) : P _ (Act.attempt x) := by
  have hattempt : Act.attempt x = (Act.settled <$> x : StateM (World σ) _) := by
    funext w
    show Act.attempt x w = (Act.settled (x w).1, (x w).2)
    unfold Act.attempt
    split <;> next hxw => rw [hxw]; rfl
  rw [hattempt]
  exact h.map _ hx

theorem request (pinned : List Value) {x : Act σ α} (hx : P _ x) : P _ (Act.request pinned x) :=
  h.withFrame _ (h.attempt hx)

/-! ## Host code -/

variable {host : Host σ} {re : Reentry σ} (hperform : ∀ op, P _ (perform host op))
  (hinvoke : ∀ target site args, P _ (re.invoke target site args))
  (hensure : ∀ cls, P _ (re.ensure cls))
include hperform hinvoke hensure

theorem script (pinned : List Value) (code : Script σ ε α) :
    P _ (Act.script host re pinned code) := by
  induction code generalizing pinned with
  | done result => exact h.pure result
  | panic text => exact h.throw _
  | getState next ih => exact h.look (g := World.host) (fun _ _ _ => rfl) fun s => ih s pinned
  | setState state next ih =>
    refine h.bind (x := modify fun w => { w with host := state }) (h.outer ?_) fun _ => ih pinned
    exact .change (f := fun w => { w with host := state }) (fun _ _ => rfl) (fun _ _ => rfl)
      (fun _ => ⟨rfl, rfl, rfl, rfl, rfl, rfl⟩) _
  | create plan next ih =>
    refine h.bind (x := modifyGet (World.make plan)) (h.outer ?_) fun v => ih v pinned
    exact (World.Outer.make plan).andThen (g := fun v w => (Except.ok v, w)) fun _ => .pure _
  | getField object name next ih =>
    exact h.look (g := fun w => w.field object name) (fun _ _ _ => rfl) fun v => ih v pinned
  | setField object name value next ih =>
    refine h.bind (x := modify fun w => w.setField object name value) (h.outer ?_) fun _ => ih pinned
    exact .change (f := fun w => w.setField object name value) (fun _ _ => rfl) (fun _ _ => rfl)
      (fun _ => ⟨rfl, rfl, rfl, rfl, rfl, rfl⟩) _
  | make op next ih => exact h.bind (h.request pinned (hperform op)) fun r => ih r pinned
  | formKind target next ih =>
    exact h.look (g := fun w => w.currentForm target) (fun _ _ _ => rfl) fun form =>
      h.bind (x := record (.looked target form))
        (h.outer (.record (fun w => (.looked target form, w.host)) (fun _ _ _ => rfl) _))
          fun _ => ih form.kind pinned
  | invoke target site args next ih =>
    exact h.bind (h.request pinned (hinvoke target site args)) fun r => ih r pinned
  | ensure cls next ih => exact h.bind (h.request pinned (hensure cls)) fun r => ih r pinned
  | hold value next ih => exact ih _
  | release next ih => exact ih _

theorem callHost (call : HostCall) (args : List Value) (code : Script σ ε α) :
    P _ (Act.callHost host re call args code) :=
  h.bind (x := record call)
    (h.outer (.record (fun w => (call, w.host)) (fun _ _ _ => rfl) _)) fun _ =>
      h.script hperform hinvoke hensure args code

theorem runInitializer (cls : String) : P _ (Act.runInitializer host re cls) := by
  refine h.andThen (h.callHost hperform hinvoke hensure _ _ _) fun answer => ?_
  refine h.andThen (x := modify fun w => { w with
    journal := (.ended cls (initializerEnd answer), w.host) :: w.journal }) ?_ fun _ => ?_
  · exact h.outer (.record (fun w => (.ended cls (initializerEnd answer), w.host))
      (fun _ _ _ => rfl) _)
  · exact h.outer (.pure (Act.initializerEnd answer))

omit hperform hinvoke hensure in
theorem barrier {caller : Barrier.Caller (StateM (World σ))} (hget : P _ caller.get)
    (hset : ∀ b, P _ (caller.set b)) (hask : P _ caller.isInitialized)
    (hrun : P _ caller.initializer) (me : ThreadId) (cls : String) :
    P _ (Barrier.ensure caller me cls) := by
  have hpure : ∀ {β : Type} (b : β), P _ (Pure.pure b : StateM (World σ) β) := fun b =>
    h.outer (.pure b)
  unfold Barrier.ensure
  refine h.andThen hask fun initialized => ?_
  split
  · exact hpure _
  refine h.andThen hget fun b => ?_
  rcases b.enter cls with ⟨slot, b⟩
  refine h.andThen (hset _) fun _ => ?_
  dsimp only
  split
  case' isTrue => refine h.andThen hask fun initialized => ?_
  case' isFalse => refine h.andThen (hpure false) fun initialized => ?_
  all_goals
    refine h.andThen hget fun b => h.andThen (hset _) fun _ => ?_
    split
    · exact hpure _
    · exact hpure _
    · exact hpure _
    · exact h.andThen (hset _) fun _ => hpure _
    · refine h.andThen hrun fun outcome => h.andThen hget fun b => ?_
      split
      · exact h.andThen (hset _) fun _ => hpure _
      · exact h.andThen (hset _) fun _ => hpure _

/-- Passing the class barrier. -/
theorem ensure (cls : String) : P _ (Act.ensure host re cls) := by
  unfold Act.ensure
  refine h.bind (h.lift (h.barrier ?_ (fun b => ?_) ?_ ?_ 0 cls)) fun r => h.ofStop _
  · exact h.outer (.look (g := World.barrier) fun _ _ _ => rfl)
  · exact h.outer (.change (f := fun w => { w with barrier := b }) (fun _ _ => rfl) (fun _ _ => rfl)
      (fun _ => ⟨rfl, rfl, rfl, rfl, rfl, rfl⟩) _)
  · exact h.outer (.look (g := fun w => host.isInitialized w.host cls) fun _ _ _ => rfl)
  · exact h.runInitializer hperform hinvoke hensure cls

end Act.Law

end HandleForms
