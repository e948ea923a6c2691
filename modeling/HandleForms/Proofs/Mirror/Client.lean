import HandleForms.Proofs.Mirror.Reenter

/-!
# Worlds that mirror themselves

What a client of a discreet host can bring about, step by step: its code makes and invokes handles,
it lets go of what it held, edits forms and links call sites. As every step goes in lockstep with
itself, the worlds that it leads to mirror themselves, limits that were hit or not
(`World.Attained.mirrors_self`).
-/

namespace HandleForms

variable {σ α : Type} {host : Host σ} {M : host.Mirroring} {κ : Pairing} {w w' : World σ}
  {known answers : List Value}

namespace World

/-! ## What a discreet client does -/

/-- Code of a client that knows some values: it shows no identities, and answers what may be known.
Handles that are paired are level, so the code may look at their forms. -/
def DiscreetCode (M : host.Mirroring) (known : List Value) (s : σ) {ε : Type}
    (code : Script σ ε (List Value)) : Prop :=
  ∀ κ, Value.MirrorAll κ known known → M.State κ s s → (∀ {i j}, κ.same i j → κ.level i j) →
    Script.Mirrors M (fun κ' => Answer.Mirrors (Value.MirrorAll κ')) κ s s code code

/-- The worlds that a client of a host brings about, with the values that it knows then. -/
inductive Attained (M : host.Mirroring) : List Value → World σ → Prop
  | new (cache : CacheConfig) (limits : ExecLimits) {state : σ}
      (hstate : ∀ κ, M.State κ state state) :
      Attained M [] (World.new cache limits state)
  /-- Code of the client runs. -/
  | code {known : List Value} {w : World σ} {ε : Type} (h : Attained M known w) (levels : Nat)
      (pinned answers : List Value) (code : Script σ ε (List Value))
      (hcode : DiscreetCode M known w.host code)
      (hcut : ¬ Outcome.Cut (Act.script host (host.reenter levels) pinned code w).1)
      (hanswers : answers ≠ [] →
        (Act.script host (host.reenter levels) pinned code w).1 = .ok (.ok answers)) :
      Attained M (answers ++ known) (Act.script host (host.reenter levels) pinned code w).2
  /-- The client keeps other values alive, or sets other limits. -/
  | hold {known : List Value} {w : World σ} (h : Attained M known w) (held : List Value)
      (limits : ExecLimits) :
      Attained M known { w with held, limits }
  | release {known : List Value} {w : World σ} (h : Attained M known w) :
      Attained M known { w with context := w.context.release }
  | edit {known : List Value} {w : World σ} (h : Attained M known w) (base : Form) (e : Edit) :
      Attained M known ((Act.edit base e : Act σ Form) w).2
  | linkerForm {known : List Value} {w : World σ} (h : Attained M known w) (type : Signature)
      (generic : Bool) :
      Attained M known ((Act.linkerForm type generic : Act σ Form) w).2
  | directForm {known : List Value} {w : World σ} (h : Attained M known w) (type : Signature)
      (kind : DispatchKind) (barrier : Bool) :
      Attained M known ((Act.directForm type kind barrier : Act σ Form) w).2

/-! ## Steps in lockstep with themselves -/

theorem tame_new (cache : CacheConfig) (limits : ExecLimits) (state : σ) :
    (World.new cache limits state).Tame where
  sound := sound_new cache limits state
  derived := Context.holdsDerived_new cache
  barrier := Barrier.tidy_empty
  fields := nofun
  swapped := nofun

theorem mirrors_new (cache : CacheConfig) (limits : ExecLimits) {state : σ}
    (hstate : ∀ κ, M.State κ state state) :
    World.Mirrors M (.start fun cls => host.isInitialized state cls = true)
      (World.new cache limits state) (World.new cache limits state) where
  tame := tame_new cache limits state
  tame' := tame_new cache limits state
  left := Nat.le_refl _
  right := Nat.le_refl _
  barrier := rfl
  state := hstate _
  limits _ := rfl
  level_of_same _ _ _ := False.elim
  ready _ := Iff.rfl
  swapped := nofun
  swapped' := nofun
  level := False.elim
  fields := False.elim

/-- The world and the values that are known mirror themselves. -/
structure SelfMirrored (M : host.Mirroring) (κ : Pairing) (known : List Value)
    (w : World σ) : Prop where
  world : World.Mirrors M κ w w
  known : Value.MirrorAll κ known known

/-- They do so in lockstep or not, with handles that are level or not. -/
theorem SelfMirrored.diagonal (h : w.SelfMirrored M κ known) (lockstep : Prop) :
    w.SelfMirrored (M.inLockstep lockstep) (κ.diagonal lockstep) known :=
  ⟨h.world.diagonal lockstep, h.known.self fun _ hi => ⟨hi, rfl⟩⟩

/-- A computation that goes in lockstep with itself keeps that up. -/
theorem SelfMirrored.of_mirrors {x : Act σ α} {Q : Pairing → α → α → Prop}
    (hw : w.SelfMirrored M κ known) (hx : Act.Mirrors M κ w w x x Q)
    (hcut : ¬ Outcome.Cut (x w).1) :
    ∃ κ', (x w).2.SelfMirrored M κ' known ∧ ∀ a, (x w).1 = .ok a → Q κ' a a := by
  obtain ⟨κ', hreach, ho⟩ := (hx.resolve_left hcut).resolve_left hcut
  refine ⟨κ', ⟨hreach.worlds, hw.known.mono hreach.le⟩, fun a ha => ?_⟩
  rw [ha] at ho
  cases ho with
  | ok h => exact h

/-- What is in the caches does not show. -/
theorem SelfMirrored.of_warms (h : w.SelfMirrored M κ known) (hv : w.Warms w') :
    w'.SelfMirrored M κ known :=
  ⟨(Reach.of_warms h.world hv hv).worlds, h.known⟩

/-- What a client of a discreet host brings about mirrors itself. -/
theorem Attained.mirrors_self (hhost : host.Discreet M) (hw : Attained M known w) :
    ∃ κ, w.SelfMirrored (M.inLockstep True) κ known := by
  -- Each step keeps a pairing of the world with itself.
  induction hw with
  | new cache limits hstate => exact ⟨_, mirrors_new cache limits hstate, .nil⟩
  | @code known w ε hw levels pinned answers code hcode hcut hanswers ih =>
    obtain ⟨κ, hself⟩ := ih
    -- In lockstep everything that is paired is level, so the code may look at forms.
    have hscript := hcode κ hself.known hself.world.state (hself.world.level_of_same trivial)
    have hmirrors := Act.Mirrors.script
      (Host.mirrored_reenter (hhost.inLockstep True) trivial levels) (hscript.inLockstep True)
      hself.world rfl rfl pinned pinned
    obtain ⟨κ', hself', hQ⟩ := hself.of_mirrors hmirrors hcut
    refine ⟨κ', hself'.world, Value.MirrorAll.append ?_ hself'.known⟩
    by_cases hnil : answers = []
    · exact hnil ▸ .nil
    · cases hQ _ (hanswers hnil) with
      | ok h => exact h
  | @hold known w hw held limits ih =>
    obtain ⟨κ, hself⟩ := ih
    have htame := hself.world.tame
    have htame' : ({ w with held, limits } : World σ).Tame :=
      htame.of_eq rfl rfl rfl rfl rfl (Nat.le_refl _)
    exact ⟨κ, { hself.world with tame := htame', tame' := htame', limits := fun _ => rfl },
      hself.known⟩
  | @release known w hw ih =>
    obtain ⟨κ, hself⟩ := ih
    have htame := hself.world.tame
    have hsound := htame.sound
    exact ⟨κ, hself.of_warms
      ⟨⟨⟨hsound.context.of_eq rfl rfl, hsound.types, hsound.swapped, hsound.invokers⟩,
        htame.derived.of_eq rfl, htame.barrier, htame.fields, htame.swapped⟩, rfl, Nat.le_refl _⟩⟩
  | edit hw base e ih =>
    obtain ⟨κ, hself⟩ := ih
    exact ⟨κ, hself.of_warms (hself.world.tame.warms_edit base e)⟩
  | linkerForm hw type generic ih =>
    obtain ⟨κ, hself⟩ := ih
    have hlink : Act.Triple [] (Act.linkerForm type generic : Act σ Form) _ :=
      (Act.triple_invokers type).bind fun _ _ => Act.triple_invokerForm type ⟨generic, true⟩
    exact ⟨κ, hself.of_warms (Act.Quiet.of_triple hlink
      ((Act.KeepsCaches.invokers type).bind fun _ => .invokerForm _ _) _ hself.world.tame).2⟩
  | directForm hw type kind barrier ih =>
    obtain ⟨κ, hself⟩ := ih
    exact ⟨κ, hself.of_warms (Act.Quiet.of_triple (Act.triple_directForm type kind barrier)
      (.directForm _ _ _) _ hself.world.tame).2⟩

end World

end HandleForms
