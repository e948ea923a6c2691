import HandleForms.Proofs.Guard.Dropped
import HandleForms.Proofs.Guard.Table

/-!
# Class barriers are safe

What a client of an honest host can do, step by step: it runs code that makes and invokes handles, lets
go of what it held, edits forms and links call sites. Each step leads from a guarded world to a later
guarded world, so every run from a new world does, and what a guarded world promises is what the class
barriers promise (`World.barrier_safe`).
-/

namespace HandleForms

variable {σ : Type}

namespace World

/-! ## What a client does -/

/-- One step of a client that knows some values, which it was answered before. It reaches members
through handles only: no step runs a form that the client wrote itself. -/
inductive ClientStep (host : Host σ) (values : σ → List Value) :
    List Value × World σ → List Value × World σ → Prop
  /-- Code of the client runs: it makes and invokes handles, and looks at their forms. -/
  | code {known w} {ε : Type} (levels : Nat) (pinned answers : List Value)
      (code : Script σ ε (List Value))
      (hcode : code.Honest host values
        (fun known _ r => ∀ vs, r = .ok vs → Value.DrawnFrom known vs) known w.host)
      (hanswers : answers ≠ [] →
        (Act.script host (host.reenter levels) pinned code w).1 = .ok (.ok answers)) :
      ClientStep host values (known, w)
        (answers ++ known, (Act.script host (host.reenter levels) pinned code w).2)
  /-- A handle is invoked and a trace is kept. -/
  | traced {known w} (levels : Nat) (verbosity : Verbosity) (h : Handle) (args answers : List Value)
      (hargs : Value.DrawnFrom known (.handle h :: args))
      (hanswers : ∀ v ∈ answers, ∃ t,
        (Act.invokeTraced host (host.reenter levels) verbosity h args w).1 = .ok (.ok v, t)) :
      ClientStep host values (known, w)
        (answers ++ known, (Act.invokeTraced host (host.reenter levels) verbosity h args w).2)
  /-- The client keeps other values alive, or sets other limits. -/
  | hold {known w} (held : List Value) (limits : ExecLimits) :
      ClientStep host values (known, w) (known, { w with held, limits })
  | release {known w} : ClientStep host values (known, w)
      (known, { w with context := w.context.release })
  | edit {known w} (base : Form) (e : Edit) :
      ClientStep host values (known, w) (known, ((Act.edit base e : Act σ Form) w).2)
  | linkerForm {known w} (type : Signature) (generic : Bool) :
      ClientStep host values (known, w)
        (known, ((Act.linkerForm type generic : Act σ Form) w).2)
  | directForm {known w} (type : Signature) (kind : DispatchKind) (barrier : Bool) :
      ClientStep host values (known, w)
        (known, ((Act.directForm type kind barrier : Act σ Form) w).2)

/-- What a client brings about step by step. -/
abbrev ClientRun (host : Host σ) (values : σ → List Value) :
    List Value × World σ → List Value × World σ → Prop :=
  Relation.ReflTransGen (ClientStep host values)

variable {host : Host σ} {values : σ → List Value} {known known' : List Value} {w w' : World σ}

/-- The world is guarded, and what the client knows are genuine handles. -/
structure Sincere (host : Host σ) (values : σ → List Value) (known : List Value) (w : World σ) :
    Prop where
  guarded : w.Guarded host values
  known : Value.Genuine host w.host known

theorem Sincere.alike (hw : w.Sincere host values known) (halike : w.Alike w') (hsound : w'.Sound) :
    w'.Sincere host values known ∧ w.Later host w' :=
  ⟨⟨hw.guarded.of_alike halike hsound, halike.later.genuine hw.known⟩, halike.later⟩

/-- What a computation kept alone. -/
theorem Sincere.of_keeps {α : Type} {x : Act σ α} {Q : α → World σ → Prop} {answers : List Value}
    (hw : w.Sincere host values known) (hx : Act.Keeps host values w x Q)
    (hanswers : Value.Genuine host (x w).2.host answers) :
    (x w).2.Sincere host values (answers ++ known) ∧ w.Later host (x w).2 :=
  ⟨⟨hx.guarded, Value.genuine_append_iff.2 ⟨hanswers, hx.later.genuine hw.known⟩⟩, hx.later⟩

/-- A step of the client keeps the world guarded. -/
theorem ClientStep.keeps (hhost : host.Honest values)
    (hstep : ClientStep host values (known, w) (known', w')) (hw : w.Sincere host values known) :
    w'.Sincere host values known' ∧ w.Later host w' := by
  cases hstep with
  | code levels pinned answers code hcode hanswers =>
    have hkeeps := Act.keeps_script (hhost.keeps_reenter levels) pinned hw.guarded hw.known hcode
    refine hw.of_keeps hkeeps ?_
    by_cases hnil : answers = []
    · exact hnil ▸ Value.genuine_nil
    · obtain ⟨known', hknown', hdrawn⟩ := hkeeps.answer _ (hanswers hnil)
      exact hknown'.drawn (hdrawn answers rfl)
  | traced levels verbosity h args answers hargs hanswers =>
    have hkeeps := Act.keeps_invokeTraced hhost (hhost.keeps_reenter levels) hw.guarded
      (hw.known.drawn hargs) verbosity
    refine hw.of_keeps hkeeps (Value.genuine_iff_forall_mem.2 fun v hv => ?_)
    obtain ⟨t, ht⟩ := hanswers v hv
    exact hkeeps.answer _ ht v rfl
  | hold held limits => exact hw.alike ⟨rfl, rfl, rfl, rfl, rfl⟩ (hw.guarded.sound.of_eq rfl rfl rfl)
  | release =>
    have hsound := hw.guarded.sound
    exact hw.alike ⟨rfl, rfl, rfl, rfl, rfl⟩
      ⟨hsound.context.of_eq rfl rfl, hsound.types, hsound.swapped, hsound.invokers⟩
  | edit base e =>
    have hedit : Act.Triple [] (Act.edit base e : Act σ Form) _ := Act.triple_edit base e
    exact hw.alike (hedit.onlyShares hw.guarded.sound).alike (hedit.sound hw.guarded.sound)
  | linkerForm type generic =>
    have hlink : Act.Triple [] (Act.linkerForm type generic : Act σ Form) _ :=
      (Act.triple_invokers type).bind fun _ _ => Act.triple_invokerForm type ⟨generic, true⟩
    exact hw.alike (hlink.onlyShares hw.guarded.sound).alike (hlink.sound hw.guarded.sound)
  | directForm type kind barrier =>
    have hform : Act.Triple [] (Act.directForm type kind barrier : Act σ Form) _ :=
      Act.triple_directForm type kind barrier
    exact hw.alike (hform.onlyShares hw.guarded.sound).alike (hform.sound hw.guarded.sound)

/-- So does everything that the client brings about. -/
theorem ClientRun.keeps {s s' : List Value × World σ} (hhost : host.Honest values)
    (hrun : ClientRun host values s s') (hw : s.2.Sincere host values s.1) :
    s'.2.Sincere host values s'.1 ∧ s.2.Later host s'.2 := by
  induction hrun with
  | refl => exact ⟨hw, .refl _⟩
  | tail _ hstep ih =>
    obtain ⟨hsincere, hlater⟩ := hstep.keeps hhost ih.1
    exact ⟨hsincere, ih.2.trans hlater⟩

/-- In a new world nothing happened yet. -/
theorem sincere_new (cache : CacheConfig) (limits : ExecLimits) {state : σ}
    (hstate : ∀ h : Handle, .handle h ∉ Value.parts (values state)) :
    (World.new cache limits state).Sincere host values [] where
  guarded :=
    { sound := sound_new cache limits state
      swapped := nofun
      state := Value.genuine_of_parts hstate
      fields := nofun
      tracks :=
        { slot_lt := nofun
          slot_inj := nofun
          runs_iff := fun _ => iff_of_false (fun hruns => nomatch hruns.1) (fun hslot => nomatch hslot)
          settled := nofun
          started := nofun }
      lawful := trivial
      seen := nofun }
  known := Value.genuine_nil

/-! ## What the class barriers promise -/

/-- What the class barriers promise a client that knows some values. -/
structure BarrierSafe (host : Host σ) (values : σ → List Value) (known : List Value) (w : World σ) :
    Prop where
  /-- Static methods and constructors were called behind their barrier only, also by the code that
  initializers ran. -/
  guards : host.Guards w.journal
  /-- A handle to one of them has a form without a barrier only if its class is initialized. -/
  initialized : ∀ (h : Handle) cls, .handle h ∈ Value.parts known → h.needs? = some cls →
    (w.currentForm h).kind.hasBarrier = false → host.isInitialized w.host cls = true
  /-- It never returns to the barrier. -/
  stays : ∀ (h : Handle) cls known' w', h.needs? = some cls →
    (w.currentForm h).kind.hasBarrier = false →
    ClientRun host values (known, w) (known', w') → (w'.currentForm h).kind.hasBarrier = false
  /-- A handle that is let through because the initializer is running keeps its form. -/
  reentrant : ∀ levels (h : Handle) id m (e : Execution σ), h.member? = some (id, m) →
    (Act.ensure host (host.reenter levels) m.cls e.world).1 = .ok .reentrant →
    Exec.passBarrier host (host.reenter levels) (.handle h) e = (.ok .void, e)
  /-- Once its class is initialized, a handle does without the barrier what it does with it, unless
  a limit is hit. The caller keeps the handle, the arguments and the form with the barrier. -/
  dropped : ∀ levels (h : Handle) id m args, .handle h ∈ Value.parts known →
    h.member? = some (id, m) → m.needsClass = true → host.isInitialized w.host m.cls = true →
    (w.currentForm h).kind.hasBarrier = true → (Value.handle h).Within w.held →
    let barred := w.withFrames (⟨[w.currentForm h], .handle h :: args⟩ :: w.frames)
    ∃ g free, Act.dropBarrier h m barred = (.ok g, free) ∧ free.currentForm h = g ∧
      g.kind.hasBarrier = false ∧
      let before := Act.invoke host (host.reenter levels) h .basic args barred
      let after := Act.invoke host (host.reenter levels) h .basic args free
      ¬ Outcome.Limited before.1 → ¬ Outcome.Limited after.1 →
        before.1 = after.1 ∧ before.2.host = after.2.host ∧ before.2.journal = after.2.journal

/-- Whatever a client of an honest host does from a new world on, the class barriers are safe. -/
theorem barrier_safe (hhost : host.Honest values) (cache : CacheConfig) (limits : ExecLimits)
    {state : σ} (hstate : ∀ h : Handle, .handle h ∉ Value.parts (values state))
    (hrun : ClientRun host values ([], World.new cache limits state) (known, w)) :
    w.BarrierSafe host values known := by
  obtain ⟨hw, -⟩ := hrun.keeps hhost (sincere_new cache limits hstate)
  refine ⟨hw.guarded.lawful.guards, fun h cls hh hneeds hfree => ?_,
    fun h cls known' w' hneeds hfree hrun' => ?_, fun levels h id m e hmember hstatus => ?_,
    fun levels h id m args hh hmember hneeds hinit hbarrier hheld => ?_⟩
  · exact hw.guarded.initialized_of_free (hw.known h hh) hneeds hfree
  · obtain ⟨hw', hlater⟩ := hrun'.keeps hhost hw
    exact hw'.guarded.stays_free hlater hneeds hfree
  · exact Exec.passBarrier_reentrant hmember hstatus
  · exact Act.invoke_dropped (host.blind_reenter levels) (hw.guarded.withFrames _).sound
      (hw.known h hh).proper hmember hneeds hinit hbarrier hheld (.head _)

/-! ## A class with one method -/

/-- A class whose initializer only logs, with a method that answers seven. -/
def sevenTable : HostTable :=
  (HostTable.empty.member "C" "seven" (.const (.given (.int 7)))).initializer "C" (.say "init")

/-- The method. -/
def sevenMember : Member := ⟨"C", "seven", ⟨[], .int, by decide, by decide⟩, .static⟩

/-- Makes a handle to the method, then initializes the class. -/
def sevenCode : Script TableState RuntimeError (List Value) :=
  .make (.direct sevenMember) fun
    | .error e => .fail e
    | .ok h => .ensure "C" fun _ => .pure [.handle h]

/-- What comes of the code. -/
def sevenRun : Outcome (Except RuntimeError (List Value)) × World TableState :=
  Act.script sevenTable.host (sevenTable.host.reenter 1) [] sevenCode
    (World.new {} {} HostTable.start)

/-- The handle that the code answers. -/
def sevenHandle? : Option Handle :=
  match sevenRun.1 with
  | .ok (.ok [.handle h]) => some h
  | _ => none

/-- The client holds the handle and sets limits. -/
def sevenWorld (h : Handle) (limits : ExecLimits) : World TableState :=
  { sevenRun.2 with held := [.handle h], limits }

theorem honest_sevenTable : sevenTable.host.Honest fun _ => [] := by
  refine HostTable.honest fun body hbody h hh => ?_
  have hbody : body = .const (.given (.int 7)) ∨ body = .say "init" := by
    simpa [HostTable.bodies, sevenTable, HostTable.member, HostTable.initializer, HostTable.register,
      HostTable.empty] using hbody
  rcases hbody with rfl | rfl
  · simp [Body.givens, Blueprint.givens, Value.parts, Value.addPartsOf, Value.addParts] at hh
  · simp [Body.givens, Value.parts, Value.addPartsOf] at hh

theorem answer_of_mem_sevenHandle {h : Handle} (hh : h ∈ sevenHandle?) :
    sevenRun.1 = .ok (.ok [.handle h]) := by
  rw [sevenHandle?] at hh
  split at hh
  · next g heq =>
    obtain rfl := Option.some.inj hh
    exact heq
  · cases hh

/-- The client brings the world about. -/
theorem clientRun_seven {h : Handle} (hh : h ∈ sevenHandle?) (limits : ExecLimits) :
    ClientRun sevenTable.host (fun _ => []) ([], World.new {} {} HostTable.start)
      ([.handle h], sevenWorld h limits) := by
  have hcode : sevenCode.Honest sevenTable.host (fun _ => [])
      (fun known _ r => ∀ vs, r = .ok vs → Value.DrawnFrom known vs) [] HostTable.start := by
    refine ⟨Value.drawnFrom_of_parts nofun, fun _ => nofun, fun g t _ r vs hvs => ?_⟩
    obtain rfl := Except.ok.inj hvs
    exact .refl _
  have hmade : ClientStep sevenTable.host (fun _ => []) ([], World.new {} {} HostTable.start)
      ([.handle h], sevenRun.2) :=
    .code 1 [] [.handle h] sevenCode hcode fun _ => answer_of_mem_sevenHandle hh
  exact .tail (.single hmade) (.hold [.handle h] limits)

/-- The handle to the method was made before its class was initialized, so it has its barrier. -/
theorem barrier_safe_seven : ∃ h ∈ sevenHandle?, h.needs? = some "C" ∧
    sevenTable.host.isInitialized (sevenWorld h {}).host "C" = true ∧
    ((sevenWorld h {}).currentForm h).kind.hasBarrier = true ∧
    (sevenWorld h {}).BarrierSafe sevenTable.host (fun _ => []) [.handle h] := by
  have hbarred : ∃ h ∈ sevenHandle?, h.needs? = some "C" ∧
      sevenTable.host.isInitialized (sevenWorld h {}).host "C" = true ∧
      ((sevenWorld h {}).currentForm h).kind.hasBarrier = true := by
    decide +kernel
  obtain ⟨h, hh, hneeds, hinit, hbarrier⟩ := hbarred
  exact ⟨h, hh, hneeds, hinit, hbarrier,
    barrier_safe honest_sevenTable {} {} nofun (clientRun_seven hh {})⟩

/-- With two units of fuel a call with the barrier fails: passing it costs one of the three units that
the call needs. Without the barrier the call answers a number. -/
theorem barrier_costs_fuel : ∃ h ∈ sevenHandle?,
    let w := sevenWorld h { fuel := 2 }
    let barred := w.withFrames [⟨[w.currentForm h], [.handle h]⟩]
    let free := (Act.dropBarrier h sevenMember barred).2
    let call := Act.invoke sevenTable.host (sevenTable.host.reenter 1) h .basic []
    ClientRun sevenTable.host (fun _ => []) ([], World.new {} {} HostTable.start) ([.handle h], w) ∧
    h.needs? = some "C" ∧ sevenTable.host.isInitialized w.host "C" = true ∧
    (w.currentForm h).kind.hasBarrier = true ∧ (free.currentForm h).kind.hasBarrier = false ∧
    Outcome.Limited (call barred).1 ∧ (call free).1.toOption.map Value.basicType = some .int ∧
    (call barred).1 ≠ (call free).1 := by
  have hcalls : ∃ h ∈ sevenHandle?,
      let w := sevenWorld h { fuel := 2 }
      let barred := w.withFrames [⟨[w.currentForm h], [.handle h]⟩]
      let free := (Act.dropBarrier h sevenMember barred).2
      let call := Act.invoke sevenTable.host (sevenTable.host.reenter 1) h .basic []
      h.needs? = some "C" ∧ sevenTable.host.isInitialized w.host "C" = true ∧
      (w.currentForm h).kind.hasBarrier = true ∧ (free.currentForm h).kind.hasBarrier = false ∧
      Outcome.Limited (call barred).1 ∧ ¬ Outcome.Limited (call free).1 ∧
      (call free).1.toOption.map Value.basicType = some .int := by
    decide +kernel
  obtain ⟨h, hh, hneeds, hinit, hbarrier, hfree, hlimited, hunlimited, hanswer⟩ := hcalls
  exact ⟨h, hh, clientRun_seven hh _, hneeds, hinit, hbarrier, hfree, hlimited, hanswer,
    fun heq => hunlimited (heq ▸ hlimited)⟩

end World

end HandleForms
