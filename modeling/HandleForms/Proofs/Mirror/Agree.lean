import HandleForms.Proofs.Mirror.Client
import HandleForms.Proofs.Mirror.Table
import HandleForms.Proofs.Run.Checked

/-!
# Ways to call a handle at a type

A handle can be called at a type at a call site, through an invoker of that type, or directly if its
own type will do. The three run different forms and make different handles on the way, but they end
alike, whatever is in the caches (`Act.agree_callAs`).
-/

namespace HandleForms

variable {σ α : Type}

/-! ## The ways -/

/-- Whether a call at the type may call a handle of another type: an exact call asks for the same
type, a generic one for the same basic type. -/
def Signature.Admits (type : Signature) (generic : Bool) (own : Signature) : Prop :=
  if generic then own.basic = type.basic else own = type

instance (type : Signature) (generic : Bool) (own : Signature) :
    Decidable (type.Admits generic own) := by
  unfold Signature.Admits
  infer_instance

/-- A way to call a handle at a type. -/
inductive CallWay
  /-- A call site of the type calls it. -/
  | site
  /-- An invoker of the type, which the client asks for and holds, calls it. -/
  | invoker
  /-- It is checked and called itself. -/
  | direct

/-- Calls a handle at a type. -/
def Act.callAs (host : Host σ) (re : Reentry σ) (generic : Bool) (h : Handle) (type : Signature)
    (args : List Value) : CallWay → Act σ Value
  | .site => invoke host re h (if generic then .generic type else .exact type) args
  | .invoker => do
    let i ← invoker type generic
    modify fun w => { w with held := .handle i :: w.held }
    invoke host re i .basic (.handle h :: args)
  | .direct =>
    if type.Admits generic h.type then invoke host re h .basic args
    else fail (.wrongType type h.type)

variable {host : Host σ} {M : host.Mirroring} {κ κ' : Pairing} {w w' v v' : World σ}
  {re : Reentry σ} {h h' t t' : Handle} {args args' : List Value} {generic : Bool} {type : Signature} {depth : Nat}
  {o : Outcome Value} {u : World σ} {known : List Value}

/-! ## Views -/

/-- The handle, or a view of it that was made between the worlds. -/
structure HandleOf.Views (w v : World σ) (h t : Handle) : Prop where
  basic : t.type.basic = h.type.basic
  data : t.data = h.data
  sane : t.Sane
  same_or_fresh : t = h ∨ t.form = w.currentForm h ∧ w.nextId ≤ t.id ∧ t.id < v.nextId

namespace Act

/-- A handle is viewed at a type that admits its own, and at no other one. -/
theorem viewAt_cases (hw : w.Tame) (hsane : h.Sane) (generic : Bool) (type : Signature) :
    (type.Admits generic h.type ∧
      ∃ t v, viewAt generic h type w = (.ok t, v) ∧ w.Warms v ∧ h.Views w v t) ∨
    (¬ type.Admits generic h.type ∧
      viewAt generic h type w = (.error (.error (.wrongType type h.type)), w)) := by
  have happly := viewAt_apply generic h type w
  -- A handle of the type is its own view. Any other one is refused, or gets a new view.
  by_cases htype : h.type = type
  · rw [if_pos htype] at happly
    refine .inl ⟨?_, h, w, happly, hw.warms, rfl, rfl, hsane, .inl rfl⟩
    unfold Signature.Admits
    rw [htype]
    split <;> rfl
  rw [if_neg htype] at happly
  by_cases hview : generic = true ∧ h.type.basic = type.basic
  · obtain ⟨rfl, hbasic⟩ := hview
    rw [if_pos ⟨rfl, hbasic⟩] at happly
    have hspec : Triple (σ := σ) [] (asType h type) _ := triple_asType h type
    have hmakes := hspec.answer hw.sound (congrArg Prod.fst happly) hsane.proper
    have hsane' : (⟨w.nextId, type, w.currentForm h, h.data⟩ : Handle).Sane :=
      hmakes.sane fun t ht => List.mem_singleton.1 ht ▸ hsane
    exact .inl ⟨hbasic, _, _, happly,
      ⟨hw.of_eq rfl rfl rfl rfl rfl (Nat.le_succ _), rfl, Nat.le_succ _⟩,
      hbasic.symm, rfl, hsane', .inr ⟨rfl, Nat.le_refl _, Nat.lt_succ_self _⟩⟩
  · rw [if_neg hview] at happly
    refine .inr ⟨?_, happly⟩
    unfold Signature.Admits
    split
    · next hgeneric => exact fun hbasic => hview ⟨hgeneric, hbasic⟩
    · exact htype

end Act

/-! ## What the ways come to -/

/-- A call at a type that admits that of the handle is one of a view, and otherwise it fails. -/
theorem Exec.callAt_cases (hw : w.Tame) (hsane : h.Sane)
    (hends : (callAt host re depth generic h type args).Ends w o u) :
    (type.Admits generic h.type ∧ ∃ t v, w.Warms v ∧ h.Views w v t ∧
      (invokeHandle (runForm host re depth) t args).Ends v o u) ∨
    (¬ type.Admits generic h.type ∧ o = .error (.error (.wrongType type h.type)) ∧ u = w) := by
  obtain ⟨cost, hends⟩ := hends
  have happly : ∀ fuel {r v}, Act.viewAt generic h type w = (r, v) →
      callAt host re depth generic h type args ⟨w, fuel, none⟩ =
        match r with
        | .ok t => call host re depth t args ⟨v, fuel, none⟩
        | .error stop => (.error stop, ⟨v, fuel, none⟩) := fun fuel r v hview => by
    rw [callAt, bind_apply, act, hview]
    cases r <;> rfl
  refine (Act.viewAt_cases hw hsane generic type).imp ?_ ?_
  · rintro ⟨hadmits, t, v, hview, hwarms, hviews⟩
    refine ⟨hadmits, t, v, hwarms, hviews, cost, fun spare => ?_⟩
    have hquiet : Quiet v t := Act.quiet_of_sound hwarms.tame.sound hviews.sane.proper
    rw [← call_apply (e := ⟨v, cost + spare, none⟩) hquiet, ← hends, happly _ hview]
  · rintro ⟨hrefused, hview⟩
    have hend := hends 0
    rw [happly _ hview] at hend
    exact ⟨hrefused, (congrArg Prod.fst hend).symm, (congrArg (fun r => r.2.world) hend).symm⟩

namespace Act

/-- The client gets an invoker of the type, and holds it from then on. -/
theorem callAs_invoker_apply (host : Host σ) (re : Reentry σ) (generic : Bool) (h : Handle)
    (args : List Value) (hw : w.Tame) (hslots : type.slots ≤ Signature.maxInvokerSlots) :
    ∃ I v, callAs host re generic h type args .invoker w =
        invoke host re I .basic (.handle h :: args) v ∧
      I.Checks generic type ∧ w.Warms v ∧ v.held = .handle I :: w.held := by
  have hspec : Triple (σ := σ) [] (invoker type generic) _ := triple_invoker type generic
  obtain ⟨⟨I, hanswer, hI⟩, hwarms⟩ :=
    Quiet.answers hspec (.invoker type generic) (completes_invoker generic hslots) w hw
  generalize hv : (invoker type generic w).2 = v at hwarms
  have hshares := hspec.onlyShares hw.sound
  rw [hv, World.OnlyShares] at hshares
  have hheld : v.held = w.held := by rw [hshares]
  refine ⟨I, { v with held := .handle I :: v.held }, ?_, hI,
    hwarms.trans (hwarms.tame.warms_keeping _ _), congrArg _ hheld⟩
  show ((invoker type generic >>= fun i =>
    (modify fun w => { w with held := .handle i :: w.held }) >>=
    fun _ => invoke host re i .basic (.handle h :: args) : Act σ Value)) w = _
  rw [bind_apply, hanswer, hv]
  rfl

/-- A call site and an invoker that hit no limit end like the call at the type. -/
theorem callAs_ends (hre : re.Blind) (hw : w.Tame) (hheld : w.Holds [.handle h])
    (hslots : type.slots ≤ Signature.maxInvokerSlots) (hargs : checkArguments type args = .ok ())
    {way : CallWay} (hway : way ≠ .direct)
    (hlimits : ¬ Outcome.Limited (callAs host re generic h type args way w).1) :
    ∃ v u fs, w.Warms v ∧
      (Exec.callAt host re (w.limits.depth + 1) generic h type args).Ends v
        (callAs host re generic h type args way w).1 u ∧
      (callAs host re generic h type args way w).2 = u.withFrames fs := by
  cases way with
  | direct => exact absurd rfl hway
  | site =>
    obtain ⟨fs, u, hends, hu⟩ := ends_linkAndCall hre hw.sound (hheld _ (.head _)) hslots hargs
      (Nat.le_succ _) rfl hlimits
    have hlinker : Triple (σ := σ) [] (invokerForm type ⟨generic, true⟩) _ :=
      triple_invokerForm type _
    obtain ⟨-, hwarms⟩ := Quiet.of_triple hlinker (.invokerForm _ _) w hw
    exact ⟨_, u, _, hwarms.trans (hwarms.tame.warms_keeping _ fs), hends, hu⟩
  | invoker =>
    obtain ⟨I, v, happly, hI, hwarms, hholds⟩ :=
      callAs_invoker_apply host re generic h args hw hslots
    rw [happly] at hlimits ⊢
    have hdepth : v.limits.depth = w.limits.depth := by rw [hwarms.same]
    have hlater : v.Holds [.handle I, .handle h] := fun x hx => by
      rw [hholds]
      rcases List.mem_cons.1 hx with rfl | hx
      · exact Value.within_of_mem (.head _)
      · exact fun p hp => Value.mem_parts_cons.2 (.inr (hheld x hx p hp))
    exact ⟨v, _, _, hwarms, ends_invoker hre hI hlater hargs (hdepth ▸ Nat.lt_succ_self _) hlimits,
      rfl⟩

/-- A handle whose type will do is called itself or through a view of it, and another one is not
called. -/
theorem callAs_cases (hre : re.Blind) (hw : w.Tame) (hsane : h.Sane) (hheld : w.Holds [.handle h])
    (hslots : type.slots ≤ Signature.maxInvokerSlots) (hargs : checkArguments type args = .ok ())
    (way : CallWay) (hlimits : ¬ Outcome.Limited (callAs host re generic h type args way w).1) :
    (type.Admits generic h.type ∧ ∃ t v u fs, w.Warms v ∧ h.Views w v t ∧
      (Exec.invokeHandle (Exec.runForm host re (w.limits.depth + 1)) t args).Ends v
        (callAs host re generic h type args way w).1 u ∧
      (callAs host re generic h type args way w).2 = u.withFrames fs) ∨
    (¬ type.Admits generic h.type ∧
      (callAs host re generic h type args way w).1 = .error (.error (.wrongType type h.type)) ∧
      w.Warms (callAs host re generic h type args way w).2) := by
  by_cases hway : way = .direct
  · subst hway
    by_cases hadmits : type.Admits generic h.type
    · have hcall : callAs host re generic h type args .direct w =
        invoke host re h .basic args w := by
        rw [callAs, if_pos hadmits]
      have hbasic : h.type.basic = type.basic := by
        unfold Signature.Admits at hadmits
        split at hadmits
        · exact hadmits
        · rw [hadmits]
      have hfits : args.map Value.basicType = h.type.basicParams := by
        rw [checkArguments_eq_ok_iff.1 hargs, ← Signature.basicParams_basic, ← hbasic,
          Signature.basicParams_basic]
      rw [hcall] at hlimits ⊢
      exact .inl ⟨hadmits, h, w, _, w.frames, hw.warms, ⟨rfl, rfl, hsane, .inl rfl⟩,
        ends_of_invoke hre hfits hlimits (Nat.le_succ _),
          ((blind_invoke hre h .basic args).frames w) ▸ rfl⟩
    · rw [callAs, if_neg hadmits]
      exact .inr ⟨hadmits, rfl, hw.warms⟩
  obtain ⟨v, u, fs, hwarms, hends, hu⟩ := callAs_ends hre hw hheld hslots hargs hway hlimits
  -- Linkers and invokers are made before the view, and leave the forms of handles alone.
  have hviews : ∀ {x t}, h.Views v x t → h.Views w x t := fun {x t} ht => by
    refine ⟨ht.basic, ht.data, ht.sane, ht.same_or_fresh.imp_right fun hfresh => ?_⟩
    have hcurrent : v.currentForm h = w.currentForm h := by rw [hwarms.same]; rfl
    exact ⟨hcurrent ▸ hfresh.1, Nat.le_trans hwarms.nextId hfresh.2.1, hfresh.2.2⟩
  rcases Exec.callAt_cases hwarms.tame hsane hends with ⟨hadmits, t, x, hx, ht, hends⟩ |
    ⟨hrefused, ho, rfl⟩
  · exact .inl ⟨hadmits, t, x, u, fs, hwarms.trans hx, hviews ht, hends, hu⟩
  · exact .inr ⟨hrefused, ho, hu ▸ hwarms.trans (hwarms.tame.warms_keeping _ fs)⟩

end Act

/-! ## Views of mirrored handles -/

namespace HandleOf

/-- A direct handle has its own form yet, or the class is initialized. -/
theorem Views.form_or_ready (ht : h.Views w v t) (hw : ∀ e ∈ w.swapped, κ.ready e.1.2.2.cls)
    {i : Nat} {m : Member} (hd : h.data = .direct i m) : t.form = h.form ∨ κ.ready m.cls := by
  rcases ht.same_or_fresh with rfl | ⟨hform, -⟩
  · exact .inl rfl
  rw [hform]
  simp only [World.currentForm, hd]
  cases hlookup : w.swapped.lookup (h.id, h.type, m) with
  | none => exact .inl rfl
  | some f => exact .inr (hw _ (TypeForms.mem_of_lookup hlookup))

/-- A handle that dispatches to no member keeps its form. -/
theorem Views.form_of_plain (ht : h.Views w v t) (hplain : h.member? = none) : t.form = h.form := by
  rcases ht.same_or_fresh with rfl | ⟨hform, -⟩
  · rfl
  · rw [hform, World.currentForm_of_plain hplain]

/-- Whether it is the handle itself or a view, its identity was given out. -/
theorem Views.id_lt (ht : h.Views w v t) (hh : h.id < v.nextId) : t.id < v.nextId := by
  rcases ht.same_or_fresh with rfl | ⟨-, -, hlt⟩
  · exact hh
  · exact hlt

/-- Views of mirrored handles are twins, if no handles are level. -/
theorem Views.twins (hw : World.Mirrors M κ w w') (hlevel : ∀ i j, ¬ κ.level i j)
    (hh : h.Mirrors κ h') (ht : h.Views w v t) (ht' : h'.Views w' v' t') (hleft : κ.left ≤ v.nextId)
    (hright : κ.right ≤ v'.nextId) : t.Twins (κ.upTo v.nextId v'.nextId hleft hright) t' where
  basic := by rw [ht.basic, ht'.basic, hh.type]
  data := by
    rw [ht.data, ht'.data]
    exact hh.data.mono (κ.le_upTo hleft hright)
  form hplain := by
    have hplain : h.member? = none := by rwa [member?, ht.data] at hplain
    have hplain' : h'.member? = none := by
      rcases hh.plain_or_direct with ⟨-, hplain'⟩ | ⟨i, j, m, hd, -⟩
      · exact hplain'
      · simp [member?, hd] at hplain
    rw [ht.form_of_plain hplain, ht'.form_of_plain hplain']
    exact hh.form hplain
  direct i m hd := by
    rw [ht.data] at hd
    obtain ⟨j, hd'⟩ : ∃ j, h'.data = .direct j m := by
      rcases hh.plain_or_direct with ⟨hplain, -⟩ | ⟨i', j, m', hd₁, hd', -⟩
      · simp [member?, hd] at hplain
      · obtain ⟨-, rfl⟩ := HandleData.direct.inj (hd₁.symm.trans hd)
        exact ⟨j, hd'⟩
    obtain ⟨hlt, hlt'⟩ := κ.lt (hh.same i m hd)
    exact {
      lt := ht.id_lt (Nat.lt_of_lt_of_le hlt hleft)
      lt' := ht'.id_lt (Nat.lt_of_lt_of_le hlt' hright)
      ready := fun hne => by
        rcases ht.form_or_ready hw.swapped hd with hform | hready
        · rcases ht'.form_or_ready hw.swapped' hd' with hform' | hready
          · rw [hform, hform'] at hne
            exact hh.ready i m hd hne
          · exact hready
        · exact hready
      level := fun hyes => absurd hyes (hlevel _ _)
      right_unique := fun j hyes => absurd hyes (hlevel _ _)
      left_unique := fun i hyes => absurd hyes (hlevel _ _) }
  sane := ht.sane
  sane' := ht'.sane

end HandleOf

/-! ## The ways agree -/

/-- Two ways to call mirrored handles at a type end alike, unless one of them hits a limit. -/
theorem Act.mirrors_callAs (hhost : host.Discreet M) (hstep : ¬ M.lockstep)
    (hw : World.Mirrors M κ w w') (hlevel : ∀ i j, ¬ κ.level i j)
    (hh : (Value.handle h).Mirrors κ (.handle h')) (hargs : Value.MirrorAll κ args args')
    (hheld : w.Holds [.handle h]) (hheld' : w'.Holds [.handle h'])
    (hslots : type.slots ≤ Signature.maxInvokerSlots) (hfits : checkArguments type args = .ok ())
    (levels : Nat) (way way' : CallWay)
    (hfree : ¬ Outcome.Barred M.lockstep
      (callAs host (host.strict levels) generic h type args way w).1)
    (hfree' : ¬ Outcome.Barred M.lockstep
      (callAs host (host.strict levels) generic h' type args' way' w').1) :
    ∃ κ', World.Reach M κ κ' w w' (callAs host (host.strict levels) generic h type args way w).2
        (callAs host (host.strict levels) generic h' type args' way' w').2 ∧
      Outcome.Mirrors (Value.Mirrors κ')
        (callAs host (host.strict levels) generic h type args way w).1
        (callAs host (host.strict levels) generic h' type args' way' w').1 := by
  have hre := Host.blind_strict host levels
  have hmirrored := Host.mirrored_strict hhost hstep levels
  generalize host.strict levels = re at *
  obtain ⟨hmirrors, hsane, hsane'⟩ := Value.mirrors_handle_iff.1 hh
  have hfits' : checkArguments type args' = .ok () := by
    rw [← checkArguments_congr type hargs.basicTypes, hfits]
  have hlimits : ∀ {o : Outcome Value}, ¬ Outcome.Barred M.lockstep o → ¬ o.Limited :=
    fun hfree hlimited => hfree (.inr ⟨hstep, hlimited⟩)
  -- Both sides admit the type of the handle or neither does, so two of the four cases are absurd.
  rcases callAs_cases hre hw.tame hsane hheld hslots hfits way (hlimits hfree) with
    ⟨hadmits, t, v, u, fs, hwarms, ht, hends, hu⟩ | ⟨hrefused, ho, hwarms⟩ <;>
  rcases callAs_cases hre hw.tame' hsane' hheld' hslots hfits' way' (hlimits hfree') with
    ⟨hadmits', t', v', u', fs', hwarms', ht', hends', hu'⟩ | ⟨hrefused', ho', hwarms'⟩
  · have hreach := World.Reach.of_warms hw hwarms hwarms'
    have hleft := hreach.worlds.left
    have hright := hreach.worlds.right
    -- The views are not paired with each other, but they hold the same.
    have htwins := ht.twins hw hlevel hmirrors ht' hleft hright
    have hraised := hreach.worlds.upTo hleft hright (Nat.le_refl _) (Nat.le_refl _)
    have hle := κ.le_upTo hleft hright
    have hruns : Exec.RunsAlike M (Exec.runForm host re (w.limits.depth + 1))
        (Exec.runForm host re (w'.limits.depth + 1)) :=
      Exec.runsAlike hhost hmirrored fun hyes => absurd hyes hstep
    obtain ⟨κ', hreach', ho⟩ := (hruns hraised htwins (fun hyes => absurd hyes hstep)
      (hargs.mono hle)).ends hstep hends hends' hfree hfree'
    have hpassed : World.Reach M κ κ' w w' u u' :=
      (hreach.trans (.step hle hraised rfl rfl rfl)).trans hreach'
    rw [hu, hu']
    exact ⟨κ', @World.Reach.withFrames σ host M κ κ' w w' u u' w.frames w'.frames fs fs' hpassed,
      ho⟩
  · exact absurd (hmirrors.type ▸ hadmits) hrefused'
  · exact absurd (hmirrors.type ▸ hadmits') hrefused
  · refine ⟨κ, .of_warms hw hwarms hwarms', ?_⟩
    rw [ho, ho', hmirrors.type]
    exact .stop rfl

/-- The computation asks for what host code may ask for, and hits no limit on the way: neither
itself, nor in an invocation that host code asks for, nor by asking too deeply. -/
def Host.Unlimited (host : Host σ) (levels : Nat) (x : Reentry σ → Act σ α) (w : World σ) : Prop :=
  ¬ Outcome.Cut (x (host.strict levels) w).1 ∧ ¬ Outcome.Limited (x (host.strict levels) w).1

/-- Calling does what it does strictly, unless that is cut off. -/
theorem Act.echoes_callAs (levels : Nat) (generic : Bool) (h : Handle) (type : Signature)
    (args : List Value) (way : CallWay) :
    Echoes (callAs host (host.strict levels) generic h type args way)
      (callAs host (host.reenter levels) generic h type args way) := by
  have hre := host.echoes_strict levels
  cases way with
  | site => exact .invoke hre _ _ _
  | invoker => exact .bind (.refl _) fun I => .bind (.refl _) fun _ => .invoke hre _ _ _
  | direct =>
    rw [callAs, callAs]
    split
    · exact .invoke hre _ _ _
    · exact .refl _

/-- A computation that answers hit no limit. -/
theorem Host.unlimited_of_isOk {levels : Nat} {x : Reentry σ → Act σ α}
    (h : (x (host.strict levels) w).1.isOk = true) : host.Unlimited levels x w := by
  unfold Unlimited
  generalize (x (host.strict levels) w).1 = o at h
  cases o with
  | ok a => exact ⟨nofun, Outcome.not_limited_ok a⟩
  | error stop => cases h

/-- Code of a client that makes the handle that adds two numbers. -/
def makeAdder : Script TableState RuntimeError (List Value) :=
  .make (.external "add" adder.type) fun r => .done (r.map fun h => [.handle h])

/-- The world in which the client made that handle and holds it. -/
def madeAdder : World TableState :=
  { (Act.script adderHost (adderHost.reenter 0) [] makeAdder
      (World.new {} {} HostTable.start)).2 with
    held := [.handle adder], limits := {} }

theorem discreet_standard : adderHost.Discreet HostTable.standard.mirroring :=
  HostTable.discreet (by unfold HostTable.GivesLiterals; decide)

theorem attained_madeAdder :
    madeAdder.Attained HostTable.standard.mirroring [.handle adder] := by
  have hcode : World.DiscreetCode HostTable.standard.mirroring [] HostTable.start makeAdder := by
    rintro κ - hs -
    refine .make (.external _ _) fun κ' r r' _ hr => .done ?_
    cases hr with
    | ok h => exact .ok (.cons h .nil)
    | error e => exact .error e
  have hnew : (World.new {} {} HostTable.start).Attained HostTable.standard.mirroring [] :=
    .new {} {} fun _ => rfl
  have hmade : (Act.script adderHost (adderHost.reenter 0) [] makeAdder
      (World.new {} {} HostTable.start)).1 = .ok (.ok [.handle adder]) := rfl
  exact (hnew.code 0 [] [.handle adder] makeAdder hcode (by rw [hmade]; nofun) fun _ =>
    hmade).hold _ _

end HandleForms
