import HandleForms.Proofs.Guard.Dropped
import HandleForms.Proofs.Mirror.Run

/-!
# Direct handles in worlds that mirror each other

A direct handle may have dropped its barrier in one world and not in the other one. Then its class
is initialized, the barrier that is left passes at once, and behind it both handles go on alike. So
twins run alike in worlds that mirror each other, whatever their limits are (`Exec.runsAlike`).
-/

namespace HandleForms

variable {σ α β γ δ : Type}

/-! ## Dropping barriers -/

variable {host : Host σ} {M : host.Mirroring} {κ κ' : Pairing} {w w' : World σ} {h h' : Handle}
  {m : Member} {i j : Nat}

namespace World

/-- The handle gets another form, if there is one. -/
def dropTo (w : World σ) (h : Handle) (m : Member) (f? : Option Form) : World σ :=
  { w with swapped := match f? with
    | none => w.swapped
    | some f => TypeForms.assign (h.id, h.type, m) f w.swapped }

theorem lookup_dropTo (w : World σ) (h : Handle) (m : Member) (f? : Option Form)
    (key : Nat × Signature × Member) : ((w.dropTo h m f?).swapped.lookup key).isSome =
      (decide (key = (h.id, h.type, m)) && f?.isSome || (w.swapped.lookup key).isSome) := by
  cases f? with
  | none => simp [dropTo]
  | some f =>
    by_cases hkey : key = (h.id, h.type, m)
    · subst hkey
      simp [dropTo, TypeForms.lookup_assign_self]
    · simp [dropTo, TypeForms.lookup_assign_of_ne hkey, hkey]

theorem Tame.dropTo (hw : w.Tame) (hid : h.id < w.nextId) {f? : Option Form}
    (hf : ∀ f ∈ f?, ∃ id, Form.direct h.type.basic m.kind false id = .ok f) :
    (w.dropTo h m f?).Tame := by
  cases f? with
  | none => exact hw
  | some f =>
    exact {
      sound := ⟨hw.sound.context, hw.sound.types, fun e he => by
        rcases TypeForms.mem_assign he with rfl | he
        · exact hf f rfl
        · exact hw.sound.swapped e he, hw.sound.invokers⟩
      derived := hw.derived
      barrier := hw.barrier
      fields := hw.fields
      swapped := fun e he => by
        rcases TypeForms.mem_assign he with rfl | he
        · exact hid
        · exact hw.swapped e he }

theorem ready_dropTo (hswapped : ∀ e ∈ w.swapped, κ.ready e.1.2.2.cls) (hready : κ.ready m.cls)
    (f? : Option Form) : ∀ e ∈ (w.dropTo h m f?).swapped, κ.ready e.1.2.2.cls := by
  cases f? with
  | none => exact hswapped
  | some f =>
    intro e he
    rcases TypeForms.mem_assign he with rfl | he
    · exact hready
    · exact hswapped e he

/-- Handles that drop their barriers alike may do so, each on its own unless they are level. -/
theorem Mirrors.dropTo (hw : World.Mirrors M κ w w') (hh : h.DropsAlike κ h' m)
    (hready : κ.ready m.cls) (f? f'? : Option Form)
    (hf : ∀ f ∈ f?, ∃ id, Form.direct h.type.basic m.kind false id = .ok f)
    (hf' : ∀ f ∈ f'?, ∃ id, Form.direct h'.type.basic m.kind false id = .ok f)
    (hlevel : κ.level h.id h'.id → f?.isSome = f'?.isSome) :
    World.Mirrors M κ (w.dropTo h m f?) (w'.dropTo h' m f'?) := by
  have hid := Nat.lt_of_lt_of_le hh.lt hw.left
  have hid' := Nat.lt_of_lt_of_le hh.lt' hw.right
  -- Of level handles both drop their barriers or neither does.
  have hlevels : ∀ {k l}, κ.level k l → ∀ type m',
      ((w.dropTo h m f?).swapped.lookup (k, type, m')).isSome =
        ((w'.dropTo h' m f'?).swapped.lookup (l, type, m')).isSome := by
    intro k l hkl type m'
    rw [lookup_dropTo, lookup_dropTo, hw.level hkl]
    congr 1
    by_cases hk : k = h.id
    · subst hk
      obtain rfl := hh.right_unique l hkl
      rw [hlevel hkl, (hh.level hkl).1]
      congr 2
      simp
    · have hl : l ≠ h'.id := fun hl => hk (hh.left_unique k (hl ▸ hkl))
      simp [hk, hl]
  exact { hw with
    tame := hw.tame.dropTo hid hf
    tame' := hw.tame'.dropTo hid' hf'
    swapped := ready_dropTo hw.swapped hready f?
    swapped' := ready_dropTo hw.swapped' hready f'?
    level := hlevels }

end World

namespace Act

/-- From a tame world a direct handle drops the barrier that it has, and nothing else changes but
what is shared. -/
theorem swapBarrier_tame (hw : w.Tame) (hh : h.Sane) (hd : h.data = .direct i m) :
    ∃ r v f?, Act.swapBarrier h m w = (.ok r, v.dropTo h m f?) ∧ w.Warms v ∧
      (∀ f ∈ f?, ∃ id, Form.direct h.type.basic m.kind false id = .ok f) ∧
      f?.isSome = (w.currentForm h).kind.hasBarrier := by
  rw [swapBarrier_apply]
  cases hbarrier : (w.currentForm h).kind.hasBarrier with
  | false => exact ⟨none, w, none, rfl, hw.warms, nofun, rfl⟩
  | true =>
    rw [if_pos rfl]
    obtain ⟨idf, hf⟩ := (hw.sound.fits_currentForm hh.proper).direct_eq hd
    obtain ⟨g, w', hdrop⟩ := dropBarrier_ok hf rfl w
    obtain ⟨hform, -⟩ := direct_of_dropBarrier hw.sound hdrop
    obtain ⟨v, hmade, rfl⟩ := eq_drop_of_dropBarrier hdrop
    obtain ⟨-, hwarms⟩ :=
      Quiet.of_triple (triple_directForm h.type m.kind false) (.directForm _ _ _) w hw
    rw [hmade] at hwarms
    rw [hdrop]
    exact ⟨_, v, some g, rfl, hwarms, fun f hf => Option.some.inj hf ▸ hform, rfl⟩

namespace Mirrors

/-- Both handles drop the barriers that they have. -/
theorem swapBarrier (hw : World.Mirrors M κ w w') (hh : h.DropsAlike κ h' m) (hsane : h.Sane)
    (hsane' : h'.Sane) (hd : h.data = .direct i m) (hd' : h'.data = .direct j m)
    (hready : κ.ready m.cls) :
    Mirrors M κ w w' (Act.swapBarrier h m) (Act.swapBarrier h' m) fun _ _ _ => True := by
  obtain ⟨r, v, f?, happly, hwarms, hf, hsome⟩ := swapBarrier_tame hw.tame hsane hd
  obtain ⟨r', v', f'?, happly', hwarms', hf', hsome'⟩ := swapBarrier_tame hw.tame' hsane' hd'
  have hreach := World.Reach.of_warms hw hwarms hwarms'
  have hdropped := hreach.worlds.dropTo hh hready f? f'? hf hf' fun hlevel => by
    obtain ⟨htype, hform⟩ := hh.level hlevel
    rw [hsome, hsome', hw.hasBarrier_of_level hd hd' htype hform hlevel]
  rw [Mirrors, happly, happly']
  exact .inr (.inr ⟨κ, hreach.trans (.step (le_refl κ) hdropped rfl rfl rfl), .ok trivial⟩)

/-- A handle that is level with no other one drops its barrier. -/
theorem swapBarrier_left (hw : World.Mirrors M κ w w') (hh : h.DropsAlike κ h' m) (hsane : h.Sane)
    (hd : h.data = .direct i m) (hready : κ.ready m.cls) (hlevel : ¬ κ.level h.id h'.id) :
    Mirrors M κ w w' (Act.swapBarrier h m) (Pure.pure none : Act σ (Option (Form × Form)))
      fun _ _ _ => True := by
  obtain ⟨r, v, f?, happly, hwarms, hf, -⟩ := swapBarrier_tame hw.tame hsane hd
  have hreach := World.Reach.of_warms hw hwarms hw.tame'.warms
  have hdropped := hreach.worlds.dropTo hh hready f? none hf nofun fun hyes => absurd hyes hlevel
  rw [Mirrors, happly]
  exact .inr (.inr ⟨κ, hreach.trans (.step (le_refl κ) hdropped rfl rfl rfl), .ok trivial⟩)

theorem swapBarrier_right (hw : World.Mirrors M κ w w') (hh : h.DropsAlike κ h' m)
    (hsane' : h'.Sane)
    (hd' : h'.data = .direct j m) (hready : κ.ready m.cls) (hlevel : ¬ κ.level h.id h'.id) :
    Mirrors M κ w w' (Pure.pure none : Act σ (Option (Form × Form))) (Act.swapBarrier h' m)
      fun _ _ _ => True := by
  obtain ⟨r, v, f?, happly, hwarms, hf, -⟩ := swapBarrier_tame hw.tame' hsane' hd'
  have hreach := World.Reach.of_warms hw hw.tame.warms hwarms
  have hdropped := hreach.worlds.dropTo hh hready none f? nofun hf fun hyes => absurd hyes hlevel
  rw [Mirrors, happly]
  exact .inr (.inr ⟨κ, hreach.trans (.step (le_refl κ) hdropped rfl rfl rfl), .ok trivial⟩)

end Mirrors

end Act

namespace Exec

variable {re : Reentry σ}

theorem silent_traceSwap (swap : Option (Form × Form)) : Silent (traceSwap swap : Exec σ Unit) := by
  cases swap <;> exact fun _ _ => rfl

namespace Mirrors

/-- What both sides leave when they pass a barrier. -/
abbrev Passed : Pairing → Value → Value → Prop := fun _ v v' => v = .void ∧ v' = .void

theorem passAs (hhost : host.Discreet M) (hre : re.Mirrored M) (hw : World.Mirrors M κ w w')
    (hh : h.DropsAlike κ h' m) (hsane : h.Sane) (hsane' : h'.Sane) (hd : h.data = .direct i m)
    (hd' : h'.data = .direct j m) :
    Mirrors M κ w w' (Exec.passAs host re h m) (Exec.passAs host re h' m) Passed := by
  refine (act (Act.Mirrors.ensure hhost hre hw m.cls)).bind
    fun κ₁ w₁ w₁' status status' hreach hstatus => ?_
  obtain ⟨rfl, hready⟩ := hstatus
  cases status' with
  | reentrant => exact pure hreach.worlds ⟨rfl, rfl⟩
  | done =>
    refine (act (Act.Mirrors.swapBarrier hreach.worlds (hh.mono hreach.le) hsane hsane' hd hd'
      (hready rfl))).bind fun κ₂ w₂ w₂' swap swap' hreach₂ _ => ?_
    exact silent_left (silent_traceSwap _) (silent_right (silent_traceSwap _)
      (pure hreach₂.worlds ⟨rfl, rfl⟩))

/-- The barrier of an initialized class is dropped at once. -/
theorem passAs_ready {e : Execution σ} (hinit : host.isInitialized e.world.host m.cls = true) :
    Exec.passAs host re h m e =
      (Exec.act (Act.swapBarrier h m) >>= fun swap => traceSwap swap >>= fun _ =>
        Pure.pure .void) e := by
  have hensure : Act.ensure host re m.cls e.world = (.ok .done, e.world) := by
    rw [Act.ensure_apply, hinit, if_pos rfl]
  rw [Exec.passAs, bind_apply, Exec.act, hensure]

theorem passAs_left (hw : World.Mirrors M κ w w') (hh : h.DropsAlike κ h' m) (hsane : h.Sane)
    (hd : h.data = .direct i m) (hready : κ.ready m.cls) (hlevel : ¬ κ.level h.id h'.id) :
    Mirrors M κ w w' (Exec.passAs host re h m) (Pure.pure .void : Exec σ Value) Passed := by
  have hswap : Mirrors M κ w w' (Exec.act (Act.swapBarrier h m) >>= fun swap =>
      traceSwap swap >>= fun _ => Pure.pure .void) (Exec.act (Pure.pure none) >>= fun _ =>
        Pure.pure .void) Passed :=
    (act (Act.Mirrors.swapBarrier_left hw hh hsane hd hready hlevel)).bind fun _ _ _ _ _ hreach _ =>
      silent_left (silent_traceSwap _) (pure hreach.worlds ⟨rfl, rfl⟩)
  exact hswap.of_eq (fun _ => passAs_ready ((hw.ready _).1 hready)) fun _ => rfl

theorem passAs_right (hw : World.Mirrors M κ w w') (hh : h.DropsAlike κ h' m) (hsane' : h'.Sane)
    (hd' : h'.data = .direct j m) (hready : κ.ready m.cls) (hlevel : ¬ κ.level h.id h'.id) :
    Mirrors M κ w w' (Pure.pure .void : Exec σ Value) (Exec.passAs host re h' m) Passed := by
  have hswap : Mirrors M κ w w' (Exec.act (Pure.pure none) >>= fun _ => Pure.pure .void)
      (Exec.act (Act.swapBarrier h' m) >>= fun swap =>
        traceSwap swap >>= fun _ => Pure.pure .void) Passed :=
    (act (Act.Mirrors.swapBarrier_right hw hh hsane' hd' hready hlevel)).bind
      fun _ _ _ _ _ hreach _ => silent_right (silent_traceSwap _) (pure hreach.worlds ⟨rfl, rfl⟩)
  exact hswap.of_eq (fun _ => rfl) fun _ => passAs_ready
    ((hw.initialized _).trans ((hw.ready _).1 hready))

end Mirrors

/-! ## Runs of direct forms -/

variable {run run' : Runner σ} {f f' : Form} {args args' : List Value} {b b' : Bool}
  {depth depth' : Nat}

/-- What a direct form does at its barrier, if it has one. -/
def passStep (host : Host σ) (re : Reentry σ) (run : Runner σ) (f : Form) (vs : List Value) :
    Bool → Exec σ Value
  | true => nameStep (apply host re run) f (.apply (.intrinsic .ensureInitialized) [.name 0]) vs
  | false => pure .void

/-- The barrier is that of the handle. -/
theorem passStep_true (hd : h.data = .direct i m) :
    passStep host re run f (.handle h :: args) true = (do
    consumeFuel
    tracing fun t => t.expression f (args.length + 1) ⟨.intrinsic .ensureInitialized, [.name 0]⟩
    let v ← withFrame ⟨[f], .handle h :: args⟩ (passAs host re h m)
    tracing fun t => t.value v
    return v) := by
  have hmember : h.member? = some (i, m) := HandleOf.member?_eq_some_iff.2 hd
  have hpass : passBarrier host re (.handle h) = passAs host re h m :=
    passBarrier_member rfl hmember
  rw [← hpass]
  rfl

namespace Mirrors

/-- Two handles at their barriers. One of them may have none if the class is initialized. -/
theorem passStep (hhost : host.Discreet M) (hre : re.Mirrored M) (hw : World.Mirrors M κ w w')
    (hh : h.DropsAlike κ h' m) (hsane : h.Sane) (hsane' : h'.Sane) (hd : h.data = .direct i m)
    (hd' : h'.data = .direct j m)
    (hne : b ≠ b' → κ.ready m.cls ∧ ¬ κ.level h.id h'.id ∧ ¬ M.lockstep) :
    Mirrors M κ w w' (Exec.passStep host re run f (.handle h :: args) b)
      (Exec.passStep host re run' f' (.handle h' :: args') b') Passed := by
  -- Where only one side has a barrier, that side pays for it alone and passes at once.
  cases b <;> cases b'
  · exact pure hw ⟨rfl, rfl⟩
  · obtain ⟨hready, hlevel, hstep⟩ := hne nofun
    have hpass : Mirrors M κ w w' (Pure.pure .void : Exec σ Value)
        (Exec.withFrame ⟨[f'], .handle h' :: args'⟩ (Exec.passAs host re h' m)) Passed :=
      withFrame_right (passAs_right (hw.withFrames w.frames _) hh hsane' hd' hready hlevel)
    rw [passStep_true hd']
    exact pay_right hstep
      (silent_right (silent_tracing _) (hpass.shown_right fun _ => silent_tracing _))
  · obtain ⟨hready, hlevel, hstep⟩ := hne nofun
    have hpass : Mirrors M κ w w'
      (Exec.withFrame ⟨[f], .handle h :: args⟩ (Exec.passAs host re h m))
        (Pure.pure .void : Exec σ Value) Passed :=
      withFrame_left (passAs_left (hw.withFrames _ w'.frames) hh hsane hd hready hlevel)
    rw [passStep_true hd]
    exact pay_left hstep
      (silent_left (silent_tracing _) (hpass.shown_left fun _ => silent_tracing _))
  · rw [passStep_true hd, passStep_true hd']
    refine pay hw (silent_left (silent_tracing _) (silent_right (silent_tracing _) ?_))
    refine shown_left (fun _ => silent_tracing _)
      (shown_right (fun _ => silent_tracing _) (withFrame ?_))
    exact passAs hhost hre (hw.withFrames _ _) hh hsane hsane' hd hd'

end Mirrors

end Exec

/-! ## Behind the barrier -/

namespace Form

/-- Where names go behind the barrier at place `first`, if there is one. -/
def behind (first : Nat) : Bool → Nat → Nat
  | true => shift first
  | false => fun i => i

variable {basic link : Signature} {kind : DispatchKind} {f g : Form} {b : Bool}

/-- The result of a direct form stands behind its barrier. -/
theorem result_behind {idf idg : Nat} (hf : direct basic kind b idf = .ok f)
    (hg : direct basic kind false idg = .ok g) :
    f.result = g.result.map (behind (basic.arity + 1) b) := by
  cases b with
  | true => exact result_direct hf hg
  | false =>
    have hresult : f.plain.result = g.plain.result := congrArg Form.result (matches_direct hf hg)
    rw [result_plain, result_plain] at hresult
    rw [hresult]
    simp [behind]

/-- A direct form answers what comes of its names. -/
theorem result_direct_pos {id : Nat} (hg : direct basic kind false id = .ok g) {r : Nat}
    (hr : g.result = some r) : 0 < r := by
  obtain ⟨link, -, hparts⟩ := direct_eq_ok hg
  obtain ⟨-, hparts⟩ := ofParts_eq_ok_iff.1 hparts
  rw [hparts] at hr
  have hkept : keptResult _ (some _) = some r := hr
  have hr' := Option.some.inj (Option.filter_eq_some_iff.1 hkept).1
  omega

/-- Behind the barrier a direct form asks its handle for the member and calls it. -/
theorem alike_dispatchExprs {κ : Pairing} {h h' : Handle} {i : Nat} {m : Member} {first : Nat}
    (hfirst : 0 < first) (hd : h.data = .direct i m)
    (hdata : h.data.Mirrors κ (Value.Mirrors κ) h'.data) {n : Name Form}
    (hn : n ∈ dispatchExprs basic link kind first) : n.Alike κ (.handle h) (.handle h') := by
  have hasks : ∀ {op : Intrinsic}, op.Reads (.direct i m) →
      (Name.apply (.intrinsic op) [.name 0]).Alike κ (.handle h) (.handle h') := fun hop e he =>
    .inr ⟨_, h, h', (Option.some.inj he).symm, rfl, rfl, hd ▸ hop, hdata⟩
  have hlinks : ∀ {as : List Arg}, .name 0 ∉ as →
      (Name.apply (.intrinsic (.linkTo kind link)) as).Alike κ (.handle h) (.handle h') :=
    fun hzero e he => by
      obtain rfl := Option.some.inj he
      exact .inl ⟨.inr ⟨_, _, rfl⟩, fun hmem => absurd hmem hzero⟩
  have hargs : ∀ n, Arg.name 0 ∉ argRange 1 n := fun n hmem =>
    zero_not_mem_argRange n (List.mem_filterMap.2 ⟨_, hmem, rfl⟩)
  unfold dispatchExprs at hn
  split at hn <;> simp only [List.mem_cons, List.not_mem_nil, or_false] at hn
  · rcases hn with rfl | rfl | rfl
    · exact hasks .allocateInstance
    · exact hasks .constructorMember
    · refine hlinks fun hzero => ?_
      simp [hargs] at hzero
      omega
  · rcases hn with rfl | rfl
    · exact hasks .internalMemberName
    · refine hlinks fun hzero => ?_
      simp [hargs] at hzero
      omega

end Form

namespace Exec

variable {re : Reentry σ} {args args' vs : List Value} {depth depth' : Nat} {f : Form}
  {basic link : Signature} {kind : DispatchKind}

/-- A direct form passes its barrier, if it has one, and goes on behind it. -/
theorem remainder_direct (b : Bool) :
    remainder host re depth f (Form.directExprs basic link kind b) vs =
    passStep host re (runForm host re depth) f vs b >>= fun u =>
      remainder host re depth f ((Form.dispatchExprs basic link kind (basic.arity + 1)).map
        (Name.mapArgs (Form.behind (basic.arity + 1) b))) (vs ++ if b then [u] else []) := by
  cases b with
  | true =>
    rw [Form.directExprs_true, remainder_cons, Form.dispatchExprs_succ (Nat.lt_succ_self _)]
    rfl
  | false =>
    have hself : (Form.dispatchExprs basic link kind (basic.arity + 1)).map
        (Name.mapArgs (Form.behind (basic.arity + 1) false)) =
          Form.dispatchExprs basic link kind (basic.arity + 1) :=
      List.map_id'' (fun n => Name.mapArgs_eq_self fun _ _ => rfl) _
    rw [hself, Form.directExprs_false]
    simp only [Bool.false_eq_true, if_false, List.append_nil]
    rfl

theorem follows_behind (vs : List Value) (b : Bool) (v : Value) :
    Follows (Form.behind vs.length b) (vs ++ if b then [v] else []) vs := by
  cases b with
  | true => exact fun es i => getElem?_shift v i
  | false => exact fun es i => by simp [Form.behind]

/-- Direct handles run alike, whether they have a barrier or not. -/
theorem Mirrors.invokeHandle_direct (hhost : host.Discreet M) (hre : re.Mirrored M)
    (hdepth : M.lockstep → depth' = depth) (hrun : ∀ d d', depth = d + 1 → depth' = d' + 1 →
      RunsAlike M (Exec.runForm host re d) (Exec.runForm host re d'))
    (hw : World.Mirrors M κ w w') (hh : h.Twins κ h') (hstep : M.lockstep → h.Mirrors κ h')
    (hd : h.data = .direct i m) (hd' : h'.data = .direct j m)
    (hargs : Value.MirrorAll κ args args') :
    Mirrors M κ w w' (Exec.invokeHandle (Exec.runForm host re depth) h args)
      (Exec.invokeHandle (Exec.runForm host re depth') h' args') Value.Mirrors := by
  have hdrops := hh.direct i m hd
  obtain ⟨idf, hf⟩ := (hw.tame.sound.fits_currentForm hh.sane.proper).direct_eq hd
  obtain ⟨idf', hf'⟩ := (hw.tame'.sound.fits_currentForm hh.sane'.proper).direct_eq hd'
  rw [← hh.basic] at hf'
  obtain ⟨link, hlink, -⟩ := Form.direct_eq_ok hf
  obtain ⟨g, hg⟩ := Form.direct_ok false hlink 0
  obtain ⟨harity, hnames⟩ := Form.names_direct hf hlink
  obtain ⟨harity', hnames'⟩ := Form.names_direct hf' hlink
  -- Barriers differ only if the class is initialized and the handles are not level.
  have hne : (w.currentForm h).kind.hasBarrier ≠ (w'.currentForm h').kind.hasBarrier →
      κ.ready m.cls ∧ ¬ κ.level h.id h'.id ∧ ¬ M.lockstep := fun hne => by
    have hlevel : ¬ κ.level h.id h'.id := fun hlevel =>
      hne (hw.hasBarrier_of_level hd hd' (hdrops.level hlevel).1 (hdrops.level hlevel).2 hlevel)
    exact ⟨hw.ready_currentForm hd hd' hdrops.ready hne, hlevel, fun hyes =>
      hlevel (hw.level_of_same hyes ((hstep hyes).same i m hd))⟩
  have hinvoked : Mirrors M κ w w'
      (Exec.withFrame ⟨[w.currentForm h], []⟩
        (Exec.runForm host re depth (w.currentForm h) (.handle h :: args)))
      (Exec.withFrame ⟨[w'.currentForm h'], []⟩
        (Exec.runForm host re depth' (w'.currentForm h') (.handle h' :: args'))) Value.Mirrors := by
    refine withFrame (runForm (hw.withFrames _ _) hdepth (harity.trans harity'.symm)
      (congrArg (· + 1) hargs.length_eq) fun d d' hdepth hdepth' hfits => ?_)
    have hlength : (Value.handle h :: args).length = h.type.basic.arity + 1 := hfits.trans harity
    have hlength' : (Value.handle h' :: args').length = h.type.basic.arity + 1 :=
      (congrArg (· + 1) hargs.length_eq).symm.trans hlength
    rw [hnames, hnames', remainder_direct, remainder_direct]
    refine (passStep hhost hre (hw.withFrames _ _) hdrops hh.sane hh.sane' hd hd' hne).bind
      fun κ₁ w₁ w₁' u u' hreach _ => ?_
    have hfollows := follows_behind (.handle h :: args) (w.currentForm h).kind.hasBarrier u
    have hfollows' := follows_behind (.handle h' :: args') (w'.currentForm h').kind.hasBarrier u'
    rw [hlength] at hfollows
    rw [hlength'] at hfollows'
    exact remainder hhost hre (hrun d d' hdepth hdepth') hreach.worlds rfl
      (fun n hn => Form.alike_dispatchExprs (Nat.succ_pos _) hd (hh.data.mono hreach.le) hn)
      (hargs.mono hreach.le) hfollows hfollows' (Form.result_behind hf hg)
        (Form.result_behind hf' hg)
      fun r hr => Form.result_direct_pos hg hr
  exact hinvoked.of_eq (fun _ => rfl) fun _ => rfl

/-- Handles that dispatch to no member run alike if what they call does. -/
theorem Mirrors.invokeHandle_plain (hhost : host.Discreet M) (hre : re.Mirrored M)
    (hdepth : M.lockstep → depth' = depth) (hrun : ∀ d d', depth = d + 1 → depth' = d' + 1 →
      RunsAlike M (Exec.runForm host re d) (Exec.runForm host re d'))
    (hw : World.Mirrors M κ w w') (hh : h.Twins κ h') (hplain : h.member? = none)
    (hplain' : h'.member? = none) (hargs : Value.MirrorAll κ args args') :
    Mirrors M κ w w' (Exec.invokeHandle (Exec.runForm host re depth) h args)
      (Exec.invokeHandle (Exec.runForm host re depth') h' args') Value.Mirrors := by
  have hinvoked : Mirrors M κ w w'
      (Exec.withFrame ⟨[h.form], []⟩ (Exec.runForm host re depth h.form (.handle h :: args)))
      (Exec.withFrame ⟨[h'.form], []⟩ (Exec.runForm host re depth' h'.form (.handle h' :: args')))
      Value.Mirrors :=
    withFrame (runForm_matching hhost hre hdepth hrun (hw.withFrames _ _) (hh.form hplain)
      (fun _ hr => hh.sane.proper.result_pos hplain hr)
      (fun _ hn => hh.sane.proper.alike hh.sane.readsOwn hplain hh.data hn) hargs)
  refine hinvoked.of_eq (fun fuel => ?_) fun fuel => ?_
  · rw [← World.currentForm_of_plain (w := w) hplain]
    rfl
  · rw [← World.currentForm_of_plain (w := w') hplain']
    rfl

theorem Mirrors.invokeHandle (hhost : host.Discreet M) (hre : re.Mirrored M)
    (hdepth : M.lockstep → depth' = depth) (hrun : ∀ d d', depth = d + 1 → depth' = d' + 1 →
      RunsAlike M (Exec.runForm host re d) (Exec.runForm host re d')) :
    RunsAlike M (Exec.runForm host re depth) (Exec.runForm host re depth') := by
  intro κ w w' h h' args args' hw hh hstep hargs
  have hdata := hh.data
  generalize hd : h.data = data at hdata
  generalize hd' : h'.data = data' at hdata
  cases hdata with
  | simple | bound =>
    exact invokeHandle_plain hhost hre hdepth hrun hw hh (by simp [HandleOf.member?, hd])
      (by simp [HandleOf.member?, hd']) hargs
  | direct => exact invokeHandle_direct hhost hre hdepth hrun hw hh hstep hd hd' hargs

/-- Twins run alike, whatever the limits are. In lockstep the limits have to be the same. -/
theorem runsAlike (hhost : host.Discreet M) (hre : re.Mirrored M) {depth depth' : Nat}
    (hdepth : M.lockstep → depth' = depth) :
    RunsAlike M (runForm host re depth) (runForm host re depth') := by
  -- What a form calls runs one level deeper.
  induction depth generalizing depth' with
  | zero =>
    exact Mirrors.invokeHandle hhost hre hdepth fun _ _ hd => absurd hd (Nat.succ_ne_zero _).symm
  | succ depth ih =>
    refine Mirrors.invokeHandle hhost hre hdepth fun d d' hd hd' => ?_
    obtain rfl := Nat.succ.inj hd
    exact ih fun hstep => Nat.succ.inj (hd'.symm.trans (hdepth hstep))

end Exec

end HandleForms
