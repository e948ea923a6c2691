import HandleForms.Proofs.Mirror.Barrier
import HandleForms.Proofs.Run.Remainder

/-!
# Runs in worlds that mirror each other

Runs of matching forms over mirrored values come to the same end, whatever their limits are, unless
one of them hits a limit (`Exec.Mirrors`). If they go in lockstep they hit it together. What a form
asks of its own handle is the same on both sides, and what it asks of others are calls: so a run
mirrors another one as soon as the calls of handles do (`Exec.Mirrors.remainder`).
-/

namespace HandleForms

variable {σ α β γ δ : Type}

/-- The outcome says nothing of the computation: it was cut off, or it hit a limit on its own. -/
def Outcome.Barred (lockstep : Prop) (o : Outcome α) : Prop :=
  Outcome.Cut o ∨ ¬ lockstep ∧ o.Limited

namespace Exec

variable {host : Host σ} {M : host.Mirroring} {κ κ' : Pairing} {w w' : World σ}

/-- The computations end in the same way with any fuel, unless one of them is barred. In lockstep
they start with the same fuel and leave the same. -/
def Mirrors (M : host.Mirroring) (κ : Pairing) (w w' : World σ) (x : Exec σ α) (x' : Exec σ β)
    (Q : Pairing → α → β → Prop) : Prop :=
  ∀ fuel fuel', (M.lockstep → fuel' = fuel) → Outcome.Barred M.lockstep (x ⟨w, fuel, none⟩).1 ∨
    Outcome.Barred M.lockstep (x' ⟨w', fuel', none⟩).1 ∨
    ∃ κ' o o' v v' rest rest', x ⟨w, fuel, none⟩ = (o, ⟨v, rest, none⟩) ∧
      x' ⟨w', fuel', none⟩ = (o', ⟨v', rest', none⟩) ∧ (M.lockstep → rest' = rest) ∧
      World.Reach M κ κ' w w' v v' ∧ Outcome.Mirrors (Q κ') o o'

/-- What starts with a barred computation is barred. -/
theorem barred_bind {lockstep : Prop} {x : Exec σ α} {k : α → Exec σ β} {e : Execution σ}
    (h : Outcome.Barred lockstep (x e).1) : Outcome.Barred lockstep ((x >>= k) e).1 := by
  rw [bind_apply]
  rcases h with h | ⟨hstep, h | h⟩ <;> rw [h]
  · exact .inl rfl
  · exact .inr ⟨hstep, .inl rfl⟩
  · exact .inr ⟨hstep, .inr rfl⟩

namespace Mirrors

variable {x : Exec σ α} {x' : Exec σ β} {Q : Pairing → α → β → Prop} {k : α → Exec σ γ}
  {k' : β → Exec σ δ} {R : Pairing → γ → δ → Prop}

theorem imp {Q' : Pairing → α → β → Prop} (h : Mirrors M κ w w' x x' Q)
    (himp : ∀ κ', κ ≤ κ' → ∀ a b, Q κ' a b → Q' κ' a b) : Mirrors M κ w w' x x' Q' := by
  intro fuel fuel' hfuel
  refine (h fuel fuel' hfuel).imp_right (.imp_right ?_)
  rintro ⟨κ', o, o', v, v', rest, rest', hx, hx', hrest, hreach, ho⟩
  exact ⟨κ', o, o', v, v', rest, rest', hx, hx', hrest, hreach, ho.imp (himp κ' hreach.le)⟩

/-- What the computations do in these worlds is what matters. -/
theorem of_eq {y : Exec σ α} {y' : Exec σ β} (h : Mirrors M κ w w' y y' Q)
    (hx : ∀ fuel, x ⟨w, fuel, none⟩ = y ⟨w, fuel, none⟩)
    (hx' : ∀ fuel, x' ⟨w', fuel, none⟩ = y' ⟨w', fuel, none⟩) : Mirrors M κ w w' x x' Q := by
  intro fuel fuel' hfuel
  rw [hx, hx']
  exact h fuel fuel' hfuel

theorem act {y : Act σ α} {y' : Act σ β} (h : Act.Mirrors M κ w w' y y' Q) :
    Mirrors M κ w w' (Exec.act y) (Exec.act y') Q := by
  intro fuel fuel' hfuel
  rcases h with hcut | hcut | ⟨κ', hreach, ho⟩
  · exact .inl (.inl hcut)
  · exact .inr (.inl (.inl hcut))
  · exact .inr (.inr ⟨κ', _, _, _, _, _, _, rfl, rfl, hfuel, hreach, ho⟩)

theorem ofStop {r : Except (Stop RuntimeError) α} {r' : Except (Stop RuntimeError) β}
    (h : World.Mirrors M κ w w') (hr : Outcome.Mirrors (Q κ) r r') :
    Mirrors M κ w w' (Exec.act (Act.ofStop r)) (Exec.act (Act.ofStop r')) Q :=
  act (.ofStop h hr)

theorem pure {a : α} {b : β} (h : World.Mirrors M κ w w') (hab : Q κ a b) :
    Mirrors M κ w w' (Pure.pure a) (Pure.pure b) Q :=
  act (.pure h hab)

theorem throw (h : World.Mirrors M κ w w') (stop : Stop RuntimeError) :
    Mirrors M κ w w' (MonadExcept.throw stop) (MonadExcept.throw stop) Q :=
  act (.throw h stop)

theorem bind (hx : Mirrors M κ w w' x x' Q)
    (hk : ∀ κ' v v' a b, World.Reach M κ κ' w w' v v' → Q κ' a b →
      Mirrors M κ' v v' (k a) (k' b) R) : Mirrors M κ w w' (x >>= k) (x' >>= k') R := by
  intro fuel fuel' hfuel
  rcases hx fuel fuel' hfuel with
    hbarred | hbarred | ⟨κ', o, o', v, v', rest, rest', hx, hx', hrest, hreach, ho⟩
  · exact .inl (barred_bind hbarred)
  · exact .inr (.inl (barred_bind hbarred))
  rw [bind_apply, bind_apply, hx, hx']
  cases ho with
  | stop hs => exact .inr (.inr ⟨κ', _, _, _, _, _, _, rfl, rfl, hrest, hreach, .stop hs⟩)
  | ok hab =>
    refine (hk κ' v v' _ _ hreach hab rest rest' hrest).imp_right (.imp_right ?_)
    rintro ⟨κ'', o, o', u, u', last, last', hk, hk', hlast, hreach', ho⟩
    exact ⟨κ'', o, o', u, u', last, last', hk, hk', hlast, hreach.trans hreach', ho⟩

/-- What is barred mirrors everything. -/
theorem of_limited (hstep : ¬ M.lockstep) {e : RuntimeError}
    (h : Outcome.Limited (.error (.error e) : Outcome α)) :
    Mirrors M κ w w' (Exec.fail e) x' Q := fun _ _ _ => .inl (.inr ⟨hstep, h⟩)

theorem of_limited_right (hstep : ¬ M.lockstep) {e : RuntimeError}
    (h : Outcome.Limited (.error (.error e) : Outcome β)) :
    Mirrors M κ w w' x (Exec.fail e) Q := fun _ _ _ => .inr (.inl (.inr ⟨hstep, h⟩))

/-- Computations that come to an end with enough fuel. -/
theorem ends {o : Outcome α} {o' : Outcome β} {v v' : World σ} (h : Mirrors M κ w w' x x' Q)
    (hstep : ¬ M.lockstep) (hx : x.Ends w o v) (hx' : x'.Ends w' o' v')
    (ho : ¬ Outcome.Barred M.lockstep o) (ho' : ¬ Outcome.Barred M.lockstep o') :
    ∃ κ', World.Reach M κ κ' w w' v v' ∧ Outcome.Mirrors (Q κ') o o' := by
  obtain ⟨cost, hx⟩ := hx
  obtain ⟨cost', hx'⟩ := hx'
  -- Out of lockstep each side may start with just the fuel that it needs.
  rcases h (cost + 0) (cost' + 0) (fun hyes => absurd hyes hstep) with
    hno | hno | ⟨κ', _, _, _, _, _, _, hrun, hrun', -, hreach, hends⟩
  · rw [hx] at hno
    exact absurd hno ho
  · rw [hx'] at hno
    exact absurd hno ho'
  · obtain ⟨rfl, hstate⟩ := Prod.mk.inj (hrun.symm.trans (hx 0))
    obtain ⟨rfl, hstate'⟩ := Prod.mk.inj (hrun'.symm.trans (hx' 0))
    obtain rfl := congrArg Execution.world hstate
    obtain rfl := congrArg Execution.world hstate'
    exact ⟨κ', hreach, hends⟩

/-- Both pay for an expression. -/
theorem pay (hw : World.Mirrors M κ w w') (h : Mirrors M κ w w' x x' Q) :
    Mirrors M κ w w' (consumeFuel >>= fun _ => x) (consumeFuel >>= fun _ => x') Q := by
  intro fuel fuel' hfuel
  rw [bind_apply, bind_apply, consumeFuel_apply, consumeFuel_apply]
  -- Without fuel both sides fail alike in lockstep, and out of it the run is barred.
  cases fuel with
  | zero =>
    by_cases hstep : M.lockstep
    · obtain rfl := hfuel hstep
      exact .inr (.inr ⟨κ, _, _, _, _, _, _, rfl, rfl, fun _ => rfl, .refl hw, .stop rfl⟩)
    · exact .inl (.inr ⟨hstep, .inl rfl⟩)
  | succ fuel =>
    cases fuel' with
    | zero => exact .inr (.inl (.inr ⟨fun hstep => absurd (hfuel hstep) nofun, .inl rfl⟩))
    | succ fuel' => exact h fuel fuel' fun hstep => Nat.succ.inj (hfuel hstep)

/-! ## What one side does alone -/

theorem pay_left (hstep : ¬ M.lockstep) (h : Mirrors M κ w w' x x' Q) :
    Mirrors M κ w w' (consumeFuel >>= fun _ => x) x' Q := by
  intro fuel fuel' _
  rw [bind_apply, consumeFuel_apply]
  cases fuel with
  | zero => exact .inl (.inr ⟨hstep, .inl rfl⟩)
  | succ fuel => exact h fuel fuel' fun hyes => absurd hyes hstep

theorem pay_right (hstep : ¬ M.lockstep) (h : Mirrors M κ w w' x x' Q) :
    Mirrors M κ w w' x (consumeFuel >>= fun _ => x') Q := by
  intro fuel fuel' _
  rw [bind_apply (consumeFuel : Exec σ Unit), consumeFuel_apply]
  cases fuel' with
  | zero => exact .inr (.inl (.inr ⟨hstep, .inl rfl⟩))
  | succ fuel' => exact h fuel fuel' fun hyes => absurd hyes hstep

theorem silent_left {s : Exec σ Unit} (hs : Silent s) (h : Mirrors M κ w w' x x' Q) :
    Mirrors M κ w w' (s >>= fun _ => x) x' Q :=
  h.of_eq (fun fuel => by rw [bind_apply, hs]) fun _ => rfl

theorem silent_right {s : Exec σ Unit} (hs : Silent s) (h : Mirrors M κ w w' x x' Q) :
    Mirrors M κ w w' x (s >>= fun _ => x') Q :=
  h.of_eq (fun _ => rfl) fun fuel => by rw [bind_apply, hs]

/-- The answer of one side is shown. -/
theorem shown_left {s : α → Exec σ Unit} (hs : ∀ a, Silent (s a)) (h : Mirrors M κ w w' x x' Q) :
    Mirrors M κ w w' (x >>= fun a => s a >>= fun _ => Pure.pure a) x' Q := by
  have hbind :
      Mirrors M κ w w' (x >>= fun a => s a >>= fun _ => Pure.pure a) (x' >>= Pure.pure) Q :=
    h.bind fun _ _ _ a _ hreach hab => silent_left (hs a) (pure hreach.worlds hab)
  rwa [bind_pure] at hbind

theorem shown_right {s : β → Exec σ Unit} (hs : ∀ b, Silent (s b)) (h : Mirrors M κ w w' x x' Q) :
    Mirrors M κ w w' x (x' >>= fun b => s b >>= fun _ => Pure.pure b) Q := by
  have hbind :
      Mirrors M κ w w' (x >>= Pure.pure) (x' >>= fun b => s b >>= fun _ => Pure.pure b) Q :=
    h.bind fun _ _ _ _ b hreach hab => silent_right (hs b) (pure hreach.worlds hab)
  rwa [bind_pure] at hbind

theorem withFrame_left {F : Frame} (h : Mirrors M κ (w.withFrames (F :: w.frames)) w' x x' Q) :
    Mirrors M κ w w' (Exec.withFrame F x) x' Q := by
  intro fuel fuel' hfuel
  refine (h fuel fuel' hfuel).imp id (.imp_right ?_)
  rintro ⟨κ', o, o', v, v', rest, rest', hx, hx', hrest, hreach, ho⟩
  refine ⟨κ', o, o', v.withFrames w.frames, v', rest, rest', ?_, hx', hrest, hreach.withFrames, ho⟩
  rw [withFrame_apply]
  dsimp only
  rw [hx]

theorem withFrame_right {F : Frame} (h : Mirrors M κ w (w'.withFrames (F :: w'.frames)) x x' Q) :
    Mirrors M κ w w' x (Exec.withFrame F x') Q := by
  intro fuel fuel' hfuel
  refine (h fuel fuel' hfuel).imp id (.imp id ?_)
  rintro ⟨κ', o, o', v, v', rest, rest', hx, hx', hrest, hreach, ho⟩
  refine ⟨κ', o, o', v, v'.withFrames w'.frames, rest, rest', hx, ?_, hrest, hreach.withFrames, ho⟩
  rw [withFrame_apply]
  dsimp only
  rw [hx']

theorem withFrame {F F' : Frame} (h : Mirrors M κ (w.withFrames (F :: w.frames))
      (w'.withFrames (F' :: w'.frames)) x x' Q) :
    Mirrors M κ w w' (Exec.withFrame F x) (Exec.withFrame F' x') Q :=
  withFrame_left (withFrame_right h)

end Mirrors

end Exec

/-! ## Handles that run alike -/

/-- The direct handles drop their barriers together, or nobody can tell. -/
structure HandleOf.DropsAlike (κ : Pairing) (h h' : Handle) (m : Member) : Prop where
  lt : h.id < κ.left
  lt' : h'.id < κ.right
  ready : h.form.kind.hasBarrier ≠ h'.form.kind.hasBarrier → κ.ready m.cls
  level : κ.level h.id h'.id → h.type = h'.type ∧ h.form.kind.hasBarrier = h'.form.kind.hasBarrier
  right_unique : ∀ j, κ.level h.id j → j = h'.id
  left_unique : ∀ i, κ.level i h'.id → i = h.id

/-- The handles hold the same and have forms that match, so that it makes no difference which of
them is run. Other than mirrored handles they need not stand for each other. -/
structure HandleOf.Twins (κ : Pairing) (h h' : Handle) : Prop where
  basic : h.type.basic = h'.type.basic
  data : h.data.Mirrors κ (Value.Mirrors κ) h'.data
  form : h.member? = none → h.form.Matches h'.form
  direct : ∀ i m, h.data = .direct i m → h.DropsAlike κ h' m
  sane : h.Sane
  sane' : h'.Sane

namespace HandleOf

variable {κ κ' : Pairing} {h h' : Handle} {m : Member}

theorem DropsAlike.mono (hh : h.DropsAlike κ h' m) (hκ : κ ≤ κ') : h.DropsAlike κ' h' m := by
  -- Identities that were given out do not become level with later ones.
  have hold : ∀ {i j}, κ'.level i j → i < κ.left ∨ j < κ.right → κ.level i j := fun hij hlt =>
    (hκ.fresh hij).resolve_right fun hfresh => by omega
  have hleft := hκ.left
  have hright := hκ.right
  exact {
    lt := Nat.lt_of_lt_of_le hh.lt hleft
    lt' := Nat.lt_of_lt_of_le hh.lt' hright
    ready := fun hne => hκ.ready (hh.ready hne)
    level := fun hij => hh.level (hold hij (.inl hh.lt))
    right_unique := fun j hij => hh.right_unique j (hold hij (.inl hh.lt))
    left_unique := fun i hij => hh.left_unique i (hold hij (.inr hh.lt')) }

theorem Twins.mono (hh : h.Twins κ h') (hκ : κ ≤ κ') : h.Twins κ' h' :=
  { hh with
    data := hh.data.mono hκ
    direct := fun i m hdata => (hh.direct i m hdata).mono hκ }

/-- Mirrored handles are twins. -/
theorem Mirrors.twins (hh : h.Mirrors κ h') (hsane : h.Sane) (hsane' : h'.Sane) : h.Twins κ h' where
  basic := by rw [hh.type]
  data := hh.data
  form := hh.form
  direct i m hdata := by
    have hsame := hh.same i m hdata
    exact {
      lt := (κ.lt hsame).1
      lt' := (κ.lt hsame).2
      ready := hh.ready i m hdata
      level := fun hlevel => ⟨hh.type, hh.level i m hdata hlevel⟩
      right_unique := fun j hij => κ.right_unique (κ.same_of_level hij) hsame
      left_unique := fun i hij => κ.left_unique (κ.same_of_level hij) hsame }
  sane := hsane
  sane' := hsane'

end HandleOf

/-! ## Functions -/

/-- The function asks no handle for what it holds, and runs no other form in place. -/
def Function.Outward : Function Form → Prop
  | .intrinsic (.boundField _ _) | .form _ => False
  | .intrinsic op => op.reachesMember = false ∨ ∃ kind type, op = .linkTo kind type
  | .external _ _ => True

/-- Only reads of fields mention an object. -/
theorem Function.eq_of_plain {f f' : Function Form} (hf : ∀ s i, f ≠ .intrinsic (.boundField s i))
    (hplain : f.plain = f'.plain) : f' = f := by
  have hself : f.plain = f := by
    rcases f with op | _ | _
    · cases op <;> first | rfl | exact absurd rfl (hf _ _)
    · rfl
    · rfl
  have hself' : f'.plain = f' := by
    rcases f' with op' | _ | _
    · cases op' <;> try rfl
      exact absurd (hself.symm.trans hplain) (hf _ _)
    · rfl
    · rfl
  rw [← hself, hplain, hself']

theorem Function.Outward.eq {f f' : Function Form} (hf : f.Outward) (hplain : f.plain = f'.plain) :
    f' = f :=
  eq_of_plain (fun _ _ heq => by rw [heq] at hf; exact hf) hplain

/-- Reads of the same field of species with the same layout. -/
theorem Function.exists_of_plain_boundField {f : Function Form} {s : Species} {i : Nat}
    (hplain : (Function.intrinsic (.boundField s i) : Function Form).plain = f.plain) :
    ∃ t : Species, t.fields = s.fields ∧ f = .intrinsic (.boundField t i) := by
  rcases f with op | _ | _
  · cases op with
    | boundField t j =>
      have hsame := Intrinsic.boundField.inj (Function.intrinsic.inj hplain)
      exact ⟨t, (congrArg Species.fields hsame.1).symm, by rw [hsame.2]⟩
    | _ => cases hplain
  · cases hplain
  · cases hplain

/-- The intrinsic answers what a handle holds. -/
inductive Intrinsic.Reads : Intrinsic → HandleData Value → Prop
  | boundField {s t : Species} {values : List Value} (i : Nat) (hfields : s.fields = t.fields) :
      Reads (.boundField s i) (.bound t values)
  | internalMemberName {id : Nat} {m : Member} : Reads .internalMemberName (.direct id m)
  | constructorMember {id : Nat} {m : Member} : Reads .constructorMember (.direct id m)
  | allocateInstance {id : Nat} {m : Member} : Reads .allocateInstance (.direct id m)

/-- The name does the same over the values `u` and `u'` of parameter 0: it leaves them alone unless
they are mirrored, or asks them for what they hold. -/
def Name.Alike (κ : Pairing) (u u' : Value) (n : Name Form) : Prop :=
  ∀ e, n.expr = some e → e.function.Outward ∧ (.name 0 ∈ e.args → u.Mirrors κ u') ∨
    ∃ (op : Intrinsic) (h h' : Handle), e = ⟨.intrinsic op, [.name 0]⟩ ∧
      u = .handle h ∧ u' = .handle h' ∧ op.Reads h.data ∧ h.data.Mirrors κ (Value.Mirrors κ) h'.data

theorem Name.Alike.mono {κ κ' : Pairing} {u u' : Value} {n : Name Form} (hn : n.Alike κ u u')
    (hκ : κ ≤ κ') : n.Alike κ' u u' := by
  intro e he
  rcases hn e he with ⟨houtward, hu⟩ | ⟨op, h, h', hexpr, hu, hu', hop, hdata⟩
  · exact .inl ⟨houtward, fun hzero => (hu hzero).mono hκ⟩
  · exact .inr ⟨op, h, h', hexpr, hu, hu', hop, hdata.mono hκ⟩

namespace Exec

variable {host : Host σ} {M : host.Mirroring} {κ κ' : Pairing} {w w' : World σ} {re : Reentry σ}
  {run run' : Runner σ} {vs vs' args args' : List Value} {h h' : Handle} {v v' : Value}

/-- Runs of twins come to the same. In lockstep the twins have to be mirrored. -/
def RunsAlike (M : host.Mirroring) (run run' : Runner σ) : Prop :=
  ∀ {κ : Pairing} {w w' : World σ} {h h' : Handle} {args args' : List Value},
    World.Mirrors M κ w w' →
    h.Twins κ h' → (M.lockstep → h.Mirrors κ h') → Value.MirrorAll κ args args' →
      Mirrors M κ w w' (invokeHandle run h args) (invokeHandle run' h' args') Value.Mirrors

theorem mirrors_valueAt (hvs : Value.MirrorAll κ vs vs') (i : Nat) :
    Answer.Mirrors (Value.Mirrors κ) (valueAt vs i) (valueAt vs' i) := by
  unfold valueAt
  rcases hvs.getElem? i with ⟨hv, hv'⟩ | ⟨v, v', hv, hv', hvv⟩ <;> rw [hv, hv']
  · exact .error _
  · exact .ok hvv

theorem directMember_eq {id : Nat} {m : Member} (hdata : h.data = .direct id m) :
    (directMember (.handle h) : Exec σ (Nat × Member)) = pure (id, m) := by
  obtain ⟨handleId, type, form, data⟩ := h
  obtain rfl : data = .direct id m := hdata
  rfl

namespace Mirrors

theorem ofViolation {Q : Pairing → α → β → Prop} {r : Except Violation α} {r' : Except Violation β}
    (hw : World.Mirrors M κ w w') (hr : Answer.Mirrors (Q κ) r r') :
    Mirrors M κ w w' (Exec.act (Act.ofViolation r)) (Exec.act (Act.ofViolation r')) Q := by
  cases hr with
  | ok h => exact ofStop hw (.ok h)
  | error e => exact ofStop hw (.stop rfl)

theorem valueAt (hw : World.Mirrors M κ w w') (hvs : Value.MirrorAll κ vs vs') (i : Nat) :
    Mirrors M κ w w' (Exec.act (Act.ofViolation (Exec.valueAt vs i)))
      (Exec.act (Act.ofViolation (Exec.valueAt vs' i))) Value.Mirrors :=
  ofViolation hw (mirrors_valueAt hvs i)

theorem ofAnswer {Q : Pairing → α → β → Prop} {r : Except RuntimeError α}
    {r' : Except RuntimeError β} (hw : World.Mirrors M κ w w') (hr : Answer.Mirrors (Q κ) r r') :
    Mirrors M κ w w' (Exec.act (Act.ofError r)) (Exec.act (Act.ofError r')) Q := by
  cases hr with
  | ok h => exact ofStop hw (.ok h)
  | error e => exact ofStop hw (.stop rfl)

/-- An answer that needs no identity. -/
theorem ofError (hw : World.Mirrors M κ w w') (r : Except RuntimeError α) :
    Mirrors M κ w w' (Exec.act (Act.ofError r)) (Exec.act (Act.ofError r)) fun _ => Eq :=
  act (.ofError hw r)

theorem asHandle (hw : World.Mirrors M κ w w') (hv : v.Mirrors κ v') :
    Mirrors M κ w w' (Exec.act (Act.ofError v.asHandle)) (Exec.act (Act.ofError v'.asHandle))
      fun κ' h h' => (Value.handle h).Mirrors κ' (.handle h') := by
  rcases hv.asHandle with ⟨e, he, he'⟩ | ⟨h, h', rfl, rfl, -⟩
  · rw [he, he']
    exact ofAnswer hw (.error e)
  · exact ofAnswer hw (.ok hv)

theorem callHost (hre : re.Mirrored M) (hw : World.Mirrors M κ w w') {call call' : HostCall}
    (hcall : call.Mirrors κ call') {code code' : Script σ RuntimeError Value}
    (hcode : Script.Mirrors M (fun κ' => Answer.Mirrors (Value.Mirrors κ')) κ
      w.host w'.host code code') :
    Mirrors M κ w w' (Exec.callHost host re call args code)
      (Exec.callHost host re call' args' code')
      Value.Mirrors := by
  refine act ((Act.Mirrors.callHost hre hw hcall hcode _ _).bind fun κ' v v' r r' hreach hr => ?_)
  cases hr with
  | ok h => exact .ofStop hreach.worlds (.ok h)
  | error e => exact .ofStop hreach.worlds (.stop rfl)

end Mirrors

/-! ### Arrays -/

theorem mirrors_checkSpreadLength (hv : v.Mirrors κ v') (expected : Nat) :
    Answer.Mirrors (Value.Mirrors κ) (checkSpreadLength v expected)
      (checkSpreadLength v' expected) := by
  cases hv with
  | @literal v hv =>
    cases v with
    | null =>
      unfold checkSpreadLength
      dsimp only
      split
      · exact .ok (.literal rfl)
      · exact .error _
    | _ => first | exact .error _ | cases hv
  | array hij hvs =>
    unfold checkSpreadLength
    dsimp only
    rw [← hvs.length_eq]
    split
    · exact .ok (.literal rfl)
    · exact .error _
  | handle | member | object => exact .error _

theorem mirrors_element (hvs : Value.MirrorAll κ vs vs') (index : Int) :
    Answer.Mirrors (Value.Mirrors κ) (Value.element vs index) (Value.element vs' index) := by
  unfold Value.element
  rw [← hvs.length_eq]
  by_cases hneg : index < 0
  · rw [if_pos hneg, if_pos hneg]
    exact .error _
  · rw [if_neg hneg, if_neg hneg]
    rcases hvs.getElem? index.toNat with ⟨hv, hv'⟩ | ⟨v, v', hv, hv', hvv⟩ <;> rw [hv, hv']
    · exact .error _
    · exact .ok hvv

theorem mirrors_arrayLoad (hv : v.Mirrors κ v') (index : Int) :
    Answer.Mirrors (Value.Mirrors κ) (arrayLoad v index) (arrayLoad v' index) := by
  cases hv with
  | @literal v hv => cases v <;> first | exact .error _ | cases hv
  | array hij hvs => exact mirrors_element hvs index
  | handle | member | object => exact .error _

theorem mirrors_asMember (hv : v.Mirrors κ v') :
    Answer.Mirrors (fun p p' => κ.same p.1 p'.1 ∧ p.2 = p'.2) v.asMember v'.asMember := by
  cases hv with
  | @literal v hv => cases v <;> first | exact .error _ | cases hv
  | member hij => exact .ok ⟨hij, rfl⟩
  | array | handle | object => exact .error _

namespace Mirrors

/-! ### Intrinsics -/

theorem invokeBasic (hrun : RunsAlike M run run') (hw : World.Mirrors M κ w w')
    (hargs : Value.MirrorAll κ args args') (callee : Signature) :
    Mirrors M κ w w' (Exec.invokeBasic run callee args) (Exec.invokeBasic run' callee args')
      Value.Mirrors := by
  refine (valueAt hw hargs 0).bind fun κ₁ w₁ w₁' v v' hreach₁ hv =>
    (asHandle hreach₁.worlds hv).bind fun κ₂ w₂ w₂' h h' hreach₂ hh => ?_
  obtain ⟨hmirrors, hsane, hsane'⟩ := Value.mirrors_handle_iff.1 hh
  have htail : Value.MirrorAll κ₂ args.tail args'.tail := by
    have hlater := (hargs.mono hreach₁.le).mono hreach₂.le
    cases hlater with
    | nil => exact .nil
    | cons _ hrest => exact hrest
  rw [← hmirrors.type]
  dsimp only
  split
  · exact (throw hreach₂.worlds _).bind (Q := fun _ _ _ => False) fun _ _ _ _ _ _ hfalse =>
      hfalse.elim
  · exact hrun hreach₂.worlds (hmirrors.twins hsane hsane') (fun _ => hmirrors) htail

/-- Applying a function that looks outward. -/
theorem intrinsic (hhost : host.Discreet M) (hre : re.Mirrored M) (hrun : RunsAlike M run run')
    (hw : World.Mirrors M κ w w') (hargs : Value.MirrorAll κ args args') (op : Intrinsic)
    (hop : Function.Outward (.intrinsic op)) :
    Mirrors M κ w w' (Exec.intrinsic host re run op args) (Exec.intrinsic host re run' op args')
      Value.Mirrors := by
  cases op with
  | invokeBasic callee => exact invokeBasic hrun hw hargs callee
  | boundField species index => cases hop
  | checkSpreadLength =>
    refine (valueAt hw hargs 1).bind fun κ₁ w₁ w₁' v v' hreach₁ hv => ?_
    rw [hv.asInt]
    refine (ofError hreach₁.worlds _).bind fun κ₂ w₂ w₂' n n' hreach₂ hn => ?_
    subst hn
    refine (valueAt hreach₂.worlds ((hargs.mono hreach₁.le).mono hreach₂.le) 0).bind
      fun κ₃ w₃ w₃' v v' hreach₃ hv => ?_
    exact ofAnswer hreach₃.worlds (mirrors_checkSpreadLength hv _)
  | arrayLoad element =>
    refine (valueAt hw hargs 1).bind fun κ₁ w₁ w₁' v v' hreach₁ hv => ?_
    rw [hv.asInt]
    refine (ofError hreach₁.worlds _).bind fun κ₂ w₂ w₂' n n' hreach₂ hn => ?_
    subst hn
    refine (valueAt hreach₂.worlds ((hargs.mono hreach₁.le).mono hreach₂.le) 0).bind
      fun κ₃ w₃ w₃' v v' hreach₃ hv => ?_
    exact ofAnswer hreach₃.worlds (mirrors_arrayLoad hv _)
  | zero type => exact pure hw (Value.mirrors_zero type)
  | identity type => exact valueAt hw hargs 0
  | checkExactType =>
    refine (valueAt hw hargs 0).bind fun κ₁ w₁ w₁' v v' hreach₁ hv =>
      (asHandle hreach₁.worlds hv).bind fun κ₂ w₂ w₂' h h' hreach₂ hh =>
      (valueAt hreach₂.worlds ((hargs.mono hreach₁.le).mono hreach₂.le) 1).bind
        fun κ₃ w₃ w₃' v v' hreach₃ hv => ?_
    rw [hv.asSignature]
    refine (ofError hreach₃.worlds _).bind fun κ₄ w₄ w₄' type type' hreach₄ htype => ?_
    subst htype
    rw [← (Value.mirrors_handle_iff.1 hh).1.type]
    split
    · exact throw hreach₄.worlds _
    · exact pure hreach₄.worlds (.literal rfl)
  | checkGenericType =>
    refine (valueAt hw hargs 0).bind fun κ₁ w₁ w₁' v v' hreach₁ hv =>
      (asHandle hreach₁.worlds hv).bind fun κ₂ w₂ w₂' h h' hreach₂ hh =>
      (valueAt hreach₂.worlds ((hargs.mono hreach₁.le).mono hreach₂.le) 1).bind
        fun κ₃ w₃ w₃' v v' hreach₃ hv => ?_
    rw [hv.asSignature]
    refine (ofError hreach₃.worlds _).bind fun κ₄ w₄ w₄' type type' hreach₄ htype => ?_
    subst htype
    have hasType := Act.Mirrors.perform hreach₄.worlds
      (.asType ((hh.mono hreach₃.le).mono hreach₄.le) type)
    exact (act hasType).bind fun κ₅ w₅ w₅' B B' hreach₅ hB => pure hreach₅.worlds hB
  | linkTo kind type =>
    unfold Exec.intrinsic
    dsimp only
    rcases hargs.getLast? with ⟨hlast, hlast'⟩ | ⟨v, v', hlast, hlast', hv⟩ <;> rw [hlast, hlast']
    · exact throw hw _
    dsimp only
    have hmember : Mirrors M κ w w' (Exec.act (Act.ofError v.asMember))
        (Exec.act (Act.ofError v'.asMember)) fun κ' p p' => κ'.same p.1 p'.1 ∧ p.2 = p'.2 :=
      ofAnswer hw (mirrors_asMember hv)
    refine hmember.bind fun κ₁ w₁ w₁' p p' hreach₁ hp => ?_
    obtain ⟨i, m⟩ := p
    obtain ⟨j, m'⟩ := p'
    obtain rfl : m = m' := hp.2
    have hfront := hargs.dropLast.mono hreach₁.le
    exact callHost hre hreach₁.worlds (.member kind m hfront)
      (hhost.member _ _ _ kind m _ _ hreach₁.worlds.state hfront)
  | ensureInitialized | internalMemberName | allocateInstance | constructorMember =>
    rcases hop with hop | ⟨_, _, hop⟩ <;> cases hop

theorem apply (hhost : host.Discreet M) (hre : re.Mirrored M) (hrun : RunsAlike M run run')
    (hw : World.Mirrors M κ w w') (hargs : Value.MirrorAll κ args args') {f : Function Form}
    (hf : f.Outward) :
    Mirrors M κ w w' (Exec.apply host re run f args) (Exec.apply host re run' f args')
      Value.Mirrors := by
  cases f with
  | intrinsic op => exact intrinsic hhost hre hrun hw hargs op hf
  | external name type =>
    exact callHost hre hw (.primitive name hargs) (hhost.primitive _ _ _ name _ _ hw.state hargs)
  | form callee => exact hf.elim

/-- Direct handles are asked for their members. -/
theorem askMember {id id' : Nat} {m m' : Member} {k k' : Nat × Member → Exec σ Value}
    {Q : Pairing → Value → Value → Prop} (hd : h.data = .direct id m)
    (hd' : h'.data = .direct id' m') (hk : Mirrors M κ w w' (k (id, m)) (k' (id', m')) Q) :
    Mirrors M κ w w' (directMember (.handle h) >>= k) (directMember (.handle h') >>= k') Q := by
  rw [directMember_eq hd, directMember_eq hd', pure_bind, pure_bind]
  exact hk

/-- What the handles hold is answered alike. -/
theorem apply_reads (hhost : host.Discreet M) (hre : re.Mirrored M) (hw : World.Mirrors M κ w w')
    (hdata : h.data.Mirrors κ (Value.Mirrors κ) h'.data) {op : Intrinsic} {f' : Function Form}
    (hop : op.Reads h.data) (hplain : (Function.intrinsic op).plain = f'.plain) :
    Mirrors M κ w w' (Exec.apply host re run (.intrinsic op) [.handle h])
      (Exec.apply host re run' f' [.handle h']) Value.Mirrors := by
  generalize hd : h.data = data at hop hdata
  generalize hd' : h'.data = data' at hdata
  cases hop with
  | @boundField s t values i hfields =>
    cases hdata with
    | bound hs hvs =>
      obtain ⟨s', hs', rfl⟩ := Function.exists_of_plain_boundField hplain
      show Mirrors M κ w w' (boundField s i (.handle h)) (boundField s' i (.handle h')) _
      rw [boundField_eq hd hfields, boundField_eq hd' (hs'.trans (hfields.trans hs))]
      exact valueAt hw hvs i
  | internalMemberName | constructorMember =>
    obtain rfl := Function.eq_of_plain (by simp) hplain
    cases hdata with
    | direct hij => exact askMember hd hd' (pure hw (.member hij))
  | allocateInstance =>
    obtain rfl := Function.eq_of_plain (by simp) hplain
    cases hdata with
    | direct hij =>
      exact askMember hd hd' (callHost hre hw (.allocate _) (hhost.allocate _ _ _ _ hw.state))

end Mirrors

/-! ## What is left of a run -/

/-- What was at place `i` is at place `s i`, and what comes later as well. -/
def Follows (s : Nat → Nat) (us vs : List Value) : Prop :=
  ∀ es i, (us ++ es)[s i]? = (vs ++ es)[i]?

theorem follows_id (vs : List Value) : Follows id vs vs := fun _ _ => rfl

theorem Follows.append {s : Nat → Nat} {us : List Value} (h : Follows s us vs) (es : List Value) :
    Follows s (us ++ es) (vs ++ es) := fun es' i => by
  rw [List.append_assoc, List.append_assoc]
  exact h _ i

theorem mirrors_operands {u u' : Value} {es es' : List Value} {as : List Arg}
    (hu : .name 0 ∈ as → u.Mirrors κ u') (hes : Value.MirrorAll κ es es') :
    Answer.Mirrors (Value.MirrorAll κ) (as.mapM (operand (u :: es)))
      (as.mapM (operand (u' :: es'))) := by
  induction as with
  | nil => exact .ok .nil
  | cons a as ih =>
    have hhead : Answer.Mirrors (Value.Mirrors κ) (operand (u :: es) a)
      (operand (u' :: es') a) := by
      rcases a with (_ | i) | c
      · exact .ok (hu (.head _))
      · exact mirrors_valueAt hes i
      · exact .ok (Value.mirrors_ofConstant c)
    rw [List.mapM_cons, List.mapM_cons]
    generalize operand (u :: es) a = r at hhead
    generalize operand (u' :: es') a = r' at hhead
    cases hhead with
    | error e => exact .error e
    | ok hv =>
      have hrest := ih fun hzero => hu (.tail _ hzero)
      show Answer.Mirrors _ (as.mapM (operand (u :: es)) >>= fun vs => Pure.pure (_ :: vs))
        (as.mapM (operand (u' :: es')) >>= fun vs => Pure.pure (_ :: vs))
      generalize as.mapM (operand (u :: es)) = r at hrest
      generalize as.mapM (operand (u' :: es')) = r' at hrest
      cases hrest with
      | error e => exact .error e
      | ok hvs => exact .ok (.cons hv hvs)

variable {f f' : Form} {depth depth' : Nat} {u u' : Value} {es es' us us' : List Value}
  {s s' : Nat → Nat}

namespace Mirrors

theorem nameStep (hhost : host.Discreet M) (hre : re.Mirrored M) (hrun : RunsAlike M run run')
    (hw : World.Mirrors M κ w w') {n n' : Name Form} (hplain : n.plain = n'.plain)
    (hn : n.Alike κ u u') (hes : Value.MirrorAll κ es es') (hus : Follows s us (u :: es))
    (hus' : Follows s' us' (u' :: es')) :
    Mirrors M κ w w' (Exec.nameStep (Exec.apply host re run) f (n.mapArgs s) us)
      (Exec.nameStep (Exec.apply host re run') f' (n'.mapArgs s') us') Value.Mirrors := by
  refine pay hw ?_
  have hexpr : n.expr.map (fun e => (⟨e.function.plain, e.args⟩ : Expr Form)) =
      n'.expr.map fun e => ⟨e.function.plain, e.args⟩ := congrArg Name.expr hplain
  cases he : n.expr with
  | none =>
    rw [he] at hexpr
    have he' : n'.expr = none := Option.map_eq_none_iff.1 hexpr.symm
    simp only [Name.mapArgs, he, he', Option.map_none]
    exact throw hw _
  | some e =>
    rw [he] at hexpr
    obtain ⟨e', he', hsame⟩ := Option.map_eq_some_iff.1 hexpr.symm
    obtain ⟨function, as⟩ := e
    obtain ⟨function', as'⟩ := e'
    obtain ⟨hfunction, rfl⟩ := Expr.mk.inj hsame
    simp only [Name.mapArgs, he, he', Option.map_some]
    refine silent_left (silent_tracing _) (silent_right (silent_tracing _) ?_)
    have hfollow : ∀ {s : Nat → Nat} {us vs : List Value}, Follows s us vs →
        (as'.map (Arg.map s)).mapM (operand us) = as'.mapM (operand vs) := fun h =>
      mapM_operand_map fun i _ => by simpa using h [] i
    rw [hfollow hus, hfollow hus']
    have hshown : ∀ {κ : Pairing} {w w' : World σ} {x x' : Exec σ Value},
        Mirrors M κ w w' x x' Value.Mirrors → Mirrors M κ w w'
          (x >>= fun v => tracing (fun t => t.value v) >>= fun _ => Pure.pure v)
          (x' >>= fun v => tracing (fun t => t.value v) >>= fun _ => Pure.pure v) Value.Mirrors :=
      fun hx => (hx.shown_left fun _ => silent_tracing _).shown_right fun _ => silent_tracing _
    -- The name leaves the handles alone, or asks them for what they hold.
    rcases hn _ he with ⟨houtward, hu⟩ | ⟨op, h, h', hop, rfl, rfl, hreads, hdata⟩
    · obtain rfl := houtward.eq hfunction.symm
      have hoperands : Mirrors M κ w w'
          (Exec.act (Act.ofViolation (as'.mapM (operand (u :: es)))))
          (Exec.act (Act.ofViolation (as'.mapM (operand (u' :: es'))))) Value.MirrorAll :=
        ofViolation hw (mirrors_operands hu hes)
      refine hoperands.bind fun κ₁ w₁ w₁' args args' hreach hargs => hshown (withFrame ?_)
      exact apply hhost hre hrun (hreach.worlds.withFrames _ _) hargs houtward
    · obtain ⟨rfl, rfl⟩ := Expr.mk.inj hop
      exact hshown
        (withFrame (apply_reads hhost hre (hw.withFrames _ _) hdata hreads hfunction.symm))

/-- What is left of two runs whose names do the same. -/
theorem remainder (hhost : host.Discreet M) (hre : re.Mirrored M)
    (hrun : RunsAlike M (runForm host re depth) (runForm host re depth'))
    (hw : World.Mirrors M κ w w')
    {names names' : List (Name Form)} (hplain : names.map Name.plain = names'.map Name.plain)
    (hnames : ∀ n ∈ names, n.Alike κ u u') (hes : Value.MirrorAll κ es es')
    (hus : Follows s us (u :: es)) (hus' : Follows s' us' (u' :: es')) {result : Option Nat}
    (hresult : f.result = result.map s) (hresult' : f'.result = result.map s')
    (hpos : ∀ r, result = some r → 0 < r) :
    Mirrors M κ w w' (Exec.remainder host re depth f (names.map (Name.mapArgs s)) us)
      (Exec.remainder host re depth' f' (names'.map (Name.mapArgs s')) us') Value.Mirrors := by
  -- By induction on the names that are left. A barrier shifts the places of one side only, so the
  -- values so far follow different lists.
  induction names generalizing κ w w' names' es es' us us' with
  | nil =>
    obtain rfl : names' = [] := List.map_eq_nil_iff.1 hplain.symm
    rw [List.map_nil, List.map_nil, remainder_nil, remainder_nil]
    have hanswer : Mirrors M κ w w' (resultOf f us) (resultOf f' us') Value.Mirrors := by
      unfold resultOf
      rw [hresult, hresult']
      rcases result with _ | _ | r
      · exact pure hw (.literal rfl)
      · exact absurd (hpos 0 rfl) (Nat.lt_irrefl 0)
      · have hfollow : ∀ {s : Nat → Nat} {us vs : List Value}, Follows s us vs →
            Exec.valueAt us (s (r + 1)) = Exec.valueAt vs (r + 1) := fun {s us vs} h => by
          have hi := h [] (r + 1)
          rw [List.append_nil, List.append_nil] at hi
          rw [Exec.valueAt, hi]
          rfl
        simp only [Option.map_some, hfollow hus, hfollow hus']
        exact valueAt hw hes r
    exact (hanswer.shown_left fun _ => silent_tracing _).shown_right fun _ => silent_tracing _
  | cons n names ih =>
    obtain ⟨n', names', rfl⟩ : ∃ n' ns', names' = n' :: ns' := by
      cases names' with
      | nil => cases hplain
      | cons n' ns' => exact ⟨n', ns', rfl⟩
    obtain ⟨hhead, htail⟩ := List.cons.inj hplain
    obtain ⟨hn, hnames⟩ := List.forall_mem_cons.1 hnames
    rw [List.map_cons, List.map_cons, remainder_cons, remainder_cons]
    refine (nameStep hhost hre hrun hw hhead hn hes hus hus').bind
      fun κ₁ w₁ w₁' v v' hreach hv => ?_
    exact ih hreach.worlds htail (fun m hm => (hnames m hm).mono hreach.le)
      (Value.MirrorAll.append (hes.mono hreach.le) (.cons hv .nil)) (hus.append [v])
        (hus'.append [v'])

/-- Runs with as many arguments, unless they hit the limit at once. -/
theorem runForm (hw : World.Mirrors M κ w w') (hdepth : M.lockstep → depth' = depth)
    (harity : f.arity = f'.arity) (hlength : vs.length = vs'.length)
    (h : ∀ d d', depth = d + 1 → depth' = d' + 1 → vs.length = f.arity →
      Mirrors M κ w w' (Exec.remainder host re d f (f.names.drop f.arity) vs)
        (Exec.remainder host re d' f' (f'.names.drop f'.arity) vs') Value.Mirrors) :
    Mirrors M κ w w' (Exec.runForm host re depth f vs) (Exec.runForm host re depth' f' vs')
      Value.Mirrors := by
  -- Arguments are counted before the depth is looked at.
  by_cases hfits : vs.length = f.arity
  · have hfits' : vs'.length = f'.arity := by rw [← hlength, hfits, harity]
    cases depth with
    | zero =>
      by_cases hstep : M.lockstep
      · obtain rfl := hdepth hstep
        rw [runForm_zero host re hfits, runForm_zero host re hfits']
        exact throw hw _
      · rw [runForm_zero host re hfits]
        exact of_limited hstep (.inr rfl)
    | succ d =>
      cases depth' with
      | zero =>
        rw [runForm_zero host re hfits']
        exact of_limited_right (fun hstep => absurd (hdepth hstep) nofun) (.inr rfl)
      | succ d' =>
        exact (h d d' rfl rfl hfits).of_eq (runForm_succ host re d hfits w)
          (runForm_succ host re d' hfits' w')
  · have hfits' : vs'.length ≠ f'.arity := by rwa [← hlength, ← harity]
    rw [runForm_of_length_ne host re hfits, runForm_of_length_ne host re hfits', harity, hlength]
    exact throw hw _

/-- Runs of forms that match. -/
theorem runForm_matching (hhost : host.Discreet M) (hre : re.Mirrored M)
    (hdepth : M.lockstep → depth' = depth) (hrun : ∀ d d', depth = d + 1 → depth' = d' + 1 →
      RunsAlike M (Exec.runForm host re d) (Exec.runForm host re d'))
    (hw : World.Mirrors M κ w w') (hf : f.Matches f') (hpos : ∀ r, f.result = some r → 0 < r)
    (hnames : ∀ n ∈ f.names, n.Alike κ u u') (hes : Value.MirrorAll κ es es') :
    Mirrors M κ w w' (Exec.runForm host re depth f (u :: es))
      (Exec.runForm host re depth' f' (u' :: es')) Value.Mirrors := by
  have harity : f.plain.arity = f'.plain.arity := congrArg Form.arity hf
  have hplain : f.plain.names = f'.plain.names := congrArg Form.names hf
  have hresult : f.plain.result = f'.plain.result := congrArg Form.result hf
  rw [Form.names_plain, Form.names_plain] at hplain
  rw [Form.arity_plain, Form.arity_plain] at harity
  rw [Form.result_plain, Form.result_plain] at hresult
  refine runForm hw hdepth harity (by rw [List.length_cons, List.length_cons, hes.length_eq]) ?_
  intro d d' hd hd' _
  -- Forms that match have their names in the same places, so nothing moves.
  have hself : ∀ names : List (Name Form), names.map (Name.mapArgs id) = names := fun names =>
    List.map_id'' (fun n => Name.mapArgs_eq_self fun _ _ => rfl) names
  have hrest := @remainder σ host M κ w w' re f f' d d' u u' es es' (u :: es)
    (u' :: es') id id hhost hre
    (hrun d d' hd hd') hw (f.names.drop f.arity) (f'.names.drop f'.arity)
    (by rw [List.map_drop, List.map_drop, hplain, harity])
    (fun n hn => hnames n (List.mem_of_mem_drop hn)) hes (follows_id _) (follows_id _) f.result
    (by simp) (by simp [hresult]) hpos
  rwa [hself, hself] at hrest

end Mirrors

end Exec

/-! ## Handles without a barrier -/

/-- What reaches no member and reads no field looks outward. -/
theorem Function.ReachesNoMember.outward {f : Function Form} (hf : f.ReachesNoMember)
    (hreads : ∀ s i, f ≠ .intrinsic (.boundField s i)) : f.Outward := by
  rcases f with op | _ | _
  · cases op with
    | boundField s i => exact absurd rfl (hreads s i)
    | _ => exact .inl hf
  · trivial
  · exact hf

/-- The form of a handle that dispatches to no member does the same over handles that hold the
same. -/
theorem HandleOf.Fits.alike {κ : Pairing} {h h' : Handle} {f : Form} (hf : h.Fits f)
    (hreads : f.ReadsOwn) (hplain : h.member? = none)
    (hdata : h.data.Mirrors κ (Value.Mirrors κ) h'.data) {n : Name Form} (hn : n ∈ f.names) :
    n.Alike κ (.handle h) (.handle h') := by
  intro e he
  have hzero : ∀ {args : List Arg}, e.args = args → 0 ∉ n.operands → .name 0 ∉ args := by
    rintro args rfl hzero hmem
    exact hzero (Name.mem_operands.2 (by simpa [Name.args, he] using hmem))
  have houtward : 0 ∉ n.operands → e.function.Outward := fun hoperands =>
    (hf.plain hplain n hn e he).outward fun s i hfunction => by
      obtain ⟨function, args⟩ := e
      obtain rfl : function = _ := hfunction
      obtain rfl := hreads n hn s i args he
      exact hzero rfl hoperands (.head _)
  -- Only a form that fits a handle with values reads fields, and these are its own.
  cases hd : h.data with
  | simple =>
    have hoperands := (hf.simple hd).operands n hn
    exact .inl ⟨houtward hoperands, fun hmem => absurd hmem (hzero rfl hoperands)⟩
  | bound s values =>
    rcases (hf.bound s values hd).1.reads_or hn with ⟨i, -, -, t, hfields, hread⟩ | ⟨-, hoperands⟩
    · obtain rfl := Option.some.inj (he.symm.trans hread)
      refine .inr ⟨_, h, h', rfl, rfl, rfl, ?_, hdata⟩
      rw [hd]
      exact .boundField i hfields
    · exact .inl ⟨houtward hoperands, fun hmem => absurd hmem (hzero rfl hoperands)⟩
  | direct id m => simp [HandleOf.member?, hd] at hplain

/-- Nor does it answer its handle. -/
theorem HandleOf.Fits.result_pos {h : Handle} {f : Form} (hf : h.Fits f) (hplain : h.member? = none)
    {r : Nat} (hr : f.result = some r) : 0 < r := by
  cases hd : h.data with
  | simple => exact (hf.simple hd).result r hr
  | bound s values =>
    have hcarrier := (hf.bound s values hd).1
    exact Nat.lt_of_lt_of_le hcarrier.editable.arity_pos (hcarrier.result r hr).1
  | direct id m => simp [HandleOf.member?, hd] at hplain

end HandleForms
