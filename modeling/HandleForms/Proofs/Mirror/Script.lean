import HandleForms.Proofs.Guard.Ensure
import HandleForms.Proofs.Mirror.Adapt

/-!
# Host code in worlds that mirror each other

Host code is discreet when it does not show which identities it was given: on mirrored arguments and
in states that stand for each other it asks for the same, and whatever it is answered, it goes on
alike (`Script.Mirrors`). It may look at the form of a direct handle only if the handle was made in
both worlds, since only these drop their barriers together. Discreet code that runs in worlds that
mirror each other leads to such worlds again (`Act.Mirrors.script`).
-/

namespace HandleForms

variable {σ α β γ δ ε : Type}

/-! ## Discreet host code -/

/-- Related answers, or the same error. -/
inductive Answer.Mirrors (Q : α → β → Prop) : Except ε α → Except ε β → Prop
  | ok {a : α} {b : β} (h : Q a b) : Mirrors Q (.ok a) (.ok b)
  | error (e : ε) : Mirrors Q (.error e) (.error e)

/-- The codes ask for the same, in states that stand for each other, and go on alike whatever they
are answered. They end as `post` says. -/
inductive Script.Mirrors {host : Host σ} (M : host.Mirroring)
    (post : Pairing → Except ε α → Except ε β → Prop) :
    Pairing → σ → σ → Script σ ε α → Script σ ε β → Prop
  | done {κ s s' r r'} (h : post κ r r') : Mirrors M post κ s s' (.done r) (.done r')
  | panic {κ s s'} (text : String) : Mirrors M post κ s s' (.panic text) (.panic text)
  | getState {κ s s' next next'} (h : Mirrors M post κ s s' (next s) (next' s')) :
      Mirrors M post κ s s' (.getState next) (.getState next')
  | setState {κ s s' t t' next next'} (hlater : host.Later s t)
      (hstate : M.State (κ.withReady fun cls => host.isInitialized t cls = true) t t')
      (h : Mirrors M post (κ.withReady fun cls => host.isInitialized t cls = true)
        t t' next next') :
      Mirrors M post κ s s' (.setState t next) (.setState t' next')
  | create {κ s s' plan plan' next next'} (hplan : Blueprint.Mirrors κ plan plan')
      (h : ∀ κ' v v', κ ≤ κ' → v.Mirrors κ' v' → Mirrors M post κ' s s' (next v) (next' v')) :
      Mirrors M post κ s s' (.create plan next) (.create plan' next')
  | getField {κ s s' i j next next'} (hij : κ.same i j) (name : String)
      (h : ∀ v v', v.Mirrors κ v' → Mirrors M post κ s s' (next v) (next' v')) :
      Mirrors M post κ s s' (.getField i name next) (.getField j name next')
  | setField {κ s s' i j v v' next next'} (hij : κ.same i j) (name : String) (hv : v.Mirrors κ v')
      (h : Mirrors M post κ s s' next next') :
      Mirrors M post κ s s' (.setField i name v next) (.setField j name v' next')
  | make {κ s s' op op' next next'} (hop : HandleOp.Mirrors κ op op')
      (h : ∀ κ' r r', κ ≤ κ' →
        Answer.Mirrors (fun B B' => (Value.handle B).Mirrors κ' (.handle B')) r r' →
          Mirrors M post κ' s s' (next r) (next' r')) :
      Mirrors M post κ s s' (.make op next) (.make op' next')
  /-- A direct handle of their own. -/
  | makeDirect {κ s s' next next'} (m : Member)
      (h : ∀ κ' r r', κ ≤ κ' →
        Answer.Mirrors (fun B B' => (Value.handle B).Mirrors κ' (.handle B') ∧
        κ'.level B.id B'.id) r r' → Mirrors M post κ' s s' (next r) (next' r')) :
      Mirrors M post κ s s' (.make (.direct m) next) (.make (.direct m) next')
  | formKind {κ s s' h h' next next'} (hh : (Value.handle h).Mirrors κ (.handle h'))
      (hlevel : ∀ i m, h.data = .direct i m → κ.level h.id h'.id)
      (hk : ∀ kind, Mirrors M post κ s s' (next kind) (next' kind)) :
      Mirrors M post κ s s' (.formKind h next) (.formKind h' next')
  | invoke {κ s s' h h' vs vs' next next'} (hh : (Value.handle h).Mirrors κ (.handle h'))
      (site : CallSite) (hvs : Value.MirrorAll κ vs vs')
      (hk : ∀ κ' t t' r r', κ ≤ κ' → host.Later s t → M.State κ' t t' →
        Answer.Mirrors (Value.Mirrors κ') r r' → Mirrors M post κ' t t' (next r) (next' r')) :
      Mirrors M post κ s s' (.invoke h site vs next) (.invoke h' site vs' next')
  | ensure {κ s s' next next'} (cls : String)
      (hk : ∀ κ' t t' r, κ ≤ κ' → host.Later s t → M.State κ' t t' →
        Mirrors M post κ' t t' (next r) (next' r)) :
      Mirrors M post κ s s' (.ensure cls next) (.ensure cls next')
  | hold {κ s s' v v' next next'} (h : Mirrors M post κ s s' next next') :
      Mirrors M post κ s s' (.hold v next) (.hold v' next')
  | release {κ s s' next next'} (h : Mirrors M post κ s s' next next') :
      Mirrors M post κ s s' (.release next) (.release next')

/-- A host whose code shows no identities, and whose classes are initialized once their initializer
has succeeded. -/
structure Host.Discreet (host : Host σ) (M : host.Mirroring) : Prop where
  primitive : ∀ κ s s' name vs vs', M.State κ s s' → Value.MirrorAll κ vs vs' →
    Script.Mirrors M (fun κ' => Answer.Mirrors (Value.Mirrors κ')) κ s s' (host.primitive name vs)
      (host.primitive name vs')
  member : ∀ κ s s' kind m vs vs', M.State κ s s' → Value.MirrorAll κ vs vs' →
    Script.Mirrors M (fun κ' => Answer.Mirrors (Value.Mirrors κ')) κ s s' (host.member kind m vs)
      (host.member kind m vs')
  allocate : ∀ κ s s' cls, M.State κ s s' →
    Script.Mirrors M (fun κ' => Answer.Mirrors (Value.Mirrors κ')) κ s s' (host.allocate cls)
      (host.allocate cls)
  initializer : ∀ κ s s' cls, M.State κ s s' →
    Script.Mirrors M (fun κ' r r' => r' = r ∧ (r = .ok () → κ'.ready cls)) κ s s'
      (host.initializer cls) (host.initializer cls)

/-- Whether runs go in lockstep does not matter to host code. -/
theorem Script.Mirrors.inLockstep {host : Host σ} {M : host.Mirroring} {κ : Pairing} {s s' : σ}
    {post : Pairing → Except ε α → Except ε β → Prop} {code : Script σ ε α} {code' : Script σ ε β}
    (hcode : Mirrors M post κ s s' code code') (lockstep : Prop) :
    Mirrors (M.inLockstep lockstep) post κ s s' code code' := by
  induction hcode with
  | done h => exact .done h
  | panic text => exact .panic text
  | getState _ ih => exact .getState ih
  | setState hlater hstate _ ih => exact .setState hlater hstate ih
  | create hplan _ ih => exact .create hplan ih
  | getField hij name _ ih => exact .getField hij name ih
  | setField hij name hv _ ih => exact .setField hij name hv ih
  | make hop _ ih => exact .make hop ih
  | makeDirect m _ ih => exact .makeDirect m ih
  | formKind hh hlevel _ ih => exact .formKind hh hlevel ih
  | invoke hh site hvs _ ih => exact .invoke hh site hvs ih
  | ensure cls _ ih => exact .ensure cls ih
  | hold _ ih => exact .hold ih
  | release _ ih => exact .release ih

theorem Host.Discreet.inLockstep {host : Host σ} {M : host.Mirroring} (h : host.Discreet M)
    (lockstep : Prop) : host.Discreet (M.inLockstep lockstep) where
  primitive κ s s' name vs vs' hs hvs := (h.primitive κ s s' name vs vs' hs hvs).inLockstep _
  member κ s s' kind m vs vs' hs hvs := (h.member κ s s' kind m vs vs' hs hvs).inLockstep _
  allocate κ s s' cls hs := (h.allocate κ s s' cls hs).inLockstep _
  initializer κ s s' cls hs := (h.initializer κ s s' cls hs).inLockstep _

/-! ## Requests -/

variable {host : Host σ} {M : host.Mirroring} {κ κ' : Pairing} {w w' : World σ}

namespace World

theorem Mirrors.setHost (hw : World.Mirrors M κ w w') {t t' : σ} (hlater : host.Later w.host t)
    (hstate : M.State (κ.withReady fun cls => host.isInitialized t cls = true) t t') :
    World.Mirrors M (κ.withReady fun cls => host.isInitialized t cls = true) { w with host := t }
      { w' with host := t' } := by
  have hready : ∀ {cls}, κ.ready cls → host.isInitialized t cls = true := fun {cls} h =>
    hlater cls ((hw.ready cls).1 h)
  have hle : κ ≤ κ.withReady fun cls => host.isInitialized t cls = true := Pairing.le_withReady _
  exact { hw with
    tame := hw.tame.of_eq rfl rfl rfl rfl rfl (Nat.le_refl _)
    tame' := hw.tame'.of_eq rfl rfl rfl rfl rfl (Nat.le_refl _)
    state := hstate
    ready := fun _ => or_iff_right_of_imp hready
    swapped := fun e he => .inl (hw.swapped e he)
    swapped' := fun e he => .inl (hw.swapped' e he)
    fields := fun hij => (hw.fields hij).imp fun _ _ hf => ⟨hf.1, hf.2.mono hle⟩ }

/-! ### Values that are made -/

theorem Mirrors.newArray (hw : World.Mirrors M κ w w') (element : Ty) {vs vs' : List Value}
    (hvs : Value.MirrorAll κ vs vs') : ∃ κ', Reach M κ κ' w w' (w.newArray element vs).2
      (w'.newArray element vs').2 ∧
        (w.newArray element vs).1.Mirrors κ' (w'.newArray element vs').1 :=
  ⟨_, .step (Pairing.le_link _ _) (hw.link id) rfl rfl rfl,
    .array (.inr ⟨rfl, rfl⟩) (Value.MirrorAll.mono hvs (Pairing.le_link _ _))⟩

theorem Mirrors.newObject (hw : World.Mirrors M κ w w') (cls : String) :
    ∃ κ', Reach M κ κ' w w' (w.newObject cls).2 (w'.newObject cls).2 ∧
      (w.newObject cls).1.Mirrors κ' (w'.newObject cls).1 :=
  ⟨_, .step (Pairing.le_link _ _) (hw.link id) rfl rfl rfl, .object (.inr ⟨rfl, rfl⟩)⟩

mutual

theorem Mirrors.make {κ : Pairing} {w w' : World σ} (hw : World.Mirrors M κ w w')
    {plan plan' : Blueprint} (hplan : Blueprint.Mirrors κ plan plan') :
    ∃ κ', Reach M κ κ' w w' (World.make plan w).2 (World.make plan' w').2 ∧
      (World.make plan w).1.Mirrors κ' (World.make plan' w').1 := by
  match hplan with
  | .given hv => exact ⟨κ, .refl hw, hv⟩
  | .array hitems =>
    obtain ⟨κ₁, hreach, hvs⟩ := Mirrors.makeAll hw hitems
    obtain ⟨κ₂, hreach', hv⟩ := hreach.worlds.newArray _ hvs
    exact ⟨κ₂, hreach.trans hreach', hv⟩
  | .object cls => exact hw.newObject cls

theorem Mirrors.makeAll {κ : Pairing} {w w' : World σ} (hw : World.Mirrors M κ w w')
    {plans plans' : List Blueprint} (hplans : List.Forall₂ (Blueprint.Mirrors κ) plans plans') :
    ∃ κ', Reach M κ κ' w w' (World.makeAll plans w).2 (World.makeAll plans' w').2 ∧
      Value.MirrorAll κ' (World.makeAll plans w).1 (World.makeAll plans' w').1 := by
  match hplans with
  | .nil => exact ⟨κ, .refl hw, .nil⟩
  | .cons hplan hplans =>
    obtain ⟨κ₁, hreach, hv⟩ := Mirrors.make hw hplan
    obtain ⟨κ₂, hreach', hvs⟩ := Mirrors.makeAll hreach.worlds
      (hplans.imp fun _ _ h => Blueprint.Mirrors.mono h hreach.le)
    exact ⟨κ₂, hreach.trans hreach', .cons (hv.mono hreach'.le) hvs⟩

end

/-! ### Fields -/

theorem MirrorFields.lookup {fs fs' : List (String × Value)} (hfs : MirrorFields κ fs fs')
    (name : String) : (fs.lookup name = none ∧ fs'.lookup name = none) ∨
      ∃ v v', fs.lookup name = some v ∧ fs'.lookup name = some v' ∧ v.Mirrors κ v' := by
  induction hfs with
  | nil => exact .inl ⟨rfl, rfl⟩
  | @cons f f' fs fs' hf _ ih =>
    obtain ⟨other, v⟩ := f
    obtain ⟨other', v'⟩ := f'
    obtain ⟨rfl, hv⟩ : other = other' ∧ v.Mirrors κ v' := hf
    rw [List.lookup_cons, List.lookup_cons]
    cases name == other with
    | true => exact .inr ⟨v, v', rfl, rfl, hv⟩
    | false => exact ih

theorem Mirrors.field (hw : World.Mirrors M κ w w') {i j : Nat} (hij : κ.same i j) (name : String) :
    (w.field i name).Mirrors κ (w'.field j name) := by
  unfold World.field
  rcases MirrorFields.lookup (hw.fields hij) name with ⟨h, h'⟩ | ⟨v, v', h, h', hv⟩ <;> rw [h, h']
  · exact .literal rfl
  · exact hv

theorem fieldsOf_setField (w : World σ) (i : Nat) (name : String) (v : Value) (k : Nat) :
    (w.setField i name v).fieldsOf k =
      if k = i then (if ((w.fieldsOf i).lookup name).isSome then
        (w.fieldsOf i).map fun e => if e.1 == name then (name, v) else e
        else w.fieldsOf i ++ [(name, v)]) else w.fieldsOf k := by
  unfold setField
  by_cases hk : k = i
  · subst hk
    rw [if_pos rfl]
    simp only [fieldsOf, TypeForms.lookup_assign_self, Option.getD_some]
  · rw [if_neg hk]
    simp only [fieldsOf, TypeForms.lookup_assign_of_ne hk]

theorem Tame.setField (hw : w.Tame) {i : Nat} (hi : i < w.nextId) (name : String) (v : Value) :
    (w.setField i name v).Tame where
  sound := hw.sound.of_eq rfl rfl rfl
  derived := hw.derived
  barrier := hw.barrier
  fields e he := by
    rcases TypeForms.mem_assign he with rfl | he
    · exact hi
    · exact hw.fields e he
  swapped := hw.swapped

theorem Mirrors.setField (hw : World.Mirrors M κ w w') {i j : Nat} (hij : κ.same i j)
    (name : String) {v v' : Value} (hv : v.Mirrors κ v') :
    World.Mirrors M κ (w.setField i name v) (w'.setField j name v') := by
  obtain ⟨hi, hj⟩ := κ.lt hij
  refine { hw with
    tame := hw.tame.setField (Nat.lt_of_lt_of_le hi hw.left) name v
    tame' := hw.tame'.setField (Nat.lt_of_lt_of_le hj hw.right) name v'
    fields := fun {k l} hkl => ?_ }
  rw [fieldsOf_setField, fieldsOf_setField]
  -- Identities are paired one to one, so both worlds change the fields of the same object.
  have hiff : k = i ↔ l = j :=
    ⟨fun h => κ.right_unique (h ▸ hkl) hij, fun h => κ.left_unique (h ▸ hkl) hij⟩
  by_cases hk : k = i
  · rw [if_pos hk, if_pos (hiff.1 hk)]
    have hfields := hw.fields hij
    have hnew : MirrorFields κ [(name, v)] [(name, v')] := .cons ⟨rfl, hv⟩ .nil
    rcases MirrorFields.lookup hfields name with ⟨h, h'⟩ | ⟨u, u', h, h', -⟩ <;> rw [h, h']
    · exact List.rel_append hfields hnew
    · refine List.rel_map (R := fun f f' => f.1 = f'.1 ∧ f.2.Mirrors κ f'.2)
        (fun e e' he => ?_) hfields
      rw [he.1]
      split
      · exact ⟨rfl, hv⟩
      · exact he
  · rw [if_neg hk, if_neg (mt hiff.2 hk)]
    exact hw.fields hkl

/-! ### Forms that host code looks at -/

/-- The kinds of the current forms of handles that are no direct handles, or that are level. -/
theorem Mirrors.kind_currentForm (hw : World.Mirrors M κ w w') {h h' : Handle}
    (hh : (Value.handle h).Mirrors κ (.handle h'))
    (hlevel : ∀ i m, h.data = .direct i m → κ.level h.id h'.id) :
    (w.currentForm h).kind = (w'.currentForm h').kind := by
  obtain ⟨hmirrors, hsane, hsane'⟩ := Value.mirrors_handle_iff.1 hh
  rcases hmirrors.plain_or_direct with ⟨hplain, hplain'⟩ | ⟨i, j, m, hd, hd', -⟩
  · rw [currentForm_of_plain hplain, currentForm_of_plain hplain']
    exact (hmirrors.form hplain).kind
  · have hij := hlevel i m hd
    -- The kind of a direct form says how it dispatches and whether it has a barrier.
    have hkind : ∀ {w : World σ} {h : Handle} {i : Nat}, w.Sound → h.Sane → h.data = .direct i m →
        (w.currentForm h).kind = m.kind.formKind (w.currentForm h).kind.hasBarrier :=
      fun hw hh hd => by
        obtain ⟨id, hform⟩ := (hw.fits_currentForm hh.proper).direct_eq hd
        obtain ⟨link, -, hparts⟩ := Form.direct_eq_ok hform
        exact congrArg Form.kind (Form.ofParts_eq_ok_iff.1 hparts).2
    rw [hkind hw.tame.sound hsane hd, hkind hw.tame'.sound hsane' hd',
      hw.hasBarrier_of_level hd hd' hmirrors.type (hmirrors.level i m hd hij) hij]

end World

/-! ## Running host code -/

/-- What host code may ask for does the same in worlds that mirror each other. -/
structure Reentry.Mirrored (M : host.Mirroring) (re : Reentry σ) : Prop where
  invoke : ∀ {κ : Pairing} {w w' : World σ} {h h' : Handle} {vs vs' : List Value},
    World.Mirrors M κ w w' → (Value.handle h).Mirrors κ (.handle h') → ∀ site,
      Value.MirrorAll κ vs vs' →
        Act.Mirrors M κ w w' (re.invoke h site vs) (re.invoke h' site vs') Value.Mirrors
  ensure : ∀ {κ : Pairing} {w w' : World σ}, World.Mirrors M κ w w' → ∀ cls,
    Act.Mirrors M κ w w' (re.ensure cls) (re.ensure cls) fun _ => Eq

namespace Act.Mirrors

variable {Q : Pairing → α → β → Prop} {x : Act σ α} {x' : Act σ β}

theorem record (hw : World.Mirrors M κ w w') {c c' : HostCall} (hc : c.Mirrors κ c') :
    Mirrors M κ w w' (Act.record c) (Act.record c') fun κ' _ _ => κ' = κ :=
  .inr (.inr ⟨κ, ⟨le_refl κ, { hw with
      tame := hw.tame.of_eq rfl rfl rfl rfl rfl (Nat.le_refl _)
      tame' := hw.tame'.of_eq rfl rfl rfl rfl rfl (Nat.le_refl _) }, .refl _, [_], [_], rfl, rfl,
    .cons hc .nil⟩, .ok rfl⟩)

theorem attempt (hx : Mirrors M κ w w' x x' Q) :
    Mirrors M κ w w' (Act.attempt x) (Act.attempt x') fun κ' => Answer.Mirrors (Q κ') := by
  have happly : ∀ {α : Type} (x : Act σ α) w,
      Act.attempt x w = (Act.settled (x w).1, (x w).2) := fun x w => by
    unfold Act.attempt
    split <;> next hxw => rw [hxw]; rfl
  unfold Mirrors
  rw [happly, happly]
  rcases hx with hcut | hcut | ⟨κ', hreach, ho⟩
  · rw [hcut]
    exact .inl rfl
  · rw [hcut]
    exact .inr (.inl rfl)
  · refine .inr (.inr ⟨κ', hreach, ?_⟩)
    generalize (x w).1 = o at ho
    generalize (x' w').1 = o' at ho
    cases ho with
    | ok h => exact .ok (.ok h)
    | @stop s s' h =>
      cases s <;> cases s' <;>
        simp only [Stop.plain, Stop.error.injEq, Stop.violation.injEq, reduceCtorEq] at h
      · exact h ▸ .ok (.error _)
      · exact .stop (congrArg Stop.violation h)

theorem request (hw : World.Mirrors M κ w w') (pinned pinned' : List Value)
    (hx : ∀ {v v' : World σ}, World.Mirrors M κ v v' → Mirrors M κ v v' x x' Q) :
    Mirrors M κ w w' (Act.request pinned x) (Act.request pinned' x') fun κ' =>
      Answer.Mirrors (Q κ') :=
  .withFrame _ _ (hx (hw.withFrames _ _)).attempt

/-- A step that changes the worlds and answers. -/
theorem after {f : World σ → α × World σ} {f' : World σ → β × World σ} {k : α → Act σ γ}
    {k' : β → Act σ δ} {R : Pairing → γ → δ → Prop}
    (hreach : World.Reach M κ κ' w w' (f w).2 (f' w').2)
    (hk : Mirrors M κ' (f w).2 (f' w').2 (k (f w).1) (k' (f' w').1) R) :
    Mirrors M κ w w' (modifyGet f >>= k) (modifyGet f' >>= k') R := by
  refine hk.imp_right (.imp_right ?_)
  rintro ⟨κ'', hreach', ho⟩
  exact ⟨κ'', hreach.trans hreach', ho⟩

theorem after_modify {f f' : World σ → World σ} {k : PUnit → Act σ γ} {k' : PUnit → Act σ δ}
    {R : Pairing → γ → δ → Prop} (hreach : World.Reach M κ κ' w w' (f w) (f' w'))
    (hk : Mirrors M κ' (f w) (f' w') (k ⟨⟩) (k' ⟨⟩) R) :
    Mirrors M κ w w' (modify f >>= k) (modify f' >>= k') R :=
  hk.imp_right (.imp_right fun ⟨κ'', hreach', ho⟩ => ⟨κ'', hreach.trans hreach', ho⟩)

end Act.Mirrors

/-- No class is taken back. -/
theorem World.Reach.later {v v' : World σ} (hw : World.Mirrors M κ w w')
    (h : World.Reach M κ κ' w w' v v') : host.Later w.host v.host := fun cls hcls =>
  (h.worlds.ready cls).1 (h.le.ready ((hw.ready cls).2 hcls))

/-- Making a handle leaves the state of the host alone. -/
theorem Act.host_perform (host : Host σ) (op : HandleOp) (pinned : List Value) {v : World σ}
    (hv : v.Sound) : (Act.request pinned (Act.perform host op) v).2.host = v.host := by
  have happly : ∀ u : World σ,
      (Act.attempt (Act.perform host op) u).2 = (Act.perform host op u).2 :=
    fun u => by
      unfold Act.attempt
      split <;> next hxu => rw [hxu]
  have hshares := (triple_perform host op).onlyShares
    (w := v.withFrames (⟨[], pinned⟩ :: v.frames)) (hv.of_eq rfl rfl rfl)
  have hhost := congrArg World.host hshares
  show (Act.attempt (Act.perform host op) (v.withFrames (⟨[], pinned⟩ :: v.frames))).2.host = v.host
  rw [happly]
  exact hhost

namespace Act.Mirrors

variable {re : Reentry σ} {post : Pairing → Except ε α → Except ε β → Prop}

/-- Discreet host code leads to worlds that mirror each other again. -/
theorem script (hre : re.Mirrored M) {code : Script σ ε α} {code' : Script σ ε β} {s s' : σ}
    (hcode : Script.Mirrors M post κ s s' code code') (hw : World.Mirrors M κ w w')
    (hs : w.host = s) (hs' : w'.host = s') (pinned pinned' : List Value) :
    Mirrors M κ w w' (Act.script host re pinned code) (Act.script host re pinned' code') post := by
  -- One case for each request; the worlds vary, as later code runs where the request left off.
  induction hcode generalizing w w' pinned pinned' with
  | done h => exact .pure hw h
  | panic text => exact .throw hw _
  | getState _ ih =>
    subst hs hs'
    exact .look (ih hw rfl rfl _ _)
  | setState hlater hstate _ ih =>
    subst hs hs'
    have hv := hw.setHost hlater hstate
    exact after_modify (.step (Pairing.le_withReady _) hv rfl rfl rfl) (ih hv rfl rfl _ _)
  | @create κ s s' plan plan' next next' hplan _ ih =>
    subst hs hs'
    obtain ⟨κ', hreach, hv⟩ := hw.make hplan
    have hhost := congrArg World.host (World.make_spec plan w).1
    have hhost' := congrArg World.host (World.make_spec plan' w').1
    exact after hreach (ih κ' _ _ hreach.le hv hreach.worlds hhost hhost' _ _)
  | getField hij name _ ih => exact .look (ih _ _ (hw.field hij name) hw hs hs' _ _)
  | setField hij name hv _ ih =>
    have hnext := hw.setField hij name hv
    exact after_modify (.step (le_refl _) hnext rfl rfl rfl) (ih hnext hs hs' _ _)
  | make hop _ ih =>
    subst hs hs'
    exact (request hw pinned pinned' fun hv => perform hv hop).bind_at fun κ' r r' hreach _ _ hr =>
      ih κ' r r' hreach.le hr hreach.worlds (host_perform host _ _ hw.tame.sound)
        (host_perform host _ _ hw.tame'.sound) _ _
  | makeDirect m _ ih =>
    subst hs hs'
    exact (request hw pinned pinned' fun hv =>
      perform_direct hv m).bind_at fun κ' r r' hreach _ _ hr =>
      ih κ' r r' hreach.le hr hreach.worlds (host_perform host _ _ hw.tame.sound)
        (host_perform host _ _ hw.tame'.sound) _ _
  | @formKind κ s s' h h' next next' hh hlevel _ ih =>
    have hkind := hw.kind_currentForm hh hlevel
    refine .look ((record hw (.looked hh hkind)).bind_at fun κ' _ _ hreach _ _ hκ => ?_)
    subst hκ
    rw [hkind]
    exact ih _ hreach.worlds hs hs' _ _
  | invoke hh site hvs _ ih =>
    subst hs hs'
    exact (request hw pinned pinned' fun hv => hre.invoke hv hh site hvs).bind_at
      fun κ' r r' hreach _ _ hr => ih κ' _ _ r r' hreach.le (hreach.later hw) hreach.worlds.state hr
        hreach.worlds rfl rfl _ _
  | ensure cls _ ih =>
    subst hs hs'
    refine (request hw pinned pinned' fun hv => hre.ensure hv cls).bind_at
      fun κ' r r' hreach _ _ hr => ?_
    obtain rfl : r = r' := by
      cases hr with
      | ok h => rw [h]
      | error e => rfl
    exact ih κ' _ _ r hreach.le (hreach.later hw) hreach.worlds.state hreach.worlds rfl rfl _ _
  | hold _ ih => exact ih hw hs hs' _ _
  | release _ ih => exact ih hw hs hs' _ _

end Act.Mirrors

end HandleForms
