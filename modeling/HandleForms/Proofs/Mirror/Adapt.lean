import HandleForms.Proofs.Mirror.Make

/-!
# Handles adapted in worlds that mirror each other

An adapter of mirrored handles finds the same types, so it takes the same branches; the carriers
that it edits have forms that match, the edits answer forms that match again, and what is bound are
mirrored values.
-/

namespace HandleForms

variable {σ α β γ δ : Type}

/-! ## Edits -/

/-- Outcomes of edits without identities. -/
theorem Outcome.mirrors_of_plainOutcome {r r' : Except (Stop FormError) Form}
    (h : Edit.plainOutcome r = Edit.plainOutcome r') :
    Outcome.Mirrors Form.Matches (r.mapError fun s => s.map RuntimeError.form)
      (r'.mapError fun s => s.map RuntimeError.form) := by
  rcases r with (e | v) | f <;> rcases r' with (e' | v') | f' <;>
    simp only [Edit.plainOutcome, Except.ok.injEq, Except.error.injEq, Stop.error.injEq,
      Stop.violation.injEq, reduceCtorEq] at h
  · exact .stop (by rw [h])
  · exact .stop (congrArg Stop.violation h)
  · exact .ok h

/-- An edit changes nothing but what is shared. -/
theorem World.Tame.warms_edit {w : World σ} (hw : w.Tame) (base : Form) (e : Edit) :
    w.Warms ((Act.edit base e : Act σ Form) w).2 := by
  have htame : ((Act.edit base e : Act σ Form) w).2.Tame := {
    sound := (Act.triple_edit base e).sound hw.sound
    derived := (Context.edit_spec hw.sound.context hw.derived w.live base e).1
    barrier := hw.barrier
    fields := hw.fields
    swapped := hw.swapped }
  exact .of_onlyShares htame ((Act.triple_edit base e).onlyShares hw.sound) (Nat.le_refl _)

/-- What an operation makes of sane handles is sane. -/
theorem HandleOp.Makes.sane {op : HandleOp} {B : Handle} (hB : op.Makes B)
    (hops : ∀ h ∈ op.handles, h.Sane) : B.Sane :=
  ⟨hB.proper fun h hh => (hops h hh).proper,
    hB.readsOwn fun h hh => ⟨(hops h hh).proper, (hops h hh).readsOwn⟩⟩

/-- The operands of mirrored operations are sane. -/
theorem HandleOp.Mirrors.sane {κ : Pairing} {op op' : HandleOp} (hop : op.Mirrors κ op') :
    (∀ h ∈ op.handles, h.Sane) ∧ ∀ h ∈ op'.handles, h.Sane := by
  have hboth : ∀ {h h' : Handle}, (Value.handle h).Mirrors κ (.handle h') → h.Sane ∧ h'.Sane :=
    fun hh => (Value.mirrors_handle_iff.1 hh).2
  cases hop with
  | external | empty | direct | exactInvoker | genericInvoker | basicInvoker =>
    exact ⟨List.forall_mem_nil _, List.forall_mem_nil _⟩
  | asType hh | insert hh | drop hh | dup hh | spread hh | zeroReturn hh | permute hh =>
    exact ⟨List.forall_mem_singleton.2 (hboth hh).1, List.forall_mem_singleton.2 (hboth hh).2⟩
  | filter hh pos hf | collect hh pos hf | filterReturn hh hf | fold hh pos hf =>
    exact ⟨List.forall_mem_cons.2 ⟨(hboth hh).1, List.forall_mem_singleton.2 (hboth hf).1⟩,
      List.forall_mem_cons.2 ⟨(hboth hh).2, List.forall_mem_singleton.2 (hboth hf).2⟩⟩

namespace Act

/-- The computation needs no world. -/
def Still (x : Act σ α) : Prop := ∃ r, x = Act.ofStop r

theorem still_require (p : Prop) [Decidable p] (v : Violation) :
    Still (require p v : Act σ Unit) := by
  unfold require
  split <;> exact ⟨_, rfl⟩

theorem still_paramType (type : Signature) (pos : Nat) : Still (paramType type pos : Act σ Ty) := by
  unfold paramType
  split
  · exact ⟨.ok _, rfl⟩
  · exact ⟨_, rfl⟩

theorem still_paramRange (type : Signature) (start stop : Nat) :
    Still (paramRange type start stop : Act σ (List Ty)) := by
  unfold paramRange
  split
  · exact ⟨.ok _, rfl⟩
  · exact ⟨_, rfl⟩

theorem still_dropParams (type : Signature) (start stop : Nat) :
    Still (dropParams type start stop : Act σ Signature) := by
  unfold dropParams
  split
  · exact ⟨.ok _, rfl⟩
  · exact ⟨_, rfl⟩

theorem still_insertParams (type : Signature) (pos : Nat) (types : List Ty) :
    Still (insertParams type pos types : Act σ Signature) := by
  unfold insertParams
  split <;> exact ⟨_, rfl⟩

theorem still_changeParam (type : Signature) (pos : Nat) (t : Ty) :
    Still (changeParam type pos t : Act σ Signature) := by
  unfold changeParam
  split <;> exact ⟨_, rfl⟩

theorem still_checkSlots (type : Signature) (limit : Nat) :
    Still (checkSlots type limit : Act σ Unit) := by
  unfold checkSlots
  split
  · exact ⟨_, rfl⟩
  · exact ⟨.ok (), rfl⟩

variable {host : Host σ} {M : host.Mirroring} {κ κ' : Pairing} {w w' : World σ} {h h' : Handle}

/-- Handles that an operation answers in both worlds. -/
abbrev MirrorHandles (M : host.Mirroring) (κ : Pairing) (w w' : World σ)
    (x x' : Act σ Handle) : Prop :=
  Mirrors M κ w w' x x' fun κ' B B' => B.Mirrors κ' B'

namespace Mirrors

/-- A step that needs no world comes to the same in both. -/
theorem still {x : Act σ α} {k : α → Act σ γ} {k' : α → Act σ δ} {R : Pairing → γ → δ → Prop}
    (h : World.Mirrors M κ w w') (hx : Still x)
    (hk : ∀ a, Mirrors M κ w w' (k a) (k' a) R) : Mirrors M κ w w' (x >>= k) (x >>= k') R := by
  obtain ⟨r | a, rfl⟩ := hx
  · exact ofStop h (.stop rfl)
  · exact hk a

theorem edit (h : World.Mirrors M κ w w') {base base' : Form} (hbase : base.Matches base')
    (e : Edit) :
    Mirrors M κ w w' (Act.edit base e) (Act.edit base' e) fun _ f f' => f.Matches f' := by
  exact .inr (.inr ⟨κ, .of_warms h (h.tame.warms_edit base e) (h.tame'.warms_edit base' e),
    Outcome.mirrors_of_plainOutcome (Context.edit_alike h.tame.sound.context h.tame.derived
      h.tame'.sound.context h.tame'.derived w.live w'.live hbase e)⟩)

/-! ### Carriers -/

theorem rebind (hw : World.Mirrors M κ w w') (hh : (Value.handle h).Mirrors κ (.handle h')) :
    Mirrors M κ w w' (Act.rebind h) (Act.rebind h')
      fun κ' R R' => R.Mirrors κ' R' ∧ R.species?.isSome ∧ R'.species?.isSome := by
  obtain ⟨hmirrors, hsane, hsane'⟩ := Value.mirrors_handle_iff.1 hh
  refine of_quiet (.answers (triple_rebind h) (.rebind h) (completes_rebind hsane.proper.slots_le))
    (.answers (triple_rebind h') (.rebind h') (completes_rebind hsane'.proper.slots_le)) hw ?_
  rintro _ _ ⟨R, rfl, hR⟩ ⟨R', rfl, hR'⟩
  refine .ok ⟨?_, hR.isSome, hR'.isSome⟩
  -- Both handles hold values already, or both are wrapped.
  cases hR with
  | self hbound =>
    rw [hmirrors.isSome] at hbound
    rw [hR'.eq_self hbound]
    exact hmirrors
  | wrapped hplain htype hs hform ht hdata =>
    cases hR' with
    | self hbound =>
      rw [← hmirrors.isSome, hplain] at hbound
      cases hbound
    | wrapped _ htype' hs' hform' ht' hdata' =>
      rw [← hmirrors.type] at hform' htype'
      refine .of_plain (htype.trans htype'.symm) (Form.matches_reinvoker hs hs' hform hform')
        (by simp [hdata]) ?_
      rw [hdata, hdata']
      exact .bound (ht.trans ht'.symm) (.cons hh .nil)

/-- Edits the form of a carrier around a handle. -/
theorem carrier {e : Edit} {k k' : Handle → Form → Act σ α} {Q : Pairing → α → α → Prop}
    (hw : World.Mirrors M κ w w') (hh : (Value.handle h).Mirrors κ (.handle h'))
    (hk : ∀ κ' v v' R R' f f', κ ≤ κ' → World.Mirrors M κ' v v' → R.Mirrors κ' R' →
      R.species?.isSome → f.Matches f' → Mirrors M κ' v v' (k R f) (k' R' f') Q) :
    Mirrors M κ w w' (Act.rebind h >>= fun R => editForm R e >>= fun f => k R f)
      (Act.rebind h' >>= fun R => editForm R e >>= fun f => k' R f) Q := by
  refine (rebind hw hh).bind fun κ₁ v v' R R' hreach ⟨hR, hsome, hsome'⟩ => ?_
  have hform : R.form.Matches R'.form := hR.form (HandleOf.member?_eq_none_of_bound hsome)
  -- What holds values is no direct handle, so its current form is its own.
  have hedit : Mirrors M κ₁ v v' (editForm R e) (editForm R' e) fun _ f f' => f.Matches f' := by
    refine .look ?_
    rw [World.currentForm_of_bound hsome, World.currentForm_of_bound hsome']
    exact edit hreach.worlds hform e
  exact hedit.bind fun κ₂ u u' f f' hreach' hf =>
    hk κ₂ u u' R R' f f' (le_trans hreach.le hreach'.le) hreach'.worlds
      (hR.mono hreach'.le) hsome hf

theorem copyWith (hw : World.Mirrors M κ w w') {R R' : Handle} (hR : R.Mirrors κ R')
    (hsome : R.species?.isSome) (type : Signature) {f f' : Form} (hf : f.Matches f') :
    MirrorHandles M κ w w' (Act.copyWith R type f) (Act.copyWith R' type f') := by
  refine newHandle hw type hf (fun i m hdirect => ?_) hR.data
  simp [HandleOf.species?, hdirect] at hsome

theorem copyWithExtra (hw : World.Mirrors M κ w w') {R R' : Handle} (hR : R.Mirrors κ R')
    (type : Signature) {f f' : Form} (hf : f.Matches f') {v v' : Value} (hv : v.Mirrors κ v') :
    MirrorHandles M κ w w' (Act.copyWithExtra R type f v) (Act.copyWithExtra R' type f' v') := by
  have hspecies : (f.species? 0).map Species.plain = (f'.species? 0).map Species.plain := by
    rw [← Form.species?_plain, ← Form.species?_plain, hf]
  unfold Act.copyWithExtra
  cases hs : f.species? 0 <;> cases hs' : f'.species? 0 <;>
    simp only [hs, hs', Option.map_none, Option.map_some, Option.some.injEq,
      reduceCtorEq] at hspecies
  · exact .throw hw _
  · exact newHandle hw type hf (fun _ _ => nofun) (.bound (Species.mk.inj hspecies).2
      (hR.bound.append (.cons hv .nil)))

/-- So is a carrier that grows by a value that was there before. -/
theorem grow {v v' : Value} (hv : v.Mirrors κ v') (type : Signature) (κ' : Pairing) (u u' : World σ)
    (R R' : Handle) (f f' : Form) (hκ : κ ≤ κ') (hu : World.Mirrors M κ' u u')
    (hR : R.Mirrors κ' R') (_ : R.species?.isSome) (hf : f.Matches f') :
    MirrorHandles M κ' u u' (Act.copyWithExtra R type f v) (Act.copyWithExtra R' type f' v') :=
  copyWithExtra hu hR type hf (hv.mono hκ)

/-! ### Arguments -/

theorem bindArgument (hw : World.Mirrors M κ w w') (hh : (Value.handle h).Mirrors κ (.handle h'))
    (pos : Nat) {v v' : Value} (hv : v.Mirrors κ v') :
    MirrorHandles M κ w w' (Act.bindArgument h pos v) (Act.bindArgument h' pos v') := by
  have htype := (Value.mirrors_handle_iff.1 hh).1.type
  unfold Act.bindArgument
  rw [← htype, ← hv.basicType]
  refine still hw (still_require _ _) fun _ => still hw (still_paramType _ _) fun t => ?_
  refine .guarded Iff.rfl (fun _ => .throw hw _) fun _ => ?_
  refine carrier hw hh fun κ' u u' R R' f f' hκ hu hR _ hf =>
    still hu (still_dropParams _ _ _) fun type =>
    copyWithExtra hu hR type hf (hv.mono hκ)

theorem addParams (hw : World.Mirrors M κ w w') {f f' : Form} (hf : f.Matches f') (pos : Nat)
    (types : List Ty) :
    Mirrors M κ w w' (Act.addParams f pos types) (Act.addParams f' pos types)
      fun _ f f' => f.Matches f' := by
  induction types generalizing κ w w' f f' pos with
  | nil => exact .pure hw hf
  | cons t types ih => exact (edit hw hf _).bind fun _ _ _ _ _ hreach hg => ih hreach.worlds hg _

theorem dropArguments (hw : World.Mirrors M κ w w') (hh : (Value.handle h).Mirrors κ (.handle h'))
    (pos : Nat) (types : List Ty) :
    MirrorHandles M κ w w' (Act.dropArguments h pos types) (Act.dropArguments h' pos types) := by
  obtain ⟨hmirrors, -, -⟩ := Value.mirrors_handle_iff.1 hh
  unfold Act.dropArguments
  rw [← hmirrors.type]
  refine still hw (still_require _ _) fun _ => still hw (still_insertParams _ _ _) fun type => ?_
  split
  · exact .pure hw hmirrors
  refine still hw (still_checkSlots _ _) fun _ => (rebind hw hh).bind
    fun κ₁ v v' R R' hreach ⟨hR, hsome, hsome'⟩ => .look ?_
  rw [World.currentForm_of_bound hsome, World.currentForm_of_bound hsome']
  refine (addParams hreach.worlds (hR.form (HandleOf.member?_eq_none_of_bound hsome)) _ _).bind
    fun κ₂ u u' f f' hreach' hf => ?_
  exact copyWith hreach'.worlds (hR.mono hreach'.le) hsome type hf

theorem dupArguments (hw : World.Mirrors M κ w w') (hh : (Value.handle h).Mirrors κ (.handle h'))
    (src dst : Nat) :
    MirrorHandles M κ w w' (Act.dupArguments h src dst) (Act.dupArguments h' src dst) := by
  unfold Act.dupArguments
  rw [← (Value.mirrors_handle_iff.1 hh).1.type]
  refine still hw (still_require _ _) fun _ => still hw (still_paramType _ _) fun source =>
    still hw (still_paramType _ _) fun target => .guarded Iff.rfl (fun _ => .throw hw _) fun _ => ?_
  exact carrier hw hh fun _ _ _ _ _ _ _ _ hu hR hsome hf =>
    still hu (still_dropParams _ _ _) fun type =>
    copyWith hu hR hsome type hf

theorem spreadArguments (hw : World.Mirrors M κ w w') (hh : (Value.handle h).Mirrors κ (.handle h'))
    (pos : Nat) (array : Ty) (count : Nat) :
    MirrorHandles M κ w w' (Act.spreadArguments h pos array count)
      (Act.spreadArguments h' pos array count) := by
  unfold Act.spreadArguments
  rw [← (Value.mirrors_handle_iff.1 hh).1.type]
  refine still hw (still_require _ _) fun _ => still hw (still_dropParams _ _ _) fun _ =>
    still hw (still_insertParams _ _ _) fun type => ?_
  exact carrier hw hh fun _ _ _ _ _ _ _ _ hu hR hsome hf => copyWith hu hR hsome type hf

variable {f f' : Handle}

theorem incompatible (hw : World.Mirrors M κ w w') (combiner target : Signature)
    {R : Pairing → α → β → Prop} :
    Mirrors M κ w w' (Act.incompatible combiner target) (Act.incompatible combiner target) R :=
  .throw hw _

theorem filterArgument (hw : World.Mirrors M κ w w') (hh : (Value.handle h).Mirrors κ (.handle h'))
    (pos : Nat) (hf : (Value.handle f).Mirrors κ (.handle f')) :
    MirrorHandles M κ w w' (Act.filterArgument h pos f) (Act.filterArgument h' pos f') := by
  unfold Act.filterArgument
  rw [← (Value.mirrors_handle_iff.1 hh).1.type, ← (Value.mirrors_handle_iff.1 hf).1.type]
  refine still hw (still_require _ _) fun _ => ?_
  split
  · refine still hw (still_paramType _ _) fun t => .guarded Iff.rfl (fun _ => incompatible hw _ _)
      fun _ => ?_
    exact carrier hw hh fun _ _ _ _ _ _ _ hκ hu hR _ hform => still hu (still_changeParam _ _ _)
      fun type => copyWithExtra hu hR type hform (hf.mono hκ)
  · exact incompatible hw _ _

theorem collectArguments (hw : World.Mirrors M κ w w')
    (hh : (Value.handle h).Mirrors κ (.handle h'))
    (pos : Nat) (hf : (Value.handle f).Mirrors κ (.handle f')) :
    MirrorHandles M κ w w' (Act.collectArguments h pos f) (Act.collectArguments h' pos f') := by
  unfold Act.collectArguments
  rw [← (Value.mirrors_handle_iff.1 hh).1.type, ← (Value.mirrors_handle_iff.1 hf).1.type]
  refine still hw (still_require _ _) fun _ => ?_
  dsimp only
  split
  · exact still hw (still_paramType _ _) fun t => .guarded Iff.rfl (fun _ => incompatible hw _ _)
      fun _ => still hw (still_dropParams _ _ _) fun s => still hw (still_insertParams _ _ _)
        fun type => carrier hw hh (grow hf type)
  · exact still hw (still_dropParams _ _ _) fun s => still hw (still_insertParams _ _ _)
      fun type => carrier hw hh (grow hf type)

theorem foldArguments (hw : World.Mirrors M κ w w') (hh : (Value.handle h).Mirrors κ (.handle h'))
    (pos : Nat) (hf : (Value.handle f).Mirrors κ (.handle f')) :
    MirrorHandles M κ w w' (Act.foldArguments h pos f) (Act.foldArguments h' pos f') := by
  unfold Act.foldArguments
  rw [← (Value.mirrors_handle_iff.1 hh).1.type, ← (Value.mirrors_handle_iff.1 hf).1.type]
  dsimp only
  refine .guarded Iff.rfl (fun _ => incompatible hw _ _) fun _ => ?_
  split
  · exact still hw (still_paramType _ _) fun t => .guarded Iff.rfl (fun _ => incompatible hw _ _)
      fun _ => still hw (still_paramRange _ _ _) fun kept => .guarded Iff.rfl
        (fun _ => incompatible hw _ _) fun _ => still hw (still_dropParams _ _ _)
          fun type => carrier hw hh (grow hf type)
  · exact still hw (still_paramRange _ _ _) fun kept => .guarded Iff.rfl
      (fun _ => incompatible hw _ _) fun _ => still hw (still_dropParams _ _ _)
        fun type => carrier hw hh (grow hf type)

/-! ### Results -/

theorem filterReturn (hw : World.Mirrors M κ w w') (hh : (Value.handle h).Mirrors κ (.handle h'))
    (hf : (Value.handle f).Mirrors κ (.handle f')) :
    MirrorHandles M κ w w' (Act.filterReturn h f) (Act.filterReturn h' f') := by
  unfold Act.filterReturn
  rw [← (Value.mirrors_handle_iff.1 hh).1.type, ← (Value.mirrors_handle_iff.1 hf).1.type]
  refine .guarded Iff.rfl (fun _ => incompatible hw _ _) fun _ => ?_
  exact carrier hw hh (grow hf _)

theorem zeroReturn (hw : World.Mirrors M κ w w') (hh : (Value.handle h).Mirrors κ (.handle h'))
    (type : Ty) : MirrorHandles M κ w w' (Act.zeroReturn h type) (Act.zeroReturn h' type) := by
  unfold Act.zeroReturn
  rw [← (Value.mirrors_handle_iff.1 hh).1.type]
  exact carrier hw hh fun _ _ _ _ _ _ _ _ hu hR hsome hform => copyWith hu hR hsome _ hform

/-! ### Reorders -/

theorem mergeParams (hw : World.Mirrors M κ w w') {f f' : Form} (hf : f.Matches f')
    (steps : List (Nat × Nat)) :
    Mirrors M κ w w' (Act.mergeParams f steps) (Act.mergeParams f' steps)
      fun _ f f' => f.Matches f' := by
  induction steps generalizing κ w w' f f' with
  | nil => exact .pure hw hf
  | cons step steps ih => exact (edit hw hf _).bind fun _ _ _ _ _ hreach hg => ih hreach.worlds hg

theorem addUnread (hw : World.Mirrors M κ w w') (type : Signature) {f f' : Form} (hf : f.Matches f')
    (steps : List (Nat × Nat)) :
    Mirrors M κ w w' (Act.addUnread type f steps) (Act.addUnread type f' steps)
      fun _ f f' => f.Matches f' := by
  induction steps generalizing κ w w' f f' with
  | nil => exact .pure hw hf
  | cons step steps ih =>
    exact still hw (still_paramType _ _) fun t =>
      (edit hw hf _).bind fun _ _ _ _ _ hreach hg => ih hreach.worlds hg

theorem permuteArguments (hw : World.Mirrors M κ w w')
    (hh : (Value.handle h).Mirrors κ (.handle h')) (type : Signature) (reorder : List Nat) :
    MirrorHandles M κ w w' (Act.permuteArguments h type reorder)
      (Act.permuteArguments h' type reorder) := by
  unfold Act.permuteArguments
  rw [← (Value.mirrors_handle_iff.1 hh).1.type]
  split
  · exact .throw hw _
  refine (rebind hw hh).bind fun κ₁ v v' R R' hreach ⟨hR, hsome, hsome'⟩ => .look ?_
  rw [World.currentForm_of_bound hsome, World.currentForm_of_bound hsome']
  refine (mergeParams hreach.worlds (hR.form (HandleOf.member?_eq_none_of_bound hsome)) _).bind
    fun κ₂ _ _ _ _ hreach₂ hf₂ => (addUnread hreach₂.worlds _ hf₂ _).bind
      fun κ₃ _ _ _ _ hreach₃ hf₃ => (edit hreach₃.worlds hf₃ _).bind
        fun κ₄ _ _ _ _ hreach₄ hf₄ => ?_
  exact copyWith hreach₄.worlds
    (((hR.mono hreach₂.le).mono hreach₃.le).mono hreach₄.le) hsome type hf₄

/-! ### Views -/

theorem asType (hw : World.Mirrors M κ w w') (hh : h.Mirrors κ h') (type : Signature) :
    MirrorHandles M κ w w' (Act.asType h type) (Act.asType h' type) := by
  unfold Act.asType
  rw [← hh.type]
  split
  · exact .pure hw hh
  split
  · exact .throw hw _
  refine .look ?_
  -- Views of direct handles are made level in lockstep only: out of it one of the handles may have
  -- dropped its barrier alone.
  rcases hh.plain_or_direct with ⟨hplain, hplain'⟩ | ⟨i, j, m, hd, hd', hij⟩
  · rw [World.currentForm_of_plain hplain, World.currentForm_of_plain hplain']
    refine newHandle hw type (hh.form hplain) (fun i m hd => ?_) hh.data
    simp [HandleOf.member?, hd] at hplain
  · refine (freshId hw id).bind fun κ' v v' k l hreach hkl => .pure hreach.worlds
      ⟨⟨rfl, fun hplain => ?_, fun _ _ _ => hkl.1, fun i' m' hd₁ hne => ?_, fun _ _ _ hlevel => ?_⟩,
        hh.data.mono hreach.le⟩
    · simp [HandleOf.member?, hd] at hplain
    · obtain ⟨-, rfl⟩ := HandleData.direct.inj (hd.symm.trans hd₁)
      exact hreach.le.ready (hw.ready_currentForm hd hd' (hh.ready i _ hd) hne)
    · have hold := hw.level_of_same (not_not.1 fun hstep => hkl.2.2 hstep hlevel) (hh.same i m hd)
      exact hw.hasBarrier_of_level hd hd' hh.type (hh.level i m hd hold) hold

theorem sane {x x' : Act σ Handle} (hx : MirrorHandles M κ w w' x x')
    (hsane : ∀ B, (x w).1 = .ok B → B.Sane) (hsane' : ∀ B, (x' w').1 = .ok B → B.Sane) :
    Mirrors M κ w w' x x' fun κ' B B' => (Value.handle B).Mirrors κ' (.handle B') :=
  (hx.and hsane hsane').imp fun _ _ _ _ hB => Value.mirrors_handle_iff.2 hB

theorem insertArguments (hw : World.Mirrors M κ w w') (hh : (Value.handle h).Mirrors κ (.handle h'))
    (pos : Nat) {vs vs' : List Value} (hvs : Value.MirrorAll κ vs vs') :
    MirrorHandles M κ w w' (Act.insertArguments h pos vs) (Act.insertArguments h' pos vs') := by
  -- The next argument is bound to what was made for this one, so that has to be sane again.
  have hbind : ∀ {w : World σ} {h : Handle} v B, w.Sound → h.Sane →
      (Act.bindArgument h pos v w).1 = .ok B → B.Sane := fun {w h} v B hw hh hB => by
    obtain ⟨⟨⟨hpos, hv⟩, hparams, hret⟩, hadapted⟩ := (triple_bindArgument h pos v).answer hw hB
    exact (HandleOp.Makes.adapted (.insert_one hpos hv hparams hret) (hadapted hh.proper)).sane
      (List.forall_mem_singleton.2 hh)
  induction vs generalizing κ w w' h h' vs' with
  | nil =>
    cases hvs
    exact .pure hw (Value.mirrors_handle_iff.1 hh).1
  | cons v vs ih =>
    obtain ⟨-, hsane, hsane'⟩ := Value.mirrors_handle_iff.1 hh
    cases hvs with
    | cons hv hvs =>
      exact ((bindArgument hw hh pos hv).sane (fun B => hbind _ B hw.tame.sound hsane)
        fun B => hbind _ B hw.tame'.sound hsane').bind fun κ' u u' B B' hreach hB =>
          ih hreach.worlds hB (Value.MirrorAll.mono hvs hreach.le)

/-- The same operation makes mirrored handles. -/
theorem perform (hw : World.Mirrors M κ w w') {op op' : HandleOp} (hop : op.Mirrors κ op') :
    Mirrors M κ w w' (Act.perform host op) (Act.perform host op')
      fun κ' B B' => (Value.handle B).Mirrors κ' (.handle B') := by
  obtain ⟨hsane, hsane'⟩ := hop.sane
  refine sane ?_ (fun B hB => ((triple_perform host op).answer hw.tame.sound hB
      fun g hg => (hsane g hg).proper).sane hsane)
    fun B hB => ((triple_perform host op').answer hw.tame'.sound hB
      fun g hg => (hsane' g hg).proper).sane hsane'
  cases hop with
  | external name type => exact external hw name type
  | empty type => exact empty hw type
  | direct m => exact (direct hw m).imp fun _ _ _ _ hB => hB.1
  | exactInvoker type => exact invoker hw type false
  | genericInvoker type => exact invoker hw type true
  | basicInvoker type => exact basicInvoker hw type
  | asType hh type => exact asType hw (Value.mirrors_handle_iff.1 hh).1 type
  | insert hh pos hvs => exact insertArguments hw hh pos hvs
  | drop hh pos types => exact dropArguments hw hh pos types
  | dup hh src dst => exact dupArguments hw hh src dst
  | spread hh pos array count => exact spreadArguments hw hh pos array count
  | filter hh pos hf => exact filterArgument hw hh pos hf
  | collect hh pos hc => exact collectArguments hw hh pos hc
  | filterReturn hh hf => exact filterReturn hw hh hf
  | zeroReturn hh type => exact zeroReturn hw hh type
  | fold hh pos hc => exact foldArguments hw hh pos hc
  | permute hh type reorder => exact permuteArguments hw hh type reorder

/-- Direct handles that are made in both worlds are level. -/
theorem perform_direct (hw : World.Mirrors M κ w w') (m : Member) :
    Mirrors M κ w w' (Act.perform host (.direct m)) (Act.perform host (.direct m))
      fun κ' B B' => (Value.handle B).Mirrors κ' (.handle B') ∧ κ'.level B.id B'.id := by
  have hsane : ∀ {w : World σ}, w.Sound → ∀ B, (Act.perform host (.direct m) w).1 = .ok B →
    B.Sane :=
    fun hw B hB => ((triple_perform host (.direct m)).answer hw hB (List.forall_mem_nil _)).sane
      (List.forall_mem_nil _)
  exact ((direct hw m).and (hsane hw.tame.sound) (hsane hw.tame'.sound)).imp fun _ _ _ _ hB =>
    ⟨Value.mirrors_handle_iff.2 ⟨hB.1.1, hB.2⟩, hB.1.2⟩

end Mirrors

end Act

end HandleForms
