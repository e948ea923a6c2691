import HandleForms.Proofs.Run.Invocation

/-!
# What edits of the result compute

A form that passes the result of its base on, or answers a zero instead, evaluates the names of the
base where they are and then its own late names. So what the base yields comes first, and behind it
the call of the filter (`Exec.refinesFrom_filterReturn`) or nothing (`Exec.refinesFrom_zeroReturn`).
While the filter runs, the frames of the form still keep alive what the base computed.
-/

namespace HandleForms

variable {σ α β : Type}

namespace Exec

variable {host : Host σ} {re : Reentry σ} {held : List Value} {w w' : World σ}

/-! ## Ends -/

/-- What ends without a limit ends like what it is refined by. -/
theorem Ends.refined {x y : Exec σ α} {o : Outcome α} (hx : x.Ends w o w')
    (h : RefinesFrom held Eq x y w) (hlimits : ¬ o.Limited) : y.Ends w o w' := by
  obtain ⟨cost, hx⟩ := hx
  have hx := hx 0
  rcases h (cost + 0) with hlimited | ⟨o₁, o₂, rest, w₁, hx', -, hagree, hy⟩
  · rw [hx] at hlimited
    exact absurd hlimited hlimits
  · obtain ⟨rfl, hstate⟩ := Prod.mk.inj (hx'.symm.trans hx)
    obtain rfl : w₁ = w' := congrArg Execution.world hstate
    obtain rfl := hagree.eq
    exact hy

/-- What is refined takes its frames away. -/
theorem Refines.frames_eq {x : Exec σ α} {y : Exec σ β} {Q : α → β → Prop} {o : Outcome α}
    (h : Refines w.held Q x y) (hx : x.Ends w o w') (hlimits : ¬ o.Limited) :
    w'.frames = w.frames := by
  obtain ⟨cost, hx⟩ := hx
  have hx := hx 0
  rcases h w w.frames w.frames (cost + 0) rfl (.refl w.held w.frames) with
    hlimited | ⟨o₁, o₂, rest, w₁, hx', -⟩
  · rw [show w.withFrames w.frames = w from rfl, hx] at hlimited
    exact absurd hlimited hlimits
  · have hstate := (Prod.mk.inj (hx'.symm.trans hx)).2
    exact (congrArg (fun e => e.world.frames) hstate).symm

/-- A frame around a computation. -/
theorem Ends.withFrame {x : Exec σ α} {o : Outcome α} {F : Frame}
    (hx : x.Ends (w.withFrames (F :: w.frames)) o w') :
    (Exec.withFrame F x).Ends w o (w'.withFrames w.frames) := by
  obtain ⟨cost, hx⟩ := hx
  refine ⟨cost, fun spare => ?_⟩
  show ((x ⟨w.withFrames (F :: w.frames), cost + spare, none⟩).1, _) = _
  rw [hx]

/-- What is made of the answer needs no frame. -/
theorem withFrame_bind_pure (F : Frame) (x : Exec σ α) (g : α → β) :
    (withFrame F x >>= fun a => pure (g a)) = withFrame F (x >>= fun a => pure (g a)) := by
  funext e
  obtain ⟨E, hE⟩ : ∃ E : Execution σ,
      E = { e with world := { e.world with frames := F :: e.world.frames } } := ⟨_, rfl⟩
  have hframe : ∀ {γ : Type} (y : Exec σ γ), withFrame F y e =
      ((y E).1, { (y E).2 with world := { (y E).2.world with frames := e.world.frames } }) := by
    intro γ y
    rw [hE]
    rfl
  rw [bind_apply, hframe, hframe, bind_apply]
  cases (x E).1 <;> rfl

/-- A frame of values that are alive anyway makes no difference to a call. -/
theorem refines_framed_call (hre : re.Blind) {d d' : Nat} (hle : d ≤ d') (h : Handle)
    {us args : List Value} (hus : ∀ u ∈ us, u ∈ .handle h :: args ∨ u.Within held) :
    Refines held Eq (withFrame ⟨[], us⟩ (call host re d h args)) (call host re d' h args) := by
  rw [call, ← withFrame_bind_pure]
  exact ((refines_framed hre d h hus).eq_trans (refines_invokeHandle hre held hle h args)).bind
    fun v _ hv => hv ▸ .pure rfl

/-- As many values are computed as there are names. -/
theorem length_of_loop {step : Name Form → List Value → Exec σ Value} {names : List (Name Form)}
    {values us : List Value} {e : Execution σ} (h : (loop step names values e).1 = .ok us) :
    us.length = values.length + names.length := by
  induction names generalizing values e with
  | nil =>
    obtain rfl : values = us := Except.ok.inj h
    rfl
  | cons n names ih =>
    rw [loop_cons] at h
    obtain ⟨v, -, h⟩ := ok_of_bind h
    rw [ih h, List.length_append, List.length_cons, List.length_cons, List.length_nil]
    omega

end Exec

namespace Adaptation

variable {A : Adaptation} {base : Form} {held args : List Value}

/-- The names of the base stay where they are. -/
structure Stays (A : Adaptation) (base : Form) : Prop where
  length : A.params.length = base.arity
  early : A.early = []
  place : ∀ i, A.place i = i

/-- The late names come behind those of the base. -/
theorem Stays.names (h : A.Stays base) :
    A.names base = A.params ++ (base.names.drop base.arity).map (A.moved base) ++ A.late := by
  rw [Adaptation.names, h.early, List.append_nil]

theorem Stays.length_names (h : A.Stays base) (hbase : base.Editable) :
    (A.params ++ (base.names.drop base.arity).map (A.moved base)).length = base.size := by
  have hle := hbase.wellFormed.arity_le
  unfold Form.size at hle ⊢
  rw [List.length_append, List.length_map, List.length_drop, h.length]
  omega

theorem Stays.supplies (h : A.Stays base) (hargs : args.length + 1 = base.arity) :
    A.Supplies base held (.void :: args) (.void :: args) where
  length := by rw [h.early, h.length, ← hargs]; rfl
  length' := hargs
  place i _ _ := by rw [h.place]
  values _ hv := .inl hv
  values' _ hv := .inl hv

theorem stays_filteringReturn (hbase : base.Editable) (g : CarrierGrowth) (filter : Signature) :
    (filteringReturn base g filter).Stays base := by
  refine ⟨?_, rfl, fun _ => rfl⟩
  have hle := hbase.wellFormed.arity_le
  have hpos := hbase.arity_pos
  unfold Form.size at hle
  simp only [filteringReturn, List.length_cons, List.length_drop, List.length_take]
  omega

theorem stays_zeroingReturn (hbase : base.Editable) (type : BasicType) :
    (zeroingReturn base type).Stays base := by
  refine ⟨?_, rfl, fun _ => rfl⟩
  have hle := hbase.wellFormed.arity_le
  unfold Form.size at hle
  simp only [zeroingReturn, List.length_take]
  omega

end Adaptation

namespace Exec

variable {host : Host σ} {re : Reentry σ} {held : List Value} {w w' : World σ} {base f : Form}
  {A : Adaptation} {fields : List BasicType} {bound args : List Value}
  {X : Nat → Exec σ Value} {d d' : Nat}

/-- The late names come behind all others. -/
theorem body_late (hA : A.Stays base) (run : Runner σ) (bound args : List Value) (id : Nat) :
    body host re run (A.form base id) bound args = (do
      let values ← loop (fieldStep (apply host re run) bound)
        ((base.names.drop base.arity).map (A.moved base)) (.void :: args)
      loop (fieldStep (apply host re run) bound) A.late values >>= resultOf (A.form base id)) := by
  have hnames : (A.form base id).names.drop (A.form base id).arity =
      (base.names.drop base.arity).map (A.moved base) ++ A.late := by
    show (A.names base).drop A.params.length = _
    rw [hA.names, List.append_assoc, List.drop_left]
  rw [body, hnames, loop_append, bind_assoc]

/-- What the names of a form came to, and the result among it. -/
structure Computed (base : Form) (us : List Value) (r : Value) : Prop where
  length : us.length = base.size
  void : base.result = none → r = .void
  value : ∀ i, base.result = some i → us[i]? = some r

theorem exists_computed (hbase : base.Editable) {us : List Value} (hlength : us.length = base.size) :
    ∃ r, Computed base us r := by
  cases hresult : base.result with
  | none => exact ⟨.void, hlength, fun _ => rfl, fun i hi => absurd (hresult ▸ hi) (by simp)⟩
  | some i =>
    have hlt : i < us.length := hlength ▸ hbase.wellFormed.result_lt i hresult
    refine ⟨us[i], hlength, fun h => absurd (hresult ▸ h) (by simp), fun k hk => ?_⟩
    obtain rfl := Option.some.inj (hresult.symm.trans hk)
    exact List.getElem?_eq_getElem hlt

theorem Computed.resultOf {us : List Value} {r : Value} (h : Computed base us r) :
    (Exec.resultOf base us : Exec σ Value) = pure r := by
  unfold Exec.resultOf
  cases hresult : base.result with
  | none => rw [h.void hresult]
  | some i =>
    simp only [valueAt, h.value i hresult]
    rfl

/-- The names of the base come to what the base computes, and what it yields is the result among
it. -/
theorem refinesFrom_names (hre : re.Blind) (bound' : List Value) (hbase : base.Carrier fields)
    (hcarries : A.Carries base fields) (hfits : A.Fits base) (hA : A.Stays base)
    (hbound : ∀ i < fields.length, bound'[i]? = bound[i]?) (hargs : args.length + 1 = base.arity)
    (hw : w.held = held) (hlt : d < d') (hX : Yields host re held base bound args X) :
    RefinesFrom held (fun us r => Computed base us r ∧ ∃ w', (loop (fieldStep (apply host re
        (runForm host re d)) bound) (base.names.drop base.arity) (.void :: args)).Ends w (.ok us) w')
      (loop (fieldStep (apply host re (runForm host re d)) bound')
        ((base.names.drop base.arity).map (A.moved base)) (.void :: args)) (X d') w := by
  obtain ⟨L, hL⟩ : ∃ L, L = loop (fieldStep (apply host re (runForm host re d)) bound)
      (base.names.drop base.arity) (.void :: args) := ⟨_, rfl⟩
  rw [← hL]
  have hmoved : Refines held Eq (loop (fieldStep (apply host re (runForm host re d)) bound')
      ((base.names.drop base.arity).map (A.moved base)) (.void :: args)) L := by
    rw [hL]
    refine (equates_moved hre d hbase hcarries hfits hbound (hA.supplies hargs)).le.imp fun us vs => ?_
    rintro ⟨es, rfl, rfl⟩
    rfl
  have hbody : Refines held Eq (L >>= resultOf base) (X d') := hL ▸ hX d d' hlt
  have hbody := hbody.refinesFrom hw
  intro fuel
  rcases hmoved.refinesFrom hw fuel with hlimited | ⟨o, o', rest, w', hx, hheld, hagree, hy⟩
  · exact .inl hlimited
  obtain rfl := hagree.eq
  cases o with
  | error s =>
    by_cases hs : Outcome.Limited (.error s : Outcome Value)
    · refine .inl ?_
      rw [hx]
      simpa [Outcome.Limited] using hs
    · exact .inr ⟨_, _, rest, w', hx, hheld, .stop s, hy.bind_stop.refined hbody hs⟩
  | ok us =>
    have hlength : us.length = base.size := by
      have hle := hbase.editable.wellFormed.arity_le
      unfold Form.size at hle ⊢
      rw [length_of_loop (congrArg Prod.fst hx), List.length_cons, List.length_map, List.length_drop]
      omega
    obtain ⟨r, hcomputed⟩ := exists_computed hbase.editable hlength
    have hends : (L >>= resultOf base).Ends w (.ok r) w' := by
      refine hy.bind ?_
      rw [hcomputed.resultOf]
      exact ⟨0, fun spare => by rw [Nat.zero_add]; rfl⟩
    exact .inr ⟨_, _, rest, w', hx, hheld, .ok ⟨hcomputed, w', hy⟩,
      hends.refined hbody (by simp [Outcome.Limited])⟩

/-! ## The two edits -/

/-- The late names of a filter: the read of the field that it is in, and its call. -/
theorem loop_filteringReturn {run : Runner σ} {g : CarrierGrowth} {sig : Signature} {F : Handle}
    {us rs : List Value} (hlength : us.length = base.size)
    (hread : bound.length = g.old.fields.length) (hbasic : F.type.basic = sig.basic)
    (hrs : base.result.toList.map (fun i => us[i]?) = rs.map some) :
    loop (fieldStep (apply host re run) (bound ++ [.handle F]))
        (Adaptation.filteringReturn base g sig).late us = (do
      let v ← withFrame ⟨[], us ++ [.handle F]⟩ (invokeHandle run F rs)
      return us ++ [.handle F, v]) := by
  have hvalues : (base.size :: base.result.toList).map (fun i => (us ++ [Value.handle F])[i]?) =
      (.handle F :: rs).map some := by
    rw [List.map_cons, List.map_cons, ← hlength, List.getElem?_concat_length, ← hrs]
    refine congrArg _ (List.map_congr_left fun i hi => List.getElem?_append_left ?_)
    have hmem : us[i]? ∈ rs.map some := hrs ▸ List.mem_map_of_mem hi
    obtain ⟨v, -, hv⟩ := List.mem_map.1 hmem
    exact (List.getElem?_eq_some_iff.1 hv.symm).1
  show loop _ [g.readOf 0, .call sig (base.size :: base.result.toList)] us = _
  rw [loop_cons, fieldStep_readOf hread, pure_bind, loop_cons, fieldStep_call hbasic hvalues]
  refine bind_congr fun v => ?_
  rw [loop, List.append_assoc]
  rfl

/-- The late name of a zero result: the zero, when there is one. -/
theorem loop_zeroingReturn {run : Runner σ} {type : BasicType} {us : List Value} {id : Nat}
    (hA : (Adaptation.zeroingReturn base type).Stays base) (hbase : base.Editable)
    (hlength : us.length = base.size) :
    (loop (fieldStep (apply host re run) bound) (Adaptation.zeroingReturn base type).late us >>=
      resultOf ((Adaptation.zeroingReturn base type).form base id)) = pure (.zero type) := by
  have hform : ∀ r, (Adaptation.zeroingReturn base type).result = some r →
      ((Adaptation.zeroingReturn base type).form base id).result =
        Form.keptResult ((Adaptation.zeroingReturn base type).names base) r :=
    fun r hr => by rw [Adaptation.form, hr]; rfl
  by_cases hvoid : type = .void
  · subst hvoid
    have hlate : (Adaptation.zeroingReturn base .void).late = [] := rfl
    rw [hlate, loop, pure_bind, resultOf, hform none rfl]
    rfl
  · have hlate : (Adaptation.zeroingReturn base type).late =
        [.apply (.intrinsic (.zero type)) []] := if_neg hvoid
    have hzero : fieldStep (apply host re run) bound (.apply (.intrinsic (.zero type)) []) us =
        pure (.zero type) := rfl
    have hname : ((Adaptation.zeroingReturn base type).names base)[base.size]? =
        some (.apply (.intrinsic (.zero type)) []) := by
      rw [hA.names, List.getElem?_append_right (Nat.le_of_eq (hA.length_names hbase)),
        hA.length_names hbase, Nat.sub_self, hlate]
      rfl
    rw [hlate, loop_cons, hzero, pure_bind, loop, pure_bind,
      resultOf_kept (hform _ (congrArg some (if_neg hvoid))) hname
        (by rw [← hlength, List.getElem?_concat_length])]
    exact congrArg pure (if_neg hvoid)

/-- What is passed on: a result, unless the type has none. -/
def results (type : Signature) (r : Value) : List Value :=
  if type.basicRet = .void then [] else [r]

/-- A form that passes the result of its base on yields what the base does, and calls the filter
behind it, among what the base has computed. -/
theorem refinesFrom_filterReturn {F : Handle} {H : Signature} {K : Value → Exec σ Value}
    (hre : re.Blind) (hbase : base.Carrier fields) (hserves : base.Serves H)
    (hf : (Edit.filterReturn F.type.basicRet).Answers base f)
    (hparams : F.type.basicParams = if H.basicRet = .void then [] else [H.basicRet])
    (hlen : bound.length = fields.length) (hargs : args.length = H.arity) (hw : w.held = held)
    (hlt : d < d') (hX : Yields host re held base bound args X)
    (hK : ∀ us r w₁ w', Computed base us r → (loop (fieldStep (apply host re (runForm host re d))
      bound) (base.names.drop base.arity) (.void :: args)).Ends w (.ok us) w₁ → w'.held = held →
        RefinesFrom held Eq (withFrame ⟨[], us ++ [.handle F]⟩ (call host re d F (results H r)))
          (K r) w') :
    RefinesFrom held Eq (body host re (runForm host re d) f (bound ++ [.handle F]) args)
      (X d' >>= K) w := by
  obtain ⟨g, A, id, hadapts, hg, rfl⟩ := hf.derives.resolve_left fun h => nomatch h.1
  have hcarries := hadapts.carries hbase hg nofun
  have hfits := hadapts.fits hbase.editable hg
  have hread : bound.length = g.old.fields.length := hlen.trans (by rw [hg.old, hbase.fields_eq])
  cases hadapts with
  | @filterReturn _ sig hfilter =>
  obtain ⟨hsig, hsigRet⟩ := Edit.Adapts.basicParams_ofBasic hfilter
  have hbasic : sig.basic = F.type.basic := by
    refine Edit.Adapts.basic_eq (hsig.trans ?_) hsigRet
    rw [hserves.map_result, hserves.ret, hparams]
  have hA := Adaptation.stays_filteringReturn hbase.editable g sig
  have hnames := refinesFrom_names hre (bound ++ [.handle F]) hbase hcarries hfits hA
    (fun i hi => List.getElem?_append_left (by omega)) (by rw [hargs, hserves.arity_eq]) hw hlt hX
  rw [body_late hA]
  refine hnames.bind ?_
  rintro us r w' ⟨hcomputed, w₁, hends⟩ hw' -
  have hlength := hcomputed.length
  have hrs : base.result.toList.map (fun i => us[i]?) = (results H r).map some := by
    rw [results, ← hserves.map_result r]
    cases hresult : base.result with
    | none => rfl
    | some i => exact congrArg (fun v => [v]) (hcomputed.value i hresult)
  have hcall : ((Adaptation.filteringReturn base g sig).names base)[base.size + 1]? =
      some (.call sig (base.size :: base.result.toList)) := by
    rw [hA.names, List.getElem?_append_right
      (by rw [hA.length_names hbase.editable]; exact Nat.le_succ _), hA.length_names hbase.editable,
      Nat.add_sub_cancel_left]
    rfl
  have hresult : ∀ v, (resultOf ((Adaptation.filteringReturn base g sig).form base id)
      (us ++ [.handle F, v]) : Exec σ Value) =
        pure (if F.type.basicRet = .void then .void else v) := by
    intro v
    rw [← hsigRet, ← Name.type_call]
    refine resultOf_kept rfl hcall ?_
    simp [← hlength]
  rw [loop_filteringReturn hlength hread hbasic.symm hrs, bind_assoc]
  simp only [pure_bind, hresult]
  rw [withFrame_bind_pure]
  exact hK us r w₁ w' hcomputed hends hw'

/-- What the base has computed stays the same, so the call of the filter is among the same. -/
theorem refinesFrom_filterReturn_kept {F : Handle} {H : Signature}
    (hre : re.Blind) (hbase : base.Carrier fields) (hserves : base.Serves H)
    (hf : (Edit.filterReturn F.type.basicRet).Answers base f)
    (hparams : F.type.basicParams = if H.basicRet = .void then [] else [H.basicRet])
    (hlen : bound.length = fields.length) (hargs : args.length = H.arity) (hw : w.held = held)
    (hlt : d < d') (hX : Yields host re held base bound args X) :
    ∃ kept, RefinesFrom held Eq (body host re (runForm host re d) f (bound ++ [.handle F]) args)
      (X d' >>= fun r => withFrame ⟨[], kept⟩ (call host re d' F (results H r))) w := by
  obtain ⟨us₀, hus₀⟩ : ∃ us₀, ∀ us w₁, (loop (fieldStep (apply host re (runForm host re d)) bound)
      (base.names.drop base.arity) (.void :: args)).Ends w (.ok us) w₁ → us = us₀ := by
    by_cases hends : ∃ us w₁, (loop (fieldStep (apply host re (runForm host re d)) bound)
        (base.names.drop base.arity) (.void :: args)).Ends w (.ok us) w₁
    · obtain ⟨us₀, w₀, hends⟩ := hends
      exact ⟨us₀, fun us w₁ h => Except.ok.inj (h.unique hends).1⟩
    · exact ⟨[], fun us w₁ h => absurd ⟨us, w₁, h⟩ hends⟩
  refine ⟨us₀ ++ [.handle F], refinesFrom_filterReturn hre hbase hserves hf hparams hlen hargs hw hlt
    hX fun us r w₁ w' _ hends hw' => ?_⟩
  rw [hus₀ us w₁ hends]
  exact ((refines_call hre held (Nat.le_of_lt hlt) F _).withFrame (.refl held _)).refinesFrom hw'

/-- A form that answers a zero instead of the result of its base yields what the base does, and then
the zero. -/
theorem refinesFrom_zeroReturn {type : BasicType} {H : Signature} (hre : re.Blind)
    (hbase : base.Carrier fields) (hserves : base.Serves H)
    (hf : (Edit.zeroReturn type).Answers base f) (hargs : args.length = H.arity)
    (hw : w.held = held) (hlt : d < d') (hX : Yields host re held base bound args X) :
    RefinesFrom held Eq (body host re (runForm host re d) f bound args)
      (X d' >>= fun _ => pure (.zero type)) w := by
  obtain ⟨g, A, id, hadapts, hg, rfl⟩ := hf.derives.resolve_left fun h => nomatch h.1
  have hcarries := hadapts.carries hbase hg nofun
  have hfits := hadapts.fits hbase.editable hg
  cases hadapts with
  | zeroReturn =>
  have hA := Adaptation.stays_zeroingReturn hbase.editable type
  have hnames := refinesFrom_names hre bound hbase hcarries hfits hA (fun i hi => rfl)
    (by rw [hargs, hserves.arity_eq]) hw hlt hX
  rw [body_late hA]
  refine hnames.bind ?_
  rintro us r w' ⟨hcomputed, -⟩ hw' -
  rw [loop_zeroingReturn hA hbase.editable hcomputed.length]
  have hpure : Refines held Eq (pure (.zero type) : Exec σ Value) (pure (.zero type)) := .pure rfl
  exact hpure.refinesFrom hw'

end Exec

end HandleForms
