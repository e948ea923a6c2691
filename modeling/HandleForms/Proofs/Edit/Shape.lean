import HandleForms.Proofs.Edit.Fits

/-!
# The shape of a derived form

The shape of a form is what its callers see: the types of its parameters, that of its result and the
fields of the carrier in parameter 0. `Edit.reshape` says what an edit does to a shape, without a
word about names. `Edit.Adapts` lists for each edit when it is accepted and by which adaptation it
is carried out; what it derives is then well-formed and has the new shape (`Adapts.derive_eq`,
`Adapts.wellFormed`, `Adapts.shape_eq`).
-/

namespace HandleForms

/-- What the callers of a form see. -/
structure Form.Shape where
  params : List BasicType
  ret : BasicType
  /-- The fields of the carrier in parameter 0, when it is one. -/
  fields : Option (List BasicType)
  deriving DecidableEq

namespace Form

/-- The shape of a form. -/
def shape (f : Form) : Shape := ⟨f.params, f.ret, (f.species? 0).map Species.fields⟩

/-- The fields of the carrier in parameter 0; a plain reference has none. -/
def fields (f : Form) : List BasicType := f.shape.fields.getD []

/-- One more field of the carrier. -/
def Shape.grow (s : Shape) (field : BasicType) : Shape :=
  { s with fields := some (s.fields.getD [] ++ [field]) }

theorem shape_eq_of {f : Form} {s : Shape} (hparams : f.params = s.params) (hret : f.ret = s.ret)
    (hfields : (f.species? 0).map Species.fields = s.fields) : f.shape = s := by
  unfold shape
  rw [hparams, hret, hfields]

theorem carrier_eq {f : Form} (h : f.param? 0 = some .ref) :
    ∃ s, f.carrier = .ok s ∧ s.fields = f.fields := by
  refine ⟨(f.species? 0).getD SpeciesTable.top, ?_, ?_⟩
  · simp [carrier, paramType_eq_ok_iff.2 h, pure, Except.pure]
  · unfold fields shape
    cases f.species? 0 <;> rfl

end Form

namespace Signature

@[simp] theorem basicParams_basic (s : Signature) : s.basic.basicParams = s.basicParams := by
  simp [basic, basicParams]

@[simp] theorem basicRet_basic (s : Signature) : s.basic.basicRet = s.basicRet := by
  simp [basic, basicRet]

@[simp] theorem arity_basic (s : Signature) : s.basic.arity = s.arity := by
  simp [basic, arity]

theorem ne_void_of_mem_basicParams {s : Signature} {ts : List BasicType} (h : s.basicParams = ts) :
    ∀ t ∈ ts, t ≠ .void := by
  subst h
  intro t ht
  obtain ⟨u, hu, rfl⟩ := List.mem_map.1 ht
  exact mt (Ty.basicType_eq_void_iff u).1 (s.params_ne_void u hu)

theorem isBasic_basic (s : Signature) : s.basic.isBasic = true := by
  have htype : ∀ t : Ty, (!t.basic.isReference || t.basic.isObject) = true ∧
      t.basic.isSubword = false := by
    intro t
    cases t <;> exact ⟨rfl, rfl⟩
  simp [isBasic, isErased, types, basic, htype]

end Signature

namespace Edit

/-- What an edit does to the shape of a form. -/
def reshape (s : Form.Shape) : Edit → Form.Shape
  | bind pos type =>
    if pos = 0 then { s with fields := some [.ref] }
    else { s with params := s.params.eraseIdx pos }.grow type
  | add pos type => { s with params := s.params.insertIdx pos type }
  | dup _ dst => { s with params := s.params.eraseIdx dst }
  | spread pos _ count =>
    { s with params := s.params.take pos ++ .ref :: s.params.drop (pos + count) }
  | filter pos type => { s with params := s.params.set pos type }.grow .ref
  | collect pos collector =>
    { s with
      params := s.params.take pos ++ collector.basicParams ++
        s.params.drop (pos + resultArity (collector.basicRet == BasicType.void)) }.grow .ref
  | filterReturn type => { s with ret := type }.grow .ref
  | zeroReturn type => { s with ret := type }
  | fold pos drop _ =>
    { s with params := if drop then s.params else s.params.eraseIdx pos }.grow .ref
  | permute skip reorder => { s with params := permuteTypes skip reorder s.params }

/-- The edit is accepted and carried out by the adaptation. -/
inductive Adapts (base : Form) (g : CarrierGrowth) : Edit → Adaptation → Prop
  | bind {pos : Nat} {field : BasicType} (hpos : 0 < pos)
      (htype : base.param? pos = some field) : Adapts base g (bind pos field) (.binding base g pos)
  /-- Only a plain reference can be bound. -/
  | bindHandle (hplain : base.fields = []) : Adapts base g (.bind 0 .ref) (.bindingHandle base g)
  | add {pos : Nat} {type : BasicType} (hpos : 0 < pos) (hle : pos ≤ base.arity)
      (hvoid : type ≠ .void) (hslots : base.slots + type.slots ≤ Signature.maxSlots) :
      Adapts base g (add pos type) (.adding base pos type)
  | dup {src dst : Nat} (hpos : 0 < src) (hlt : src < dst) (hdst : dst < base.arity)
      (htype : base.param? dst = base.param? src) :
      Adapts base g (dup src dst) (.merging base src dst)
  | spread {pos count : Nat} {array element : Ty} (harray : array.component? = some element)
      (hpos : 0 < pos) (hle : pos + count ≤ base.arity)
      (htypes : ∀ k < count, base.param? (pos + k) = some element.basicType)
      (hslots : BasicType.slotSum (base.params.take pos ++
        ([.ref] ++ base.params.drop (pos + count))) ≤ Signature.maxSlots) :
      Adapts base g (spread pos array count) (.spreading base pos element.erase count)
  | filter {pos : Nat} {type ret : BasicType} {check : Signature} (hpos : 0 < pos)
      (htype : base.param? pos = some ret) (hfilter : Signature.ofBasic ret [type] = .ok check)
      (hslots : BasicType.slotSum (base.params.take pos ++
        ([type] ++ base.params.drop (pos + 1))) ≤ Signature.maxSlots) :
      Adapts base g (filter pos type) (.combining base g pos check false false)
  | collect {pos : Nat} {collector : Signature} {drop : Bool} (hpos : 0 < pos)
      (hdrop : drop = (collector.basicRet == .void)) (hle : pos + resultArity drop ≤ base.arity)
      (hret : drop = false → base.param? pos = some collector.basicRet)
      (hslots : BasicType.slotSum (base.params.take pos ++ (collector.basicParams ++
        base.params.drop (pos + resultArity drop))) ≤ Signature.maxSlots) :
      Adapts base g (collect pos collector) (.combining base g pos collector.basic false drop)
  | filterReturn {type : BasicType} {filter : Signature}
      (hfilter : Signature.ofBasic type (base.result.toList.map fun _ => base.ret) = .ok filter) :
      Adapts base g (filterReturn type) (.filteringReturn base g filter)
  | zeroReturn {type : BasicType} : Adapts base g (zeroReturn type) (.zeroingReturn base type)
  | fold {pos : Nat} {combiner : Signature} {drop : Bool} (hpos : 0 < pos)
      (hdrop : drop = (combiner.basicRet == .void)) (hle : pos + resultArity drop ≤ base.arity)
      (hret : drop = false → base.param? pos = some combiner.basicRet)
      (hkept : combiner.basicParams <+: base.params.drop (pos + resultArity drop)) :
      Adapts base g (fold pos drop combiner) (.combining base g pos combiner.basic true drop)
  | permute {reorder : List Nat} (hlen : 1 + reorder.length = base.arity)
      (hperm : reorder.Perm (List.range reorder.length)) :
      Adapts base g (permute 1 reorder) (.permuting base 1 reorder)

/-- The carrier of the base before and after the edit, if the edit makes it grow. -/
structure Grows (base : Form) (e : Edit) (g : CarrierGrowth) : Prop where
  old : g.old.fields = base.fields
  appends : ∀ field, e.field? = some field → g.Appends field

namespace Adapts

open Transaction.Layout (getElem?_length_add)

variable {base : Form} {g : CarrierGrowth} {e : Edit} {A : Adaptation}

theorem basicParams_ofBasic {ret : BasicType} {params : List BasicType} {s : Signature}
    (h : Signature.ofBasic ret params = .ok s) :
    s.basicParams = params ∧ s.basicRet = ret := by
  unfold Signature.ofBasic Signature.ofTypes at h
  split at h
  · cases h
  · split at h
    · obtain rfl := Except.ok.inj h
      simp [Signature.basicParams, Signature.basicRet, Function.comp_def]
    · cases h

theorem isBasic_ofBasic {ret : BasicType} {params : List BasicType} {s : Signature}
    (h : Signature.ofBasic ret params = .ok s) : s.isBasic = true := by
  have htype : ∀ t : BasicType, (!t.ty.isReference || t.ty.isObject) = true ∧
      t.ty.isSubword = false := by
    intro t
    cases t <;> exact ⟨rfl, rfl⟩
  unfold Signature.ofBasic Signature.ofTypes at h
  split at h
  · cases h
  · split at h
    · obtain rfl := Except.ok.inj h
      simp [Signature.isBasic, Signature.isErased, Signature.types, htype]
    · cases h

theorem ne_void_of_drop {type : BasicType} {drop : Bool} (hdrop : drop = (type == .void))
    (hfalse : drop = false) : type ≠ .void := by
  simpa using hdrop.symm.trans hfalse

/-- The adaptation of an accepted edit fits. -/
theorem fits (h : Adapts base g e A) (hbase : base.Editable) (hg : Grows base e g) :
    A.Fits base := by
  cases h with
  | bind hpos htype =>
    have hlt := (List.getElem?_eq_some_iff.1 htype).1
    rw [Form.length_params hbase.wellFormed] at hlt
    exact Adaptation.fits_binding hbase hpos hlt htype (hg.appends _ rfl)
  | bindHandle hplain => exact Adaptation.fits_bindingHandle hbase (hg.appends _ rfl)
  | add hpos hle hvoid hslots => exact Adaptation.fits_adding hbase hle hslots
  | dup hpos hlt hdst htype => exact Adaptation.fits_merging hbase hlt hdst htype
  | spread harray hpos hle htypes hslots =>
    exact Adaptation.fits_spreading hbase hle hslots (by simpa using htypes)
  | filter hpos htype hfilter hslots =>
    obtain ⟨hparams, hret⟩ := basicParams_ofBasic hfilter
    have hlt := (List.getElem?_eq_some_iff.1 htype).1
    rw [Form.length_params hbase.wellFormed] at hlt
    refine Adaptation.fits_combining hbase hpos hlt ?_ nofun (fun _ => by rw [htype, hret])
      (hg.appends _ rfl)
    rw [Adaptation.combinationParams, if_neg nofun, hparams]
    exact hslots
  | collect hpos hdrop hle hret hslots =>
    exact Adaptation.fits_combining hbase hpos hle
      (by simpa [Adaptation.combinationParams] using hslots) nofun (by simpa using hret)
      (hg.appends _ rfl)
  | filterReturn hfilter =>
    exact Adaptation.fits_filteringReturn hbase (hg.appends _ rfl) (basicParams_ofBasic hfilter).1
  | zeroReturn => exact Adaptation.fits_zeroingReturn hbase
  | @fold pos combiner drop hpos hdrop hle hret hkept =>
    refine Adaptation.fits_combining hbase hpos hle ?_ (fun _ => by simpa using hkept)
      (by simpa using hret) (hg.appends _ rfl)
    have hsum := BasicType.slotSum_take_drop base.params (Nat.le_add_right pos (resultArity drop))
    have hslots := hbase.wellFormed.slots_le
    rw [Adaptation.combinationParams, if_pos rfl, List.nil_append, BasicType.slotSum_append]
    unfold Form.slots at hslots
    omega
  | permute hlen hperm => exact Adaptation.fits_permuting hbase hlen hperm

/-- An accepted edit derives the form of its adaptation. -/
theorem derive_eq (h : Adapts base g e A) (hbase : base.Editable) (hg : Grows base e g) (id : Nat) :
    e.derive base (e.field?.map fun _ => g) id = .ok (A.form base id) := by
  have hverified : Form.verified (A.form base id) = .ok (A.form base id) :=
    Form.verified_of_wellFormed ((h.fits hbase hg).wellFormed hbase.wellFormed hbase.made id)
  have href := hbase.paramType_zero
  have hwf := hbase.wellFormed
  have hlen := Form.length_params hwf
  have hmax := hbase.arity_le
  cases h with
  | bind hpos htype =>
    have hlt := (List.getElem?_eq_some_iff.1 htype).1
    have hderive := deriveBind_eq hwf hpos (hlen ▸ hlt) href (Form.paramType_eq_ok_iff.2 htype)
      (hg.appends _ rfl) id
    simp [derive, field?, hderive, hverified]
  | bindHandle hplain =>
    have htop : g.old.isTop = true := by simp [Species.isTop, hg.old, hplain]
    have hderive := deriveBind_zero_eq hwf hbase.arity_pos href htop (hg.appends _ rfl) id
    simp [derive, field?, hderive, hverified]
  | add hpos hle hvoid hslots => simp [derive, deriveAdd_eq hwf hle, hverified]
  | @dup src dst hpos hlt hdst htype =>
    have htype : base.paramType dst = base.paramType src := by rw [Form.paramType, htype, Form.paramType]
    simp [derive, deriveDup_eq hwf hlt hdst htype, hverified]
  | spread harray hpos hle htypes hslots =>
    have hderive := deriveSpread_eq hwf hle (fun k hk =>
      Form.paramType_eq_ok_iff.2 ((htypes k hk).trans (congrArg some (Ty.basicType_erase _).symm)))
      id
    simp [derive, harray, hderive, hverified]
  | @filter pos type ret check hpos htype hfilter hslots =>
    have hlt := (List.getElem?_eq_some_iff.1 htype).1
    have hret := (basicParams_ofBasic hfilter).2
    have hparam := Form.paramType_eq_ok_iff.2 htype
    have hvoid : ret ≠ .void := hbase.args _ (List.mem_of_getElem? htype)
    have hderive : deriveCombination base g pos check false false id = _ :=
      deriveCombination_eq hwf hpos (by omega) (by simpa [resultArity] using hlen ▸ hlt)
        (by simp) (isBasic_ofBasic hfilter) href (fun _ => ⟨hret ▸ hvoid, hret ▸ hparam⟩)
        (hg.appends _ rfl) id
    simp [derive, field?, hparam, hfilter, hderive, hverified]
  | @collect pos collector drop hpos hdrop hle hret hslots =>
    have hderive : deriveCombination base g pos collector.basic false drop id = _ :=
      deriveCombination_eq hwf hpos (by omega) hle (by simp) (Signature.isBasic_basic _) href
        (fun hfalse => ⟨by simpa using ne_void_of_drop hdrop hfalse, by
          simpa using Form.paramType_eq_ok_iff.2 (hret hfalse)⟩) (hg.appends _ rfl) id
    simp [derive, field?, ← hdrop, hderive, hverified]
  | filterReturn hfilter =>
    have hderive := deriveFilterReturn_eq hwf hbase.arity_pos href (hg.appends _ rfl) hfilter id
    simp [derive, field?, hderive, hverified]
  | zeroReturn => simp [derive, deriveZeroReturn_eq hwf, hverified]
  | @fold pos combiner drop hpos hdrop hle hret hkept =>
    have hfit := hkept.length_le
    rw [Signature.length_basicParams, List.length_drop] at hfit
    have hderive : deriveCombination base g pos combiner.basic true drop id = _ :=
      deriveCombination_eq hwf hpos (by omega) hle (fun _ => by rw [Signature.arity_basic]; omega)
        (Signature.isBasic_basic _) href
        (fun hfalse => ⟨by simpa using ne_void_of_drop hdrop hfalse, by
          simpa using Form.paramType_eq_ok_iff.2 (hret hfalse)⟩) (hg.appends _ rfl) id
    simp [derive, field?, hderive, hverified]
  | permute hlen hperm => simp [derive, derivePermute_eq hwf hlen, hverified]

theorem insertIdx_eq {α : Type} {ts : List α} {t : α} {pos : Nat} (h : pos ≤ ts.length) :
    ts.insertIdx pos t = ts.take pos ++ t :: ts.drop pos := by
  induction pos generalizing ts with
  | zero => rfl
  | succ pos ih =>
    cases ts with
    | nil => simp at h
    | cons u ts => simpa using ih (by simpa using h)

/-- The form that an accepted edit derives has the shape that the edit says. -/
theorem shape_eq (h : Adapts base g e A) (hbase : base.Editable) (hg : Grows base e g) (id : Nat) :
    (A.form base id).shape = e.reshape base.shape := by
  have hfits := h.fits hbase hg
  have hkept := hfits.ret_form hbase.wellFormed hbase.made
  have hlen := Form.length_params hbase.wellFormed
  -- Parameter 0 stays or becomes the extended carrier.
  have hsame : A.params[0]? = base.names[0]? → (A.form base id).species? 0 = base.species? 0 := by
    intro hzero
    have hn := List.getElem?_eq_getElem (Nat.lt_of_lt_of_le hbase.arity_pos hbase.wellFormed.arity_le)
    rw [A.species?_form (hzero.trans hn) id, Form.species?, hn]
    rfl
  have hzero : ∀ {pos : Nat}, 0 < pos → ∀ rest, (base.names.take pos ++ rest)[0]? = base.names[0]? := by
    intro pos hpos rest
    have := Nat.lt_of_lt_of_le hbase.arity_pos hbase.wellFormed.arity_le
    unfold Form.size at this
    rw [List.getElem?_append_left (by simp; omega), List.getElem?_take_of_lt hpos]
  have hgrown : ∀ field, e.field? = some field → A.params[0]? = some (.carrier g.new) →
      ((A.form base id).species? 0).map Species.fields = some (base.fields ++ [field]) := by
    intro field hfield hzero
    have happends : g.new.fields = g.old.fields ++ [field] := hg.appends field hfield
    rw [A.species?_form hzero id, ← hg.old, ← happends]
    rfl
  have hparams : (A.form base id).params = A.params.map Name.type := A.params_form id
  cases h with
  | @bind pos field hpos htype =>
    have hlt := (List.getElem?_eq_some_iff.1 htype).1
    rw [hlen] at hlt
    rw [reshape, if_neg (Nat.ne_of_gt hpos)]
    refine Form.shape_eq_of ?_ (hkept rfl id) (hgrown field rfl rfl)
    rw [hparams, Adaptation.types_binding hbase hpos hlt]
    exact (List.eraseIdx_eq_take_drop_succ ..).symm
  | bindHandle hplain =>
    rw [reshape, if_pos rfl]
    refine Form.shape_eq_of ?_ (hkept rfl id) ?_
    · rw [hparams, Adaptation.types_bindingHandle hbase]
      rfl
    · simpa [hplain] using hgrown .ref rfl rfl
  | add hpos hle hvoid hslots =>
    refine Form.shape_eq_of ?_ (hkept rfl id) (congrArg _ (hsame (hzero hpos _)))
    rw [hparams, Adaptation.types_adding hle]
    exact (insertIdx_eq (by omega)).symm
  | dup hpos hlt hdst htype =>
    refine Form.shape_eq_of ?_ (hkept rfl id) (congrArg _ (hsame (hzero (by omega) _)))
    rw [hparams, Adaptation.types_merging (Nat.le_of_lt hdst)]
    exact (List.eraseIdx_eq_take_drop_succ ..).symm
  | spread harray hpos hle htypes hslots =>
    refine Form.shape_eq_of ?_ (hkept rfl id) (congrArg _ (hsame (hzero hpos _)))
    rw [hparams, Adaptation.types_spreading (Nat.le_of_add_right_le hle)]
    rfl
  | @filter pos type ret check hpos htype hfilter hslots =>
    have hlt := (List.getElem?_eq_some_iff.1 htype).1
    refine Form.shape_eq_of ?_ (hkept rfl id) (hgrown .ref rfl rfl)
    rw [hparams, Adaptation.types_combining hbase hpos (by omega), Adaptation.combinationParams,
      if_neg (by simp), (basicParams_ofBasic hfilter).1]
    exact (List.set_eq_take_append_cons_drop.trans (if_pos hlt)).symm
  | @collect pos collector drop hpos hdrop hle hret hslots =>
    refine Form.shape_eq_of ?_ (hkept rfl id) (hgrown .ref rfl rfl)
    rw [hparams, Adaptation.types_combining hbase hpos (Nat.le_of_add_right_le hle),
      Adaptation.combinationParams, if_neg (by simp), Signature.basicParams_basic,
      ← List.append_assoc, hdrop]
    rfl
  | @filterReturn type filter hfilter =>
    refine Form.shape_eq_of ?_ ?_ (hgrown .ref rfl rfl)
    · rw [hparams, Adaptation.types_filteringReturn hbase]
      rfl
    · have hcall := Adaptation.getElem?_late hbase (A := .filteringReturn base g filter)
        (Adaptation.proper_some (hg.appends _ rfl)) (Adaptation.types_filteringReturn hbase) rfl 1
      rw [Adaptation.ret_form_of_result rfl hcall, Name.type_call, (basicParams_ofBasic hfilter).2]
      rfl
  | @zeroReturn type =>
    refine Form.shape_eq_of hparams ?_ (congrArg _ (hsame ?_))
    · by_cases hvoid : type = .void
      · rw [Adaptation.ret_form_of_none (by simp [Adaptation.zeroingReturn, hvoid]), reshape, hvoid]
      · have hzero := Adaptation.getElem?_late hbase (A := .zeroingReturn base type)
          (fun _ h => by cases h) rfl rfl 0
        have hlate : (Adaptation.zeroingReturn base type).late[0]? =
            some (.apply (.intrinsic (.zero type)) []) := by
          simp [Adaptation.zeroingReturn, hvoid]
        rw [Adaptation.ret_form_of_result (by simp [Adaptation.zeroingReturn, hvoid])
          (hzero.trans hlate)]
        rfl
    · exact List.getElem?_take_of_lt hbase.arity_pos
  | @fold pos combiner drop hpos hdrop hle hret hinitial =>
    refine Form.shape_eq_of ?_ (hkept rfl id) (hgrown .ref rfl rfl)
    rw [hparams, Adaptation.types_combining hbase hpos (Nat.le_of_add_right_le hle),
      Adaptation.combinationParams, if_pos rfl, List.nil_append, reshape]
    cases drop with
    | false => exact (List.eraseIdx_eq_take_drop_succ ..).symm
    | true => exact List.take_append_drop ..
  | permute hlen hperm =>
    refine Form.shape_eq_of ?_ (hkept rfl id) (congrArg _ (hsame (hzero Nat.one_pos _)))
    rw [hparams, Adaptation.types_permuting (by omega)]
    rfl

/-- The handle stays in front and no parameter loses its type. -/
theorem reshape_args (h : Adapts base g e A) (hbase : base.Editable) :
    (e.reshape base.shape).params[0]? = some .ref ∧
      ∀ t ∈ (e.reshape base.shape).params, t ≠ .void := by
  have href : base.params[0]? = some .ref := hbase.ref
  have hargs := hbase.args
  have hlen := Form.length_params hbase.wellFormed
  have herase : ∀ {pos : Nat}, 0 < pos → (base.params.eraseIdx pos)[0]? = some .ref ∧
      ∀ t ∈ base.params.eraseIdx pos, t ≠ .void := fun hpos =>
    ⟨(List.getElem?_eraseIdx_of_lt hpos).trans href,
      fun t ht => hargs t (List.mem_of_mem_eraseIdx ht)⟩
  have hsplice : ∀ {a b : Nat} (new : List BasicType), 0 < a → (∀ t ∈ new, t ≠ .void) →
      (base.params.take a ++ (new ++ base.params.drop b))[0]? = some .ref ∧
        ∀ t ∈ base.params.take a ++ (new ++ base.params.drop b), t ≠ .void := by
    intro a b new ha hnew
    have hlt := (List.getElem?_eq_some_iff.1 href).1
    refine ⟨?_, fun t ht => ?_⟩
    · rw [List.getElem?_append_left (by simp; omega), List.getElem?_take_of_lt ha, href]
    · rcases List.mem_append.1 ht with ht | ht
      · exact hargs t (List.mem_of_mem_take ht)
      · rcases List.mem_append.1 ht with ht | ht
        · exact hnew t ht
        · exact hargs t (List.mem_of_mem_drop ht)
  cases h with
  | bind hpos htype =>
    rw [reshape, if_neg (Nat.ne_of_gt hpos)]
    exact herase hpos
  | bindHandle hplain => exact ⟨href, hargs⟩
  | add hpos hle hvoid hslots =>
    rw [reshape, Form.shape, insertIdx_eq (Nat.le_trans hle (Nat.le_of_eq hlen.symm))]
    exact hsplice [_] hpos (by simpa using hvoid)
  | dup hpos hlt hdst htype => exact herase (by omega)
  | spread harray hpos hle htypes hslots => exact hsplice [.ref] hpos (by simp)
  | filter hpos htype hfilter hslots =>
    have hvoid := Signature.ne_void_of_mem_basicParams (basicParams_ofBasic hfilter).1
    have hlt := (List.getElem?_eq_some_iff.1 htype).1
    rw [reshape, Form.Shape.grow, Form.shape, List.set_eq_take_append_cons_drop, if_pos hlt]
    exact hsplice [_] hpos hvoid
  | collect hpos hdrop hle hret hslots =>
    rw [reshape, Form.Shape.grow, Form.shape, List.append_assoc]
    exact hsplice _ hpos (Signature.ne_void_of_mem_basicParams rfl)
  | filterReturn hfilter => exact ⟨href, hargs⟩
  | zeroReturn => exact ⟨href, hargs⟩
  | @fold pos combiner drop hpos hdrop hle hret hkept =>
    cases drop with
    | false => exact herase hpos
    | true => exact ⟨href, hargs⟩
  | permute hlen' hperm =>
    refine ⟨?_, fun t ht => hargs t ((permuteTypes_perm hperm (hlen ▸ hlen')).mem_iff.1 ht)⟩
    have hpos : 1 ≤ base.params.length := hlen ▸ hbase.arity_pos
    exact (getElem?_permuteTypes_of_lt hpos Nat.one_pos).trans href

/-- What an edit derives can be edited again. -/
theorem editable (h : Adapts base g e A) (hbase : base.Editable) (hg : Grows base e g) (id : Nat) :
    (A.form base id).Editable := by
  have hfits := h.fits hbase hg
  have hparams := congrArg Form.Shape.params (h.shape_eq hbase hg id)
  obtain ⟨href, hargs⟩ := h.reshape_args hbase
  rw [← hparams] at href hargs
  exact ⟨hfits.wellFormed hbase.wellFormed hbase.made id, hfits.made hbase.made id, href, hargs⟩

/-- What is appended to a carrier has a value. -/
theorem field_ne_void (h : Adapts base g e A) (hbase : base.Editable) {field : BasicType}
    (hfield : e.field? = some field) : field ≠ .void := by
  cases h with
  | bind hpos htype =>
    obtain rfl := Option.some.inj hfield
    exact hbase.args _ (List.mem_of_getElem? htype)
  | bindHandle _ | filter _ _ _ _ | collect _ _ _ _ _ | filterReturn _ | fold _ _ _ _ _ =>
    obtain rfl := Option.some.inj hfield
    exact nofun
  | add _ _ _ _ | dup _ _ _ _ | spread _ _ _ _ _ | zeroReturn | permute _ _ => cases hfield

end Adapts

end Edit

end HandleForms
