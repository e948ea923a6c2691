import HandleForms.Form.Linkage
import HandleForms.Proofs.Form.Carrier
import HandleForms.Proofs.Signature.Basic

/-!
# Linkage forms serve their handles

A form serves the handles of a type when it takes the handle itself and then arguments of the basic
types of its parameters, and answers a value of its basic result type. Every linkage form that a
handle is made with serves the type that it was built for, and those that read bound values are forms
over a carrier.
-/

namespace HandleForms

namespace Form

/-- The form takes the handle and the arguments of a type, and answers a result of it. -/
structure Serves (f : Form) (type : Signature) : Prop where
  editable : f.Editable
  params : f.params = .ref :: type.basicParams
  ret : f.ret = type.basicRet
  /-- The result has a value. -/
  result : ∀ r, f.result = some r → (f.names[r]?.map Name.type) ≠ some .void

namespace Serves

variable {f : Form} {type type' : Signature}

theorem arity_eq (h : f.Serves type) : f.arity = type.arity + 1 := by
  rw [← length_params h.editable.wellFormed, h.params, List.length_cons,
    Signature.length_basicParams]

/-- Only the basic type matters. -/
theorem of_basic_eq (h : f.Serves type) (hbasic : type'.basic = type.basic) : f.Serves type' := by
  refine ⟨h.editable, ?_, ?_, h.result⟩
  · rw [h.params, ← Signature.basicParams_basic type, ← hbasic, Signature.basicParams_basic]
  · rw [h.ret, ← Signature.basicRet_basic type, ← hbasic, Signature.basicRet_basic]

theorem of_basic (h : f.Serves type.basic) : f.Serves type := h.of_basic_eq (by simp)

/-- What answers nothing has no result. -/
theorem result_eq_none (h : f.Serves type) (hvoid : type.basicRet = .void) : f.result = none := by
  have hret := h.ret.trans hvoid
  unfold Form.ret at hret
  cases hr : f.result with
  | none => rfl
  | some r =>
    rw [hr] at hret
    have hn := List.getElem?_eq_getElem (h.editable.wellFormed.result_lt r hr)
    have hkept := h.result r hr
    simp only [hn, Option.map_some, Option.getD_some] at hret hkept
    exact absurd (congrArg some hret) hkept

/-- There is a result exactly when the type has one. -/
theorem map_result {α : Type} (h : f.Serves type) (a : α) :
    f.result.toList.map (fun _ => a) = if type.basicRet = .void then [] else [a] := by
  by_cases hvoid : type.basicRet = .void
  · rw [if_pos hvoid, h.result_eq_none hvoid]
    rfl
  · rw [if_neg hvoid]
    cases hr : f.result with
    | some r => rfl
    | none =>
      have hret : f.ret = .void := by rw [Form.ret, hr]
      exact absurd (h.ret.symm.trans hret) hvoid

end Serves

/-! ## Forms made of parts -/

variable {f : Form} {id : Nat} {p : Name Form} {ts : List BasicType} {params exprs : List (Name Form)}
  {result : Option Nat} {kind : FormKind} {type basic : Signature} {s : Species}

theorem ofParts_eq_ok_iff : ofParts id params exprs result kind = .ok f ↔
    f.WellFormed ∧ f = ⟨id, params.length, params ++ exprs, keptResult (params ++ exprs) result, kind⟩ :=
  assemble_eq_ok_iff

theorem params_ofParts (h : ofParts id params exprs result kind = .ok f) :
    f.params = params.map Name.type := by
  obtain ⟨-, rfl⟩ := ofParts_eq_ok_iff.1 h
  simp [Form.params]

/-- A result that is kept has the type of its name. -/
theorem ret_ofParts {r : Nat} {n : Name Form} (h : ofParts id params exprs (some r) kind = .ok f)
    (hn : (params ++ exprs)[r]? = some n) : f.ret = n.type := by
  obtain ⟨-, rfl⟩ := ofParts_eq_ok_iff.1 h
  unfold Form.ret keptResult
  by_cases hvoid : n.type = .void <;> simp [hn, hvoid, Option.filter_some]

theorem ret_ofParts_none (h : ofParts id params exprs none kind = .ok f) : f.ret = .void := by
  obtain ⟨-, rfl⟩ := ofParts_eq_ok_iff.1 h
  rfl

/-- What is made of a reference, arguments and expressions can be edited. -/
theorem editable_ofParts (h : ofParts id (p :: paramNames ts) exprs result kind = .ok f)
    (hp : p.Made) (href : p.type = .ref) (hts : ∀ t ∈ ts, t ≠ .void) (hexprs : ∀ n ∈ exprs, n.Made) :
    f.Editable := by
  have hparams := params_ofParts h
  obtain ⟨hwf, rfl⟩ := ofParts_eq_ok_iff.1 h
  refine ⟨hwf, fun n hn => ?_, ?_, fun t ht => ?_⟩
  · rcases List.mem_append.1 hn with hn | hn
    · rcases List.mem_cons.1 hn with rfl | hn
      · exact hp
      · obtain ⟨t, -, rfl⟩ := List.mem_map.1 hn
        exact .param t
    · exact hexprs n hn
  · rw [param?, hparams]
    simp [href]
  · rw [hparams, List.map_cons] at ht
    rcases List.mem_cons.1 ht with rfl | ht
    · rw [href]
      simp
    · exact hts t (by simpa [paramNames, Function.comp_def, Name.param] using ht)

/-- What is made for a type serves it. -/
theorem serves_ofParts (h : ofParts id (p :: paramNames type.basicParams) exprs result kind = .ok f)
    (hp : p.Made) (href : p.type = .ref) (hexprs : ∀ n ∈ exprs, n.Made)
    (hret : f.ret = type.basicRet) : f.Serves type := by
  refine ⟨editable_ofParts h hp href (Signature.ne_void_of_mem_basicParams rfl) hexprs, ?_, hret,
    fun r hr => ?_⟩
  · rw [params_ofParts h]
    simp [href, paramNames, Function.comp_def, Name.param]
  · obtain ⟨-, rfl⟩ := ofParts_eq_ok_iff.1 h
    simpa using (Option.filter_eq_some_iff.1 (hr : keptResult _ _ = some r)).2

/-- What reads fields of a carrier in parameter 0 is a form over it. -/
theorem carrier_ofParts {r : Nat}
    (h : ofParts id (.carrier s :: paramNames ts) exprs (some r) kind = .ok f) (hf : f.Editable)
    (hr : ts.length < r)
    (hreads : ∀ n ∈ exprs, 0 ∈ n.operands → ∃ i < s.fields.length, n.ReadsField s.fields i) :
    f.Carrier s.fields := by
  obtain ⟨hwf, rfl⟩ := ofParts_eq_ok_iff.1 h
  refine ⟨hf, rfl, fun i hi => ?_, fun n hn hzero => ?_, fun r' hr' => ?_⟩
  · unfold species?
    cases hn : (((.carrier s :: paramNames ts) ++ exprs)[i]? : Option (Name Form)) with
    | none => rfl
    | some n =>
      show n.species = none
      by_cases hlt : i < (paramNames ts).length + 1
      · obtain ⟨i, rfl⟩ : ∃ k, i = k + 1 := ⟨i - 1, by omega⟩
        rw [List.cons_append, List.getElem?_cons_succ,
          List.getElem?_append_left (by omega)] at hn
        obtain ⟨t, -, rfl⟩ := List.mem_map.1 (List.mem_of_getElem? hn)
        rfl
      · have hcarrier := hwf.carrier i n hn
        simp only [List.length_cons] at hcarrier
        cases hs : n.species with
        | none => rfl
        | some t => exact absurd (hcarrier (by simp [hs])).1 hlt
  · rcases List.mem_append.1 hn with hn | hn
    · have hparam : n.isParam = true := by
        rcases List.mem_cons.1 hn with rfl | hn
        · rfl
        · obtain ⟨t, -, rfl⟩ := List.mem_map.1 hn
          rfl
      simp [Name.operands_param hparam] at hzero
    · exact hreads n hn hzero
  · have hkept : keptResult ((.carrier s :: paramNames ts) ++ exprs) (some r) = some r' := hr'
    obtain ⟨heq, htype⟩ := Option.filter_eq_some_iff.1 hkept
    obtain rfl := Option.some.inj heq
    refine ⟨?_, by simpa using htype⟩
    simp only [List.length_cons, paramNames, List.length_map]
    omega

/-- Expressions that leave parameter 0 alone make a form that does. -/
theorem overlooks_ofParts (h : ofParts id (paramNames (.ref :: ts)) exprs result kind = .ok f)
    (hresult : ∀ r, result = some r → 0 < r) (hexprs : ∀ n ∈ exprs, 0 ∉ n.operands) : f.Overlooks := by
  obtain ⟨-, rfl⟩ := ofParts_eq_ok_iff.1 h
  refine ⟨fun n hn => ?_, fun r hr => hresult r (Option.filter_eq_some_iff.1 hr).1⟩
  rcases List.mem_append.1 hn with hn | hn
  · obtain ⟨t, -, rfl⟩ := List.mem_map.1 hn
    exact nofun
  · exact hexprs n hn

end Form

/-! ## The linkage forms of handles -/

namespace Signature

variable {type invokerType : Signature}

/-- The target of an invoker comes first. -/
theorem invoker_ok (h : type.invoker = .ok invokerType) :
    invokerType.basicParams = .ref :: type.basicParams ∧ invokerType.basicRet = type.basicRet := by
  unfold invoker at h
  split at h
  · obtain ⟨hparams, hret⟩ := ofTypes_eq_ok_iff.1 h
    exact ⟨by simp [basicParams, hparams, handleClass, Ty.basicType], by simp [basicRet, hret]⟩
  · cases h

end Signature

namespace Form

variable {f : Form} {id : Nat} {type basic invokerType : Signature} {s : Species}

theorem serves_external {name : String} (h : external name type id = .ok f) : f.Serves type := by
  refine serves_ofParts h (.param _) rfl (fun n hn => ?_)
    ((ret_ofParts h List.getElem?_concat_length).trans (Signature.basicRet_basic type))
  rw [List.mem_singleton.1 hn]
  exact .apply _ _

theorem serves_empty (h : empty basic id = .ok f) : f.Serves basic := by
  unfold empty at h
  dsimp only at h
  split at h
  · next hvoid =>
    exact serves_ofParts h (.param _) rfl (fun n hn => absurd hn (by simp))
      ((ret_ofParts_none h).trans hvoid.symm)
  · refine serves_ofParts h (.param _) rfl (fun n hn => ?_)
      (ret_ofParts h List.getElem?_concat_length)
    rw [List.mem_singleton.1 hn]
    exact .apply _ _

theorem serves_basicInvoker (h : basicInvoker basic id = .ok f)
    (hinvoker : basic.invoker = .ok invokerType) : f.Serves invokerType := by
  obtain ⟨hparams, hret⟩ := Signature.invoker_ok hinvoker
  unfold basicInvoker at h
  rw [← hparams] at h
  refine serves_ofParts h (.param _) rfl (fun n hn => ?_)
    ((ret_ofParts h List.getElem?_concat_length).trans ?_)
  · rw [List.mem_singleton.1 hn]
    exact .apply _ _
  · exact (Signature.basicRet_basic basic).trans hret.symm

/-- Arguments leave the handle out. -/
theorem zero_not_mem_argRange (stop : Nat) : 0 ∉ (argRange 1 stop).filterMap Arg.name? := by
  simp [argRange, Arg.name?, List.mem_range'_1]

theorem overlooks_external {name : String} (h : external name type id = .ok f) : f.Overlooks := by
  refine overlooks_ofParts h (fun r hr => ?_) fun n hn => ?_
  · rw [← Option.some.inj hr]
    simp [paramNames]
  · rw [List.mem_singleton.1 hn]
    exact zero_not_mem_argRange _

theorem overlooks_empty (h : empty basic id = .ok f) : f.Overlooks := by
  unfold empty at h
  dsimp only at h
  split at h
  · exact overlooks_ofParts h nofun nofun
  · refine overlooks_ofParts h (fun r hr => ?_) fun n hn => ?_
    · rw [← Option.some.inj hr]
      simp [paramNames]
    · rw [List.mem_singleton.1 hn]
      exact nofun

theorem overlooks_basicInvoker (h : basicInvoker basic id = .ok f) : f.Overlooks := by
  refine overlooks_ofParts h (fun r hr => ?_) fun n hn => ?_
  · rw [← Option.some.inj hr]
    simp [paramNames]
  · rw [List.mem_singleton.1 hn]
    exact zero_not_mem_argRange _

/-- The operands of a call with the arguments from the first one on. -/
theorem argRange_one (n : Nat) : argRange 1 (n + 1) = (List.range' 1 n).map Arg.name := rfl

/-- The names of the form that calls the one field of a carrier. -/
theorem reinvoker_eq (hs : s.fields = [.ref]) : reinvoker s basic id =
    ofParts id (.carrier s :: paramNames basic.basicParams)
      [.apply (.getter s 0) [.name 0], .call basic ((basic.arity + 1) :: List.range' 1 basic.arity)]
      (some (basic.arity + 2)) .boundReinvoker := by
  have hgetter : s.getter 0 = .ok (.getter s 0) := by simp [Species.getter, hs]
  simp [reinvoker, hgetter, paramNames, bind, Except.bind, Name.call, argRange_one]

/-- The call is the last name. -/
theorem getElem?_reinvoker {n m : Name Form} :
    ((.carrier s :: paramNames basic.basicParams) ++ [m, n])[basic.arity + 2]? = some n := by
  rw [List.getElem?_append_right (by simp [paramNames])]
  simp [paramNames]

theorem serves_reinvoker (hs : s.fields = [.ref]) (h : reinvoker s basic id = .ok f) :
    f.Serves basic := by
  rw [reinvoker_eq hs] at h
  refine serves_ofParts h (.carrier s) rfl (fun n hn => ?_)
    ((ret_ofParts h getElem?_reinvoker).trans Name.type_call)
  simp only [List.mem_cons, List.not_mem_nil, or_false] at hn
  rcases hn with rfl | rfl <;> exact .apply _ _

/-- What calls the field of a carrier reads it and looks no further. -/
theorem carrier_reinvoker (hs : s.fields = [.ref]) (h : reinvoker s basic id = .ok f) :
    f.Carrier [.ref] := by
  have hserves := serves_reinvoker hs h
  rw [reinvoker_eq hs] at h
  rw [← hs]
  refine carrier_ofParts h hserves.editable (by simp) fun n hn hzero => ?_
  simp only [List.mem_cons, List.not_mem_nil, or_false] at hn
  rcases hn with rfl | rfl
  · exact ⟨0, by simp [hs], s, rfl, rfl⟩
  · simp at hzero

/-- The names of the form that calls its first argument checked against the field of a carrier. -/
theorem invoker_eq (hs : s.fields = [.ref]) (generic : Bool) : invoker generic s basic id =
    ofParts id (.carrier s :: paramNames (.ref :: basic.basicParams))
      (.apply (.getter s 0) [.name 0] ::
        checkedCall generic basic 1 2 (basic.arity + 2) (basic.arity + 2) (basic.arity + 3))
      (some (basic.arity + 4)) (InvokerShape.kind ⟨generic, false⟩) := by
  have hgetter : s.getter 0 = .ok (.getter s 0) := by simp [Species.getter, hs]
  simp [invoker, hgetter, paramNames, bind, Except.bind]

/-- The check and the call are expressions that do not look at the handle. -/
theorem of_mem_checkedCall {generic : Bool} {n : Name Form} {a b : Nat}
    (hn : n ∈ checkedCall generic basic 1 2 a (b + 1) (b + 2)) : n.Made ∧ 0 ∉ n.operands := by
  have hargs : 0 ∉ (argRange 2 a).filterMap Arg.name? := by
    simp [argRange, Arg.name?, List.mem_range'_1]
  unfold checkedCall at hn
  dsimp only at hn
  split at hn <;> simp only [List.mem_cons, List.not_mem_nil, or_false] at hn <;>
    rcases hn with rfl | rfl <;> exact ⟨.apply _ _, by simp [Arg.name?, hargs]⟩

theorem serves_invoker (hs : s.fields = [.ref]) {generic : Bool}
    (h : invoker generic s type.basic id = .ok f) (hinvoker : type.invoker = .ok invokerType) :
    f.Serves invokerType := by
  obtain ⟨hparams, hret⟩ := Signature.invoker_ok hinvoker
  rw [← Signature.basicParams_basic type] at hparams
  rw [← Signature.basicRet_basic type] at hret
  generalize type.basic = basic at h hparams hret
  rw [invoker_eq hs, ← hparams] at h
  obtain ⟨n, hn, htype⟩ : ∃ n, (checkedCall generic basic 1 2 (basic.arity + 2) (basic.arity + 2)
      (basic.arity + 3))[1]? = some n ∧ n.type = basic.basicRet := by
    cases generic <;> exact ⟨_, rfl, by
      simp [Name.apply, Function.invokeBasic, Function.ret, Intrinsic.ret]⟩
  have hlast : ((.carrier s :: paramNames invokerType.basicParams) ++
      .apply (.getter s 0) [.name 0] :: checkedCall generic basic 1 2 (basic.arity + 2)
        (basic.arity + 2) (basic.arity + 3))[basic.arity + 4]? = some n := by
    rw [List.getElem?_append_right (by simp [paramNames, hparams])]
    simpa [paramNames, hparams] using hn
  refine serves_ofParts h (.carrier s) rfl (fun n hn => ?_)
    ((ret_ofParts h hlast).trans (htype.trans hret.symm))
  rcases List.mem_cons.1 hn with rfl | hn
  · exact .apply _ _
  · exact (of_mem_checkedCall hn).1

theorem carrier_invoker (hs : s.fields = [.ref]) {generic : Bool}
    (h : invoker generic s basic id = .ok f) (hf : f.Editable) : f.Carrier [.ref] := by
  rw [invoker_eq hs] at h
  rw [← hs]
  refine carrier_ofParts h hf (by simp) fun n hn hzero => ?_
  rcases List.mem_cons.1 hn with rfl | hn
  · exact ⟨0, by simp [hs], s, rfl, rfl⟩
  · exact absurd hzero (of_mem_checkedCall hn).2

/-! ## Direct forms -/

/-- The basic type of a linker call. -/
theorem linkType_ok {kind : DispatchKind} {link : Signature} (h : linkType basic kind = .ok link)
    (hkind : kind ≠ .newSpecial) : link.basicRet = basic.basicRet := by
  unfold linkType at h
  simp only [if_neg hkind] at h
  split at h
  · next s hs =>
    obtain rfl := Except.ok.inj h
    exact (Edit.Adapts.basicParams_ofBasic hs).2
  · cases h

/-- The parameters of a linker call. -/
theorem basicParams_linkType {kind : DispatchKind} {link : Signature}
    (h : linkType basic kind = .ok link) : link.basicParams =
      (if kind = .newSpecial then [.ref] else []) ++ basic.basicParams ++ [.ref] := by
  unfold linkType at h
  dsimp only at h
  split at h
  · next s hs =>
    obtain rfl := Except.ok.inj h
    rw [(Edit.Adapts.basicParams_ofBasic hs).1]
    split <;> rfl
  · cases h

/-- A linker call leaves slots for the member and for a new instance. -/
theorem slots_of_linkType {kind : DispatchKind} {link : Signature}
    (h : linkType basic kind = .ok link) :
    basic.slots + (if kind = .newSpecial then 1 else 0) ≤ Signature.maxHandleSlots := by
  have hslots := link.slots_le
  rw [← Signature.slots, ← Signature.slotSum_basicParams, basicParams_linkType h] at hslots
  rw [← Signature.slotSum_basicParams basic]
  simp only [BasicType.slotSum_append, Signature.maxSlots, Signature.maxHandleSlots] at hslots ⊢
  by_cases hkind : kind = .newSpecial
  · simp [hkind, BasicType.slots] at hslots ⊢
    omega
  · simp [hkind, BasicType.slots] at hslots ⊢
    omega

/-- The expressions of a direct form. -/
def directExprs (basic link : Signature) (kind : DispatchKind) (barrier : Bool) :
    List (Name Form) :=
  let at0 (op : Intrinsic) : Name Form := .apply (.intrinsic op) [.name 0]
  let first := basic.arity + 1 + if barrier then 1 else 0
  (if barrier then [at0 .ensureInitialized] else []) ++
    if kind = .newSpecial then
      [at0 .allocateInstance, at0 .constructorMember, .apply (.intrinsic (.linkTo kind link))
        (.name first :: argRange 1 (basic.arity + 1) ++ [.name (first + 1)])]
    else
      [at0 .internalMemberName, .apply (.intrinsic (.linkTo kind link))
        (argRange 1 (basic.arity + 1) ++ [.name first])]

/-- The expressions of a direct form behind the class barrier; the first of them is name `first`. -/
def dispatchExprs (basic link : Signature) (kind : DispatchKind) (first : Nat) : List (Name Form) :=
  let at0 (op : Intrinsic) : Name Form := .apply (.intrinsic op) [.name 0]
  if kind = .newSpecial then
    [at0 .allocateInstance, at0 .constructorMember, .apply (.intrinsic (.linkTo kind link))
      (.name first :: argRange 1 (basic.arity + 1) ++ [.name (first + 1)])]
  else
    [at0 .internalMemberName, .apply (.intrinsic (.linkTo kind link))
      (argRange 1 (basic.arity + 1) ++ [.name first])]

theorem directExprs_false (basic link : Signature) (kind : DispatchKind) :
    directExprs basic link kind false = dispatchExprs basic link kind (basic.arity + 1) := rfl

theorem directExprs_true (basic link : Signature) (kind : DispatchKind) :
    directExprs basic link kind true = .apply (.intrinsic .ensureInitialized) [.name 0] ::
      dispatchExprs basic link kind (basic.arity + 1 + 1) := rfl

/-- The names of a direct form. -/
theorem direct_eq {kind : DispatchKind} {link : Signature} (barrier : Bool)
    (hlink : linkType basic kind = .ok link) : direct basic kind barrier id =
      ofParts id (paramNames (.ref :: basic.basicParams)) (directExprs basic link kind barrier)
        (some (basic.arity + 1 + (if barrier then 1 else 0) + if kind = .newSpecial then 0 else 1))
        (kind.formKind barrier) := by
  have hbind (k : Signature → Except Violation Form) : linkType basic kind >>= k = k link := by
    rw [hlink]
    rfl
  unfold direct
  simp only [hbind]
  cases barrier <;> by_cases hkind : kind = .newSpecial <;> simp [directExprs, hkind, paramNames]

theorem direct_eq_ok {kind : DispatchKind} {barrier : Bool}
    (h : direct basic kind barrier id = .ok f) : ∃ link, linkType basic kind = .ok link ∧
      ofParts id (paramNames (.ref :: basic.basicParams)) (directExprs basic link kind barrier)
        (some (basic.arity + 1 + (if barrier then 1 else 0) + if kind = .newSpecial then 0 else 1))
        (kind.formKind barrier) = .ok f := by
  obtain ⟨link, hlink, -⟩ := bind_eq_ok_iff.1 h
  exact ⟨link, hlink, (direct_eq barrier hlink).symm.trans h⟩

/-- The parameters and the other names of a direct form. -/
theorem names_direct {kind : DispatchKind} {barrier : Bool} {link : Signature}
    (h : direct basic kind barrier id = .ok f) (hlink : linkType basic kind = .ok link) :
    f.arity = basic.arity + 1 ∧ f.names.drop f.arity = directExprs basic link kind barrier := by
  obtain ⟨link', hlink', hparts⟩ := direct_eq_ok h
  obtain rfl := Except.ok.inj (hlink.symm.trans hlink')
  obtain ⟨-, rfl⟩ := ofParts_eq_ok_iff.1 hparts
  exact ⟨by simp [paramNames], List.drop_left⟩

/-- A constructor answers a reference. -/
theorem ret_direct {kind : DispatchKind} {barrier : Bool} (h : direct basic kind barrier id = .ok f) :
    f.ret = if kind = .newSpecial then .ref else basic.basicRet := by
  obtain ⟨link, hlink, h⟩ := direct_eq_ok h
  obtain ⟨n, hn, htype⟩ : ∃ n, ((paramNames (.ref :: basic.basicParams)) ++
      directExprs basic link kind barrier)[basic.arity + 1 + (if barrier then 1 else 0) +
        if kind = .newSpecial then 0 else 1]? = some n ∧
      n.type = if kind = .newSpecial then .ref else basic.basicRet := by
    rw [List.getElem?_append_right (by simp [paramNames]; omega)]
    by_cases hkind : kind = .newSpecial
    · refine ⟨.apply (.intrinsic .allocateInstance) [.name 0], ?_, by rw [if_pos hkind]; rfl⟩
      cases barrier <;> simp [directExprs, hkind, paramNames]
    · refine ⟨.apply (.intrinsic (.linkTo kind link)) (argRange 1 (basic.arity + 1) ++
        [.name (basic.arity + 1 + if barrier then 1 else 0)]), ?_,
        (linkType_ok hlink hkind).trans (if_neg hkind).symm⟩
      cases barrier <;> simp [directExprs, hkind, paramNames]
  exact (ret_ofParts h hn).trans htype

/-- The form of a direct handle serves it. -/
theorem serves_direct {kind : DispatchKind} {barrier : Bool}
    (h : direct basic kind barrier id = .ok f)
    (hret : kind = .newSpecial → basic.basicRet = .ref) : f.Serves basic := by
  have hret' : f.ret = basic.basicRet := by
    rw [ret_direct h]
    split
    · next hkind => exact (hret hkind).symm
    · rfl
  obtain ⟨link, hlink, h⟩ := direct_eq_ok h
  refine serves_ofParts h (.param _) rfl (fun m hm => ?_) hret'
  unfold directExprs at hm
  dsimp only at hm
  rcases List.mem_append.1 hm with hm | hm
  · split at hm
    · rw [List.mem_singleton.1 hm]
      exact .apply _ _
    · cases hm
  · split at hm <;> simp only [List.mem_cons, List.not_mem_nil, or_false] at hm
    · rcases hm with rfl | rfl | rfl <;> exact .apply _ _
    · rcases hm with rfl | rfl <;> exact .apply _ _

end Form

end HandleForms
