import HandleForms.Proofs.Edit.Accept
import HandleForms.Proofs.Form.Linkage

/-!
# Linkage forms fit within the slots

A linkage form takes more than the arguments of the type that it is made for: the handle, a target, a
type token. It is made whenever all of these fit within `Signature.maxSlots`, for then its
expressions fit where they stand. `FitBehind` says so of a list of expressions, one behind the
other, and there is one lemma for each sort of form that says how many slots a type may have.
-/

namespace HandleForms

/-! ## Expressions one behind the other -/

/-- Expressions over names of these types, each over the names before it too. -/
inductive FitBehind : List BasicType → List (Name Form) → Prop
  | nil (types : List BasicType) : FitBehind types []
  | apply {types : List BasicType} {function : Function Form} {args : List Arg}
      {exprs : List (Name Form)} (hargs : List.Forall₂ (Arg.Fits types) args function.params)
      (hexprs : FitBehind (types ++ [function.ret]) exprs) :
      FitBehind types (.apply function args :: exprs)

namespace FitBehind

variable {types : List BasicType} {exprs : List (Name Form)}

theorem made (h : FitBehind types exprs) : ∀ n ∈ exprs, n.Made ∧ n.isParam = false := by
  induction h with
  | nil => exact nofun
  | apply hargs hexprs ih => exact List.forall_mem_cons.2 ⟨⟨.apply _ _, rfl⟩, ih⟩

/-- Each expression fits behind the ones before it. -/
theorem fits (h : FitBehind types exprs) {k : Nat} {n : Name Form} (hn : exprs[k]? = some n)
    {e : Expr Form} (he : n.expr = some e) : e.Fits (types ++ (exprs.take k).map Name.type) := by
  induction h generalizing k with
  | nil => cases hn
  | @apply types function args exprs hargs hexprs ih =>
    cases k with
    | zero =>
      obtain rfl := Option.some.inj hn
      obtain rfl := Option.some.inj he
      show List.Forall₂ (Arg.Fits (types ++ [])) args function.params
      rwa [List.append_nil]
    | succ k =>
      have hfits := ih hn
      rwa [List.append_assoc] at hfits

end FitBehind

/-- The names from `before.length` on fit the types that they have. -/
theorem fits_argRange (before types behind : List BasicType) {start stop : Nat}
    (hstart : start = before.length) (hstop : stop = before.length + types.length) :
    List.Forall₂ (Arg.Fits (before ++ types ++ behind)) (Form.argRange start stop) types := by
  subst hstart hstop
  refine List.forall₂_iff_get.2 ⟨by simp [Form.argRange], ?_⟩
  intro k hk hk'
  have hget := List.getElem?_eq_getElem hk'
  simp only [List.get_eq_getElem, Form.argRange, List.getElem_map, List.getElem_range', Nat.one_mul]
  show (before ++ types ++ behind)[before.length + k]? = _
  rw [List.append_assoc, List.getElem?_append_right (Nat.le_add_right ..), Nat.add_sub_cancel_left,
    List.getElem?_append_left hk', hget]

namespace Form

variable {id : Nat} {p : Name Form} {ts : List BasicType} {params exprs : List (Name Form)}
  {result : Option Nat} {kind : FormKind} {type basic : Signature} {s : Species}

/-- What is made of parameters and of expressions that fit where they stand is a form. -/
theorem ofParts_ok (hparams : ∀ n ∈ params, n.Made ∧ n.isParam = true)
    (hslots : BasicType.slotSum (params.map Name.type) ≤ Signature.maxSlots)
    (hexprs : ∀ n ∈ exprs, n.Made ∧ n.isParam = false)
    (hfits : ∀ (k : Nat) (n : Name Form), exprs[k]? = some n → ∀ e, n.expr = some e →
      e.Fits ((params ++ exprs.take k).map Name.type))
    (hresult : ∀ r, result = some r → r < params.length + exprs.length) :
    ∃ f, ofParts id params exprs result kind = .ok f := by
  refine ⟨_, ofParts_eq_ok_iff.2 ⟨wellFormed_iff_fits.2 ⟨?_, ?_, fun i n hn => ?_, fun r hr => ?_⟩, rfl⟩⟩
  · simp [size]
  · simpa [slots, Form.params] using hslots
  -- A name stands among the parameters or behind them.
  · by_cases hi : i < params.length
    · have hn' : params[i]? = some n := by simpa [List.getElem?_append_left hi] using hn
      obtain ⟨-, hparam⟩ := hparams n (List.mem_of_getElem? hn')
      refine ⟨by simp [hparam, hi], fun hs => ⟨hi, ?_⟩, fun e he => ?_⟩
      · exact ((hparams n (List.mem_of_getElem? hn')).1.species_isSome hs).2
      · simp [Name.isParam, he] at hparam
    · obtain ⟨k, rfl⟩ := Nat.exists_eq_add_of_le (Nat.not_lt.1 hi)
      have hn' : exprs[k]? = some n := by simpa [List.getElem?_append_right] using hn
      obtain ⟨hmade, hexpr⟩ := hexprs n (List.mem_of_getElem? hn')
      refine ⟨by simp [hexpr], fun hs => ?_, fun e he => ?_⟩
      · simp [(hmade.species_isSome hs).1] at hexpr
      · show e.Fits ((List.take (params.length + k) (params ++ exprs)).map Name.type)
        rw [Transaction.Layout.take_length_add rfl]
        exact hfits k n hn' e he
  · have hkept := hresult r (Option.filter_eq_some_iff.1 hr).1
    simpa [size] using hkept

/-- Parameters that fit within the slots and expressions that fit behind them make a form. -/
theorem ofParts_of_fitBehind (hp : p.Made) (hparam : p.isParam = true)
    (hslots : BasicType.slotSum (p.type :: ts) ≤ Signature.maxSlots)
    (hexprs : FitBehind (p.type :: ts) exprs)
    (hresult : ∀ r, result = some r → r < ts.length + 1 + exprs.length) :
    ∃ f, ofParts id (p :: paramNames ts) exprs result kind = .ok f := by
  have htypes : (p :: paramNames ts).map Name.type = p.type :: ts := by
    simp [paramNames, Function.comp_def, Name.param]
  refine ofParts_ok ?_ (by rwa [htypes]) hexprs.made ?_ ?_
  · intro n hn
    rcases List.mem_cons.1 hn with rfl | hn
    · exact ⟨hp, hparam⟩
    · obtain ⟨t, -, rfl⟩ := List.mem_map.1 hn
      exact ⟨.param t, rfl⟩
  · intro k n hn e he
    rw [List.map_append, htypes]
    exact hexprs.fits hn he
  · intro r hr
    simpa [paramNames] using hresult r hr

/-- The slots of a reference in front of a type. -/
theorem slotSum_ref_cons (ts : List BasicType) :
    BasicType.slotSum (.ref :: ts) = BasicType.slotSum ts + 1 :=
  Nat.add_comm _ _

/-! ## The linkage forms -/

/-- A result among the names. -/
theorem result_lt {n r r' : Nat} (hlt : r < n) (h : some r = some r') : r' < n :=
  Option.some.inj h ▸ hlt

theorem params_invokeBasic (type : Signature) :
    (Function.invokeBasic type : Function Form).params = .ref :: type.basicParams := by
  show BasicType.ref :: type.basic.basicParams = _
  rw [Signature.basicParams_basic]

theorem external_ok (name : String) (h : type.slots ≤ Signature.maxHandleSlots) (id : Nat) :
    ∃ f, external name type id = .ok f := by
  refine ofParts_of_fitBehind (.param .ref) rfl ?_ (.apply ?_ (.nil _)) fun r => result_lt ?_
  · show BasicType.slotSum (.ref :: type.basicParams) ≤ _
    rw [slotSum_ref_cons]
    exact Nat.succ_le_succ h
  -- The handle itself is not passed on.
  · show List.Forall₂ (Arg.Fits (.ref :: type.basicParams)) _ type.basic.basicParams
    rw [Signature.basicParams_basic]
    have hargs := fits_argRange [.ref] type.basicParams [] rfl rfl
    simpa [paramNames, Nat.add_comm] using hargs
  · simp [paramNames]

theorem empty_ok (h : basic.slots ≤ Signature.maxHandleSlots) (id : Nat) :
    ∃ f, empty basic id = .ok f := by
  have hslots : BasicType.slotSum (.ref :: basic.basicParams) ≤ Signature.maxSlots := by
    rw [slotSum_ref_cons]
    exact Nat.succ_le_succ h
  unfold empty
  dsimp only
  split
  · exact ofParts_of_fitBehind (.param .ref) rfl hslots (.nil _) nofun
  · refine ofParts_of_fitBehind (.param .ref) rfl hslots (.apply .nil (.nil _)) fun r => result_lt ?_
    simp [paramNames]

/-- The handle that is called takes a slot besides the handle itself. -/
theorem slotSum_invoker (h : basic.slots ≤ Signature.maxInvokerSlots) :
    BasicType.slotSum (.ref :: .ref :: basic.basicParams) ≤ Signature.maxSlots := by
  rw [slotSum_ref_cons, slotSum_ref_cons]
  exact Nat.add_le_add_right h 2

theorem basicInvoker_ok (h : basic.slots ≤ Signature.maxInvokerSlots) (id : Nat) :
    ∃ f, basicInvoker basic id = .ok f := by
  refine ofParts_of_fitBehind (.param .ref) rfl (slotSum_invoker h) (.apply ?_ (.nil _))
    fun r => result_lt ?_
  · show List.Forall₂ (Arg.Fits (.ref :: .ref :: basic.basicParams)) _ _
    rw [params_invokeBasic]
    have hargs := fits_argRange [.ref] (.ref :: basic.basicParams) [] rfl rfl
    simpa [paramNames, Nat.add_comm] using hargs
  · simp [paramNames]

/-- The check stands behind the names that it looks at, and the call behind the check. -/
theorem fitBehind_checkedCall (generic : Bool) (before behind : List BasicType)
    {target token first stop next : Nat}
    (htarget : (before ++ basic.basicParams ++ behind)[target]? = some .ref)
    (htoken : (before ++ basic.basicParams ++ behind)[token]? = some .ref)
    (hfirst : first = before.length) (hstop : stop = before.length + basic.arity)
    (hnext : next = (before ++ basic.basicParams ++ behind).length) :
    FitBehind (before ++ basic.basicParams ++ behind)
      (checkedCall generic basic target first stop token next) := by
  have hcheck : List.Forall₂ (Arg.Fits (before ++ basic.basicParams ++ behind))
      [.name target, .name token] [.ref, .ref] := .cons htarget (.cons htoken .nil)
  have hargs (more : List BasicType) : List.Forall₂
      (Arg.Fits (before ++ basic.basicParams ++ behind ++ more)) (argRange first stop)
        basic.basicParams := by
    rw [List.append_assoc _ behind]
    exact fits_argRange before basic.basicParams (behind ++ more) hfirst (by simpa using hstop)
  unfold checkedCall
  cases generic with
  | true =>
    -- The target is what the check answers.
    have hviewed : (before ++ basic.basicParams ++ behind ++ [BasicType.ref])[next]? = some .ref :=
      hnext ▸ List.getElem?_concat_length
    refine .apply hcheck (.apply ?_ (.nil _))
    rw [params_invokeBasic]
    exact .cons hviewed (hargs [.ref])
  | false =>
    refine .apply hcheck (.apply ?_ (.nil _))
    rw [params_invokeBasic]
    refine .cons ?_ (hargs _)
    show (_ ++ _)[target]? = some BasicType.ref
    rw [List.getElem?_append_left (List.getElem?_eq_some_iff.1 htarget).1, htarget]

theorem linker_ok (generic : Bool) (h : basic.slots ≤ Signature.maxInvokerSlots) (id : Nat) :
    ∃ f, linker generic basic id = .ok f := by
  have hslots : BasicType.slotSum (.ref :: (basic.basicParams ++ [.ref])) ≤ Signature.maxSlots := by
    rw [slotSum_ref_cons, BasicType.slotSum_append]
    exact Nat.add_le_add_right h 2
  refine ofParts_of_fitBehind (.param .ref) rfl hslots ?_ fun r => result_lt ?_
  · refine fitBehind_checkedCall generic [.ref] [.ref] rfl ?_ rfl ?_ ?_
    · simp [paramNames]
    · simp [paramNames, Nat.add_comm]
    · simp [paramNames, Nat.add_comm]
  · cases generic <;> simp [paramNames, checkedCall]

/-- The type is read out of the carrier first. -/
theorem fitBehind_getter {exprs : List (Name Form)} (ts : List BasicType)
    (hexprs : FitBehind (.ref :: ts ++ [.ref]) exprs) (hs : s.fields = [.ref]) :
    FitBehind (.ref :: ts) (.apply (.getter s 0) [.name 0] :: exprs) := by
  have hret : (Function.getter s 0 : Function Form).ret = .ref := by
    show (s.fields[0]?).getD .void = .ref
    rw [hs]
    rfl
  refine .apply (.cons rfl .nil) ?_
  rwa [hret]

theorem invoker_ok (generic : Bool) (hs : s.fields = [.ref])
    (h : basic.slots ≤ Signature.maxInvokerSlots) (id : Nat) :
    ∃ f, invoker generic s basic id = .ok f := by
  rw [invoker_eq hs]
  refine ofParts_of_fitBehind (.carrier s) rfl (slotSum_invoker h) (fitBehind_getter _ ?_ hs)
    fun r => result_lt ?_
  · refine fitBehind_checkedCall generic [.ref, .ref] [.ref] rfl ?_ rfl ?_ ?_
    · simp
    · simp [Nat.add_comm]
    · simp only [List.length_append, List.length_cons, List.length_nil, Signature.length_basicParams]
      omega
  · cases generic <;> simp [checkedCall]

/-- A type that leaves a slot for the handle can be called through a carrier. -/
theorem reinvoker_ok (hs : s.fields = [.ref]) (h : basic.slots ≤ Signature.maxHandleSlots)
    (id : Nat) : ∃ f, reinvoker s basic id = .ok f := by
  have hslots : BasicType.slotSum (.ref :: basic.basicParams) ≤ Signature.maxSlots := by
    rw [slotSum_ref_cons]
    exact Nat.succ_le_succ h
  rw [reinvoker_eq hs]
  refine ofParts_of_fitBehind (.carrier s) rfl hslots (fitBehind_getter _ (.apply ?_ (.nil _)) hs)
    fun r => result_lt ?_
  · rw [params_invokeBasic, List.map_cons, ← argRange_one]
    refine .cons ?_ (fits_argRange [.ref] basic.basicParams [.ref] rfl ?_)
    · show (_ ++ _)[basic.arity + 1]? = some BasicType.ref
      simp
    · simp [Nat.add_comm]
  · simp

/-! ## Direct forms -/

/-- A linker call takes the member, and that of a constructor the new instance too. -/
theorem exists_linkType {kind : DispatchKind}
    (h : basic.slots ≤ Signature.maxHandleSlots - if kind = .newSpecial then 1 else 0) :
    ∃ link, linkType basic kind = .ok link := by
  have hparams : ∀ t ∈ basic.basicParams ++ [.ref], t ≠ .void := by
    intro t ht
    rcases List.mem_append.1 ht with ht | ht
    · exact Signature.ne_void_of_mem_basicParams rfl t ht
    · simp [List.mem_singleton.1 ht]
  rw [← Signature.slotSum_basicParams] at h
  unfold linkType
  by_cases hkind : kind = .newSpecial
  · have hsum : BasicType.slotSum ([.ref] ++ basic.basicParams ++ [.ref]) ≤ Signature.maxSlots := by
      rw [BasicType.slotSum_append, List.singleton_append, slotSum_ref_cons]
      rw [if_pos hkind] at h
      exact Nat.add_le_add_right h 2
    obtain ⟨link, hlink⟩ := Signature.exists_ofBasic .void (by simpa using hparams) hsum
    exact ⟨link, by simp only [hkind, if_true, hlink]⟩
  · have hsum : BasicType.slotSum (basic.basicParams ++ [.ref]) ≤ Signature.maxSlots := by
      rw [BasicType.slotSum_append]
      rw [if_neg hkind] at h
      exact Nat.add_le_add_right h 1
    obtain ⟨link, hlink⟩ := Signature.exists_ofBasic basic.basicRet hparams hsum
    exact ⟨link, by simp only [if_neg hkind, List.nil_append, hlink]⟩

/-- The expressions of a direct form fit behind the class barrier. -/
theorem fitBehind_dispatch {kind : DispatchKind} {link : Signature} (more : List BasicType)
    {first : Nat} (hlink : linkType basic kind = .ok link)
    (hfirst : first = basic.arity + 1 + more.length) :
    FitBehind (.ref :: basic.basicParams ++ more) (dispatchExprs basic link kind first) := by
  have hparams := basicParams_linkType hlink
  have hargs (behind : List BasicType) : List.Forall₂
      (Arg.Fits (.ref :: basic.basicParams ++ more ++ behind)) (argRange 1 (basic.arity + 1))
        basic.basicParams := by
    rw [List.append_assoc]
    exact fits_argRange [.ref] basic.basicParams (more ++ behind) rfl (by simp [Nat.add_comm])
  -- What reads the handle stands behind all names before it.
  have hnext (behind : List BasicType) (k : Nat) (hk : behind[k]? = some .ref) :
      (.ref :: basic.basicParams ++ more ++ behind)[first + k]? = some BasicType.ref := by
    rw [List.getElem?_append_right (by simp; omega)]
    simpa [hfirst, Nat.add_assoc, Nat.add_comm, Nat.add_left_comm] using hk
  unfold dispatchExprs
  dsimp only
  split
  · next hkind =>
    rw [if_pos hkind] at hparams
    have hinstance := hnext [.ref, .ref] 0 rfl
    have hmember := hnext [.ref, .ref] 1 rfl
    refine .apply (.cons rfl .nil) (.apply (.cons rfl .nil) (.apply ?_ (.nil _)))
    show List.Forall₂ _ _ link.basicParams
    rw [hparams, List.append_assoc _ [_] [_]]
    exact .cons hinstance (List.rel_append (hargs _) (.cons hmember .nil))
  · next hkind =>
    rw [if_neg hkind] at hparams
    refine .apply (.cons rfl .nil) (.apply ?_ (.nil _))
    show List.Forall₂ _ _ link.basicParams
    rw [hparams]
    exact List.rel_append (hargs _) (.cons (hnext [.ref] 0 rfl) .nil)

/-- A type with a linker call has direct forms. -/
theorem direct_ok {kind : DispatchKind} {link : Signature} (barrier : Bool)
    (hlink : linkType basic kind = .ok link) (id : Nat) :
    ∃ f, direct basic kind barrier id = .ok f := by
  have hslots : BasicType.slotSum (.ref :: basic.basicParams) ≤ Signature.maxSlots := by
    rw [slotSum_ref_cons]
    exact Nat.succ_le_succ (Nat.le_trans (Nat.le_add_right _ _) (slots_of_linkType hlink))
  have hexprs : FitBehind (.ref :: basic.basicParams) (directExprs basic link kind barrier) := by
    cases barrier with
    | false =>
      rw [directExprs_false]
      simpa using fitBehind_dispatch [] hlink rfl
    | true =>
      rw [directExprs_true]
      exact .apply (.cons rfl .nil) (fitBehind_dispatch [.void] hlink rfl)
  rw [direct_eq barrier hlink]
  refine ofParts_of_fitBehind (.param .ref) rfl hslots hexprs fun r => result_lt ?_
  cases barrier <;> by_cases hkind : kind = .newSpecial <;> simp [directExprs, hkind]

end Form

end HandleForms
