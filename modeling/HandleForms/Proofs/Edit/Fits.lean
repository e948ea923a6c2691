import HandleForms.Proofs.Edit.Combination
import HandleForms.Proofs.Edit.Parameters
import HandleForms.Proofs.Edit.Results
import HandleForms.Proofs.Edit.Spread
import HandleForms.Proofs.Edit.WellFormed

/-!
# The adaptations of editable forms fit

An editable form is one that edits can be made to: well-formed, over names as they are made, with a
reference in parameter 0 and no parameter of type `void`. For each adaptation there is one lemma that
writes down the parameter types of the derived form and one that says when the adaptation fits.
-/

namespace HandleForms

/-- Everything but `void` takes a slot. -/
theorem BasicType.length_le_slotSum {ts : List BasicType} (h : ∀ t ∈ ts, t ≠ .void) :
    ts.length ≤ slotSum ts := by
  induction ts with
  | nil => exact Nat.le_refl _
  | cons t ts ih =>
    obtain ⟨ht, hts⟩ := List.forall_mem_cons.1 h
    have hslots : 0 < t.slots := by cases t <;> simp [slots] at ht ⊢
    have := ih hts
    simp
    omega

/-! ## Editable forms -/

/-- A form that edits can be made to. -/
structure Form.Editable (f : Form) : Prop where
  wellFormed : f.WellFormed
  made : f.Made
  /-- Parameter 0 is the handle that is being called. -/
  ref : f.param? 0 = some .ref
  args : ∀ t ∈ f.params, t ≠ .void

namespace Form

variable {f : Form} {i pos : Nat} {t : BasicType}

theorem paramType_eq_ok_iff : f.paramType i = .ok t ↔ f.param? i = some t := by
  unfold paramType
  cases f.param? i <;> simp

theorem map_type_take (h : pos ≤ f.arity) :
    (f.names.take pos).map Name.type = f.params.take pos := by
  rw [params, ← List.map_take, List.take_take, Nat.min_eq_left h]

theorem map_type_drop : ((f.names.take f.arity).drop pos).map Name.type = f.params.drop pos := by
  rw [params, List.map_drop]

/-- What stands among the parameters is a parameter. -/
theorem WellFormed.isParam_of_mem (h : f.WellFormed) {n : Name Form}
    (hn : n ∈ f.names.take f.arity) : n.isParam = true := by
  obtain ⟨i, hi⟩ := List.getElem?_of_mem hn
  rw [List.getElem?_take, Option.ite_none_right_eq_some] at hi
  obtain ⟨hlt, hi⟩ := hi
  exact (h.isParam_iff i n hi).2 hlt

namespace Editable

variable (h : f.Editable)
include h

theorem arity_pos : 0 < f.arity := by
  have := (List.getElem?_eq_some_iff.1 h.ref).1
  rw [length_params h.wellFormed] at this
  exact this

theorem paramType_zero : f.paramType 0 = .ok .ref := paramType_eq_ok_iff.2 h.ref

/-- The types of the parameters, the handle first. -/
theorem params_eq : f.params = .ref :: f.params.drop 1 := by
  have href : f.params[0]? = some .ref := h.ref
  cases hps : f.params with
  | nil => simp [hps] at href
  | cons t ts => simpa [hps] using href

theorem arity_le : f.arity ≤ Signature.maxSlots := by
  rw [← length_params h.wellFormed]
  exact Nat.le_trans (BasicType.length_le_slotSum h.args) h.wellFormed.slots_le

theorem made_of_mem {n : Name Form} (hn : n ∈ f.names.take f.arity) :
    n.Made ∧ n.isParam = true :=
  ⟨h.made n (List.mem_of_mem_take hn), h.wellFormed.isParam_of_mem hn⟩

theorem made_of_mem_take {n : Name Form} (hpos : pos ≤ f.arity) (hn : n ∈ f.names.take pos) :
    n.Made ∧ n.isParam = true :=
  h.made_of_mem ((List.take_subset_take_left _ hpos) hn)

end Editable

end Form

/-! ## Slots and names that fit -/

/-- The slots of a list without the types from `a` up to `b`. -/
theorem BasicType.slotSum_take_drop (ts : List BasicType) {a b : Nat} (h : a ≤ b) :
    slotSum (ts.take a) + slotSum (ts.drop b) + slotSum ((ts.take b).drop a) = slotSum ts := by
  have hsplit : ts.take a ++ (ts.take b).drop a ++ ts.drop b = ts := by
    have htake : ts.take a = (ts.take b).take a := by rw [List.take_take, Nat.min_eq_left h]
    rw [htake, List.take_append_drop, List.take_append_drop]
  have hsum := congrArg slotSum hsplit
  simp only [slotSum_append] at hsum
  omega

namespace Name

variable {g : CarrierGrowth} {types : List BasicType} {e : Expr Form}

theorem fits_readOf {carrier : Nat} (h : types[carrier]? = some .ref)
    (he : (g.readOf carrier).expr = some e) : e.Fits types := by
  obtain rfl := Option.some.inj he
  exact .cons h .nil

theorem fits_call {type : Signature} {operands : List Nat}
    (h : List.Forall₂ (fun o t => types[o]? = some t) operands (.ref :: type.basicParams))
    (he : (call type operands).expr = some e) : e.Fits types := by
  obtain rfl := Option.some.inj he
  have hparams : (Function.invokeBasic type : Function Form).params = .ref :: type.basicParams := by
    simp [Function.invokeBasic, Function.params, Intrinsic.params, Signature.basic,
      Signature.basicParams]
  rw [Expr.Fits, hparams, List.forall₂_map_left_iff]
  exact h

theorem fits_checkLength {array count : Nat} (h : types[array]? = some .ref)
    (he : (checkLength array count).expr = some e) : e.Fits types := by
  obtain rfl := Option.some.inj he
  exact .cons h (.cons rfl .nil)

theorem fits_load {element : Ty} {array index : Nat} (h : types[array]? = some .ref)
    (he : (load element array index).expr = some e) : e.Fits types := by
  obtain rfl := Option.some.inj he
  exact .cons h (.cons rfl .nil)

end Name

namespace Edit

open Transaction.Layout (getElem?_length_add)

/-- Types in the order in which `reorder` supplies those behind the first `skip`. -/
def permuteTypes (skip : Nat) (reorder : List Nat) (ts : List BasicType) : List BasicType :=
  ts.take skip ++ (List.range reorder.length).map fun j => ts[skip + reorder.idxOf j]?.getD .void

section permuteTypes

variable {reorder : List Nat} {skip i r : Nat} {ts : List BasicType}

theorem getElem?_permuteTypes_of_lt (hskip : skip ≤ ts.length) (hi : i < skip) :
    (permuteTypes skip reorder ts)[i]? = ts[i]? := by
  rw [permuteTypes, List.getElem?_append_left (by simp; omega), List.getElem?_take_of_lt hi]

variable (hperm : reorder.Perm (List.range reorder.length))
  (hlen : skip + reorder.length = ts.length)
include hperm hlen

/-- What stands at `skip + i` goes to `skip + reorder[i]`. -/
theorem getElem?_permuteTypes (hr : reorder[i]? = some r) :
    (permuteTypes skip reorder ts)[skip + r]? = ts[skip + i]? := by
  obtain ⟨hi, rfl⟩ := List.getElem?_eq_some_iff.1 hr
  have hnodup : reorder.Nodup := hperm.nodup_iff.2 List.nodup_range
  have hlt : reorder[i] < reorder.length :=
    List.mem_range.1 (hperm.subset (List.getElem_mem hi))
  have hts := List.getElem?_eq_getElem (show skip + i < ts.length by omega)
  rw [permuteTypes, getElem?_length_add (by simp; omega), List.getElem?_map,
    List.getElem?_range hlt, Option.map_some, hnodup.idxOf_getElem, hts, Option.getD_some]

theorem permuteTypes_perm : (permuteTypes skip reorder ts).Perm ts := by
  have hnodup : reorder.Nodup := hperm.nodup_iff.2 List.nodup_range
  have hdrop : (reorder.map fun j => ts[skip + reorder.idxOf j]?.getD .void) = ts.drop skip := by
    refine List.ext_getElem (by simp; omega) fun i hi hi' => ?_
    have hts := List.getElem?_eq_getElem (show skip + i < ts.length by simp at hi; omega)
    rw [List.getElem_map, List.getElem_drop, hnodup.idxOf_getElem, hts, Option.getD_some]
  have htail := (hperm.symm.map fun j => ts[skip + reorder.idxOf j]?.getD .void)
  rw [hdrop] at htail
  simpa [permuteTypes] using htail.append_left (ts.take skip)

end permuteTypes

end Edit

namespace Adaptation

open Transaction.Layout (getElem?_length_add)

open Edit (resultArity permuteTypes getElem?_permuteTypes getElem?_permuteTypes_of_lt
  permuteTypes_perm)

variable {base : Form} {g : CarrierGrowth} {field type : BasicType} {pos src dst count : Nat}
  {element : Ty} {combiner : Signature} {keep drop : Bool} {reorder : List Nat}

/-- The carrier takes the place of the handle, which has the same type. -/
theorem cons_drop_take (h : base.Editable) (hpos : 0 < pos) (rest : List BasicType) :
    BasicType.ref :: ((base.params.take pos).drop 1 ++ rest) = base.params.take pos ++ rest := by
  obtain ⟨k, rfl⟩ := Nat.exists_eq_add_of_lt hpos
  rw [h.params_eq]
  simp

theorem proper_some (hg : g.Appends field) : CarrierGrowth.Proper (some g) := by
  intro g' hg'
  obtain rfl := Option.some.inj hg'
  exact ⟨field, hg⟩

section splice

variable {ps : List BasicType} {r o : Nat} {t : BasicType} (cs : List BasicType)

theorem length_spliced (hle : pos + r ≤ ps.length) :
    (ps.take pos ++ (cs ++ ps.drop (pos + r))).length = ps.length - r + cs.length := by
  simp
  omega

/-- Where a parameter goes when others take the place of the `r` parameters from `pos` on. -/
theorem getElem?_spliced (new : List BasicType) (hle : pos + r ≤ ps.length) (ho : ps[o]? = some t)
    (hout : o < pos ∨ pos + r ≤ o) :
    (ps.take pos ++ (cs ++ ps.drop (pos + r)) ++ new)[
      if o < pos then o else o - r + cs.length]? = some t := by
  have hlt := (List.getElem?_eq_some_iff.1 ho).1
  have hlen := length_spliced cs hle
  split
  · next hpos =>
    rw [List.append_assoc, List.getElem?_append_left (by simp; omega),
      List.getElem?_take_of_lt hpos, ho]
  · next hpos =>
    obtain ⟨k, rfl⟩ := Nat.exists_eq_add_of_le (hout.resolve_left hpos)
    have hidx : pos + r + k - r + cs.length = pos + (cs.length + k) := by omega
    rw [List.getElem?_append_left (by omega), hidx,
      getElem?_length_add (by simp; omega),
      getElem?_length_add rfl, List.getElem?_drop, ho]

end splice

/-- Most adaptations put nothing behind the expressions of the base and keep its result. -/
theorem Fits.of_early {A : Adaptation} (hgrowth : CarrierGrowth.Proper A.growth)
    (hlate : A.late = [] ∧ A.result = none) (hparams : ∀ n ∈ A.params, n.Made ∧ n.isParam = true)
    (hslots : BasicType.slotSum (A.params.map Name.type) ≤ Signature.maxSlots)
    (hearly : ∀ n ∈ A.early, n.Made ∧ n.isParam = false)
    (hfits : ∀ (i : Nat) (n : Name Form), A.early[i]? = some n → ∀ e, n.expr = some e →
      e.Fits ((A.params ++ A.early.take i).map Name.type))
    (hplace : ∀ o t, base.param? o = some t →
      ((A.params ++ A.early).map Name.type)[A.place o]? = some t) : A.Fits base := by
  obtain ⟨hlate, hresult⟩ := hlate
  refine ⟨hgrowth, hparams, hslots, hearly, hfits, ?_, ?_, hplace, ?_⟩ <;> simp [hlate, hresult]

/-- Many have no new expression at all. -/
theorem Fits.of_params {A : Adaptation}
    (hnew : A.growth = none ∧ A.early = [] ∧ A.late = [] ∧ A.result = none)
    (hmade : ∀ n ∈ A.params, n.Made ∧ n.isParam = true)
    (hslots : BasicType.slotSum (A.params.map Name.type) ≤ Signature.maxSlots)
    (hplace : ∀ o t, base.param? o = some t → (A.params.map Name.type)[A.place o]? = some t) :
    A.Fits base := by
  obtain ⟨hgrowth, hearly, hlate, hresult⟩ := hnew
  exact .of_early (by simp [hgrowth, CarrierGrowth.Proper]) ⟨hlate, hresult⟩ hmade hslots
    (by simp [hearly]) (by simp [hearly]) (by simpa [hearly] using hplace)

/-! ## Parameters -/

theorem types_adding (hpos : pos ≤ base.arity) :
    (adding base pos type).params.map Name.type =
      base.params.take pos ++ type :: base.params.drop pos := by
  simp only [adding, List.map_append, List.map_cons, Form.map_type_take hpos, Form.map_type_drop]
  rfl

theorem fits_adding (h : base.Editable) (hpos : pos ≤ base.arity)
    (hslots : base.slots + type.slots ≤ Signature.maxSlots) : (adding base pos type).Fits base := by
  refine Fits.of_params ⟨rfl, rfl, rfl, rfl⟩ (fun n hn => ?_) ?_ fun o t ho => ?_
  · simp only [adding, List.mem_append, List.mem_cons] at hn
    rcases hn with hn | rfl | hn
    · exact h.made_of_mem_take hpos hn
    · exact ⟨.param type, rfl⟩
    · exact h.made_of_mem (List.mem_of_mem_drop hn)
  · have hsum := BasicType.slotSum_take_drop base.params (Nat.le_refl pos)
    rw [types_adding hpos]
    simp [Form.slots] at hsum hslots ⊢
    omega
  · have hlen := Form.length_params h.wellFormed
    have ho : base.params[o]? = some t := ho
    rw [types_adding hpos, adding]
    generalize base.params = ps at *
    grind

theorem types_merging (hdst : dst ≤ base.arity) :
    (merging base src dst).params.map Name.type =
      base.params.take dst ++ base.params.drop (dst + 1) := by
  simp only [merging, List.map_append, Form.map_type_take hdst, Form.map_type_drop]

theorem fits_merging (h : base.Editable) (hsrc : src < dst) (hdst : dst < base.arity)
    (htype : base.param? dst = base.param? src) : (merging base src dst).Fits base := by
  refine Fits.of_params ⟨rfl, rfl, rfl, rfl⟩ (fun n hn => ?_) ?_ fun o t ho => ?_
  · simp only [merging, List.mem_append] at hn
    rcases hn with hn | hn
    · exact h.made_of_mem_take (Nat.le_of_lt hdst) hn
    · exact h.made_of_mem (List.mem_of_mem_drop hn)
  · have hsum := BasicType.slotSum_take_drop base.params (Nat.le_succ dst)
    have hslots := h.wellFormed.slots_le
    rw [types_merging (Nat.le_of_lt hdst)]
    simp [Form.slots] at hsum hslots ⊢
    omega
  · have hlen := Form.length_params h.wellFormed
    have ho : base.params[o]? = some t := ho
    have htype : base.params[dst]? = base.params[src]? := htype
    rw [types_merging (Nat.le_of_lt hdst), merging]
    generalize base.params = ps at *
    grind

theorem types_permuting (hpos : pos ≤ base.arity) :
    (permuting base pos reorder).params.map Name.type = permuteTypes pos reorder base.params := by
  simp only [permuting, List.map_append, Form.map_type_take hpos, List.map_map]
  rfl

/-- The slots do not depend on the order of the parameters. -/
theorem fits_permuting (h : base.Editable) (hlen : pos + reorder.length = base.arity)
    (hperm : reorder.Perm (List.range reorder.length)) :
    (permuting base pos reorder).Fits base := by
  have hpos : pos ≤ base.arity := by omega
  have hparams : pos + reorder.length = base.params.length := by
    rw [Form.length_params h.wellFormed, hlen]
  refine Fits.of_params ⟨rfl, rfl, rfl, rfl⟩ (fun n hn => ?_) ?_ fun o t ho => ?_
  · simp only [permuting, List.mem_append, List.mem_map] at hn
    rcases hn with hn | ⟨j, -, rfl⟩
    · exact h.made_of_mem_take hpos hn
    · exact ⟨.param _, rfl⟩
  · rw [types_permuting hpos, BasicType.slotSum_perm (permuteTypes_perm hperm hparams)]
    exact h.wellFormed.slots_le
  · have ho : base.params[o]? = some t := ho
    have hlt := (List.getElem?_eq_some_iff.1 ho).1
    rw [types_permuting hpos]
    simp only [permuting, Edit.permuted]
    by_cases hkept : o < pos
    · rw [if_pos (.inl hkept), getElem?_permuteTypes_of_lt (by omega) hkept, ho]
    · obtain ⟨i, rfl⟩ := Nat.exists_eq_add_of_le (Nat.not_lt.1 hkept)
      have hr : reorder[i]? = some (reorder.get ⟨i, by omega⟩) :=
        List.getElem?_eq_getElem (by omega)
      rw [if_neg (by omega), Nat.add_sub_cancel_left, hr]
      simpa only [getElem?_permuteTypes hperm hparams hr] using ho

/-! ## The carrier -/

theorem types_binding (h : base.Editable) (hpos : 0 < pos) (hlt : pos < base.arity) :
    (binding base g pos).params.map Name.type =
      base.params.take pos ++ base.params.drop (pos + 1) := by
  rw [← cons_drop_take h hpos]
  simp only [binding, List.map_cons, List.map_append, List.map_drop,
    Form.map_type_take (Nat.le_of_lt hlt)]
  rfl

/-- A parameter of a form whose handle gives way to a carrier. -/
theorem made_of_carrier (h : base.Editable) {lead rest : List (Name Form)}
    (hlead : ∀ n ∈ lead, n ∈ base.names.take base.arity)
    (hrest : ∀ n ∈ rest, n.Made ∧ n.isParam = true) :
    ∀ n ∈ .carrier g.new :: (lead ++ rest), n.Made ∧ n.isParam = true := by
  intro n hn
  simp only [List.mem_cons, List.mem_append] at hn
  rcases hn with rfl | hn | hn
  · exact ⟨.carrier g.new, rfl⟩
  · exact h.made_of_mem (hlead n hn)
  · exact hrest n hn

theorem mem_of_mem_drop_take (hpos : pos ≤ base.arity) :
    ∀ n ∈ (base.names.take pos).drop 1, n ∈ base.names.take base.arity :=
  fun _ hn => List.take_subset_take_left _ hpos (List.mem_of_mem_drop hn)

theorem fits_binding (h : base.Editable) (hpos : 0 < pos) (hlt : pos < base.arity)
    (htype : base.param? pos = some field) (hg : g.Appends field) :
    (binding base g pos).Fits base := by
  refine Fits.of_early (proper_some hg) ⟨rfl, rfl⟩
    (made_of_carrier h (mem_of_mem_drop_take (Nat.le_of_lt hlt))
      fun n hn => h.made_of_mem (List.mem_of_mem_drop hn)) ?_ (fun n hn => ?_)
    (fun i n hn e he => ?_) fun o t ho => ?_
  · have hsum := BasicType.slotSum_take_drop base.params (Nat.le_succ pos)
    have hslots := h.wellFormed.slots_le
    rw [types_binding h hpos hlt]
    simp [Form.slots] at hsum hslots ⊢
    omega
  · obtain rfl := List.mem_singleton.1 hn
    exact ⟨.apply _ _, rfl⟩
  · obtain ⟨rfl, rfl⟩ : i = 0 ∧ g.readOf 0 = n := by
      simpa [binding, List.getElem?_singleton] using hn
    exact Name.fits_readOf rfl he
  · have hlen := Form.length_params h.wellFormed
    have ho : base.params[o]? = some t := ho
    have htype : base.params[pos]? = some field := htype
    rw [List.map_append, types_binding h hpos hlt]
    simp only [binding, List.map_cons, CarrierGrowth.type_readOf hg, List.map_nil]
    generalize base.params = ps at *
    grind

theorem types_bindingHandle (h : base.Editable) :
    (bindingHandle base g).params.map Name.type = base.params := by
  rw [bindingHandle, List.map_cons, Form.map_type_drop, h.params_eq, List.drop_one, List.tail_cons]
  rfl

theorem fits_bindingHandle (h : base.Editable) (hg : g.Appends .ref) :
    (bindingHandle base g).Fits base := by
  refine Fits.of_early (by simp [bindingHandle, CarrierGrowth.Proper]) ⟨rfl, rfl⟩
    (made_of_carrier h (List.forall_mem_nil _) fun n hn => h.made_of_mem (List.mem_of_mem_drop hn))
    ?_ (fun n hn => ?_) (fun i n hn e he => ?_) fun o t ho => ?_
  · rw [types_bindingHandle h]
    exact h.wellFormed.slots_le
  · obtain rfl := List.mem_singleton.1 hn
    exact ⟨.apply _ _, rfl⟩
  · obtain ⟨rfl, rfl⟩ : i = 0 ∧ g.readOf 0 = n := by
      simpa [bindingHandle, List.getElem?_singleton] using hn
    exact Name.fits_readOf rfl he
  · have hlen := Form.length_params h.wellFormed
    have ho : base.params[o]? = some t := ho
    have href : base.params[0]? = some .ref := h.ref
    rw [List.map_append, types_bindingHandle h]
    simp only [bindingHandle, List.map_cons, CarrierGrowth.type_readOf hg, List.map_nil]
    generalize base.params = ps at *
    grind

theorem types_combining (h : base.Editable) (hpos : 0 < pos) (hle : pos ≤ base.arity) :
    (combining base g pos combiner keep drop).params.map Name.type =
      base.params.take pos ++
        (combinationParams combiner keep ++ base.params.drop (pos + resultArity drop)) := by
  rw [← cons_drop_take h hpos]
  simp only [combining, List.map_cons, List.map_append, List.map_drop, Form.map_type_take hle,
    List.map_map]
  simp [Name.carrier, Name.param, Function.comp_def, Form.params]

/-- The combiner finds the handle that it is and the arguments that it takes. -/
theorem fits_combiner (h : base.Editable) (hpos : 0 < pos)
    (hle : pos + resultArity drop ≤ base.arity)
    (hkept : keep = true → combiner.basicParams <+: base.params.drop (pos + resultArity drop))
    {e : Expr Form}
    (he : (Name.call combiner
      ((base.arity - resultArity drop + (combinationParams combiner keep).length) ::
        List.range' pos combiner.arity)).expr = some e) :
    e.Fits (base.params.take pos ++ (combinationParams combiner keep ++
      base.params.drop (pos + resultArity drop)) ++ [.ref]) := by
  have hlen := Form.length_params h.wellFormed
  refine Name.fits_call (.cons ?_ (List.forall₂_iff_get.2 ⟨by simp, fun k hk hk' => ?_⟩)) he
  · have hat : (base.params.take pos ++ (combinationParams combiner keep ++
        base.params.drop (pos + resultArity drop))).length =
          base.arity - resultArity drop + (combinationParams combiner keep).length := by
      simp
      omega
    rw [← hat, List.getElem?_concat_length]
  · have hk : k < combiner.basicParams.length := by simpa using hk
    have hget := List.getElem?_eq_getElem hk
    simp only [List.get_eq_getElem, List.getElem_range', Nat.one_mul]
    rw [← hget, List.append_assoc, getElem?_length_add (by simp; omega)]
    cases keep with
    | false => simp [combinationParams, hget, List.getElem?_append_left hk]
    | true =>
      have := Draft.getElem?_of_isPrefix (hkept rfl) hget
      rw [combinationParams, if_pos rfl, List.nil_append,
        List.getElem?_append_left (List.getElem?_eq_some_iff.1 this).1, this, hget]

theorem fits_combining (h : base.Editable) (hpos : 0 < pos)
    (hle : pos + resultArity drop ≤ base.arity)
    (hslots : BasicType.slotSum (base.params.take pos ++ (combinationParams combiner keep ++
      base.params.drop (pos + resultArity drop))) ≤ Signature.maxSlots)
    (hkept : keep = true → combiner.basicParams <+: base.params.drop (pos + resultArity drop))
    (hret : drop = false → base.param? pos = some combiner.basicRet) (hg : g.Appends .ref) :
    (combining base g pos combiner keep drop).Fits base := by
  have hpos' : pos ≤ base.arity := by omega
  refine Fits.of_early (proper_some hg) ⟨rfl, rfl⟩
    (made_of_carrier h (mem_of_mem_drop_take hpos') fun n hn => ?_) ?_ (fun n hn => ?_)
    (fun i n hn e he => ?_) fun o t ho => ?_
  · rcases List.mem_append.1 hn with hn | hn
    · obtain ⟨t, -, rfl⟩ := List.mem_map.1 hn
      exact ⟨.param t, rfl⟩
    · exact h.made_of_mem (List.mem_of_mem_drop hn)
  · rw [types_combining h hpos hpos']
    exact hslots
  · simp only [combining, List.mem_cons, List.not_mem_nil, or_false] at hn
    rcases hn with rfl | rfl
    · exact ⟨.apply _ _, rfl⟩
    · exact ⟨.apply _ _, rfl⟩
  · rw [List.map_append, types_combining h hpos hpos']
    rcases i with _ | _ | i
    · obtain rfl : g.readOf 0 = n := by simpa [combining] using hn
      refine Name.fits_readOf ?_ he
      have href : base.params[0]? = some .ref := h.ref
      have hlen := Form.length_params h.wellFormed
      rw [List.append_assoc, List.getElem?_append_left (by simp; omega),
        List.getElem?_take_of_lt hpos, href]
    · simp only [combining, List.getElem?_cons_succ, List.getElem?_cons_zero,
        Option.some.injEq] at hn
      subst hn
      simpa [combining, CarrierGrowth.type_readOf hg] using fits_combiner h hpos hle hkept he
    · simp [combining] at hn
  · have hlen := Form.length_params h.wellFormed
    have ho : base.params[o]? = some t := ho
    rw [List.map_append, types_combining h hpos hpos']
    simp only [combining, List.map_cons, CarrierGrowth.type_readOf hg, Name.type_call, List.map_nil]
    by_cases hout : o < pos ∨ pos + resultArity drop ≤ o
    · have hkept := getElem?_spliced (combinationParams combiner keep)
        [.ref, combiner.basicRet] (hlen ▸ hle) ho hout
      rcases hout with hlt | hge
      · simpa only [if_pos hlt] using hkept
      · simpa only [if_neg (show ¬ o < pos by omega), if_neg (Nat.not_lt.2 hge)] using hkept
    · -- The result of the call supplies the parameter that is left.
      obtain ⟨rfl, rfl⟩ : o = pos ∧ drop = false := by
        cases drop <;> simp [resultArity] at hout ⊢ <;> omega
      obtain rfl : t = combiner.basicRet := by simpa [Form.param?, ho] using hret rfl
      rw [if_neg (by omega), if_pos (by omega), ← hlen,
        getElem?_length_add
          (length_spliced (combinationParams combiner keep) (hlen ▸ hle))]
      rfl

theorem types_spreading (hpos : pos ≤ base.arity) :
    (spreading base pos element count).params.map Name.type =
      base.params.take pos ++ ([.ref] ++ base.params.drop (pos + count)) := by
  simp only [spreading, List.map_append, List.map_cons, Form.map_type_take hpos, Form.map_type_drop]
  rfl

theorem fits_spreading (h : base.Editable) (hle : pos + count ≤ base.arity)
    (hslots : BasicType.slotSum (base.params.take pos ++
      ([.ref] ++ base.params.drop (pos + count))) ≤ Signature.maxSlots)
    (htypes : ∀ k < count, base.param? (pos + k) = some element.basicType) :
    (spreading base pos element count).Fits base := by
  have hpos : pos ≤ base.arity := by omega
  have hlen := Form.length_params h.wellFormed
  -- All new expressions read the array.
  have harray : ∀ more, (base.params.take pos ++ ([.ref] ++ base.params.drop (pos + count)) ++
      more)[pos]? = some .ref := by
    intro more
    have hat : (base.params.take pos).length = pos := by simp; omega
    rw [List.append_assoc, List.getElem?_append_right (Nat.le_of_eq hat), hat, Nat.sub_self]
    rfl
  have hcases : ∀ (i : Nat) n, (spreading base pos element count).early[i]? = some n →
      n = Name.checkLength pos count ∨ ∃ k, n = Name.load element pos k := by
    intro i n hn
    rcases List.mem_cons.1 (List.mem_of_getElem? hn) with hn | hn
    · exact .inl hn
    · obtain ⟨k, -, rfl⟩ := List.mem_map.1 hn
      exact .inr ⟨k, rfl⟩
  refine Fits.of_early (by simp [spreading, CarrierGrowth.Proper]) ⟨rfl, rfl⟩ (fun n hn => ?_)
    ?_ (fun n hn => ?_) (fun i n hn e he => ?_) fun o t ho => ?_
  · simp only [spreading, List.mem_append, List.mem_cons] at hn
    rcases hn with hn | rfl | hn
    · exact h.made_of_mem_take hpos hn
    · exact ⟨.param .ref, rfl⟩
    · exact h.made_of_mem (List.mem_of_mem_drop hn)
  · rw [types_spreading hpos]
    exact hslots
  · obtain ⟨i, hi⟩ := List.getElem?_of_mem hn
    rcases hcases i n hi with rfl | ⟨k, rfl⟩
    · exact ⟨.apply _ _, rfl⟩
    · exact ⟨.apply _ _, rfl⟩
  · rw [List.map_append, types_spreading hpos]
    rcases hcases i n hn with rfl | ⟨k, rfl⟩
    · exact Name.fits_checkLength (harray _) he
    · exact Name.fits_load (harray _) he
  · have ho : base.params[o]? = some t := ho
    rw [List.map_append, types_spreading hpos]
    simp only [spreading]
    by_cases hout : o < pos ∨ pos + count ≤ o
    · have hkept := getElem?_spliced [.ref]
        ((Name.checkLength pos count :: (List.range count).map fun k =>
          .load element pos k).map Name.type) (hlen ▸ hle) ho hout
      rcases hout with hlt | hge
      · simpa only [if_pos hlt] using hkept
      · have hidx : o - count + [BasicType.ref].length = o + 1 - count := by simp; omega
        simpa only [if_neg (show ¬ o < pos by omega), if_neg (Nat.not_lt.2 hge), hidx] using hkept
    · -- A load supplies a parameter of the run.
      obtain ⟨k, rfl⟩ := Nat.exists_eq_add_of_le (show pos ≤ o by omega)
      obtain rfl : t = element.basicType := by
        have := htypes k (by omega)
        simpa [Form.param?, ho] using this
      have hidx : base.arity - count + 2 + (pos + k - pos) =
          base.params.length - count + [BasicType.ref].length + (1 + k) := by
        rw [Nat.add_sub_cancel_left, hlen, List.length_singleton]
        omega
      rw [if_neg (by omega), if_pos (by omega), hidx,
        getElem?_length_add (length_spliced [.ref] (hlen ▸ hle)), Nat.add_comm 1,
        List.map_cons, List.getElem?_cons_succ, List.map_map, List.getElem?_map,
        List.getElem?_range (by omega)]
      rfl

/-! ## Results -/

theorem types_filteringReturn (h : base.Editable) :
    (filteringReturn base g combiner).params.map Name.type = base.params :=
  types_bindingHandle h

/-- The types of the names that stay in place. -/
theorem types_kept {A : Adaptation} (h : base.Editable) (hgrowth : CarrierGrowth.Proper A.growth)
    (hparams : A.params.map Name.type = base.params) (hearly : A.early = []) :
    (A.params ++ A.early ++ (base.names.drop base.arity).map (A.moved base)).map Name.type =
      base.names.map Name.type := by
  have hmoved : ∀ n ∈ base.names.drop base.arity, (A.moved base n).type = n.type :=
    fun n hn => (h.made n (List.mem_of_mem_drop hn)).type_retarget hgrowth
  have htail : (base.names.drop base.arity).map (Name.type ∘ A.moved base) =
      (base.names.drop base.arity).map Name.type := List.map_congr_left hmoved
  rw [hearly, List.append_nil, List.map_append, hparams, List.map_map, htail, Form.params,
    ← List.map_append, List.take_append_drop]

/-- The late names are found behind those of the base. -/
theorem getElem?_late {A : Adaptation} (h : base.Editable)
    (hgrowth : CarrierGrowth.Proper A.growth) (hparams : A.params.map Name.type = base.params)
    (hearly : A.early = []) (k : Nat) : (A.names base)[base.size + k]? = A.late[k]? := by
  have hlen := congrArg List.length (types_kept h hgrowth hparams hearly)
  rw [List.length_map, List.length_map] at hlen
  exact getElem?_length_add hlen k

theorem fits_filteringReturn (h : base.Editable) (hg : g.Appends .ref) {filter : Signature}
    (hfilter : filter.basicParams = base.result.toList.map fun _ => base.ret) :
    (filteringReturn base g filter).Fits base := by
  have hgrowth : CarrierGrowth.Proper (some g) := proper_some hg
  have htypes := types_kept (A := filteringReturn base g filter) h hgrowth
    (types_filteringReturn h) rfl
  have hlen : (base.names.map Name.type).length = base.size := by simp [Form.size]
  have hlate : (filteringReturn base g filter).late =
      [g.readOf 0, .call filter (base.size :: base.result.toList)] := rfl
  refine ⟨hgrowth, made_of_carrier h (List.forall_mem_nil _)
    fun n hn => h.made_of_mem (List.mem_of_mem_drop hn), ?_, List.forall_mem_nil _, ?_,
    fun n hn => ?_, fun i n hn e he => ?_, fun o t ho => ?_, ?_⟩
  · rw [types_filteringReturn h]
    exact h.wellFormed.slots_le
  · simp [filteringReturn]
  · simp only [hlate, List.mem_cons, List.not_mem_nil, or_false] at hn
    rcases hn with rfl | rfl
    · exact ⟨.apply _ _, rfl⟩
    · exact ⟨.apply _ _, rfl⟩
  · rw [List.map_append, htypes]
    rcases i with _ | _ | i
    · obtain rfl : g.readOf 0 = n := by simpa [hlate] using hn
      refine Name.fits_readOf ?_ he
      have href : base.params[0]? = some .ref := h.ref
      rw [Form.params, List.getElem?_map, List.getElem?_take_of_lt h.arity_pos] at href
      simpa [hlate] using href
    · simp only [hlate, List.getElem?_cons_succ, List.getElem?_cons_zero, Option.some.injEq] at hn
      subst hn
      have htake : ((filteringReturn base g filter).late.take 1).map Name.type = [.ref] := by
        simp [hlate, CarrierGrowth.type_readOf hg]
      rw [htake] at *
      refine Name.fits_call (.cons ?_ ?_) he
      · rw [← hlen, List.getElem?_concat_length]
      · rw [hfilter]
        cases hr : base.result with
        | none => exact .nil
        | some r =>
          have hlt := h.wellFormed.result_lt r hr
          refine .cons ?_ .nil
          rw [List.getElem?_append_left (by rwa [hlen]), List.getElem?_map, Form.ret, hr]
          simp [List.getElem?_eq_getElem hlt]
    · simp [hlate] at hn
  · have ho : base.params[o]? = some t := ho
    rw [List.map_append, types_filteringReturn h]
    exact Draft.getElem?_of_isPrefix (List.prefix_append _ _) ho
  · intro r hr
    obtain rfl : base.size + 1 = r := by simpa [filteringReturn] using hr
    have := congrArg List.length htypes
    rw [hlen, List.length_map] at this
    rw [names, List.length_append, this, hlate]
    simp

theorem types_zeroingReturn : (zeroingReturn base type).params.map Name.type = base.params := rfl

theorem fits_zeroingReturn (h : base.Editable) : (zeroingReturn base type).Fits base := by
  have hgrowth : CarrierGrowth.Proper none := nofun
  have hlate : (zeroingReturn base type).late =
      if type = .void then [] else [.apply (.intrinsic (.zero type)) []] := rfl
  refine ⟨hgrowth, fun n hn => h.made_of_mem hn, h.wellFormed.slots_le, List.forall_mem_nil _, ?_,
    fun n hn => ?_, fun i n hn e he => ?_, fun o t ho => ?_, ?_⟩
  · simp [zeroingReturn]
  · rw [hlate] at hn
    split at hn
    · simp at hn
    · obtain rfl := List.mem_singleton.1 hn
      exact ⟨.apply _ _, rfl⟩
  · have hmem := List.mem_of_getElem? hn
    rw [hlate] at hmem
    split at hmem
    · simp at hmem
    · obtain rfl := List.mem_singleton.1 hmem
      obtain rfl := Option.some.inj he
      exact .nil
  · have ho : base.params[o]? = some t := ho
    rw [List.map_append, types_zeroingReturn]
    exact Draft.getElem?_of_isPrefix (List.prefix_append _ _) ho
  · intro r hr
    have hr : (if type = .void then none else some base.size) = some r := Option.some.inj hr
    split at hr
    · cases hr
    · next hvoid =>
      obtain rfl := Option.some.inj hr
      have hlen := congrArg List.length (types_kept (A := zeroingReturn base type) h hgrowth rfl rfl)
      rw [List.length_map, List.length_map] at hlen
      rw [names, List.length_append, hlen, hlate, if_neg hvoid]
      simp [Form.size]

end Adaptation

end HandleForms
