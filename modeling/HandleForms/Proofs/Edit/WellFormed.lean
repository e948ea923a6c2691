import HandleForms.Proofs.Edit.Retarget

/-!
# Derived forms are well-formed

`Adaptation.Fits` collects what an adaptation has to bring along: parameters that are parameters and
fit in the slots, new expressions that fit where they stand, and for every parameter of the base a
name of its type. The expressions of the base then fit where they are moved to, and the derived form
is well-formed (`Fits.wellFormed`).
-/

namespace HandleForms

open Transaction (Layout)

namespace Adaptation

/-- The new names fit and the parameters of the base are found under their types. -/
structure Fits (A : Adaptation) (base : Form) : Prop where
  growth : CarrierGrowth.Proper A.growth
  params_made : ∀ n ∈ A.params, n.Made ∧ n.isParam = true
  slots_le : BasicType.slotSum (A.params.map Name.type) ≤ Signature.maxSlots
  early_made : ∀ n ∈ A.early, n.Made ∧ n.isParam = false
  early_fits : ∀ (i : Nat) (n : Name Form), A.early[i]? = some n → ∀ e, n.expr = some e →
    e.Fits ((A.params ++ A.early.take i).map Name.type)
  late_made : ∀ n ∈ A.late, n.Made ∧ n.isParam = false
  late_fits : ∀ (i : Nat) (n : Name Form), A.late[i]? = some n → ∀ e, n.expr = some e →
    e.Fits ((A.params ++ A.early ++ (base.names.drop base.arity).map (A.moved base) ++
      A.late.take i).map Name.type)
  place : ∀ o t, base.param? o = some t → ((A.params ++ A.early).map Name.type)[A.place o]? = some t
  result_lt : ∀ r, A.result = some (some r) → r < (A.names base).length

variable {A : Adaptation} {base : Form} {n : Name Form} {i : Nat}

theorem size_form (id : Nat) : (A.form base id).size = (A.names base).length := rfl

theorem length_names :
    (A.names base).length = A.params.length + A.early.length + base.exprCount + A.late.length := by
  simp [names, Form.exprCount, Form.size, Nat.add_assoc]

/-- A name of the derived form is a parameter, an early name, a moved one or a late one. -/
theorem names_cases (hn : (A.names base)[i]? = some n) :
    (i < A.params.length ∧ A.params[i]? = some n) ∨
    (∃ k, i = A.params.length + k ∧ A.early[k]? = some n) ∨
    (∃ k m, i = A.params.length + A.early.length + k ∧ base.names[base.arity + k]? = some m ∧
      n = A.moved base m) ∨
    ∃ k, i = A.params.length + A.early.length + base.exprCount + k ∧ A.late[k]? = some n := by
  have hexprs : ((base.names.drop base.arity).map (A.moved base)).length = base.exprCount := by
    simp [Form.exprCount, Form.size]
  by_cases h1 : i < A.params.length
  · left
    rw [names, List.append_assoc, List.append_assoc, List.getElem?_append_left h1] at hn
    exact ⟨h1, hn⟩
  obtain ⟨k, rfl⟩ := Nat.exists_eq_add_of_le (Nat.not_lt.1 h1)
  by_cases h2 : k < A.early.length
  · right; left
    rw [names, List.append_assoc, List.append_assoc, Layout.getElem?_length_add rfl,
      List.getElem?_append_left h2] at hn
    exact ⟨k, rfl, hn⟩
  obtain ⟨k, rfl⟩ := Nat.exists_eq_add_of_le (Nat.not_lt.1 h2)
  by_cases h3 : k < base.exprCount
  · right; right; left
    rw [names, ← Nat.add_assoc, List.append_assoc,
      Layout.getElem?_length_add (by simp), List.getElem?_append_left (by rwa [hexprs]),
      List.getElem?_map, List.getElem?_drop] at hn
    obtain ⟨m, hm, rfl⟩ := Option.map_eq_some_iff.1 hn
    exact ⟨k, m, (Nat.add_assoc _ _ _).symm, hm, rfl⟩
  obtain ⟨k, rfl⟩ := Nat.exists_eq_add_of_le (Nat.not_lt.1 h3)
  right; right; right
  rw [names, ← Nat.add_assoc, ← Nat.add_assoc,
    Layout.getElem?_length_add (by simp [Form.exprCount, Form.size, Nat.add_assoc])] at hn
  exact ⟨k, by omega, hn⟩

namespace Fits

variable (h : A.Fits base) (hbase : base.WellFormed) (hmade : base.Made)
include h hbase hmade

omit hbase in
/-- A name of the base keeps its type. -/
theorem type_move {o : Nat} (hn : base.names[o]? = some n) :
    ((A.names base).map Name.type)[A.move base.arity o]? = some n.type := by
  by_cases ho : o < base.arity
  · have hplace := h.place o n.type (Form.param?_eq ho hn)
    have hinitial : (A.params ++ A.early).map Name.type <+: (A.names base).map Name.type := by
      rw [names, List.append_assoc]
      exact (List.prefix_append _ _).map _
    simpa [move, ho] using Draft.getElem?_of_isPrefix hinitial hplace
  · obtain ⟨k, rfl⟩ := Nat.exists_eq_add_of_le (Nat.not_lt.1 ho)
    have hlt := (List.getElem?_eq_some_iff.1 hn).1
    have hmove : A.move base.arity (base.arity + k) = A.params.length + A.early.length + k := by
      simp [move, ho]
    rw [hmove, List.getElem?_map, names, List.append_assoc,
      Layout.getElem?_length_add (by simp), List.getElem?_append_left (by simp; omega),
      List.getElem?_map, List.getElem?_drop, hn]
    simp [moved, (hmade.getElem? hn).type_retarget h.growth]

omit hmade in
/-- A name in front of an expression of the base is found in front of it. -/
theorem move_lt {o k : Nat} (hlt : o < base.arity + k) :
    A.move base.arity o < A.params.length + A.early.length + k := by
  unfold move
  split
  · next ho =>
    obtain ⟨n, hn, -⟩ := hbase.exists_param ho
    have hplace := (List.getElem?_eq_some_iff.1 (h.place o n.type (Form.param?_eq ho hn))).1
    simp at hplace
    omega
  · omega

omit hbase in
theorem made (id : Nat) : (A.form base id).Made := by
  intro n hn
  obtain ⟨i, hi⟩ := List.getElem?_of_mem hn
  rcases names_cases hi with ⟨-, hn⟩ | ⟨k, -, hn⟩ | ⟨k, m, -, hm, rfl⟩ | ⟨k, -, hn⟩
  · exact (h.params_made n (List.mem_of_getElem? hn)).1
  · exact (h.early_made n (List.mem_of_getElem? hn)).1
  · exact ((hmade.getElem? hm).retarget h.growth).mapArgs _
  · exact (h.late_made n (List.mem_of_getElem? hn)).1

/-- The derived form is well-formed. -/
theorem wellFormed (id : Nat) : (A.form base id).WellFormed := by
  have hnames : (A.form base id).names = A.names base := rfl
  have harity : (A.form base id).arity = A.params.length := rfl
  have hslots : (A.form base id).slots = BasicType.slotSum (A.params.map Name.type) := by
    simp [Form.slots, Form.params, hnames, harity, names]
  refine Form.wellFormed_iff_fits.2 ⟨?_, hslots ▸ h.slots_le, fun i n hn => ?_, ?_⟩
  · rw [size_form, length_names, harity]
    omega
  · have hspecies : n.species.isSome → i < A.params.length ∧ n.type = .ref := by
      intro hs
      obtain ⟨hparam, htype⟩ := (h.made hmade id).getElem? hn |>.species_isSome hs
      refine ⟨?_, htype⟩
      rcases names_cases hn with ⟨hi, -⟩ | ⟨k, -, hk⟩ | ⟨k, m, -, hm, rfl⟩ | ⟨k, -, hk⟩
      · exact hi
      · simp [(h.early_made n (List.mem_of_getElem? hk)).2] at hparam
      · have := (hbase.isParam_iff _ m hm).1 (by simpa [moved] using hparam)
        omega
      · simp [(h.late_made n (List.mem_of_getElem? hk)).2] at hparam
    refine ⟨?_, hspecies, fun e he => ?_⟩
    · rcases names_cases hn with ⟨hi, hk⟩ | ⟨k, rfl, hk⟩ | ⟨k, m, rfl, hm, rfl⟩ | ⟨k, rfl, hk⟩
      · simp [(h.params_made n (List.mem_of_getElem? hk)).2, harity, hi]
      · simp [(h.early_made n (List.mem_of_getElem? hk)).2, harity]
      · have hexpr : m.isParam = false := by
          simpa using mt (hbase.isParam_iff _ m hm).1 (by omega)
        simp [moved, hexpr, harity, Nat.add_assoc]
      · simp [(h.late_made n (List.mem_of_getElem? hk)).2, harity, Nat.add_assoc]
    · rw [Form.typesBefore, hnames]
      rcases names_cases hn with ⟨hi, hk⟩ | ⟨k, rfl, hk⟩ | ⟨k, m, rfl, hm, rfl⟩ | ⟨k, rfl, hk⟩
      · have := (h.params_made n (List.mem_of_getElem? hk)).2
        simp [Name.isParam, he] at this
      · have hlt := (List.getElem?_eq_some_iff.1 hk).1
        rw [names, List.append_assoc, List.append_assoc, Layout.take_length_add rfl,
          List.take_append_of_le_length (Nat.le_of_lt hlt)]
        exact h.early_fits k n hk e he
      · refine Name.fits_moved h.growth (fun j t hj => ?_)
          ((Form.wellFormed_iff_fits.1 hbase).2.2.1 _ m hm).operands he
        obtain ⟨hlt, ht⟩ := Form.getElem?_typesBefore.1 hj
        obtain ⟨o, ho, rfl⟩ := Option.map_eq_some_iff.1 ht
        have hmove := h.move_lt hbase hlt
        rw [List.map_take, List.getElem?_take_of_lt hmove]
        exact h.type_move hmade ho
      · rw [names, Layout.take_length_add (by simp [Form.exprCount, Form.size, Nat.add_assoc])]
        exact h.late_fits k n hk e he
  · intro r hr
    rw [size_form]
    have hr : A.result.getD (base.result.map (A.move base.arity)) = some r :=
      (Option.filter_eq_some_iff.1 hr).1
    cases hresult : A.result with
    | some new =>
      rw [hresult, Option.getD_some] at hr
      exact h.result_lt r (by rw [hresult, hr])
    | none =>
      rw [hresult, Option.getD_none] at hr
      obtain ⟨o, ho, rfl⟩ := Option.map_eq_some_iff.1 hr
      have hn := List.getElem?_eq_getElem (hbase.result_lt o ho)
      have hmove := (List.getElem?_eq_some_iff.1 (h.type_move hmade hn)).1
      simpa using hmove

/-- The result that is kept has the type that it had. -/
theorem ret_form (hresult : A.result = none) (id : Nat) : (A.form base id).ret = base.ret := by
  have hform : (A.form base id).result =
      (base.result.map (A.move base.arity)).filter
        fun r => ((A.names base)[r]?.map Name.type) != some .void := by
    simp [form, hresult, Form.keptResult]
  unfold Form.ret
  rw [hform]
  cases hr : base.result with
  | none => rfl
  | some r =>
    obtain ⟨n, hn⟩ : ∃ n, base.names[r]? = some n :=
      ⟨_, List.getElem?_eq_getElem (hbase.result_lt r hr)⟩
    have htype := h.type_move hmade hn
    rw [List.getElem?_map] at htype
    have hnames : (A.form base id).names = A.names base := rfl
    by_cases hvoid : n.type = .void
    · simp [htype, hn, hvoid, Option.filter_some]
    · simp [htype, hn, hvoid, hnames, Option.filter_some]

end Fits

/-- A result of its own gives the derived form its type. -/
theorem ret_form_of_result {r : Nat} (hresult : A.result = some (some r))
    (hn : (A.names base)[r]? = some n) (id : Nat) : (A.form base id).ret = n.type := by
  have hform : (A.form base id).result =
      (some r).filter fun r => ((A.names base)[r]?.map Name.type) != some .void := by
    simp [form, hresult, Form.keptResult]
  have hnames : (A.form base id).names = A.names base := rfl
  unfold Form.ret
  rw [hform, hnames]
  by_cases hvoid : n.type = .void
  · simp [hn, hvoid, Option.filter_some]
  · simp [hn, hvoid, Option.filter_some]

theorem ret_form_of_none (hresult : A.result = some none) (id : Nat) :
    (A.form base id).ret = .void := by
  simp [Form.ret, form, hresult, Form.keptResult]

variable (A) in
theorem params_form (id : Nat) : (A.form base id).params = A.params.map Name.type := by
  simp [Form.params, form, names]

variable (A) in
theorem species?_form (hn : A.params[0]? = some n) (id : Nat) :
    (A.form base id).species? 0 = n.species := by
  have hlt := (List.getElem?_eq_some_iff.1 hn).1
  have hnames : (A.form base id).names = A.params ++ (A.early ++
      ((base.names.drop base.arity).map (A.moved base) ++ A.late)) := by
    simp [form, names]
  rw [Form.species?, hnames, List.getElem?_append_left hlt, hn]
  rfl

end Adaptation

end HandleForms
