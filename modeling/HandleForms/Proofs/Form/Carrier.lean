import HandleForms.Proofs.Edit.Fits
import HandleForms.Proofs.Edit.Retarget
import HandleForms.Proofs.Edit.Shape

/-!
# Forms over a carrier

The form of a handle that has values bound reads them from parameter 0 and uses that parameter for
nothing else. `Form.Carrier` says so: parameter 0 is of a species with the given fields, and a name
with parameter 0 among its operands is a getter of that species. The form of a handle that holds
nothing uses parameter 0 for nothing at all (`Form.Overlooks`).
-/

namespace HandleForms

/-- The field that a name reads from parameter 0. -/
def Name.fieldRead? (n : Name Form) : Option Nat :=
  match n.expr with
  | some ⟨.intrinsic (.boundField _ i), [.name 0]⟩ => some i
  | _ => none

namespace Name

variable {n : Name Form} {fields : List BasicType} {i : Nat}

theorem fieldRead?_of_expr {s : Species} (h : n.expr = some ⟨.getter s i, [.name 0]⟩) :
    n.fieldRead? = some i := by
  simp [fieldRead?, h, Function.getter]

theorem expr_of_fieldRead? (h : n.fieldRead? = some i) :
    ∃ s : Species, n.expr = some ⟨.getter s i, [.name 0]⟩ := by
  unfold fieldRead? at h
  split at h
  · next s j he =>
    obtain rfl := Option.some.inj h
    exact ⟨s, he⟩
  · cases h

theorem ReadsField.fieldRead? (h : n.ReadsField fields i) : n.fieldRead? = some i := by
  obtain ⟨s, -, he⟩ := h
  exact fieldRead?_of_expr he

theorem mem_operands_of_fieldRead? (h : n.fieldRead? = some i) : 0 ∈ n.operands := by
  obtain ⟨s, he⟩ := expr_of_fieldRead? h
  simp [operands, args, he, Arg.name?]

end Name

/-- The form of a handle that has values of these types bound. -/
structure Form.Carrier (f : Form) (fields : List BasicType) : Prop where
  editable : f.Editable
  /-- Parameter 0 is the carrier. -/
  species : (f.species? 0).map Species.fields = some fields
  /-- No other name is a carrier. -/
  plain : ∀ i, 0 < i → f.species? i = none
  /-- The carrier is there to be read. -/
  reads : ∀ n ∈ f.names, 0 ∈ n.operands → ∃ i < fields.length, n.ReadsField fields i
  /-- The result is computed, and has a value. -/
  result : ∀ r, f.result = some r → f.arity ≤ r ∧ (f.names[r]?.map Name.type) ≠ some .void

/-- A form that does nothing to the handle in parameter 0. -/
structure Form.Overlooks (f : Form) : Prop where
  operands : ∀ n ∈ f.names, 0 ∉ n.operands
  /-- The handle is not the answer either. -/
  result : ∀ r, f.result = some r → 0 < r

namespace Form.Carrier

variable {f : Form} {fields : List BasicType} {n : Name Form} {i : Nat}

theorem fields_eq (h : f.Carrier fields) : f.fields = fields := by
  simp [Form.fields, Form.shape, h.species]

/-- The first name is the carrier, and the only one. -/
theorem names_eq (h : f.Carrier fields) :
    ∃ first rest, f.names = first :: rest ∧ ∀ n ∈ rest, n.species = none := by
  cases hnames : f.names with
  | nil =>
    have := h.editable.arity_pos
    have := h.editable.wellFormed.arity_le
    simp [Form.size, hnames] at this
    omega
  | cons first rest =>
    refine ⟨first, rest, rfl, fun n hn => ?_⟩
    obtain ⟨i, hi⟩ := List.getElem?_of_mem hn
    have hplain := h.plain (i + 1) (Nat.succ_pos i)
    simpa [Form.species?, hnames, hi] using hplain

/-- A name either reads a field of the carrier or has nothing to do with it. -/
theorem reads_or (h : f.Carrier fields) (hn : n ∈ f.names) :
    (∃ i < fields.length, n.fieldRead? = some i ∧ n.ReadsField fields i) ∨
      n.fieldRead? = none ∧ 0 ∉ n.operands := by
  by_cases hzero : 0 ∈ n.operands
  · obtain ⟨i, hi, hreads⟩ := h.reads n hn hzero
    exact .inl ⟨i, hi, hreads.fieldRead?, hreads⟩
  · refine .inr ⟨?_, hzero⟩
    cases hread : n.fieldRead? with
    | none => rfl
    | some i => exact absurd (Name.mem_operands_of_fieldRead? hread) hzero

end Form.Carrier

end HandleForms
