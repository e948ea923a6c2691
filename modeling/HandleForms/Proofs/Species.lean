import HandleForms.Form.Parts

/-!
# Species are what they are asked for

Whatever a species table remembers, the species that it answers has the fields that were asked for:
those of the layout or, for an extension, those of the extended species and one more. For extensions
this rests on what the table noted before (`SpeciesTable.Sound`).
-/

namespace HandleForms.SpeciesTable

variable {t : SpeciesTable} {base s : Species} {field : BasicType} {fields : List BasicType}

theorem fields_find? (h : t.find? fields = some s) : s.fields = fields := by
  simpa [find?] using List.find?_some h

@[simp] theorem fields_intern (t : SpeciesTable) (fields : List BasicType) :
    (t.intern fields).1.fields = fields := by
  unfold intern
  split
  · next s h => exact fields_find? h
  · rfl

@[simp] theorem extensions_intern (t : SpeciesTable) (fields : List BasicType) :
    (t.intern fields).2.extensions = t.extensions := by
  unfold intern
  split <;> rfl

/-- Every extension that was noted has one more field than the species that it extends. -/
def Sound (t : SpeciesTable) : Prop := ∀ e ∈ t.extensions, e.2.fields = e.1.1 ++ [e.1.2]

theorem sound_empty : Sound empty := List.forall_mem_nil _

theorem Sound.intern (h : t.Sound) (fields : List BasicType) : (t.intern fields).2.Sound := by
  rwa [Sound, extensions_intern]

theorem Sound.fields_extend (h : t.Sound) (base : Species) (field : BasicType) :
    (t.extend base field).1.fields = base.fields ++ [field] := by
  unfold extend
  split
  · next s hs =>
    obtain ⟨l, r, hsplit, -⟩ := List.lookup_eq_some_iff.1 hs
    exact h ((base.fields, field), s) (by rw [hsplit]; exact List.mem_append_right _ (.head _))
  · exact fields_intern t _

theorem Sound.extend (h : t.Sound) (base : Species) (field : BasicType) :
    (t.extend base field).2.Sound := by
  unfold SpeciesTable.extend
  split
  · exact h
  · refine List.forall_mem_cons.2 ⟨fields_intern t _, ?_⟩
    rw [extensions_intern]
    exact h

/-- An extension by a field that a value can have. -/
theorem Sound.extended (h : t.Sound) (base : Species) (hfield : field ≠ .void) :
    ∃ s t', t.extended base field = .ok (s, t') ∧ s.fields = base.fields ++ [field] ∧ t'.Sound := by
  refine ⟨(t.extend base field).1, (t.extend base field).2, ?_, h.fields_extend base field,
    h.extend base field⟩
  simp [SpeciesTable.extended, BasicType.isArg, hfield]

theorem Sound.of_extended (h : t.Sound) {t' : SpeciesTable}
    (he : t.extended base field = .ok (s, t')) : t'.Sound := by
  unfold SpeciesTable.extended at he
  split at he
  · obtain rfl : (t.extend base field).2 = t' := congrArg Prod.snd (Except.ok.inj he)
    exact h.extend base field
  · cases he

end HandleForms.SpeciesTable
