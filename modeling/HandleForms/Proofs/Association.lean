import HandleForms.TypeForm.Registry

/-!
# Association lists

What is found in an association list after a key was taken out or a value was put under one.
-/

namespace HandleForms

variable {κ ν : Type} [BEq κ] [LawfulBEq κ] {key other : κ} {value : ν} {es : List (κ × ν)}

/-- Taking a key out hides no other one. -/
theorem lookup_filter_ne :
    (es.filter fun e => !(e.1 == key)).lookup other = if other == key then none else es.lookup other := by
  induction es with
  | nil => simp
  | cons e es ih =>
    obtain ⟨k, v⟩ := e
    cases hk : k == key with
    | true =>
      obtain rfl := eq_of_beq hk
      rw [List.filter_cons_of_neg (by simp), ih, List.lookup_cons]
      cases other == k <;> rfl
    | false =>
      rw [List.filter_cons_of_pos (by simp [hk]), List.lookup_cons, List.lookup_cons, ih]
      cases hother : other == k with
      | true =>
        obtain rfl := eq_of_beq hother
        rw [hk]
        rfl
      | false => rfl

/-- In a list with one entry for each key, every entry is found. -/
theorem lookup_of_mem (hnodup : (es.map Prod.fst).Nodup) (h : (key, value) ∈ es) :
    es.lookup key = some value := by
  induction es with
  | nil => cases h
  | cons e es ih =>
    obtain ⟨k, v⟩ := e
    obtain ⟨hnew, hrest⟩ := List.nodup_cons.1 hnodup
    rcases List.mem_cons.1 h with heq | hmem
    · obtain ⟨rfl, rfl⟩ := Prod.mk.inj heq
      exact List.lookup_cons_self
    · have hne : key ≠ k := fun heq => hnew (heq ▸ List.mem_map.2 ⟨_, hmem, rfl⟩)
      rw [List.lookup_cons, beq_false_of_ne hne]
      exact ih hrest hmem

/-- A key that is not found has no entry. -/
theorem not_mem_of_lookup (h : es.lookup key = none) : key ∉ es.map Prod.fst := by
  intro hmem
  obtain ⟨e, he, rfl⟩ := List.mem_map.1 hmem
  have := List.lookup_eq_none_iff.1 h e he
  simp at this

namespace TypeForms

theorem lookup_assign_self : (assign key value es).lookup key = some value :=
  List.lookup_cons_self

theorem lookup_assign_of_ne (h : other ≠ key) :
    (assign key value es).lookup other = es.lookup other := by
  rw [assign, List.lookup_cons, beq_false_of_ne h, lookup_filter_ne, beq_false_of_ne h]
  rfl

omit [LawfulBEq κ] in
theorem mem_assign {e : κ × ν} (h : e ∈ assign key value es) : e = (key, value) ∨ e ∈ es :=
  (List.mem_cons.1 h).imp_right fun he => (List.mem_filter.1 he).1

theorem mem_of_lookup (h : es.lookup key = some value) : (key, value) ∈ es := by
  obtain ⟨l, r, rfl, -⟩ := List.lookup_eq_some_iff.1 h
  exact List.mem_append_right _ (.head _)

end TypeForms

end HandleForms
