import HandleForms.Form.Basic

/-!
# What a form keeps alive

A form keeps alive the forms it calls in place, at any depth. Among forms that are told apart by
their identities, with all that they call, to be kept alive by identity is transitive
(`Form.Objects.reaches_trans`).
-/

namespace HandleForms

namespace Form

variable {id : Nat} {f g : Form}

/-- The form that a name calls in place. -/
theorem reachesName_iff {n : Name Form} :
    Form.reachesName id n = true ↔ ∃ c, n.function? = some (.form c) ∧ c.reaches id = true := by
  obtain ⟨t, s, _ | ⟨function, args⟩⟩ := n
  · simp [Form.reachesName, Name.function?]
  · cases function <;>
      simp [Form.reachesName, Form.reachesExpr, Form.reachesFunction, Name.function?]

theorem reachesNames_iff {ns : List (Name Form)} :
    Form.reachesNames id ns = true ↔ ∃ n ∈ ns, Form.reachesName id n = true := by
  induction ns with
  | nil => simp [Form.reachesNames]
  | cons n ns ih => simp [Form.reachesNames, ih]

theorem mem_callees {c : Form} :
    c ∈ f.callees ↔ ∃ n ∈ f.names, n.function? = some (.form c) := by
  constructor
  · intro hc
    obtain ⟨n, hn, hfun⟩ := List.mem_filterMap.1 hc
    refine ⟨n, hn, ?_⟩
    revert hfun
    cases n.function? with
    | none => exact nofun
    | some g => cases g <;> simp
  · rintro ⟨n, hn, hfun⟩
    exact List.mem_filterMap.2 ⟨n, hn, by rw [hfun]⟩

theorem reaches_iff : f.reaches id = true ↔ f.id = id ∨ ∃ c ∈ f.callees, c.reaches id = true := by
  have hnames : f.reaches id = true ↔ f.id = id ∨ Form.reachesNames id f.names = true := by
    obtain ⟨i, arity, names, result, kind⟩ := f
    simp [Form.reaches]
  simp only [hnames, reachesNames_iff, reachesName_iff, mem_callees]
  constructor
  · rintro (h | ⟨n, hn, c, hc, hreaches⟩)
    · exact .inl h
    · exact .inr ⟨c, ⟨n, hn, hc⟩, hreaches⟩
  · rintro (h | ⟨c, ⟨n, hn, hc⟩, hreaches⟩)
    · exact .inl h
    · exact .inr ⟨n, hn, c, hc, hreaches⟩

theorem reaches_self (f : Form) : f.reaches f.id = true := reaches_iff.2 (.inl rfl)

theorem sizeOf_callee {c : Form} (h : c ∈ f.callees) : sizeOf c < sizeOf f := by
  obtain ⟨n, hn, hfun⟩ := mem_callees.1 h
  have hname := List.sizeOf_lt_of_mem hn
  obtain ⟨t, s, _ | ⟨function, args⟩⟩ := n
  · cases hfun
  · obtain rfl : function = .form c := Option.some.inj hfun
    obtain ⟨i, arity, names, result, kind⟩ := f
    simp only [Form.mk.sizeOf_spec, Name.mk.sizeOf_spec, Option.some.sizeOf_spec,
      Expr.mk.sizeOf_spec, Function.form.sizeOf_spec] at hname ⊢
    omega

/-- Forms that are told apart by their identities, with all that they call. -/
structure Objects (made : List Form) : Prop where
  eq_of_id : ∀ f ∈ made, ∀ g ∈ made, f.id = g.id → f = g
  callees : ∀ f ∈ made, ∀ c ∈ f.callees, c ∈ made

namespace Objects

variable {made : List Form}

/-- What a form reaches is an object that is called at some depth. -/
theorem exists_of_reaches (h : Objects made) (f : Form) (hf : f ∈ made)
    (hreaches : f.reaches id = true) :
    ∃ g ∈ made, g.id = id ∧ ∀ j, g.reaches j = true → f.reaches j = true := by
  rcases reaches_iff.1 hreaches with hid | ⟨c, hc, hreaches⟩
  · exact ⟨f, hf, hid, fun _ hj => hj⟩
  · obtain ⟨g, hg, hid, hsub⟩ := h.exists_of_reaches c (h.callees f hf c hc) hreaches
    exact ⟨g, hg, hid, fun j hj => reaches_iff.2 (.inr ⟨c, hc, hsub j hj⟩)⟩
termination_by sizeOf f
decreasing_by exact sizeOf_callee hc

theorem reaches_trans (h : Objects made) (hf : f ∈ made) (hg : g ∈ made)
    (hfg : f.reaches g.id = true) (hgi : g.reaches id = true) : f.reaches id = true := by
  obtain ⟨g', hg', hid, hsub⟩ := h.exists_of_reaches f hf hfg
  obtain rfl := h.eq_of_id g' hg' g hg hid
  exact hsub id hgi

/-- A new object may call what is there. -/
theorem cons (h : Objects made) (hfresh : ∀ g ∈ made, g.id ≠ f.id)
    (hcallees : ∀ c ∈ f.callees, c ∈ made) : Objects (f :: made) := by
  constructor
  · intro a ha b hb hab
    rcases List.mem_cons.1 ha with rfl | hmem
    · rcases List.mem_cons.1 hb with rfl | hb
      · rfl
      · exact absurd hab.symm (hfresh b hb)
    · rcases List.mem_cons.1 hb with rfl | hb
      · exact absurd hab (hfresh a hmem)
      · exact h.eq_of_id a hmem b hb hab
  · intro a ha c hc
    rcases List.mem_cons.1 ha with rfl | ha
    · exact .tail _ (hcallees c hc)
    · exact .tail _ (h.callees a ha c hc)

/-- Naming an object again changes nothing. -/
theorem cons_of_mem (h : Objects made) (hf : f ∈ made) : Objects (f :: made) := by
  have hmem : ∀ {a}, a ∈ f :: made → a ∈ made := fun ha =>
    (List.mem_cons.1 ha).elim (fun heq => heq ▸ hf) fun ha => ha
  exact ⟨fun a ha b hb => h.eq_of_id a (hmem ha) b (hmem hb),
    fun a ha c hc => .tail _ (h.callees a (hmem ha) c hc)⟩

end Objects

end Form

end HandleForms
