import HandleForms.Proofs.Draft.Finish

/-!
# The layout of an edited form

All edits of a form have one shape. Parameters are kept, dropped, added or replaced, early names
(a displaced read, loads, a check, a call) come in front of the expressions of the base, these keep
their order and perhaps get other functions, and late names come behind them. `Layout` says what an
edit of this shape has to provide, `Layout.ends` derives everything that finishing asks for, and
`Layout.finish` writes down the form.
-/

namespace HandleForms

/-- Operands of a well-formed form refer to earlier names. -/
theorem Form.WellFormed.operand_lt {f : Form} (hf : f.WellFormed) {i : Nat} {n : Name Form}
    (hn : f.names[i]? = some n) {a : Nat} (ha : a ∈ n.operands) : a < i := by
  have hfits := (Form.wellFormed_iff_fits.1 hf).2.2.1 i n hn
  rw [Name.mem_operands] at ha
  cases he : n.expr with
  | none => simp [Name.args, he] at ha
  | some e =>
    have ha : Arg.name a ∈ e.args := by simpa [Name.args, he] using ha
    obtain ⟨t, hat⟩ := Expr.Fits.exists_of_mem (hfits.operands e he) ha
    exact (Form.getElem?_typesBefore.1 hat).1

namespace Draft

theorem operands_of_sameArgs {as bs : List Arg} (h : sameArgs as bs = true) :
    as.filterMap Arg.name? = bs.filterMap Arg.name? := by
  induction as generalizing bs with
  | nil => cases bs with
    | nil => rfl
    | cons b bs => simp [sameArgs] at h
  | cons a as ih => cases bs with
    | nil => simp [sameArgs] at h
    | cons b bs =>
      obtain ⟨hab, hrest⟩ : a.same b = true ∧ sameArgs as bs = true := by simpa [sameArgs] using h
      have hrest := ih hrest
      cases a <;> cases b <;> simp_all [Arg.same, Arg.name?, List.filterMap_cons]

/-- A name whose function is replaced keeps its operands. -/
@[simp] theorem operands_replaced (old new : List (Function Form)) (args : List Arg)
    (n : Name Form) : (replaced old new args n).operands = n.operands := by
  unfold replaced
  split
  · rfl
  · split
    · next hargs =>
      split
      · rfl
      · next k _ =>
        cases new[k]? with
        | none => rfl
        | some g => simp [Name.operands, Name.apply, Name.args, ← operands_of_sameArgs hargs]
    · rfl

@[simp] theorem isParam_replaced (old new : List (Function Form)) (args : List Arg)
    (n : Name Form) : (replaced old new args n).isParam = n.isParam := by
  unfold replaced
  split
  · rfl
  · next f hf =>
    have hn : n.isParam = false := by
      cases he : n.expr <;> simp_all [Name.isParam, Name.function?]
    split
    · split
      · rfl
      · next k _ => cases new[k]? <;> simp [hn]
    · rfl

end Draft

namespace Transaction

/-- Where a name that stood in the form at the start stands now. -/
def current (t : Transaction) (a : Nat) : Nat :=
  ((t.slots.find? fun s => s.was == some a).map Slot.now).getD a

/-- An edit of `f`. The functions `old` of the expressions over `args` are replaced by `new`, which
gives expression `i` the number `g i` in `arena`; the numbers behind `arena` are those of new names.
In the end the names are `params`, `early`, the expressions of `f` and `late`, in this order. -/
structure Layout (f : Form) (t : Transaction) (old new : List (Function Form)) (args : List Arg)
    (g : Nat → Nat) (arena : List (Name Form)) (left : List Slot)
    (params early lead late : List Nat) : Prop where
  wellFormed : f.WellFormed
  replacement : Draft.Replacement f.names arena old new args f.arity (f.size - f.arity) g
  arena_isPrefix : arena <+: t.arena
  back : t.back = lead.map Slot.added ++
    (List.range' f.arity (f.size - f.arity)).map (fun i => ⟨g i, some i⟩) ++ late.map Slot.added
  front_was : t.front.filterMap Slot.was = List.range f.arity
  /-- The names below the arity are new or did not move. -/
  front_now : ∀ s ∈ t.front, arena.length ≤ s.now ∨ Slot.same s.now ∈ t.front
  front_placed : ∀ s ∈ t.front, s.now ∈ params ++ early
  exprs : ∀ a ∈ early ++ late, arena.length ≤ a ∧ t.holdsParam a = false
  now_lt : ∀ a ∈ params ++ early ++ late, a < t.arena.length
  early_operands : ∀ i a, early[i]? = some a → ∀ b ∈ (t.nameOf a).operands,
    b ∈ params ++ early.take i
  late_operands : ∀ i a, late[i]? = some a → ∀ b ∈ (t.nameOf a).operands,
    b < f.size ∨ b ∈ params ++ early ++ late.take i
  clears : Clears t.dups t.front left
  params_eq : t.params left = params
  early_eq : (left.map Slot.now).filter (fun a => !t.holdsParam a) ++ lead = early
  nodup : (params ++ early ++ late).Nodup
  room : t.front.length + t.dups.length ≤ t.slots.length + min 1 t.dups.length
  result_placed : ∀ r, t.result = some r → ∃ s ∈ t.slots, s.now = r

namespace Layout

variable {f : Form} {t : Transaction} {old new : List (Function Form)} {args : List Arg}
  {g : Nat → Nat} {arena : List (Name Form)} {left : List Slot} {params early lead late : List Nat}
  {s r : Slot} {a o i : Nat}

theorem take_length_add {α : Type} {as bs : List α} {n : Nat} (hn : as.length = n) (i : Nat) :
    (as ++ bs).take (n + i) = as ++ bs.take i := by
  rw [← hn, List.take_append, List.take_of_length_le (Nat.le_add_right _ _),
    Nat.add_sub_cancel_left]

theorem getElem?_length_add {α : Type} {as bs : List α} {n : Nat} (hn : as.length = n) (i : Nat) :
    (as ++ bs)[n + i]? = bs[i]? := by
  rw [← hn, List.getElem?_append_right (Nat.le_add_right _ _), Nat.add_sub_cancel_left]

theorem unique_of_nodup {slots : List Slot} (h : (slots.filterMap Slot.was).Nodup) (hs : s ∈ slots)
    (hr : r ∈ slots) (hso : s.was = some o) (hro : r.was = some o) : s = r := by
  induction slots with
  | nil => simp at hs
  | cons q slots ih =>
    have hnot : q.was = some o → ∀ p ∈ slots, p.was ≠ some o := by
      intro hq p hp hpo
      rw [List.filterMap_cons_some hq, List.nodup_cons] at h
      exact h.1 (List.mem_filterMap.2 ⟨p, hp, hpo⟩)
    have htail : (slots.filterMap Slot.was).Nodup :=
      h.sublist ((List.sublist_cons_self _ _).filterMap _)
    obtain rfl | hs' := List.mem_cons.1 hs <;> obtain rfl | hr' := List.mem_cons.1 hr
    · rfl
    · exact absurd hro (hnot hso r hr')
    · exact absurd hso (hnot hro s hs')
    · exact ih htail hs' hr'

variable (h : Layout f t old new args g arena left params early lead late)
include h

theorem size_le : f.size ≤ arena.length :=
  h.replacement.arena_isPrefix.length_le

/-- An expression keeps its operands when its function is replaced. -/
theorem name_g (hi : f.arity ≤ i) {n : Name Form} (hn : f.names[i]? = some n) :
    g i < arena.length ∧ t.arena[g i]? = some (Draft.replaced old new args n) := by
  have hlt := (List.getElem?_eq_some_iff.1 hn).1
  have := h.replacement.name i hi (by unfold Form.size; omega) n hn
  exact ⟨(List.getElem?_eq_some_iff.1 this).1, Draft.getElem?_of_isPrefix h.arena_isPrefix this⟩

theorem g_lt (hi : f.arity ≤ i) (hlt : i < f.size) : g i < arena.length :=
  (h.name_g hi (List.getElem?_eq_getElem hlt)).1

theorem was_eq : t.slots.filterMap Slot.was = List.range f.size := by
  have hadded : ∀ as : List Nat, (as.map Slot.added).filterMap Slot.was = [] := by
    intro as
    simp [List.filterMap_map, Function.comp_def, Slot.added]
  have hsplit := List.range'_append_1 (s := 0) (m := f.arity) (n := f.size - f.arity)
  rw [Nat.zero_add, Nat.add_sub_cancel' h.wellFormed.arity_le] at hsplit
  simp only [slots, h.back, List.filterMap_append, h.front_was, hadded, List.filterMap_map,
    Function.comp_def, List.filterMap_some, List.nil_append, List.append_nil]
  rw [List.range_eq_range', List.range_eq_range', hsplit]

theorem was_lt (hs : s ∈ t.slots) (ho : s.was = some o) : o < f.size := by
  have : o ∈ t.slots.filterMap Slot.was := List.mem_filterMap.2 ⟨s, hs, ho⟩
  simpa [h.was_eq] using this

theorem unique (hs : s ∈ t.slots) (hr : r ∈ t.slots) (hso : s.was = some o) (hro : r.was = some o) : s = r :=
  unique_of_nodup (h.was_eq ▸ List.nodup_range) hs hr hso hro

theorem mem_back (hs : s ∈ t.back) : (s.was = none ∧ s.now ∈ lead ++ late) ∨
      ∃ i, f.arity ≤ i ∧ i < f.size ∧ s = ⟨g i, some i⟩ := by
  have := h.wellFormed.arity_le
  simp only [h.back, List.mem_append, List.mem_map, List.mem_range'_1] at hs
  obtain (⟨a, ha, rfl⟩ | ⟨i, hi, rfl⟩) | ⟨a, ha, rfl⟩ := hs
  · exact .inl ⟨rfl, List.mem_append_left _ ha⟩
  · exact .inr ⟨i, hi.1, by omega, rfl⟩
  · exact .inl ⟨rfl, List.mem_append_right _ ha⟩

theorem lead_subset : lead ⊆ early := by
  rw [← h.early_eq]
  exact List.subset_append_right _ _

/-- A number in use is new, belongs to an unmoved parameter, or to an expression of `f`. -/
theorem now_cases (hs : s ∈ t.slots) : arena.length ≤ s.now ∨ Slot.same s.now ∈ t.front ∨
      ∃ i, f.arity ≤ i ∧ i < f.size ∧ s = ⟨g i, some i⟩ := by
  obtain hs | hs := List.mem_append.1 hs
  · rcases h.front_now s hs with hn | hn
    · exact .inl hn
    · exact .inr (.inl hn)
  · rcases h.mem_back hs with ⟨-, hn⟩ | hi
    · left
      obtain hn | hn := List.mem_append.1 hn
      · exact (h.exprs _ (List.mem_append_left _ (h.lead_subset hn))).1
      · exact (h.exprs _ (List.mem_append_right _ hn)).1
    · exact .inr (.inr hi)

/-- A replaced name stands nowhere else. -/
theorem replaced (hs : s ∈ t.slots) (hr : r ∈ t.slots) (hsr : s.was = some r.now) : s.now = r.now := by
  have hlt : r.now < f.size := h.was_lt hs hsr
  have hsize := h.size_le
  rcases h.now_cases hr with hn | hn | ⟨i, h1, h2, rfl⟩
  · omega
  · have := h.unique hs (List.mem_append_left _ hn) hsr rfl
    rw [this, Slot.same]
  · rcases h.replacement.same_or_new i with hg | hg
    · rw [h.unique hs hr hsr (by rw [hg])]
    · have hlt : g i < f.size := hlt
      have : f.size ≤ g i := hg
      omega

/-! ## The edit is coherent -/

theorem mem_now_lt (ha : a ∈ params ++ early ++ late) : arena.length ≤ a ∨ Slot.same a ∈ t.front := by
  simp only [List.mem_append] at ha
  obtain (ha | ha) | ha := ha
  · rw [← h.params_eq, Transaction.params, List.mem_filter] at ha
    obtain ⟨s, hs, rfl⟩ := List.mem_map.1 ha.1
    exact h.front_now s (h.clears.sublist.subset hs)
  · exact .inl (h.exprs a (List.mem_append_left _ ha)).1
  · exact .inl (h.exprs a (List.mem_append_right _ ha)).1

theorem same_lt (ha : Slot.same a ∈ t.front) : a < f.arity := by
  have : a ∈ t.front.filterMap Slot.was := List.mem_filterMap.2 ⟨_, ha, rfl⟩
  simpa [h.front_was] using this

theorem operands_param (ha : a ∈ params) : (t.nameOf a).operands = [] := by
  rw [← h.params_eq, Transaction.params, List.mem_filter] at ha
  refine Name.operands_param ?_
  have := ha.2
  unfold Transaction.holdsParam at this
  unfold Transaction.nameOf
  cases hn : t.arena[a]? with
  | none => simp [hn] at this
  | some n => simpa [hn] using this

/-- Parameters and early names are steady. -/
theorem steady (ha : a ∈ params ++ early) : t.Steady a := by
  have hkept : ∀ b ∈ params ++ early, ∀ s ∈ t.slots, s.was = some b → s.now = b := by
    intro b hb s hs hsb
    rcases h.mem_now_lt (List.mem_append_left _ hb) with hn | hn
    · have := h.was_lt hs hsb
      have := h.size_le
      omega
    · exact h.replaced hs (List.mem_append_left _ hn) hsb
  have hname : ∀ b n, t.arena[b]? = some n → t.nameOf b = n := fun b n hn => by
    simp [Transaction.nameOf, hn]
  have hparam : ∀ b ∈ params, t.Steady b := fun b hb =>
    .intro b (hkept b (List.mem_append_left _ hb)) fun n hn c hc => by
      simp [← hname b n hn, h.operands_param hb] at hc
  have hearly : ∀ (i b : Nat), early[i]? = some b → t.Steady b := by
    intro i
    induction i using Nat.strongRecOn with
    | ind i ih =>
      intro b hb
      refine .intro b (hkept b (List.mem_append_right _ (List.mem_of_getElem? hb))) ?_
      intro n hn c hc
      rw [← hname b n hn] at hc
      obtain hc | hc := List.mem_append.1 (h.early_operands i b hb c hc)
      · exact hparam c hc
      · obtain ⟨j, hj⟩ := List.getElem?_of_mem hc
        rw [List.getElem?_take] at hj
        split at hj
        · next hlt => exact ih j hlt c hj
        · cases hj
  obtain ha | ha := List.mem_append.1 ha
  · exact hparam a ha
  · obtain ⟨i, hi⟩ := List.getElem?_of_mem ha
    exact hearly i a hi

theorem exists_was (hi : i < f.size) : ∃ s ∈ t.slots, s.was = some i := by
  have : i ∈ t.slots.filterMap Slot.was := by simp [h.was_eq, hi]
  simpa using List.mem_filterMap.1 this

theorem mem_front_of_mem_params (ha : a ∈ params) : ∃ s ∈ t.front, s.now = a := by
  rw [← h.params_eq, Transaction.params, List.mem_filter] at ha
  obtain ⟨s, hs, rfl⟩ := List.mem_map.1 ha.1
  exact ⟨s, h.clears.sublist.subset hs, rfl⟩

theorem mem_front_of_displaced (ha : a ∈ (left.map Slot.now).filter fun a => !t.holdsParam a) :
    ∃ s ∈ t.front, s.now = a := by
  obtain ⟨s, hs, rfl⟩ := List.mem_map.1 (List.mem_filter.1 ha).1
  exact ⟨s, h.clears.sublist.subset hs, rfl⟩

/-- Parameters and early names stood among the parameters or were inserted. -/
theorem known_early (ha : a ∈ params ++ early) :
    ∃ s ∈ t.front ++ lead.map Slot.added, s.now = a := by
  rw [← h.early_eq] at ha
  have hfront : (∃ s ∈ t.front, s.now = a) → ∃ s ∈ t.front ++ lead.map Slot.added, s.now = a :=
    fun ⟨s, hs, hsa⟩ => ⟨s, List.mem_append_left _ hs, hsa⟩
  obtain ha | ha := List.mem_append.1 ha
  · exact hfront (h.mem_front_of_mem_params ha)
  · obtain ha | ha := List.mem_append.1 ha
    · exact hfront (h.mem_front_of_displaced ha)
    · exact ⟨Slot.added a, List.mem_append_right _ (List.mem_map_of_mem ha), rfl⟩

/-- Operands of an inserted name that comes early. -/
theorem known_lead (hi : lead[i]? = some a) {b : Nat} (hb : b ∈ (t.nameOf a).operands) :
    ∃ r ∈ t.front ++ (lead.take i).map Slot.added, r.now = b := by
  have hfront : (∃ s ∈ t.front, s.now = b) →
      ∃ s ∈ t.front ++ (lead.take i).map Slot.added, s.now = b :=
    fun ⟨s, hs, hsb⟩ => ⟨s, List.mem_append_left _ hs, hsb⟩
  have hoperands := h.early_operands
  rw [← h.early_eq] at hoperands
  obtain hb | hb := List.mem_append.1 (hoperands (_ + i) a
    (by rw [List.getElem?_append_right (Nat.le_add_right _ _), Nat.add_sub_cancel_left, hi]) b hb)
  · exact hfront (h.mem_front_of_mem_params hb)
  · rw [List.take_append, List.take_of_length_le (Nat.le_add_right _ _),
      Nat.add_sub_cancel_left] at hb
    obtain hb | hb := List.mem_append.1 hb
    · exact hfront (h.mem_front_of_displaced hb)
    · exact ⟨Slot.added b, List.mem_append_right _ (List.mem_map_of_mem hb), rfl⟩

/-- Where a slot of the back stands. -/
theorem back_cases {s : Slot} (hs : t.back[i]? = some s) :
    (∃ a, lead[i]? = some a ∧ s = Slot.added a ∧ t.back.take i = (lead.take i).map Slot.added) ∨
    (∃ k, f.arity + k < f.size ∧ s = ⟨g (f.arity + k), some (f.arity + k)⟩ ∧
      t.back.take i = lead.map Slot.added ++
        (List.range' f.arity k).map fun i => ⟨g i, some i⟩) ∨
    (∃ k a, late[k]? = some a ∧ s = Slot.added a ∧
      t.back.take i = lead.map Slot.added ++
        (List.range' f.arity (f.size - f.arity)).map (fun i => ⟨g i, some i⟩) ++
        (late.take k).map Slot.added) := by
  have hback := h.back
  rw [hback] at hs ⊢
  by_cases h1 : i < lead.length
  · left
    rw [List.append_assoc, List.getElem?_append_left (by simpa using h1), List.getElem?_map,
      Option.map_eq_some_iff] at hs
    obtain ⟨a, ha, rfl⟩ := hs
    refine ⟨a, ha, rfl, ?_⟩
    rw [List.append_assoc, List.take_append_of_le_length (by simpa using Nat.le_of_lt h1),
      List.map_take]
  · right
    obtain ⟨k, rfl⟩ := Nat.exists_eq_add_of_le (Nat.not_lt.1 h1)
    by_cases h2 : k < f.size - f.arity
    · left
      rw [List.append_assoc, List.getElem?_append_right (by simp), List.length_map,
        Nat.add_sub_cancel_left, List.getElem?_append_left (by simpa using h2), List.getElem?_map,
        List.getElem?_range' h2, Option.map_some, Option.some.injEq, Nat.one_mul] at hs
      refine ⟨k, by omega, hs.symm, ?_⟩
      have hsplit : List.range' f.arity (f.size - f.arity) =
          List.range' f.arity k ++ List.range' (f.arity + k) (f.size - f.arity - k) := by
        rw [List.range'_append_1, Nat.add_sub_cancel' (Nat.le_of_lt h2)]
      rw [List.append_assoc, take_length_add (by simp), hsplit, List.map_append, List.append_assoc,
        List.take_left' (by simp)]
    · right
      obtain ⟨j, rfl⟩ := Nat.exists_eq_add_of_le (Nat.not_lt.1 h2)
      rw [List.getElem?_append_right (by simp)] at hs
      have hj : late[j]?.map Slot.added = some s := by
        simpa [Nat.add_sub_cancel_left, ← Nat.add_assoc] using hs
      obtain ⟨a, ha, rfl⟩ := Option.map_eq_some_iff.1 hj
      refine ⟨j, a, ha, rfl, ?_⟩
      rw [← Nat.add_assoc, take_length_add (by simp), ← List.map_take]

/-- The numbers in their final order. -/
theorem order_eq : t.order left =
    params ++ early ++ (List.range' f.arity (f.size - f.arity)).map g ++ late := by
  rw [order, h.params_eq, h.back, ← h.early_eq]
  simp [Function.comp_def, Slot.added]

theorem order_nodup : (t.order left).Nodup := by
  rw [h.order_eq]
  have hne : ∀ a ∈ params ++ early ++ late,
      ∀ b ∈ (List.range' f.arity (f.size - f.arity)).map g, a ≠ b := by
    intro a ha b hb
    obtain ⟨i, hi, rfl⟩ := List.mem_map.1 hb
    have hi := List.mem_range'_1.1 hi
    have hg := h.g_lt hi.1 (by omega)
    have hi' : g i = i ∨ f.size ≤ g i := h.replacement.same_or_new i
    rcases h.mem_now_lt ha with hn | hn
    · omega
    · have := h.same_lt hn
      omega
  have hg : ((List.range' f.arity (f.size - f.arity)).map g).Nodup := by
    refine List.Nodup.map_on (fun i hi j hj => ?_) (List.nodup_range' 1)
    have hi := List.mem_range'_1.1 hi
    have hj := List.mem_range'_1.1 hj
    exact h.replacement.injective i j (by unfold Form.size at *; omega)
      (by unfold Form.size at *; omega)
  obtain ⟨hearly, hlate, hdisjoint⟩ := List.nodup_append.1 h.nodup
  refine List.nodup_append.2 ⟨List.nodup_append.2 ⟨hearly, hg, ?_⟩, hlate, ?_⟩
  · exact fun a ha b hb => hne a (List.mem_append_left _ ha) b hb
  · intro a ha b hb
    obtain ha | ha := List.mem_append.1 ha
    · exact hdisjoint a ha b hb
    · exact (hne b (List.mem_append_right _ hb) a ha).symm

theorem coherent : t.Coherent := by
  have harena := h.arena_isPrefix.length_le
  have hsize := h.size_le
  have hfront : ∀ i < f.arity, ∃ s ∈ t.front, s.was = some i := by
    intro i hi
    have : i ∈ t.front.filterMap Slot.was := by simp [h.front_was, hi]
    simpa using List.mem_filterMap.1 this
  constructor
  case now_lt =>
    intro s hs
    obtain hs | hs := List.mem_append.1 hs
    · exact h.now_lt _ (List.mem_append_left _ (h.front_placed s hs))
    · rcases h.mem_back hs with ⟨-, hn⟩ | ⟨i, h1, h2, rfl⟩
      · obtain hn | hn := List.mem_append.1 hn
        · exact h.now_lt _ (by simp [h.lead_subset hn])
        · exact h.now_lt _ (by simp [hn])
      · exact Nat.lt_of_lt_of_le (h.g_lt h1 h2) harena
  case was_lt =>
    intro s hs o ho
    have := h.was_lt hs ho
    omega
  case was_nodup => exact h.was_eq ▸ List.nodup_range
  case replaced => exact fun s hs r hr hsr => h.replaced hs hr hsr
  case back_nodup =>
    refine h.order_nodup.sublist ?_
    rw [order]
    exact List.sublist_append_right _ _
  case front_steady => exact fun s hs => h.steady (h.front_placed s hs)
  case back_known =>
    intro i s n hs hn b hb
    rcases h.back_cases hs with ⟨a, ha, rfl, htake⟩ | ⟨k, hk, rfl, htake⟩ | ⟨k, a, ha, rfl, htake⟩
    · rw [← nameOf_eq hn] at hb
      obtain ⟨r, hr, hrb⟩ := h.known_lead ha hb
      exact ⟨r, by rwa [htake], .inl hrb⟩
    · obtain ⟨m, hm⟩ : ∃ m, f.names[f.arity + k]? = some m :=
        ⟨_, List.getElem?_eq_getElem hk⟩
      have hname := (h.name_g (Nat.le_add_right _ _) hm).2
      obtain rfl : n = Draft.replaced old new args m := by
        simpa [hname] using hn.symm
      rw [Draft.operands_replaced] at hb
      have hlt := h.wellFormed.operand_lt hm hb
      by_cases hba : b < f.arity
      · obtain ⟨r, hr, hrb⟩ := hfront b hba
        exact ⟨r, List.mem_append_left _ hr, .inr hrb⟩
      · refine ⟨⟨g b, some b⟩, ?_, .inr rfl⟩
        rw [htake]
        simp only [List.mem_append, List.mem_map, List.mem_range'_1]
        exact .inr (.inr ⟨b, by omega, rfl⟩)
    · rw [← nameOf_eq hn] at hb
      rw [htake]
      rcases h.late_operands k a ha b hb with hb | hb
      · by_cases hba : b < f.arity
        · obtain ⟨r, hr, hrb⟩ := hfront b hba
          exact ⟨r, List.mem_append_left _ hr, .inr hrb⟩
        · refine ⟨⟨g b, some b⟩, ?_, .inr rfl⟩
          simp only [List.mem_append, List.mem_map, List.mem_range'_1]
          exact .inr (.inl (.inr ⟨b, by omega, rfl⟩))
      · obtain hb | hb := List.mem_append.1 hb
        · obtain ⟨r, hr, hrb⟩ := h.known_early hb
          refine ⟨r, ?_, .inl hrb⟩
          simp only [List.mem_append] at hr ⊢
          tauto
        · refine ⟨Slot.added b, ?_, .inl rfl⟩
          simp only [List.mem_append]
          exact .inr (.inr (List.mem_map_of_mem hb))
  case result_placed => exact h.result_placed

/-! ## The end of the edit -/

theorem current_eq (hs : s ∈ t.slots) (ho : s.was = some o) : t.current o = s.now := by
  unfold current
  cases hf : t.slots.find? fun s => s.was == some o with
  | none =>
    have := List.find?_eq_none.1 hf s hs
    simp [ho] at this
  | some r =>
    have hr := List.mem_of_find?_eq_some hf
    have hro : r.was = some o := by simpa using List.find?_some hf
    simp [h.unique hr hs hro ho]

theorem current_now (hs : s ∈ t.slots) : t.current s.now = s.now := by
  by_cases hw : ∃ r ∈ t.slots, r.was = some s.now
  · obtain ⟨r, hr, hrs⟩ := hw
    rw [h.current_eq hr hrs, h.replaced hr hs hrs]
  · unfold current
    have : t.slots.find? (fun r => r.was == some s.now) = none := by
      refine List.find?_eq_none.2 fun r hr hrs => hw ⟨r, hr, by simpa using hrs⟩
    simp [this]

end Layout

/-- The position of a name in the end, and of a name that was replaced. -/
def place (t : Transaction) (left : List Slot) (a : Nat) : Nat := (t.order left).idxOf (t.current a)

namespace Layout

variable {f : Form} {t : Transaction} {old new : List (Function Form)} {args : List Arg}
  {g : Nat → Nat} {arena : List (Name Form)} {left : List Slot} {params early lead late : List Nat}
  {s r : Slot} {a o i : Nat}

variable (h : Layout f t old new args g arena left params early lead late)
include h

theorem idxOf_order (hi : (t.order left)[i]? = some a) : (t.order left).idxOf a = i := by
  obtain ⟨hlt, rfl⟩ := List.getElem?_eq_some_iff.1 hi
  exact h.order_nodup.idxOf_getElem i hlt

/-- A name is found where it stands. -/
theorem place_eq (hi : (t.order left)[i]? = some a) : t.place left a = i := by
  obtain ⟨s, hs, rfl⟩ := mem_slots_of_mem_order h.clears.sublist (List.mem_of_getElem? hi)
  rw [place, h.current_now hs, h.idxOf_order hi]

/-- A replaced name is found where its replacement stands. -/
theorem place_was (hs : s ∈ t.slots) (ho : s.was = some o)
    (hi : (t.order left)[i]? = some s.now) : t.place left o = i := by
  rw [place, h.current_eq hs ho, h.idxOf_order hi]

theorem placed (hs : s ∈ t.slots) : s.now ∈ t.order left := by
  obtain hs | hs := List.mem_append.1 hs
  · rw [h.order_eq, List.append_assoc]
    exact List.mem_append_left _ (h.front_placed s hs)
  · exact List.mem_append_right _ (List.mem_map_of_mem hs)

/-- Names of expressions keep their order behind parameters and early names. -/
theorem place_expr (ha : f.arity ≤ o) (ho : o < f.size) :
    t.place left o = params.length + early.length + (o - f.arity) := by
  have hs : (⟨g o, some o⟩ : Slot) ∈ t.slots := by
    refine List.mem_append_right _ ?_
    rw [h.back]
    simp only [List.mem_append, List.mem_map, List.mem_range'_1]
    exact .inl (.inr ⟨o, by omega, rfl⟩)
  refine h.place_was hs rfl ?_
  rw [h.order_eq, ← List.length_append, List.getElem?_append_left (by simp; omega),
    List.getElem?_append_right (Nat.le_add_right _ _), Nat.add_sub_cancel_left, List.getElem?_map,
    List.getElem?_range' (by omega)]
  simp [Nat.add_sub_cancel' ha]

/-- Parameters and what took their places come in front of the expressions. -/
theorem place_param_lt (ho : o < f.arity) : t.place left o < params.length + early.length := by
  obtain ⟨s, hs, hso⟩ : ∃ s ∈ t.front, s.was = some o := by
    have : o ∈ t.front.filterMap Slot.was := by simp [h.front_was, ho]
    simpa using List.mem_filterMap.1 this
  obtain ⟨i, hi⟩ := List.getElem?_of_mem (h.front_placed s hs)
  have hlt := (List.getElem?_eq_some_iff.1 hi).1
  rw [h.place_was (List.mem_append_left _ hs) hso]
  · simpa using hlt
  · rw [h.order_eq, List.append_assoc, List.getElem?_append_left hlt, hi]

/-- What stands earlier is found earlier. -/
theorem place_lt (ha : a ∈ (t.order left).take i) :
    t.place left a < i ∧ ∃ s ∈ t.slots, s.now = a ∨ s.was = some a := by
  obtain ⟨j, hj⟩ := List.getElem?_of_mem ha
  rw [List.getElem?_take] at hj
  split at hj
  · next hlt =>
    obtain ⟨s, hs, hsa⟩ := mem_slots_of_mem_order h.clears.sublist (List.mem_of_getElem? hj)
    exact ⟨h.place_eq hj ▸ hlt, s, hs, .inl hsa⟩
  · cases hj

theorem place_lt_of_lt (ho : o < f.size) (hi : params.length + early.length ≤ i)
    (hoi : f.arity ≤ o → params.length + early.length + (o - f.arity) < i) :
    t.place left o < i ∧ ∃ s ∈ t.slots, s.now = o ∨ s.was = some o := by
  obtain ⟨s, hs, hso⟩ := h.exists_was ho
  refine ⟨?_, s, hs, .inr hso⟩
  by_cases hlt : o < f.arity
  · exact Nat.lt_of_lt_of_le (h.place_param_lt hlt) hi
  · rw [h.place_expr (Nat.not_lt.1 hlt) ho]
    exact hoi (Nat.not_lt.1 hlt)

/-- Operands are found in front of the names that refer to them. -/
theorem operands_found (hi : (t.order left)[i]? = some a) {b : Nat}
    (hb : b ∈ (t.nameOf a).operands) :
    t.place left b < i ∧ ∃ s ∈ t.slots, s.now = b ∨ s.was = some b := by
  have horder := h.order_eq
  have hle := h.wellFormed.arity_le
  by_cases h1 : i < params.length
  · have ha : params[i]? = some a := by
      rw [horder] at hi
      simpa [List.append_assoc, List.getElem?_append_left, h1] using hi
    simp [h.operands_param (List.mem_of_getElem? ha)] at hb
  obtain ⟨k, rfl⟩ := Nat.exists_eq_add_of_le (Nat.not_lt.1 h1)
  by_cases h2 : k < early.length
  · have ha : early[k]? = some a := by
      rw [horder] at hi
      simpa [List.append_assoc, List.getElem?_append_left, List.getElem?_append_right, h2] using hi
    refine h.place_lt ?_
    have := h.early_operands k a ha b hb
    rw [horder, List.append_assoc, List.append_assoc, take_length_add rfl,
      List.take_append_of_le_length (Nat.le_of_lt h2)]
    exact this
  obtain ⟨k, rfl⟩ := Nat.exists_eq_add_of_le (Nat.not_lt.1 h2)
  by_cases h3 : k < f.size - f.arity
  · have ha : g (f.arity + k) = a := by
      rw [horder, ← Nat.add_assoc, List.append_assoc, getElem?_length_add (by simp),
        List.getElem?_append_left (by simpa using h3)] at hi
      simpa [h3] using hi
    have hm := List.getElem?_eq_getElem (show f.arity + k < f.names.length by
      unfold Form.size at h3; omega)
    have hname := (h.name_g (Nat.le_add_right _ _) hm).2
    rw [← ha, nameOf_eq hname, Draft.operands_replaced] at hb
    have := h.wellFormed.operand_lt hm hb
    exact h.place_lt_of_lt (by unfold Form.size at *; omega) (by omega) (by omega)
  obtain ⟨k, rfl⟩ := Nat.exists_eq_add_of_le (Nat.not_lt.1 h3)
  have ha : late[k]? = some a := by
    rwa [horder, ← Nat.add_assoc, ← Nat.add_assoc,
      getElem?_length_add (by simp [Nat.add_assoc])] at hi
  rcases h.late_operands k a ha b hb with hb | hb
  · exact h.place_lt_of_lt hb (by omega) (by omega)
  · refine h.place_lt ?_
    rw [horder, ← Nat.add_assoc, ← Nat.add_assoc, take_length_add (by simp [Nat.add_assoc])]
    simp only [List.mem_append] at hb ⊢
    tauto

/-- The edit ends, and every name is found where it stands. -/
theorem ends : t.Ends left (t.place left) := by
  have hinitial := h.replacement.arena_isPrefix.trans h.arena_isPrefix
  constructor
  case coherent => exact h.coherent
  case clears => exact h.clears
  case unchanged_param =>
    intro s hs hss
    have hlt : s.now < f.arity := h.same_lt (a := s.now) (by rwa [Slot.same, ← hss])
    have hn := List.getElem?_eq_getElem (Nat.lt_of_lt_of_le hlt h.wellFormed.arity_le)
    have hparam := (h.wellFormed.isParam_iff _ _ hn).2 hlt
    simp [holdsParam, Draft.getElem?_of_isPrefix hinitial hn, hparam]
  case back_expr =>
    intro s hs
    rcases h.mem_back hs with ⟨-, hn⟩ | ⟨i, h1, h2, rfl⟩
    · obtain hn | hn := List.mem_append.1 hn
      · exact (h.exprs _ (List.mem_append_left _ (h.lead_subset hn))).2
      · exact (h.exprs _ (List.mem_append_right _ hn)).2
    · have hi : i < f.names.length := h2
      have hn := List.getElem?_eq_getElem hi
      have hparam : f.names[i].isParam = false := by
        have := mt (h.wellFormed.isParam_iff _ _ hn).1 (Nat.not_lt.2 h1)
        simpa using this
      simp [holdsParam, (h.name_g h1 hn).2, hparam]
  case room => exact h.room
  case place_order => exact fun i a hi => h.place_eq hi
  case place_was =>
    intro s hs o ho
    rw [place, place, h.current_eq hs ho, h.current_now hs]
  case placed => exact fun s hs => h.placed hs
  case operands => exact fun i a hi b hb => h.operands_found hi hb

/-- The form that the edit ends in. -/
theorem finish {d : Draft} (hd : d.Shows t) (form : Nat) :
    d.finish form = Form.assemble form params.length
      (params.map t.nameOf ++ early.map (fun a => (t.nameOf a).mapArgs (t.place left)) ++
        (f.names.drop f.arity).map
          (fun n => (Draft.replaced old new args n).mapArgs (t.place left)) ++
        late.map (fun a => (t.nameOf a).mapArgs (t.place left)))
      (t.result.map (t.place left)) .generic := by
  rw [hd.finish h.ends, h.params_eq, h.order_eq]
  have hparams : params.map (fun a => (t.nameOf a).mapArgs (t.place left)) = params.map t.nameOf :=
    List.map_congr_left fun a ha => Name.mapArgs_eq_self (by simp [h.operands_param ha])
  have hexprs : ((List.range' f.arity (f.size - f.arity)).map g).map
      (fun a => (t.nameOf a).mapArgs (t.place left)) =
        (f.names.drop f.arity).map
          fun n => (Draft.replaced old new args n).mapArgs (t.place left) := by
    refine List.ext_getElem? fun k => ?_
    by_cases hk : k < f.size - f.arity
    · have hn := List.getElem?_eq_getElem (show f.arity + k < f.names.length by
        unfold Form.size at hk; omega)
      have hname := (h.name_g (Nat.le_add_right _ _) hn).2
      simp [hk, hn, nameOf_eq hname]
    · have hnone : f.names[f.arity + k]? = none := by
        rw [List.getElem?_eq_none_iff]
        unfold Form.size at hk
        omega
      simp [hnone, hk]
  rw [List.map_append, List.map_append, List.map_append, hparams, hexprs]

end Layout

end Transaction

end HandleForms
