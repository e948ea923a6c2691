import HandleForms.Proofs.Draft.Operations

/-!
# What every edit keeps tidy

A name may stand in several slots, since a parameter can be made a second copy of another name.
`Counted` relates the slots that hold second copies, the strays, to the list of names of which copies
have to be removed: a name of the form has at most as many strays as are listed, and a name of the
edit, all of whose slots are strays, has exactly one more. So once the listed copies are removed,
every name stands in one slot or in none (`Transaction.Tidy`, proved for every edit in
`Edited.tidy`).

`Replaced slots a b` is the replacement of names as an edit shows it: a slot that held `a` at the
start holds `b`. The name that an edit answers is reached by replacements from the one that it was
told to answer (`Answered`).
-/

namespace HandleForms

open Relation (ReflTransGen)

instance (id : Nat) (s : Slot) : Decidable (s.Copies id) := inferInstanceAs (Decidable (_ ∧ _))

/-- A slot that held `a` at the start holds another name, `b`. -/
def Replaced (slots : List Slot) (a b : Nat) : Prop :=
  ∃ s ∈ slots, s.was = some a ∧ s.now = b ∧ a ≠ b

/-- In how many slots a second copy of a name stands. -/
def strays (slots : List Slot) (id : Nat) : Nat := slots.countP fun s => decide (s.Copies id)

/-- The answer of an edit is what the name that it was told to answer was replaced by. -/
def Answered (slots : List Slot) (given result : Option Nat) : Prop :=
  Option.Rel (ReflTransGen (Replaced slots)) given result

/-- The slots of an edit of a form with `size` names, and the names whose copies are to be removed. -/
structure Counted (size : Nat) (slots : List Slot) (dups : List Nat) : Prop where
  /-- Every name of the form keeps its slot, and the slots their order. -/
  was : slots.filterMap Slot.was = List.range size
  strays_le : ∀ x < size, strays slots x ≤ dups.count x
  strays_eq : ∀ x, size ≤ x → (∃ s ∈ slots, s.now = x) → strays slots x = dups.count x + 1
  placed : ∀ x ∈ dups, size ≤ x → ∃ s ∈ slots, s.now = x

section

variable {us vs slots slots' : List Slot} {s r : Slot} {x id size : Nat} {dups : List Nat}
  {given result : Option Nat}

/-! ## Counting strays -/

theorem strays_middle (us vs : List Slot) (s : Slot) (x : Nat) :
    strays (us ++ s :: vs) x = strays (us ++ vs) x + if s.Copies x then 1 else 0 := by
  simp only [strays, List.countP_append, List.countP_cons, decide_eq_true_eq]
  omega

theorem strays_eq_zero (h : ∀ r ∈ slots, r.now ≠ x) : strays slots x = 0 := by
  rw [strays, List.countP_eq_zero]
  intro r hr
  simpa using fun hcopy : r.Copies x => h r hr hcopy.1

/-- A name that did not change is no stray. -/
theorem not_copies_of_unchanged (h : s.was = some s.now) : ¬ s.Copies x := by
  rintro ⟨rfl, hne⟩
  exact hne h

theorem Counted.was_lt (h : Counted size slots dups) (hs : s ∈ slots) {o : Nat}
    (ho : s.was = some o) : o < size := by
  have := List.mem_filterMap.2 ⟨s, hs, ho⟩
  rw [h.was] at this
  exact List.mem_range.1 this

theorem Counted.exists_was (h : Counted size slots dups) {o : Nat} (ho : o < size) :
    ∃ s ∈ slots, s.was = some o :=
  List.mem_filterMap.1 (h.was ▸ List.mem_range.2 ho)

/-- The names at the start stood in one slot each. -/
theorem Counted.was_unique (h : Counted size slots dups) (hs : s ∈ slots) (hr : r ∈ slots) {o : Nat}
    (hso : s.was = some o) (hro : r.was = some o) : s = r := by
  have hnodup : (slots.filterMap Slot.was).Nodup := h.was ▸ List.nodup_range
  clear h
  induction slots with
  | nil => cases hs
  | cons u us ih =>
    rw [List.filterMap_cons] at hnodup
    -- A slot further back that held `o` would repeat the one in front.
    have hfront : ∀ {q : Slot}, q ∈ us → u.was = some o → q.was ≠ some o := by
      intro q hq hu hqo
      rw [hu] at hnodup
      exact (List.nodup_cons.1 hnodup).1 (List.mem_filterMap.2 ⟨q, hq, hqo⟩)
    have hrest : (us.filterMap Slot.was).Nodup := by
      cases hu : u.was with
      | none => simpa [hu] using hnodup
      | some o' =>
        rw [hu] at hnodup
        exact (List.nodup_cons.1 hnodup).2
    rcases List.mem_cons.1 hs with rfl | hs' <;> rcases List.mem_cons.1 hr with rfl | hr'
    · rfl
    · exact absurd hro (hfront hr' hso)
    · exact absurd hso (hfront hs' hro)
    · exact ih hs' hr' hrest

/-- How often a name stands in some slots. -/
theorem count_now (slots : List Slot) (x : Nat) :
    (slots.map Slot.now).count x =
      strays slots x + slots.countP fun s => decide (s.now = x ∧ s.was = some x) := by
  induction slots with
  | nil => rfl
  | cons s slots ih =>
    have hstray : strays (s :: slots) x = strays slots x + if s.Copies x then 1 else 0 := by
      simpa using strays_middle [] slots s x
    rw [List.map_cons, List.count_cons, ih, hstray, List.countP_cons]
    by_cases hnow : s.now = x <;> by_cases hwas : s.was = some x <;>
      simp [Slot.Copies, hnow, hwas] <;> omega

/-- A name of the form has one slot of its own, and a name of the edit has none. -/
theorem Counted.own_le (h : Counted size slots dups) (x : Nat) :
    (slots.countP fun s => decide (s.now = x ∧ s.was = some x)) ≤ if x < size then 1 else 0 := by
  have hle : (slots.countP fun s => decide (s.now = x ∧ s.was = some x)) ≤
      slots.countP fun s => s.was == some x :=
    List.countP_mono_left fun s _ hs => by simpa using (of_decide_eq_true hs).2
  have hcount : (slots.filterMap Slot.was).count x = slots.countP fun s => s.was == some x :=
    List.count_filterMap
  rw [h.was, List.count_range] at hcount
  omega

/-! ## What an operation does to the counts -/

/-- A fresh name takes the place of a name of the form. -/
theorem Counted.replace (h : Counted size (us ++ s :: vs) dups) (hs : s.was = some s.now)
    (hid : size ≤ id) (hnew : ∀ r ∈ us ++ s :: vs, r.now ≠ id) :
    Counted size (us ++ ⟨id, s.was⟩ :: vs) dups := by
  have hlt : s.now < size := h.was_lt (by simp) hs
  have hcount : ∀ x, strays (us ++ ⟨id, s.was⟩ :: vs) x =
      strays (us ++ s :: vs) x + if x = id then 1 else 0 := by
    intro x
    rw [strays_middle, strays_middle, if_neg (not_copies_of_unchanged hs)]
    have hcopies : (⟨id, s.was⟩ : Slot).Copies x ↔ x = id := by
      simp only [Slot.Copies, hs]
      constructor
      · exact fun hx => hx.1.symm
      · rintro rfl
        exact ⟨rfl, fun e => by simp at e; omega⟩
    simp [hcopies]
  have hzero : strays (us ++ s :: vs) id = 0 := strays_eq_zero hnew
  constructor
  case was =>
    have := h.was
    simpa [List.filterMap_append, List.filterMap_cons] using this
  case strays_le =>
    intro x hx
    rw [hcount, if_neg (by omega), Nat.add_zero]
    exact h.strays_le x hx
  case strays_eq =>
    rintro x hx ⟨r, hr, rfl⟩
    rw [hcount]
    by_cases hrid : r.now = id
    · have hnone : id ∉ dups := fun hmem => by
        obtain ⟨q, hq, hqid⟩ := h.placed id hmem hid
        exact hnew q hq hqid
      rw [if_pos hrid, hrid, hzero, List.count_eq_zero.2 hnone]
    · rw [if_neg hrid, Nat.add_zero]
      refine h.strays_eq _ hx ⟨r, ?_, rfl⟩
      simp only [List.mem_append, List.mem_cons] at hr ⊢
      rcases hr with hr | rfl | hr
      · exact .inl hr
      · exact absurd rfl hrid
      · exact .inr (.inr hr)
  case placed =>
    intro x hx hsize
    obtain ⟨r, hr, rfl⟩ := h.placed x hx hsize
    refine ⟨r, ?_, rfl⟩
    simp only [List.mem_append, List.mem_cons] at hr ⊢
    rcases hr with hr | rfl | hr
    · exact .inl hr
    · omega
    · exact .inr (.inr hr)

/-- A name of the form makes room for a second copy of a name, which is listed. -/
theorem Counted.copy (h : Counted size (us ++ s :: vs) dups) (hs : s.was = some s.now)
    (hr : r ∈ us ++ s :: vs) : Counted size (us ++ ⟨r.now, s.was⟩ :: vs) (dups ++ [r.now]) := by
  have hlt : s.now < size := h.was_lt (by simp) hs
  have hcount : ∀ x, strays (us ++ ⟨r.now, s.was⟩ :: vs) x =
      strays (us ++ s :: vs) x + if x = r.now ∧ x ≠ s.now then 1 else 0 := by
    intro x
    rw [strays_middle, strays_middle, if_neg (not_copies_of_unchanged hs)]
    have hcopies : (⟨r.now, s.was⟩ : Slot).Copies x ↔ x = r.now ∧ x ≠ s.now := by
      simp only [Slot.Copies, hs, ne_eq, Option.some.injEq]
      exact ⟨fun hx => ⟨hx.1.symm, fun e => hx.2 e.symm⟩, fun hx => ⟨hx.1.symm, fun e => hx.2 e.symm⟩⟩
    simp [hcopies]
  have hdups : ∀ x, (dups ++ [r.now]).count x = dups.count x + if x = r.now then 1 else 0 := by
    intro x
    rw [List.count_append, List.count_singleton]
    by_cases hxr : x = r.now
    · simp [hxr]
    · simp [hxr, Ne.symm hxr]
  -- What stands in the slot afterwards was placed before, and nothing of the edit is lost.
  have hplaced : ∀ x, size ≤ x → ((∃ q ∈ us ++ ⟨r.now, s.was⟩ :: vs, q.now = x) ↔
      ∃ q ∈ us ++ s :: vs, q.now = x) := by
    intro x hx
    constructor
    · rintro ⟨q, hq, rfl⟩
      simp only [List.mem_append, List.mem_cons] at hq
      rcases hq with hq | rfl | hq
      · exact ⟨q, by simp [hq], rfl⟩
      · exact ⟨r, hr, rfl⟩
      · exact ⟨q, by simp [hq], rfl⟩
    · rintro ⟨q, hq, rfl⟩
      simp only [List.mem_append, List.mem_cons] at hq
      rcases hq with hq | rfl | hq
      · exact ⟨q, by simp [hq], rfl⟩
      · omega
      · exact ⟨q, by simp [hq], rfl⟩
  constructor
  case was =>
    have := h.was
    simpa [List.filterMap_append, List.filterMap_cons] using this
  case strays_le =>
    intro x hx
    have hle := h.strays_le x hx
    have hone : (if x = r.now ∧ x ≠ s.now then 1 else 0) ≤ if x = r.now then 1 else 0 := by
      by_cases hxr : x = r.now
      · rw [if_pos hxr]
        split <;> decide
      · rw [if_neg (fun e => hxr e.1)]
        exact Nat.zero_le _
    rw [hcount, hdups]
    omega
  case strays_eq =>
    intro x hx hq
    have := h.strays_eq x hx ((hplaced x hx).1 hq)
    have hxs : x ≠ s.now := by omega
    rw [hcount, hdups, this]
    by_cases hxr : x = r.now
    · rw [if_pos ⟨hxr, hxs⟩, if_pos hxr]
    · rw [if_neg (fun e => hxr e.1), if_neg hxr]
  case placed =>
    intro x hx hsize
    rw [hplaced x hsize]
    obtain hx | hx := List.mem_append.1 hx
    · exact h.placed x hx hsize
    · obtain rfl : x = r.now := by simpa using hx
      exact ⟨r, hr, rfl⟩

/-- A fresh name gets a slot of its own. -/
theorem Counted.insert (h : Counted size (us ++ vs) dups) (hid : size ≤ id)
    (hnew : ∀ r ∈ us ++ vs, r.now ≠ id) : Counted size (us ++ Slot.added id :: vs) dups := by
  have hcount : ∀ x, strays (us ++ Slot.added id :: vs) x =
      strays (us ++ vs) x + if x = id then 1 else 0 := by
    intro x
    rw [strays_middle]
    have hcopies : (Slot.added id).Copies x ↔ x = id := by simp [Slot.Copies, eq_comm]
    simp [hcopies]
  constructor
  case was =>
    have := h.was
    simpa [List.filterMap_append, List.filterMap_cons] using this
  case strays_le =>
    intro x hx
    rw [hcount, if_neg (by omega), Nat.add_zero]
    exact h.strays_le x hx
  case strays_eq =>
    rintro x hx ⟨r, hr, rfl⟩
    rw [hcount]
    by_cases hrid : r.now = id
    · have hnone : id ∉ dups := fun hmem => by
        obtain ⟨q, hq, hqid⟩ := h.placed id hmem hid
        exact hnew q hq hqid
      rw [if_pos hrid, hrid, strays_eq_zero hnew, List.count_eq_zero.2 hnone]
    · rw [if_neg hrid, Nat.add_zero]
      refine h.strays_eq _ hx ⟨r, ?_, rfl⟩
      simp only [List.mem_append, List.mem_cons] at hr ⊢
      rcases hr with hr | rfl | hr
      · exact .inl hr
      · exact absurd rfl hrid
      · exact .inr hr
  case placed =>
    intro x hx hsize
    obtain ⟨r, hr, rfl⟩ := h.placed x hx hsize
    exact ⟨r, by simp at hr ⊢; tauto, rfl⟩

/-! ## What an operation does to the answer -/

theorem Answered.mono (h : Answered slots given result)
    (hslots : ∀ a b, Replaced slots a b → Replaced slots' a b) : Answered slots' given result := by
  cases h with
  | none => exact .none
  | some h => exact .some (ReflTransGen.mono hslots _ _ h)

variable (id) in
/-- The answer follows a name that is replaced. -/
theorem Answered.replace (h : Answered (us ++ s :: vs) given result) (hs : s.was = some s.now) :
    Answered (us ++ ⟨id, s.was⟩ :: vs) given (Draft.follow result s.now id) := by
  have hmono : ∀ a b, Replaced (us ++ s :: vs) a b → Replaced (us ++ ⟨id, s.was⟩ :: vs) a b := by
    rintro a b ⟨r, hr, hwas, hnow, hne⟩
    simp only [List.mem_append, List.mem_cons] at hr
    rcases hr with hr | rfl | hr
    · exact ⟨r, by simp [hr], hwas, hnow, hne⟩
    · rw [hs] at hwas
      exact absurd ((Option.some.inj hwas).symm.trans hnow) hne
    · exact ⟨r, by simp [hr], hwas, hnow, hne⟩
  have h' := h.mono hmono
  unfold Draft.follow
  split
  · next hresult =>
    subst hresult
    cases h' with
    | some h' =>
      refine .some ?_
      by_cases hid : s.now = id
      · exact hid ▸ h'
      · exact h'.tail ⟨⟨id, s.was⟩, by simp, hs, rfl, hid⟩
  · exact h'

/-- The answer does not change when a name gets a slot of its own. -/
theorem Answered.insert (h : Answered (us ++ vs) given result) :
    Answered (us ++ s :: vs) given result :=
  h.mono fun _ _ ⟨r, hr, hrest⟩ => ⟨r, by simp at hr ⊢; tauto, hrest⟩

end

/-! ## Every step keeps the bookkeeping -/

namespace Transaction

variable {size id : Nat} {given given' : Option Nat} {t t' : Transaction}

/-- The bookkeeping of an edit of a form with `size` names that was told to answer `given`. -/
structure Tidy (size : Nat) (given : Option Nat) (t : Transaction) : Prop where
  size_le : size ≤ t.arena.length
  operand_lt : ∀ n ∈ t.arena, ∀ a ∈ n.operands, a < t.arena.length
  now_lt : ∀ s ∈ t.slots, s.now < t.arena.length
  counted : Counted size t.slots t.dups
  back_nodup : (t.back.map Slot.now).Nodup
  /-- There are no copies among the expressions. -/
  back_own : ∀ s ∈ t.back, s.now < size → s.was = some s.now
  result_lt : ∀ r, t.result = some r → r < t.arena.length
  answered : Answered t.slots given t.result

theorem tidy_opening {f : Form} (hf : f.WellFormed) : (opening f).Tidy f.size f.result := by
  have hslots := slots_opening hf.arity_le
  have hwas : ∀ s ∈ (opening f).slots, s.was = some s.now := by
    intro s hs
    rw [hslots] at hs
    obtain ⟨i, -, rfl⟩ := List.mem_map.1 hs
    rfl
  constructor
  case size_le => exact Nat.le_refl _
  case operand_lt =>
    intro n hn a ha
    obtain ⟨i, hi⟩ := List.getElem?_of_mem hn
    exact Nat.lt_trans (hf.operand_lt hi ha) (List.getElem?_eq_some_iff.1 hi).1
  case now_lt =>
    intro s hs
    rw [hslots] at hs
    obtain ⟨i, hi, rfl⟩ := List.mem_map.1 hs
    exact List.mem_range.1 hi
  case counted =>
    have hstrays : ∀ x, strays (opening f).slots x = 0 := by
      intro x
      rw [strays, List.countP_eq_zero]
      intro s hs
      simpa using not_copies_of_unchanged (hwas s hs)
    constructor
    · rw [hslots, List.filterMap_map]
      exact List.filterMap_some
    · intro x _
      rw [hstrays]
      exact Nat.zero_le _
    · rintro x hx ⟨s, hs, rfl⟩
      rw [hslots] at hs
      obtain ⟨i, hi, rfl⟩ := List.mem_map.1 hs
      exact absurd (List.mem_range.1 hi) (Nat.not_lt.2 hx)
    · intro x hx
      cases hx
  case back_nodup =>
    have : ((opening f).back.map Slot.now) = List.range' f.arity (f.size - f.arity) := by
      simp [opening, Function.comp_def]
    rw [this]
    exact List.nodup_range'
  case back_own =>
    intro s hs _
    exact hwas s (List.mem_append_right _ hs)
  case result_lt => exact hf.result_lt
  case answered =>
    show Answered _ f.result f.result
    cases f.result with
    | none => exact .none
    | some r => exact .some .refl

theorem follow_lt {result : Option Nat} {old new bound : Nat} (hresult : ∀ r, result = some r → r < bound)
    (hnew : new < bound) : ∀ r, Draft.follow result old new = some r → r < bound := by
  intro r hr
  unfold Draft.follow at hr
  split at hr
  · exact Option.some.inj hr ▸ hnew
  · exact hresult r hr

/-- A slot of the back is filled with a fresh name; the other expressions stay. -/
theorem nodup_back {xs ys zs : List Slot} {s : Slot} (hnodup : ((xs ++ ys).map Slot.now).Nodup)
    (hsub : zs.Sublist ys) (hnew : ∀ r ∈ xs ++ ys, r.now ≠ s.now) :
    ((xs ++ s :: zs).map Slot.now).Nodup := by
  have hperm : ((xs ++ s :: zs).map Slot.now).Perm (s.now :: (xs ++ zs).map Slot.now) := by
    rw [List.map_append, List.map_cons, List.map_append]
    exact List.perm_middle
  have hsub' : (xs ++ zs).Sublist (xs ++ ys) := (List.Sublist.refl _).append hsub
  rw [hperm.nodup_iff, List.nodup_cons]
  refine ⟨fun hmem => ?_, hnodup.sublist (hsub'.map _)⟩
  obtain ⟨r, hr, hrs⟩ := List.mem_map.1 hmem
  exact hnew r (hsub'.subset hr) hrs

theorem Tidy.step (h : t.Tidy size given) (hstep : Step size given t given' t') :
    t'.Tidy size given' := by
  have hcounted := h.counted
  have hanswered := h.answered
  have hnow := h.now_lt
  cases hstep with
  | alloc operands =>
    constructor
    case size_le =>
      have := h.size_le
      simp only [List.length_append]
      omega
    case operand_lt =>
      intro n hn a ha
      simp only [List.length_append, List.length_singleton]
      obtain hn | hn := List.mem_append.1 hn
      · have := h.operand_lt n hn a ha
        omega
      · obtain rfl := List.mem_singleton.1 hn
        have := operands a ha
        omega
    case now_lt =>
      intro s hs
      have := hnow s hs
      simp only [List.length_append]
      omega
    case counted => exact hcounted
    case back_nodup => exact h.back_nodup
    case back_own => exact h.back_own
    case result_lt =>
      intro r hr
      have := h.result_lt r hr
      simp only [List.length_append]
      omega
    case answered => exact hanswered
  | @replace _ xs ys s id front unchanged new lt unplaced =>
    have hslots : t.slots = xs ++ s :: (ys ++ t.back) := by simp [slots, front]
    rw [hslots] at hcounted hanswered unplaced hnow
    refine ⟨h.size_le, h.operand_lt, fun r hr => ?_, ?_, h.back_nodup, h.back_own,
      follow_lt h.result_lt lt, ?_⟩
    · simp only [slots, List.mem_append, List.mem_cons] at hr hnow
      rcases hr with (hr | rfl | hr) | hr
      · exact hnow r (.inl hr)
      · exact lt
      · exact hnow r (.inr (.inr (.inl hr)))
      · exact hnow r (.inr (.inr (.inr hr)))
    · simpa [slots] using hcounted.replace unchanged new unplaced
    · simpa [slots] using hanswered.replace id unchanged
  | @replaceBack _ xs ys s id back unchanged new lt unplaced =>
    have hslots : t.slots = (t.front ++ xs) ++ s :: ys := by simp [slots, back]
    have hold : ∀ r ∈ xs ++ s :: ys, r.now ≠ id := fun r hr =>
      unplaced r (List.mem_append_right _ (back ▸ hr))
    have hnodup := h.back_nodup
    have hown := h.back_own
    rw [hslots] at hcounted hanswered unplaced hnow
    rw [back] at hnodup hown
    refine ⟨h.size_le, h.operand_lt, fun r hr => ?_, ?_, ?_, fun r hr hlt => ?_,
      follow_lt h.result_lt lt, ?_⟩
    · simp only [slots, List.mem_append, List.mem_cons] at hr hnow
      rcases hr with hr | hr | rfl | hr
      · exact hnow r (.inl (.inl hr))
      · exact hnow r (.inl (.inr hr))
      · exact lt
      · exact hnow r (.inr (.inr hr))
    · simpa [slots] using hcounted.replace unchanged new unplaced
    · exact nodup_back hnodup (List.sublist_cons_self _ _) hold
    · simp only [List.mem_append, List.mem_cons] at hr
      rcases hr with hr | rfl | hr
      · exact hown r (by simp [hr]) hlt
      · exact absurd hlt (Nat.not_lt.2 new)
      · exact hown r (by simp [hr]) hlt
    · simpa [slots] using hanswered.replace id unchanged
  | @copy _ xs ys s r front unchanged source =>
    have hslots : t.slots = xs ++ s :: (ys ++ t.back) := by simp [slots, front]
    have hlt := hnow r source
    rw [hslots] at hcounted hanswered source hnow
    refine ⟨h.size_le, h.operand_lt, fun q hq => ?_, ?_, h.back_nodup, h.back_own,
      follow_lt h.result_lt hlt, ?_⟩
    · simp only [slots, List.mem_append, List.mem_cons] at hq hnow
      rcases hq with (hq | rfl | hq) | hq
      · exact hnow q (.inl hq)
      · exact hlt
      · exact hnow q (.inr (.inr (.inl hq)))
      · exact hnow q (.inr (.inr (.inr hq)))
    · simpa [slots] using hcounted.copy unchanged source
    · simpa [slots] using hanswered.replace r.now unchanged
  | @insert _ xs ys id front new lt unplaced =>
    have hslots : t.slots = xs ++ (ys ++ t.back) := by simp [slots, front]
    rw [hslots] at hcounted hanswered unplaced hnow
    refine ⟨h.size_le, h.operand_lt, fun r hr => ?_, ?_, h.back_nodup, h.back_own,
      h.result_lt, ?_⟩
    · simp only [slots, List.mem_append, List.mem_cons] at hr hnow
      rcases hr with (hr | rfl | hr) | hr
      · exact hnow r (.inl hr)
      · exact lt
      · exact hnow r (.inr (.inl hr))
      · exact hnow r (.inr (.inr hr))
    · simpa [slots] using hcounted.insert new unplaced
    · simpa [slots] using hanswered.insert
  | @insertBack _ xs ys id back new lt unplaced =>
    have hslots : t.slots = (t.front ++ xs) ++ ys := by simp [slots, back]
    have hold : ∀ r ∈ xs ++ ys, r.now ≠ id := fun r hr =>
      unplaced r (List.mem_append_right _ (back ▸ hr))
    have hnodup := h.back_nodup
    have hown := h.back_own
    rw [hslots] at hcounted hanswered unplaced hnow
    rw [back] at hnodup hown
    refine ⟨h.size_le, h.operand_lt, fun r hr => ?_, ?_, ?_, fun r hr hlt => ?_,
      h.result_lt, ?_⟩
    · simp only [slots, List.mem_append, List.mem_cons] at hr hnow
      rcases hr with hr | hr | rfl | hr
      · exact hnow r (.inl (.inl hr))
      · exact hnow r (.inl (.inr hr))
      · exact lt
      · exact hnow r (.inr hr)
    · simpa [slots] using hcounted.insert new unplaced
    · exact nodup_back hnodup (List.Sublist.refl _) hold
    · simp only [List.mem_append, List.mem_cons] at hr
      rcases hr with hr | rfl | hr
      · exact hown r (by simp [hr]) hlt
      · exact absurd hlt (Nat.not_lt.2 new)
      · exact hown r (by simp [hr]) hlt
    · simpa [slots] using hanswered.insert
  | setResult placed =>
    refine ⟨h.size_le, h.operand_lt, h.now_lt, hcounted, h.back_nodup, h.back_own, fun r hr => ?_, ?_⟩
    · obtain ⟨s, hs, rfl⟩ := placed r hr
      exact hnow s hs
    · show Answered _ given' given'
      cases given' with
      | none => exact .none
      | some r => exact .some .refl

theorem Tidy.steps (h : t.Tidy size given) (hsteps : Steps size given t given' t') :
    t'.Tidy size given' := by
  induction hsteps with
  | refl => exact h
  | tail _ step ih => exact (ih h).step step

end Transaction

namespace Draft

open Transaction

variable {d d' : Draft} {t : Transaction} {size : Nat} {given : Option Nat}

/-- Replacing functions allocates calls and puts them into the places of others. -/
theorem Shows.tidy_replaceFunctions {old new : List (Function Form)} {args : List Arg}
    (hd : d.Shows t) (ht : t.Tidy size given) (h : d.replaceFunctions old new args = .ok d') :
    ∃ t', t'.Tidy size given ∧ d'.Shows t' := by
  unfold Draft.replaceFunctions at h
  split at h
  · cases h
  have hpos : ∀ pos ∈ List.range' d.arity (d.names.length - d.arity), d.arity ≤ pos :=
    fun pos hp => (List.mem_range'_1.1 hp).1
  -- The arity, that is the number of parameters, is the same at every position.
  have hall : ∀ (l : List Nat) {d₀ : Draft} {t₀ : Transaction}, (∀ pos ∈ l, d.arity ≤ pos) →
      d₀.Shows t₀ → t₀.Tidy size given → d₀.arity = d.arity →
      l.foldlM (fun d pos => d.replaceFunctionAt old new args pos) d₀ = .ok d' →
      ∃ t', t'.Tidy size given ∧ d'.Shows t' := by
    intro l
    induction l with
    | nil =>
      intro d₀ t₀ _ hd₀ ht₀ _ h
      obtain rfl := Except.ok.inj h
      exact ⟨t₀, ht₀, hd₀⟩
    | cons pos l ih =>
      intro d₀ t₀ hl hd₀ ht₀ harity h
      rw [List.foldlM_cons] at h
      obtain ⟨d₁, h₁, h⟩ := bind_eq_ok_iff.1 h
      have hge : t₀.front.length ≤ pos := by
        rw [← hd₀.arity, harity]
        exact hl pos (by simp)
      obtain ⟨t₁, hsteps, hd₁⟩ := hd₀.steps_replaceFunctionAt given hge ht₀.size_le
        ht₀.operand_lt ht₀.now_lt h₁
      have harity₁ : d₁.arity = d₀.arity := arity_replaceFunctionAt h₁
      exact ih (fun p hp => hl p (by simp [hp])) hd₁ (ht₀.steps hsteps) (harity₁.trans harity) h
  exact hall _ hpos hd ht rfl h

/-- An operation that went through keeps the bookkeeping. -/
theorem Shows.tidy_run (hd : d.Shows t) (ht : t.Tidy size given) {op : Op}
    (hproper : op.Proper size d) (h : op.run d = .ok d') :
    ∃ t', t'.Tidy size (op.given given) ∧ d'.Shows t' := by
  have hone : ∀ {given'}, (∃ t', Step size given t given' t' ∧ d'.Shows t') →
      ∃ t', t'.Tidy size given' ∧ d'.Shows t' := by
    rintro given' ⟨t', hstep, hd'⟩
    exact ⟨t', ht.step hstep, hd'⟩
  cases op with
  | alloc n =>
    obtain rfl := Except.ok.inj h
    refine hone ⟨_, .alloc fun a ha => ?_, (hd.alloc n).2⟩
    have := hproper a ha
    rwa [← Array.length_toList, hd.arena] at this
  | renameParameter pos id =>
    obtain ⟨n, hn, h⟩ := bind_eq_ok_iff.1 h
    split at h
    · exact hone (hd.step_replaceName hproper h)
    · cases h
  | replaceByExpression pos id =>
    obtain ⟨n, hn, h⟩ := bind_eq_ok_iff.1 h
    split at h
    · cases h
    split at h
    · cases h
    · exact hone (hd.step_replaceName hproper h)
  | replaceByCopy pos source => exact hone (hd.step_replaceByCopy h)
  | insertParameter pos id => exact hone (hd.step_insertParameter hproper h)
  | insertExpression pos id => exact hone (hd.step_insertExpression hproper h)
  | replaceFunctions old new args => exact hd.tidy_replaceFunctions ht h
  | setResult id => exact hone (hd.step_setResult h)

/-- Every edit of a well-formed form keeps the bookkeeping. -/
theorem Edited.tidy {f : Form} (hf : f.WellFormed) (h : Edited f given d) :
    ∃ t, t.Tidy f.size given ∧ d.Shows t := by
  induction h with
  | start opened =>
    obtain ⟨d₁, hd₁, hshows⟩ := start_ofForm hf
    obtain rfl := Except.ok.inj (hd₁.symm.trans opened)
    exact ⟨_, tidy_opening hf, hshows⟩
  | step before op proper run ih =>
    obtain ⟨t, ht, hd⟩ := ih
    exact hd.tidy_run ht proper run

end Draft

end HandleForms
