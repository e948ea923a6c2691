import HandleForms.Proofs.Draft.Repair

/-!
# From a repaired draft to a form

What is left of `Draft.finish` after the repair: second copies are removed (`Clears`), expressions
that stand among the parameters move behind them (`partitionParameters_eq`), and arena numbers become
positions (`publishNames_eq`).

Removing copies counts the arity down only where a copy stands below the arity as it is at that
moment, although holes keep their places until all copies are removed. So the arity may come out too
large; partitioning corrects it, as long as it does not exceed the number of names.
-/

namespace HandleForms

/-- Whether a slot holds a second copy of a name. -/
def Slot.Copies (id : Nat) (s : Slot) : Prop := s.now = id ∧ s.was ≠ some id

/-- Removing, for each of some names in turn, the first slot that holds a copy of it. -/
inductive Clears : List Nat → List Slot → List Slot → Prop where
  | nil (slots : List Slot) : Clears [] slots slots
  | cons {id : Nat} {ids : List Nat} {us vs slots' : List Slot} {s : Slot}
      (first : ∀ u ∈ us, ¬ u.Copies id) (copy : s.Copies id) (rest : Clears ids (us ++ vs) slots') :
      Clears (id :: ids) (us ++ s :: vs) slots'

namespace Clears

variable {ids : List Nat} {pre slots slots' : List Slot}

theorem sublist (h : Clears ids slots slots') : slots'.Sublist slots := by
  induction h with
  | nil slots => exact List.Sublist.refl _
  | cons first copy rest ih =>
    exact ih.trans ((List.Sublist.refl _).append (List.sublist_cons_self _ _))

theorem length_add (h : Clears ids slots slots') : slots'.length + ids.length = slots.length := by
  induction h with
  | nil slots => simp
  | cons first copy rest ih =>
    simp only [List.length_append, List.length_cons] at ih ⊢
    omega

/-- Slots that did not change stay. -/
theorem prefix_stays (h : Clears ids slots slots') (hpre : pre <+: slots)
    (hsame : ∀ s ∈ pre, s.was = some s.now) : pre <+: slots' := by
  induction h with
  | nil slots => exact hpre
  | @cons id ids us vs slots' s first copy rest ih =>
    refine ih ?_
    obtain ⟨more, hmore⟩ := hpre
    rw [List.append_eq_append_iff] at hmore
    obtain ⟨as, rfl, -⟩ | ⟨as, rfl, has⟩ := hmore
    · exact ⟨as ++ vs, by simp⟩
    · cases as with
      | nil => exact ⟨vs, by simp⟩
      | cons a as =>
        obtain rfl : s = a := by simpa using congrArg List.head? has
        have := hsame s (by simp)
        exact absurd (copy.1 ▸ this) copy.2

end Clears

namespace Draft

variable {d : Draft} {F : Nat → Nat} {front back : List Slot}

/-! ## Removing copies -/

/-- Some slots of the front were emptied, and these are left. -/
structure Clearing (d : Draft) (F : Nat → Nat) (front back : List Slot) (holes : List (Option Slot))
    (left : List Slot) : Prop where
  names : d.names = holes.map (Option.map fun s => F s.now) ++ back.map fun s => some (F s.now)
  initial : d.initial = holes.map (Option.bind · Slot.was) ++ back.map Slot.was
  length : holes.length = front.length
  place : ∀ (i : Nat) (s : Slot), holes[i]? = some (some s) → front[i]? = some s
  left_eq : holes.filterMap id = left
  le_arity : left.length ≤ d.arity

/-- One copy is removed: it stands behind `before`, in the place where it stood at the start. -/
theorem Clearing.clearDuplicate {before after : List (Option Slot)} {left : List Slot} {s : Slot}
    {id : Nat} (h : Clearing d F front back (before ++ some s :: after) left)
    (hF : ∀ s ∈ front, F s.now = s.now) (hsame : ∀ s ∈ front.take d.firstChange, s.was = some s.now)
    (hfirst : ∀ u, some u ∈ before → ¬ u.Copies id) (hcopy : s.Copies id) :
    d.clearDuplicate id = .ok { d with
      names := d.names.set before.length none
      initial := d.initial.set before.length none
      arity := if before.length < d.arity then d.arity - 1 else d.arity } := by
  have hplace : front[before.length]? = some s := h.place _ _ (by simp)
  have hmem : ∀ u, some u ∈ before ++ some s :: after → u ∈ front := by
    intro u hu
    obtain ⟨i, hi⟩ := List.getElem?_of_mem hu
    exact List.mem_of_getElem? (h.place i u hi)
  have hbefore : ∀ (i : Nat) o, before[i]? = some o →
      d.names[i]? = some (o.map Slot.now) ∧ d.initial[i]? = some (o.bind Slot.was) := by
    intro i o ho
    have hFo : o.map (fun s => F s.now) = o.map Slot.now := by
      cases o with
      | none => rfl
      | some u => simp [hF u (hmem u (by simp [List.mem_of_getElem? ho]))]
    obtain ⟨hi, rfl⟩ := List.getElem?_eq_some_iff.1 ho
    constructor
    · rw [h.names]
      simp [List.getElem?_append_left, hi, hFo]
    · rw [h.initial]
      simp [List.getElem?_append_left, hi]
  have hhere : d.names[before.length]? = some (some id) ∧
      d.initial[before.length]? = some s.was := by
    constructor
    · rw [h.names]
      simp [hF s (hmem s (by simp)), ← hcopy.1]
    · rw [h.initial]
      simp
  have hlt : before.length < d.names.length := by
    rw [h.names]
    simp
  have hchanged : d.firstChange ≤ before.length := by
    refine Nat.not_lt.1 fun hlt => ?_
    have := hsame s (List.mem_of_getElem? (by rw [List.getElem?_take_of_lt hlt, hplace]))
    exact hcopy.2 (hcopy.1 ▸ this)
  have hfind : (List.range' d.firstChange (d.names.length - d.firstChange)).find? (fun pos =>
      d.names[pos]? == some (some id) && d.initial[pos]? != some (some id)) =
        some before.length := by
    rw [List.find?_range'_eq_some]
    refine ⟨by simp [hhere, hcopy.2], by simp only [List.mem_range'_1]; omega, fun j _ hj => ?_⟩
    have hget := List.getElem?_eq_getElem hj
    obtain ⟨hn, hi⟩ := hbefore j _ hget
    rw [hn, hi]
    cases ho : before[j] with
    | none => simp
    | some u =>
      have := hfirst u (by rw [← ho]; exact List.getElem_mem hj)
      simpa [Slot.Copies, imp_iff_not_or] using this
  rw [Draft.clearDuplicate, hfind]

/-- All copies are removed, one after the other. -/
theorem Clearing.foldlM_clearDuplicate (hF : ∀ s ∈ front, F s.now = s.now) {ids : List Nat}
    {left left' : List Slot} (hclear : Clears ids left left') :
    ∀ {d : Draft} {holes : List (Option Slot)}, Clearing d F front back holes left →
      (∀ s ∈ front.take d.firstChange, s.was = some s.now) → d.arity ≤ front.length →
      ∃ d' holes', ids.foldlM (fun d id => d.clearDuplicate id) d = .ok d' ∧
        Clearing d' F front back holes' left' ∧ d'.firstChange = d.firstChange ∧
        d'.arena = d.arena ∧ d'.result = d.result ∧ d'.editing = d.editing ∧
        d'.arity ≤ d.arity ∧ (ids ≠ [] → d'.arity + 1 ≤ front.length) := by
  induction hclear with
  | nil slots =>
    intro d holes h _ _
    exact ⟨d, holes, rfl, h, rfl, rfl, rfl, rfl, Nat.le_refl _, by simp⟩
  | @cons id ids us vs left' s hfirst hcopy hrest ih =>
    intro d holes h hsame harity
    obtain ⟨hu, hs, rfl, hus, hsv⟩ := List.filterMap_eq_append_iff.1 h.left_eq
    obtain ⟨nones, o, after, rfl, hnone, ho, hvs⟩ := List.filterMap_eq_cons_iff.1 hsv
    obtain rfl : o = some s := ho
    generalize hbefore : hu ++ nones = before
    have hholes : hu ++ (nones ++ some s :: after) = before ++ some s :: after := by
      rw [← hbefore, List.append_assoc]
    rw [hholes] at h
    have hmem : ∀ u, some u ∈ before → u ∈ us := by
      intro u hu'
      rw [← hbefore] at hu'
      obtain hu' | hu' := List.mem_append.1 hu'
      · rw [← hus]
        exact List.mem_filterMap.2 ⟨_, hu', rfl⟩
      · exact absurd (hnone _ hu') (by simp)
    have hlt : before.length < front.length := by
      rw [← h.length]
      simp
    have heq := h.clearDuplicate hF hsame (fun u hu' => hfirst u (hmem u hu')) hcopy
    have hleft := h.le_arity
    simp only [List.length_append, List.length_cons] at hleft
    have hnext : Clearing { d with
        names := d.names.set before.length none
        initial := d.initial.set before.length none
        arity := if before.length < d.arity then d.arity - 1 else d.arity }
        F front back (before ++ none :: after) (us ++ vs) := by
      constructor
      case names => simp [h.names]
      case initial => simp [h.initial]
      case length => simpa using h.length
      case place =>
        intro i u hi
        refine h.place i u ?_
        by_cases hib : i = before.length
        · simp [hib] at hi
        · rw [List.getElem?_append] at hi ⊢
          by_cases hlt : i < before.length
          · rw [if_pos hlt] at hi ⊢
            exact hi
          · obtain ⟨k, hk⟩ : ∃ k, i - before.length = k + 1 := ⟨i - before.length - 1, by omega⟩
            rw [if_neg hlt, hk, List.getElem?_cons_succ] at hi ⊢
            exact hi
      case left_eq =>
        have hnil : nones.filterMap (fun o => o) = [] :=
          List.filterMap_eq_nil_iff.2 fun o ho => hnone o ho
        rw [← hbefore, ← hus, ← hvs]
        simp [hnil]
      case le_arity =>
        simp only [List.length_append]
        split <;> omega
    obtain ⟨d', holes', heq', h', hchange, harena, hresult, hopen, harity', -⟩ :=
      ih hnext hsame (by dsimp only; split <;> omega)
    refine ⟨d', holes', by rw [List.foldlM_cons, heq, ok_bind, heq'], h', hchange, harena, hresult,
      hopen, ?_, fun _ => ?_⟩
    · dsimp only at harity'
      split at harity' <;> omega
    · dsimp only at harity'
      split at harity' <;> omega

/-- Holes are left out of the names in the end. -/
theorem Clearing.kept {holes : List (Option Slot)} {left : List Slot}
    (h : Clearing d F front back holes left) :
    ((d.names.zip d.initial).filter fun p => p.1.isSome).map Prod.fst =
      (left ++ back).map fun s => some (F s.now) := by
  have hholes : ∀ holes : List (Option Slot),
      (((holes.map (Option.map fun s => F s.now)).zip (holes.map (Option.bind · Slot.was))).filter
        fun p => p.1.isSome).map Prod.fst = (holes.filterMap id).map fun s => some (F s.now) := by
    intro holes
    induction holes with
    | nil => rfl
    | cons o holes ih => cases o <;> simp [ih]
  have hback : ∀ slots : List Slot,
      (((slots.map fun s => some (F s.now)).zip (slots.map Slot.was)).filter
        fun p => p.1.isSome).map Prod.fst = slots.map fun s => some (F s.now) := by
    intro slots
    induction slots with
    | nil => rfl
    | cons s slots ih => simp [ih]
  rw [h.names, h.initial, List.zip_append (by simp), List.filter_append, List.map_append, hholes,
    hback, h.left_eq, List.map_append]

/-! ## Moving expressions behind the parameters -/

/-- The expressions among the parameters move behind them. The places in `pre` did not change. -/
theorem partitionParameters_eq (pre rest exprs : List Nat)
    (hnames : d.names = (pre ++ rest ++ exprs).map some)
    (hexprs : ∀ a ∈ exprs, d.holdsParam (some a) = false)
    (hle : pre.length + rest.length ≤ d.arity)
    (hge : d.arity ≤ pre.length + rest.length + exprs.length)
    (hchange : d.firstChange = pre.length ∨ rest = [] ∧ d.arity = pre.length ∧
      d.arity ≤ d.firstChange) :
    d.partitionParameters = { d with
      names := (pre ++ rest.filter (fun a => d.holdsParam (some a)) ++
        rest.filter (fun a => !d.holdsParam (some a)) ++ exprs).map some
      arity := pre.length + (rest.filter fun a => d.holdsParam (some a)).length } := by
  unfold partitionParameters
  split
  · next hstop =>
    obtain ⟨rfl, harity⟩ : rest = [] ∧ d.arity = pre.length := by
      rcases hchange with h | ⟨h, ha, -⟩
      · have : rest.length = 0 := by omega
        exact ⟨List.length_eq_zero_iff.1 this, by omega⟩
      · exact ⟨h, ha⟩
    cases d
    simp_all
  · next hgo =>
    have hfirst : d.firstChange = pre.length := by
      rcases hchange with h | ⟨-, -, h⟩
      · exact h
      · exact absurd h hgo
    -- Some of the expressions behind the arity may be counted in.
    obtain ⟨es, more, rfl, hes⟩ : ∃ es more, exprs = es ++ more ∧
        d.arity = (pre ++ rest ++ es).length := by
      refine ⟨exprs.take (d.arity - (pre.length + rest.length)),
        exprs.drop (d.arity - (pre.length + rest.length)),
        (List.take_append_drop _ exprs).symm, ?_⟩
      simp only [List.length_append, List.length_take]
      omega
    have hsplit : d.names = pre.map some ++ (rest ++ es).map some ++ more.map some := by
      simp [hnames]
    have harity : d.arity = (pre.map some ++ (rest ++ es).map some).length := by
      simpa [Nat.add_assoc] using hes
    have hregion : (d.names.take d.arity).drop d.firstChange = (rest ++ es).map some := by
      rw [hsplit, harity, List.take_left, hfirst]
      simp
    have hbefore : d.names.take d.firstChange = pre.map some := by
      rw [hsplit, hfirst, List.append_assoc]
      simp
    have hbehind : d.names.drop d.arity = more.map some := by
      rw [hsplit, harity, List.drop_left]
    have hparams : es.filter (fun a => d.holdsParam (some a)) = [] :=
      List.filter_eq_nil_iff.2 fun a ha => by simp [hexprs a (by simp [ha])]
    have hmoved : es.filter (fun a => !d.holdsParam (some a)) = es :=
      List.filter_eq_self.2 fun a ha => by simp [hexprs a (by simp [ha])]
    have hcount := List.length_eq_length_filter_add (l := rest) fun a => d.holdsParam (some a)
    have hfilter : ∀ p : Option Nat → Bool, ((rest ++ es).map some).filter p =
        (rest.filter (p ∘ some) ++ es.filter (p ∘ some)).map some := by
      intro p
      rw [List.filter_map, List.filter_append]
    simp only [hregion, hbefore, hbehind, hfilter, Function.comp_def, hparams, hmoved]
    congr 1
    · simp only [List.length_append] at hes
      simp only [List.length_map, List.length_append]
      omega
    · simp

/-! ## Numbering the names -/

theorem publishNames_eq {place : Nat → Nat} :
    ∀ {ids earlier : List Nat} {placed : List (Nat × Nat)} {pos : Nat},
      (∀ a ∈ earlier, placed.lookup a = some (place a)) →
      (∀ i a, ids[i]? = some a → place a = pos + i) →
      (∀ i a, ids[i]? = some a → ∃ n, d.name a = .ok n ∧
        ∀ b ∈ n.operands, b ∈ earlier ++ ids.take i) →
      ∃ placed', d.publishNames placed pos (ids.map some) =
          .ok (ids.map fun a => (d.arena[a]?.getD default).mapArgs place, placed') ∧
        ∀ a ∈ earlier ++ ids, placed'.lookup a = some (place a) := by
  intro ids
  induction ids with
  | nil =>
    intro earlier placed pos hplaced _ _
    exact ⟨placed, rfl, by simpa using hplaced⟩
  | cons a ids ih =>
    intro earlier placed pos hplaced hplace hknown
    obtain ⟨n, hn, hoperands⟩ := hknown 0 a rfl
    have hoperands : ∀ b ∈ n.operands, placed.lookup b = some (place b) :=
      fun b hb => hplaced b (by simpa using hoperands b hb)
    have hfind : (n.operands.find? fun b => (placed.lookup b).isNone) = none :=
      List.find?_eq_none.2 fun b hb => by simp [hoperands b hb]
    have hmap : (n.mapArgs fun b => (placed.lookup b).getD b) = n.mapArgs place :=
      Name.mapArgs_congr fun b hb => by simp [hoperands b hb]
    have harena : d.arena[a]? = some n := by
      rw [← Array.getElem?_toList]
      exact name_eq_ok_iff.1 hn
    have hnext : ∀ b ∈ earlier ++ [a], List.lookup b ((a, pos) :: placed) = some (place b) := by
      intro b hb
      rw [Redirects.lookup_cons]
      split
      · next hba => rw [hba, hplace 0 a rfl, Nat.add_zero]
      · next hba =>
        refine hplaced b ?_
        simpa [hba] using hb
    have hplace' : ∀ i b, ids[i]? = some b → place b = pos + 1 + i := by
      intro i b hb
      have := hplace (i + 1) b (by simpa using hb)
      omega
    obtain ⟨placed', heq, hplaced'⟩ := ih hnext hplace'
      (fun i b hb => by
        obtain ⟨m, hm, hmo⟩ := hknown (i + 1) b (by simpa using hb)
        exact ⟨m, hm, fun c hc => by simpa using hmo c hc⟩)
    refine ⟨placed', ?_, by simpa using hplaced'⟩
    rw [List.map_cons, publishNames]
    simp only [hn, ok_bind, hfind, hmap, heq]
    simp [harena, pure, Except.pure]

/-- A draft without holes is published when parameters come first and operands stand earlier. -/
theorem publish_eq (place : Nat → Nat) {ids : List Nat} {form : Nat}
    (hnames : d.names = ids.map some) (hplace : ∀ i a, ids[i]? = some a → place a = i)
    (hknown : ∀ i a, ids[i]? = some a → ∃ n, d.name a = .ok n ∧ ∀ b ∈ n.operands, b ∈ ids.take i)
    (hresult : ∀ r, d.result = some r → r ∈ ids) :
    d.publish form = Form.assemble form d.arity
      (ids.map fun a => (d.arena[a]?.getD default).mapArgs place) (d.result.map place) .generic := by
  obtain ⟨placed, heq, hplaced⟩ := @publishNames_eq d place ids [] [] 0 (by simp)
    (by simpa using hplace) (by simpa using hknown)
  simp only [publish, hnames, heq, ok_bind]
  cases hr : d.result with
  | none => rfl
  | some r => simp [hplaced r (by simpa using hresult r hr)]

end Draft

end HandleForms
