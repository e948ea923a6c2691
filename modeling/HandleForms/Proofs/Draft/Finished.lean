import HandleForms.Proofs.Draft.Rewrites

/-!
# Finishing any edit

`Shows.finish` computes what an edit ends in once everything about it is known. Here the parts of
`Draft.finish` behind the repair are taken apart from their answers. Removing copies leaves some of the
slots (`Leaves`); moving expressions behind the parameters and the check of the arity leave the
parameters in their order, and then the expressions in theirs (`sorted_of_checkArity`); publishing
finds the operands of every name in front of it (`of_publish`).
-/

namespace HandleForms

namespace Draft

variable {d d' : Draft} {id a : Nat}

/-! ## Removing copies -/

/-- Every slot with the number under which its name is found after the repair. -/
abbrev Entries := List (Slot × Nat)

/-- The copies that are listed in `ids` were removed. Numbers from `bound` on are those of copied
expressions. -/
structure Leaves (bound : Nat) (ids : List Nat) (before after : Entries) : Prop where
  sublist : after.Sublist before
  strays : ∀ x, strays (after.map Prod.fst) x + ids.count x = strays (before.map Prod.fst) x
  own : ∀ e ∈ before, e.1.was = some e.1.now → e ∈ after
  new : ∀ e ∈ before, bound ≤ e.2 → e ∈ after

/-- The names of a draft, with a hole for every slot that was removed. -/
structure Holding (d : Draft) (entries : List (Option (Slot × Nat))) : Prop where
  names : d.names = entries.map (Option.map Prod.snd)
  initial : d.initial = entries.map (Option.bind · fun e => e.1.was)

variable {entries : List (Option (Slot × Nat))} {bound : Nat} {ids : List Nat}

/-- The slot that was emptied held a copy of the name. -/
theorem Holding.of_clearDuplicate (h : Holding d entries) (hrun : d.clearDuplicate id = .ok d') :
    ∃ xs e ys, entries = xs ++ some e :: ys ∧ e.2 = id ∧ e.1.was ≠ some id ∧
      Holding d' (xs ++ none :: ys) ∧ d'.arena = d.arena ∧ d'.result = d.result := by
  unfold Draft.clearDuplicate at hrun
  dsimp only at hrun
  split at hrun
  · cases hrun
  · next pos hfind =>
    have hpos := List.find?_some hfind
    simp only [Bool.and_eq_true, beq_iff_eq, bne_iff_ne, ne_eq] at hpos
    obtain ⟨hname, hinitial⟩ := hpos
    have hlt : pos < entries.length := by
      have := (List.getElem?_eq_some_iff.1 hname).1
      simpa [h.names] using this
    obtain ⟨xs, o, ys, rfl, rfl⟩ := exists_split hlt
    have hname' : o.map Prod.snd = some id := by simpa [h.names] using hname
    obtain ⟨e, rfl, rfl⟩ := Option.map_eq_some_iff.1 hname'
    have hwas : e.1.was ≠ some e.2 := by simpa [h.initial] using hinitial
    obtain rfl := Except.ok.inj hrun
    refine ⟨xs, e, ys, rfl, rfl, hwas, ⟨?_, ?_⟩, rfl, rfl⟩
    · simp [h.names]
    · simp [h.initial]

/-- All copies were removed, one after the other. -/
theorem Holding.of_foldlM_clearDuplicate (hids : ∀ id ∈ ids, id < bound) :
    ∀ {d : Draft} {entries : List (Option (Slot × Nat))}, Holding d entries →
      (∀ e, some e ∈ entries → e.2 = e.1.now ∨ bound ≤ e.2) →
      ids.foldlM clearDuplicate d = .ok d' →
      ∃ left, Holding d' left ∧ Leaves bound ids (entries.filterMap fun o => o)
        (left.filterMap fun o => o) ∧ d'.arena = d.arena ∧ d'.result = d.result := by
  induction ids with
  | nil =>
    intro d entries h _ hrun
    obtain rfl := Except.ok.inj hrun
    exact ⟨entries, h, ⟨List.Sublist.refl _, by simp, fun e he _ => he, fun e he _ => he⟩, rfl, rfl⟩
  | cons id ids ih =>
    intro d entries h hentries hrun
    rw [List.foldlM_cons] at hrun
    obtain ⟨d₁, h₁, hrun⟩ := bind_eq_ok_iff.1 hrun
    obtain ⟨xs, e, ys, rfl, he, hwas, hd₁, harena, hresult⟩ := h.of_clearDuplicate h₁
    obtain ⟨left, hleft, hleaves, harena', hresult'⟩ := ih (fun i hi => hids i (by simp [hi])) hd₁
      (fun q hq => hentries q (by simp at hq ⊢; tauto)) hrun
    have hid : id < bound := hids id (by simp)
    have hcopy : e.1.Copies id := by
      refine ⟨?_, hwas⟩
      have := hentries e (by simp)
      omega
    have hbefore : (xs ++ some e :: ys).filterMap (fun o => o) =
        xs.filterMap (fun o => o) ++ e :: ys.filterMap fun o => o := by simp
    have hafter : (xs ++ none :: ys).filterMap (fun o => o) =
        xs.filterMap (fun o => o) ++ ys.filterMap fun o => o := by simp
    rw [hafter] at hleaves
    rw [hbefore]
    refine ⟨left, hleft, ⟨?_, fun x => ?_, fun q hq hown => ?_, fun q hq hnew => ?_⟩,
      harena'.trans harena, hresult'.trans hresult⟩
    · exact hleaves.sublist.trans ((List.Sublist.refl _).append (List.sublist_cons_self _ _))
    · have hcount := hleaves.strays x
      rw [List.map_append] at hcount
      rw [List.map_append, List.map_cons, strays_middle, ← hcount, List.count_cons]
      have hone : e.1.Copies x ↔ id = x := by
        constructor
        · exact fun hx => hcopy.1.symm.trans hx.1
        · rintro rfl
          exact hcopy
      by_cases hx : id = x
      · simp [hone, hx]
        omega
      · simp [hone, hx]
    · refine hleaves.own q ?_ hown
      simp only [List.mem_append, List.mem_cons] at hq ⊢
      rcases hq with hq | rfl | hq
      · exact .inl hq
      · exact absurd hown (by rw [hcopy.1]; exact hcopy.2)
      · exact .inr hq
    · refine hleaves.new q ?_ hnew
      simp only [List.mem_append, List.mem_cons] at hq ⊢
      rcases hq with hq | rfl | hq
      · exact .inl hq
      · omega
      · exact .inr hq

/-- What is left of the names when copies and holes were removed. -/
theorem Holding.of_clearDuplicates (h : Holding d entries) (hids : ∀ id ∈ d.dups, id < bound)
    (hentries : ∀ e, some e ∈ entries → e.2 = e.1.now ∨ bound ≤ e.2)
    (hrun : d.clearDuplicates = .ok d') :
    ∃ left : Entries, Leaves bound d.dups (entries.filterMap fun o => o) left ∧
      d'.names = left.map (fun e => some e.2) ∧ d'.arena = d.arena ∧ d'.result = d.result := by
  obtain ⟨d₁, h₁, hrun⟩ := bind_eq_ok_iff.1 hrun
  obtain rfl := Except.ok.inj hrun
  obtain ⟨left, hleft, hleaves, harena, hresult⟩ :=
    Holding.of_foldlM_clearDuplicate hids h hentries h₁
  refine ⟨_, hleaves, ?_, harena, hresult⟩
  have hkept : ∀ left : List (Option (Slot × Nat)),
      (((left.map (Option.map Prod.snd)).zip (left.map (Option.bind · fun e => e.1.was))).filter
        fun p => p.1.isSome).map Prod.fst = (left.filterMap fun o => o).map fun e => some e.2 := by
    intro left
    induction left with
    | nil => rfl
    | cons o left ih => cases o <;> simp [ih]
  show ((d₁.names.zip d₁.initial).filter fun p => p.1.isSome).map Prod.fst = _
  rw [hleft.names, hleft.initial, hkept]

/-! ## Moving expressions behind the parameters -/

theorem of_checkArity_go {names : List (Option Nat)} {pos : Nat}
    (h : checkArity.go d pos names = .ok ()) {i : Nat} (hi : names[i]? = some (some a)) :
    d.holdsParam (some a) = true ↔ pos + i < d.arity := by
  induction names generalizing pos i with
  | nil => simp at hi
  | cons slot rest ih =>
    have hrest : checkArity.go d (pos + 1) rest = .ok () := by
      cases slot with
      | none => exact h
      | some x =>
        obtain ⟨n, hn, h⟩ := bind_eq_ok_iff.1 h
        split at h
        · cases h
        · exact h
    cases i with
    | zero =>
      obtain rfl : slot = some a := by simpa using hi
      obtain ⟨n, hn, h⟩ := bind_eq_ok_iff.1 h
      split at h
      · cases h
      next hplace =>
        have hn' : d.arena[a]? = some n := by
          rw [← Array.getElem?_toList]
          exact name_eq_ok_iff.1 hn
        by_cases hlt : pos < d.arity <;> simp_all [holdsParam]
    | succ i =>
      have := ih hrest (i := i) (by simpa using hi)
      rwa [Nat.add_assoc, Nat.add_comm 1] at this

/-- Names that have a property exactly below `k` are sorted by it. -/
theorem eq_filter_append {p : Nat → Bool} {k : Nat} {l : List Nat}
    (h : ∀ (i : Nat) a, l[i]? = some a → (p a = true ↔ i < k)) :
    l = l.filter p ++ l.filter (fun a => !p a) ∧ (l.filter p).length = min k l.length := by
  have htake : (l.take k).filter p = l.take k := List.filter_eq_self.2 fun a ha => by
    obtain ⟨i, hi⟩ := List.getElem?_of_mem ha
    have hlt := (List.getElem?_eq_some_iff.1 hi).1
    rw [List.length_take] at hlt
    rw [List.getElem?_take_of_lt (by omega)] at hi
    exact (h i a hi).2 (by omega)
  have hdrop : (l.drop k).filter p = [] := List.filter_eq_nil_iff.2 fun a ha => by
    obtain ⟨i, hi⟩ := List.getElem?_of_mem ha
    rw [List.getElem?_drop] at hi
    have := h _ a hi
    rw [this]
    omega
  have htake' : (l.take k).filter (fun a => !p a) = [] := by
    rw [← htake]
    simp [List.filter_filter]
  have hdrop' : (l.drop k).filter (fun a => !p a) = l.drop k := List.filter_eq_self.2 fun a ha => by
    have := List.filter_eq_nil_iff.1 hdrop a ha
    simpa using this
  have hsplit : ∀ q : Nat → Bool, l.filter q = (l.take k).filter q ++ (l.drop k).filter q := by
    intro q
    rw [← List.filter_append, List.take_append_drop]
  rw [hsplit p, hsplit fun a => !p a, htake, hdrop, htake', hdrop']
  simp

/-- Partitioning keeps the order of parameters and that of expressions. -/
theorem partitionParameters_filter {left : List Nat} (hnames : d.names = left.map some) :
    ∃ names : List Nat, d.partitionParameters.names = names.map some ∧
      d.partitionParameters.arena = d.arena ∧ d.partitionParameters.result = d.result ∧
      names.filter (fun a => d.holdsParam (some a)) = left.filter (fun a => d.holdsParam (some a)) ∧
      names.filter (fun a => !d.holdsParam (some a)) =
        left.filter fun a => !d.holdsParam (some a) := by
  unfold Draft.partitionParameters
  split
  · exact ⟨left, hnames, rfl, rfl, rfl, rfl⟩
  · next hgo =>
    have hle : d.firstChange ≤ d.arity := by omega
    -- The list in three parts, of which the middle one is partitioned.
    have hsplit : left = left.take d.firstChange ++
        ((left.take d.arity).drop d.firstChange ++ left.drop d.arity) := by
      conv_lhs => rw [← List.take_append_drop d.arity left]
      conv_lhs => rw [← List.take_append_drop d.firstChange (left.take d.arity)]
      rw [List.take_take, Nat.min_eq_left hle, List.append_assoc]
    refine ⟨left.take d.firstChange ++
      ((left.take d.arity).drop d.firstChange).filter (fun a => d.holdsParam (some a)) ++
      ((left.take d.arity).drop d.firstChange).filter (fun a => !d.holdsParam (some a)) ++
      left.drop d.arity, ?_, rfl, rfl, ?_, ?_⟩
    · simp only [hnames, ← List.map_take, ← List.map_drop, List.filter_map, List.map_append]
      rfl
    · conv_rhs => rw [hsplit]
      simp [List.filter_append, List.filter_filter]
    · conv_rhs => rw [hsplit]
      simp [List.filter_append, List.filter_filter]

/-- After the check of the arity the parameters come first, and the order is kept. -/
theorem sorted_of_checkArity {left : List Nat} (hnames : d.names = left.map some)
    (hcheck : d.partitionParameters.checkArity = .ok ()) :
    ∃ names : List Nat, d.partitionParameters.names = names.map some ∧
      d.partitionParameters.arena = d.arena ∧ d.partitionParameters.result = d.result ∧
      names = left.filter (fun a => d.holdsParam (some a)) ++
        left.filter (fun a => !d.holdsParam (some a)) ∧
      (left.filter fun a => d.holdsParam (some a)).length =
        min d.partitionParameters.arity names.length := by
  obtain ⟨names, heq, harena, hresult, hparams, hexprs⟩ := partitionParameters_filter hnames
  have hholds : ∀ a, d.partitionParameters.holdsParam (some a) = d.holdsParam (some a) := by
    intro a
    simp only [holdsParam, harena]
  have hsort := eq_filter_append (p := fun a => d.holdsParam (some a))
    (k := d.partitionParameters.arity) (l := names) fun i a hi => by
      have := of_checkArity_go hcheck (a := a) (i := i) (by simp [heq, hi])
      rwa [hholds, Nat.zero_add] at this
  rw [hparams, hexprs] at hsort
  exact ⟨names, heq, harena, hresult, hsort.1, hsort.2⟩

/-! ## Publishing -/

/-- Names were published whose operands stand in front of them. -/
theorem known_of_publishNames {placed' : List (Nat × Nat)} :
    ∀ {ids earlier : List Nat} {placed : List (Nat × Nat)} {pos : Nat} {names : List (Name Form)},
      (∀ p ∈ placed, p.1 ∈ earlier) →
      d.publishNames placed pos (ids.map some) = .ok (names, placed') →
      (∀ (i : Nat) a, ids[i]? = some a → ∃ n, d.name a = .ok n ∧
        ∀ b ∈ n.operands, b ∈ earlier ++ ids.take i) ∧
      ∀ p ∈ placed', p.1 ∈ earlier ++ ids := by
  intro ids
  induction ids with
  | nil =>
    intro earlier placed pos names hplaced hrun
    obtain ⟨-, rfl⟩ := Prod.mk.inj (Except.ok.inj hrun)
    exact ⟨by simp, by simpa using hplaced⟩
  | cons a ids ih =>
    intro earlier placed pos names hplaced hrun
    rw [List.map_cons, publishNames] at hrun
    obtain ⟨n, hn, hrun⟩ := bind_eq_ok_iff.1 hrun
    split at hrun
    · cases hrun
    next hfind =>
    obtain ⟨⟨ns, placed₁⟩, hrest, hrun⟩ := bind_eq_ok_iff.1 hrun
    obtain ⟨-, rfl⟩ := Prod.mk.inj (Except.ok.inj hrun)
    have hplaced' : ∀ p ∈ (a, pos) :: placed, p.1 ∈ earlier ++ [a] := by
      intro p hp
      rcases List.mem_cons.1 hp with rfl | hp
      · simp
      · simp [hplaced p hp]
    obtain ⟨hknown, hplaced₁⟩ := ih hplaced' hrest
    refine ⟨fun i b hi => ?_, by simpa using hplaced₁⟩
    cases i with
    | zero =>
      obtain rfl : a = b := by simpa using hi
      refine ⟨n, hn, fun c hc => ?_⟩
      have hnone := List.find?_eq_none.1 hfind c hc
      obtain ⟨p, hp⟩ : ∃ p, placed.lookup c = some p := by
        cases hlookup : placed.lookup c with
        | none => simp [hlookup] at hnone
        | some p => exact ⟨p, rfl⟩
      simpa using hplaced _ (TypeForms.mem_of_lookup hp)
    | succ i =>
      obtain ⟨m, hm, hoperands⟩ := hknown i b (by simpa using hi)
      exact ⟨m, hm, fun c hc => by simpa using hoperands c hc⟩

/-- A form was published: operands stand in front of the names that refer to them, and the result is
one of the names. -/
theorem of_publish {ids : List Nat} {form : Nat} {g : Form} (hnames : d.names = ids.map some)
    (hnodup : ids.Nodup) (hrun : d.publish form = .ok g) :
    (∀ (i : Nat) a, ids[i]? = some a → ∃ n, d.name a = .ok n ∧ ∀ b ∈ n.operands, b ∈ ids.take i) ∧
      (∀ r, d.result = some r → r ∈ ids) ∧
      Form.assemble form d.arity
        (ids.map fun a => (d.arena[a]?.getD default).mapArgs fun b => ids.idxOf b)
        (d.result.map fun b => ids.idxOf b) .generic = .ok g := by
  have hrun' := hrun
  unfold Draft.publish at hrun
  rw [hnames] at hrun
  obtain ⟨⟨names, placed⟩, hpublish, hrun⟩ := bind_eq_ok_iff.1 hrun
  have hnone : ∀ p ∈ ([] : List (Nat × Nat)), p.1 ∈ ([] : List Nat) := by simp
  obtain ⟨hknown, hplaced⟩ := known_of_publishNames hnone hpublish
  simp only [List.nil_append] at hknown hplaced
  have hresult : ∀ r, d.result = some r → r ∈ ids := by
    intro r hr
    simp only [hr] at hrun
    split at hrun
    · cases hrun
    · next p hp => exact hplaced _ (TypeForms.mem_of_lookup hp)
  have hplace : ∀ (i : Nat) a, ids[i]? = some a → ids.idxOf a = i := by
    intro i a hi
    obtain ⟨hlt, rfl⟩ := List.getElem?_eq_some_iff.1 hi
    exact hnodup.idxOf_getElem i hlt
  rw [publish_eq (fun b => ids.idxOf b) hnames hplace hknown hresult] at hrun'
  exact ⟨hknown, hresult, hrun'⟩

end Draft

end HandleForms
