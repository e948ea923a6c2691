import HandleForms.Proofs.Draft.Publish
import Mathlib.Data.List.Nodup

/-!
# The form that an edit ends in

`Transaction.Ends t left place` collects what has to be known of an edit to write down the form that
it ends in: which slots of the front are left when second copies are removed, and at which position
of the form every name is found. `Shows.finish` is the main result on drafts: finishing then answers
the names in their final order with operands turned into positions, or refuses them as no form.
-/

namespace HandleForms

namespace Transaction

/-- The name with this number. -/
def nameOf (t : Transaction) (a : Nat) : Name Form := t.arena[a]?.getD default

/-- Whether this number is that of a parameter. -/
def holdsParam (t : Transaction) (a : Nat) : Bool := (t.arena[a]?.map Name.isParam).getD false

/-- The parameters of the form, when `left` is what is left of the front. -/
def params (t : Transaction) (left : List Slot) : List Nat :=
  (left.map Slot.now).filter t.holdsParam

/-- All names of the form in their order. -/
def order (t : Transaction) (left : List Slot) : List Nat :=
  t.params left ++ (left.map Slot.now).filter (fun a => !t.holdsParam a) ++ t.back.map Slot.now

/-- The edit is coherent, `left` is what is left of the front, and `place` says at which position
every name and every replaced name is found. -/
structure Ends (t : Transaction) (left : List Slot) (place : Nat → Nat) : Prop where
  coherent : t.Coherent
  clears : Clears t.dups t.front left
  unchanged_param : ∀ s ∈ t.front, s.was = some s.now → t.holdsParam s.now = true
  back_expr : ∀ s ∈ t.back, t.holdsParam s.now = false
  /-- The arity does not get larger than the number of names while copies are removed. -/
  room : t.front.length + t.dups.length ≤ t.slots.length + min 1 t.dups.length
  place_order : ∀ i a, (t.order left)[i]? = some a → place a = i
  place_was : ∀ s ∈ t.slots, ∀ o, s.was = some o → place o = place s.now
  placed : ∀ s ∈ t.slots, s.now ∈ t.order left
  /-- Operands are names of the edit, and found in front of the names that refer to them. -/
  operands : ∀ i a, (t.order left)[i]? = some a → ∀ b ∈ (t.nameOf a).operands,
    place b < i ∧ ∃ s ∈ t.slots, s.now = b ∨ s.was = some b

variable {t : Transaction} {left : List Slot} {place : Nat → Nat}

theorem nameOf_eq {a : Nat} {n : Name Form} (hn : t.arena[a]? = some n) : t.nameOf a = n := by
  simp [nameOf, hn]

theorem mem_slots_of_mem_order (hleft : left.Sublist t.front) {a : Nat} (ha : a ∈ t.order left) :
    ∃ s ∈ t.slots, s.now = a := by
  simp only [order, params, List.mem_append, List.mem_filter, List.mem_map] at ha
  obtain (⟨⟨s, hs, rfl⟩, -⟩ | ⟨⟨s, hs, rfl⟩, -⟩) | ⟨s, hs, rfl⟩ := ha
  · exact ⟨s, List.mem_append_left _ (hleft.subset hs), rfl⟩
  · exact ⟨s, List.mem_append_left _ (hleft.subset hs), rfl⟩
  · exact ⟨s, List.mem_append_right _ hs, rfl⟩

/-- The parameters come first. -/
theorem holdsParam_order (hback : ∀ s ∈ t.back, t.holdsParam s.now = false) {i a : Nat}
    (hi : (t.order left)[i]? = some a) : t.holdsParam a = true ↔ i < (t.params left).length := by
  rw [order, List.append_assoc, List.getElem?_append] at hi
  split at hi
  · next hlt =>
    have := (List.mem_filter.1 (List.mem_of_getElem? hi)).2
    simp [this, hlt]
  · next hlt =>
    have : t.holdsParam a = false := by
      obtain ha | ha := List.mem_append.1 (List.mem_of_getElem? hi)
      · simpa using (List.mem_filter.1 ha).2
      · obtain ⟨s, hs, rfl⟩ := List.mem_map.1 ha
        exact hback s hs
    simp [this, hlt]

theorem Ends.nodup (h : t.Ends left place) : (t.order left).Nodup := by
  refine List.nodup_iff_getElem?_ne_getElem?.2 fun i j hij hj heq => ?_
  have hj' := List.getElem?_eq_getElem hj
  have := h.place_order i _ (heq.trans hj')
  have := h.place_order j _ hj'
  omega

end Transaction

namespace Draft

open Transaction

variable {d : Draft} {t : Transaction} {left : List Slot} {place : Nat → Nat}

/-- Copies are removed after the repair. -/
theorem Repairing.clearDuplicates {r : Redirects} {F : Nat → Nat}
    (h : Repairing t d r F t.slots []) (ht : t.Ends left place)
    (hsame : ∀ s ∈ t.front.take d.firstChange, s.was = some s.now) :
    ∃ d', { d with editing := false }.clearDuplicates = .ok d' ∧
      d'.names = ((left ++ t.back).map fun s => some (F s.now)) ∧ d'.arena = d.arena ∧
      d'.result = d.result ∧ d'.firstChange = d.firstChange ∧ left.length ≤ d'.arity ∧
      d'.arity ≤ t.front.length ∧ (t.dups ≠ [] → d'.arity + 1 ≤ t.front.length) := by
  have hF : ∀ s ∈ t.front, F s.now = s.now := fun s hs =>
    h.steady _ (ht.coherent.front_steady s hs)
  have hstart : Clearing { d with editing := false } F t.front t.back (t.front.map some) t.front := by
    constructor
    case names => simp [h.names, Transaction.slots, Function.comp_def]
    case initial => simp [h.initial, Transaction.slots, Function.comp_def]
    case length => simp
    case place =>
      intro i s hi
      simpa using hi
    case left_eq => simp [List.filterMap_map]
    case le_arity => simp [h.arity]
  obtain ⟨d', holes, heq, hd', hfirst, harena, hresult, -, harity, hless⟩ :=
    Clearing.foldlM_clearDuplicate hF ht.clears hstart hsame (by simp [h.arity])
  refine ⟨{ d' with
      names := ((d'.names.zip d'.initial).filter fun p => p.1.isSome).map Prod.fst
      initial := ((d'.names.zip d'.initial).filter fun p => p.1.isSome).map Prod.snd
      dups := [] }, ?_, hd'.kept, harena, hresult, hfirst, hd'.le_arity, ?_, hless⟩
  · rw [← h.dups] at heq
    simp only [Draft.clearDuplicates, heq, ok_bind]
    rfl
  · simpa [h.arity] using harity

/-- The draft after the repair, without copies and with expressions moved behind the parameters. -/
theorem Shows.sorted (h : d.Shows t) (ht : t.Ends left place) :
    ∃ d₁ r F d₂, d.repair = .ok d₁ ∧ Repairing t d₁ r F t.slots [] ∧
      { d₁ with editing := false }.clearDuplicates = .ok d₂ ∧
      d₂.partitionParameters.arena = d₁.arena ∧ d₂.partitionParameters.result = d₁.result ∧
      d₂.partitionParameters.arity = (t.params left).length ∧
      d₂.partitionParameters.names = ((t.order left).map F).map some := by
  obtain ⟨d₁, r, F, hrepair, hfirst, hd₁⟩ := h.repair ht.coherent
  have hsame : ∀ s ∈ t.front.take d₁.firstChange, s.was = some s.now := by
    intro s hs
    refine h.unchanged s ?_
    rw [slots, List.take_append, ← hfirst]
    exact List.mem_append_left _ hs
  obtain ⟨d₂, hclear, hnames, harena, hresult, hchange, hle, hge, hless⟩ :=
    hd₁.clearDuplicates ht hsame
  -- What did not change of the front, and what is left of the rest.
  have hpre : t.front.take d₁.firstChange <+: left :=
    ht.clears.prefix_stays (List.take_prefix _ _) hsame
  have hsub := ht.clears.sublist
  have hlength := ht.clears.length_add
  have hroom := ht.room
  generalize hp : t.front.take d₁.firstChange = pre at hpre hsame
  obtain ⟨more, rfl⟩ := hpre
  have hF : ∀ s ∈ pre ++ more, F s.now = s.now := fun s hs =>
    hd₁.steady _ (ht.coherent.front_steady s (hsub.subset hs))
  have hparam : ∀ s ∈ t.slots, d₂.holdsParam (some (F s.now)) = t.holdsParam s.now := by
    intro s hs
    have hn := List.getElem?_eq_getElem (ht.coherent.now_lt s hs)
    have hn' := hd₁.content s hs _ hn
    rw [Array.getElem?_toList] at hn'
    simp [Draft.holdsParam, Transaction.holdsParam, harena, hn, hn']
  have hfront : ∀ s ∈ pre ++ more, d₂.holdsParam (some s.now) = t.holdsParam s.now := by
    intro s hs
    rw [← hparam s (List.mem_append_left _ (hsub.subset hs)), hF s hs]
  have hplen : pre.length = min d₁.firstChange t.front.length := by
    rw [← hp, List.length_take]
  simp only [List.length_append, slots] at hlength hle hroom
  have hdups : t.dups ≠ [] → 0 < t.dups.length := List.length_pos_iff.2
  have heq : d₂.partitionParameters = _ := partitionParameters_eq (pre.map Slot.now)
    (more.map Slot.now) (t.back.map fun s => F s.now) ?_ ?_ ?_ ?_ ?_
  · -- The names in `pre` are parameters, so sorting the rest sorts them all.
    have hsame' : ∀ a ∈ pre.map Slot.now, t.holdsParam a = true := by
      intro a ha
      obtain ⟨s, hs, rfl⟩ := List.mem_map.1 ha
      refine ht.unchanged_param s ?_ (hsame s hs)
      rw [← hp] at hs
      exact List.mem_of_mem_take hs
    have hmore : ∀ a ∈ more.map Slot.now, d₂.holdsParam (some a) = t.holdsParam a := by
      intro a ha
      obtain ⟨s, hs, rfl⟩ := List.mem_map.1 ha
      exact hfront s (List.mem_append_right _ hs)
    have hparams : t.params (pre ++ more) =
        pre.map Slot.now ++ (more.map Slot.now).filter fun a => d₂.holdsParam (some a) := by
      rw [params, List.map_append, List.filter_append, List.filter_eq_self.2 hsame',
        List.filter_congr hmore]
    have hothers : ((pre ++ more).map Slot.now).filter (fun a => !t.holdsParam a) =
        (more.map Slot.now).filter fun a => !d₂.holdsParam (some a) := by
      have hnone : (pre.map Slot.now).filter (fun a => !t.holdsParam a) = [] :=
        List.filter_eq_nil_iff.2 fun a ha => by simp [hsame' a ha]
      rw [List.map_append, List.filter_append, hnone, List.nil_append]
      exact List.filter_congr fun a ha => by rw [hmore a ha]
    have hFnow : ∀ a ∈ (pre ++ more).map Slot.now, F a = a := by
      intro a ha
      obtain ⟨s, hs, rfl⟩ := List.mem_map.1 ha
      exact hF s hs
    refine ⟨d₁, r, F, d₂, hrepair, hd₁, hclear, ?_⟩
    rw [heq]
    refine ⟨harena, hresult, ?_, ?_⟩
    · simp [hparams]
    · have hfrontF : (t.params (pre ++ more) ++
          ((pre ++ more).map Slot.now).filter fun a => !t.holdsParam a).map F =
          t.params (pre ++ more) ++
            ((pre ++ more).map Slot.now).filter fun a => !t.holdsParam a := by
        refine (List.map_congr_left (g := id) fun a ha => hFnow a ?_).trans (List.map_id _)
        simp only [params, List.mem_append, List.mem_filter] at ha
        rcases ha with ha | ha
        · exact ha.1
        · exact ha.1
      have hback : (t.back.map Slot.now).map F = t.back.map fun s => F s.now := by simp
      rw [order, List.map_append (f := F), hfrontF, hback, hparams, hothers]
  · rw [hnames]
    have h1 : (pre ++ more).map (fun s => some (F s.now)) =
        (pre ++ more).map fun s => some s.now :=
      List.map_congr_left fun s hs => by rw [hF s hs]
    rw [List.map_append, h1]
    simp [Function.comp_def]
  · intro a ha
    obtain ⟨s, hs, rfl⟩ := List.mem_map.1 ha
    rw [hparam s (List.mem_append_right _ hs)]
    exact ht.back_expr s hs
  · simpa using hle
  · simp only [List.length_map]
    by_cases hd : t.dups = []
    · simp [hd] at hlength hroom
      omega
    · have := hless hd
      have := hdups hd
      omega
  · by_cases hcase : d₁.firstChange ≤ t.front.length
    · left
      simp only [List.length_map]
      omega
    · right
      refine ⟨?_, ?_, ?_⟩
      · have : more.length = 0 := by omega
        simpa using List.length_eq_zero_iff.1 this
      · simp only [List.length_map]
        omega
      · omega

/-- Finishing answers the names in their final order with operands turned into positions, if they
make a form. -/
theorem Shows.finish (h : d.Shows t) (ht : t.Ends left place) (form : Nat) :
    d.finish form = Form.assemble form (t.params left).length
      ((t.order left).map fun a => (t.nameOf a).mapArgs place) (t.result.map place) .generic := by
  obtain ⟨d₁, r, F, d₂, hrepair, hd₁, hclear, harena, hresult, harity, hnames⟩ := h.sorted ht
  generalize hd₃ : d₂.partitionParameters = d₃ at harena hresult harity hnames
  have hsub := ht.clears.sublist
  have hslot : ∀ a ∈ t.order left, ∃ s ∈ t.slots, s.now = a := fun a ha =>
    mem_slots_of_mem_order hsub ha
  -- The name of a number and what became of it.
  have hname : ∀ a ∈ t.order left, t.arena[a]? = some (t.nameOf a) ∧
      d₃.arena[F a]? = some ((t.nameOf a).mapArgs F) := by
    intro a ha
    obtain ⟨s, hs, rfl⟩ := hslot a ha
    have hn := List.getElem?_eq_getElem (ht.coherent.now_lt s hs)
    rw [nameOf_eq hn, harena, ← Array.getElem?_toList]
    exact ⟨hn, hd₁.content s hs _ hn⟩
  have hinj : ((t.order left).map F).Nodup := by
    refine ht.nodup.map_on fun a ha b hb e => ?_
    obtain ⟨p, hp, rfl⟩ := hslot a ha
    obtain ⟨q, hq, rfl⟩ := hslot b hb
    exact hd₁.injective p hp q hq e
  -- Where a name is found in the end.
  have hfound : ∀ i a, (t.order left)[i]? = some a → ((t.order left).map F).idxOf (F a) = i := by
    intro i a hi
    obtain ⟨hlt, rfl⟩ := List.getElem?_eq_some_iff.1 hi
    have := hinj.idxOf_getElem i (by simpa using hlt)
    simpa using this
  have hplaced : ∀ a, (∃ s ∈ t.slots, s.now = a ∨ s.was = some a) →
      ((t.order left).map F).idxOf (F a) = place a ∧
        ((t.order left).map F)[place a]? = some (F a) := by
    rintro a ⟨s, hs, hsa⟩
    obtain ⟨i, hi⟩ := List.getElem?_of_mem (ht.placed s hs)
    have hplace := ht.place_order i _ hi
    obtain ⟨hF, hp⟩ : F a = F s.now ∧ place a = place s.now := by
      rcases hsa with rfl | hsa
      · exact ⟨rfl, rfl⟩
      · exact ⟨hd₁.was s hs a hsa, ht.place_was s hs a hsa⟩
    rw [hF, hp, hplace]
    exact ⟨hfound i _ hi, by simp [hi]⟩
  have hoperands : ∀ i a, (t.order left)[i]? = some a → ∀ b ∈ (t.nameOf a).operands,
      F b ∈ ((t.order left).map F).take i := by
    intro i a hi b hb
    obtain ⟨hlt, hknown⟩ := ht.operands i a hi b hb
    refine List.mem_of_getElem? (i := place b) ?_
    rw [List.getElem?_take_of_lt hlt, (hplaced b hknown).2]
  have hcheck : d₃.checkArity = .ok () := by
    refine checkArity_go_eq_ok fun i c hi => ?_
    rw [hnames, List.map_map, List.getElem?_map, Option.map_eq_some_iff] at hi
    obtain ⟨a, ha, hc⟩ := hi
    obtain rfl : F a = c := Option.some.inj hc
    obtain ⟨hn, hn'⟩ := hname a (List.mem_of_getElem? ha)
    refine ⟨_, name_eq_ok_iff.2 (by rw [Array.getElem?_toList, hn']), ?_⟩
    have hparam : t.holdsParam a = (t.nameOf a).isParam := by simp [Transaction.holdsParam, hn]
    rw [Name.isParam_mapArgs, Nat.zero_add, harity, ← hparam]
    exact holdsParam_order ht.back_expr ha
  have hpublish : d₃.publish form = _ := publish_eq (fun c => ((t.order left).map F).idxOf c)
    hnames ?_ ?_ ?_
  · have hfinish : d.finish form = d₃.publish form := by
      simp [Draft.finish, h.editing, hrepair, hclear, hd₃, hcheck]
    have hmap : (((t.order left).map F).map fun c => (d₃.arena[c]?.getD default).mapArgs
        fun b => ((t.order left).map F).idxOf b) =
          (t.order left).map fun a => (t.nameOf a).mapArgs place := by
      rw [List.map_map]
      refine List.map_congr_left fun a ha => ?_
      obtain ⟨i, hi⟩ := List.getElem?_of_mem ha
      simp only [Function.comp_apply, (hname a ha).2, Option.getD_some, Name.mapArgs_mapArgs]
      exact Name.mapArgs_congr fun b hb => (hplaced b (ht.operands i a hi b hb).2).1
    have hres : d₃.result.map (fun c => ((t.order left).map F).idxOf c) = t.result.map place := by
      rw [hresult, hd₁.result, Option.map_map]
      cases hr : t.result with
      | none => rfl
      | some ρ =>
        obtain ⟨s, hs, hsρ⟩ := ht.coherent.result_placed ρ hr
        simpa using (hplaced ρ ⟨s, hs, .inl hsρ⟩).1
    rw [hfinish, hpublish, harity, hmap, hres]
  · intro i c hi
    rw [List.getElem?_map, Option.map_eq_some_iff] at hi
    obtain ⟨a, ha, rfl⟩ := hi
    exact hfound i a ha
  · intro i c hi
    rw [List.getElem?_map, Option.map_eq_some_iff] at hi
    obtain ⟨a, ha, rfl⟩ := hi
    obtain ⟨-, hn'⟩ := hname a (List.mem_of_getElem? ha)
    refine ⟨_, name_eq_ok_iff.2 (by rw [Array.getElem?_toList, hn']), fun b hb => ?_⟩
    rw [Name.operands_mapArgs] at hb
    obtain ⟨e, he, rfl⟩ := List.mem_map.1 hb
    exact hoperands i a ha e he
  · intro c hc
    rw [hresult, hd₁.result, Option.map_eq_some_iff] at hc
    obtain ⟨ρ, hρ, rfl⟩ := hc
    obtain ⟨s, hs, rfl⟩ := ht.coherent.result_placed ρ hρ
    exact List.mem_map_of_mem (ht.placed s hs)

end Draft

end HandleForms
