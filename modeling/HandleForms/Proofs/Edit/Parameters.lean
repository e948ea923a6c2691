import HandleForms.Proofs.Edit.Adaptation

/-!
# Adding, merging and permuting parameters

The forms that `Edit.add`, `Edit.dup` and `Edit.permute` derive. None of them touches the
expressions: an added parameter is read by nothing, and the uses of a merged one read the parameter
it was merged into.
-/

namespace HandleForms

namespace Adaptation

/-- A parameter is added at `pos`. -/
def adding (base : Form) (pos : Nat) (type : BasicType) : Adaptation where
  params := base.names.take pos ++ .param type :: (base.names.take base.arity).drop pos
  early := []
  late := []
  place i := if i < pos then i else i + 1
  growth := none
  result := none

/-- Parameter `dst` is merged into parameter `src`. -/
def merging (base : Form) (src dst : Nat) : Adaptation where
  params := base.names.take dst ++ (base.names.take base.arity).drop (dst + 1)
  early := []
  late := []
  place i := if i < dst then i else if i = dst then src else i - 1
  growth := none
  result := none

/-- Parameter `skip + i` is supplied by parameter `skip + reorder[i]`. -/
def permuting (base : Form) (skip : Nat) (reorder : List Nat) : Adaptation where
  params := base.names.take skip ++ ((List.range reorder.length).map fun j =>
    .param ((base.param? (skip + reorder.idxOf j)).getD .void))
  early := []
  late := []
  place := Edit.permuted skip base.arity reorder
  growth := none
  result := none

end Adaptation

namespace Transaction

variable {base : Form} {pos src dst : Nat} {type : BasicType}

theorem opening_eq (h : pos ≤ base.arity) :
    opening base = ⟨base.names, (List.range' 0 pos).map Slot.same ++
      (List.range' pos (base.arity - pos)).map Slot.same,
      (List.range' base.arity (base.size - base.arity)).map Slot.same, base.result, []⟩ := by
  simp [opening, range_split h]

/-! ## Adding -/

/-- A parameter was added at `pos`. -/
def adding (base : Form) (pos : Nat) (type : BasicType) : Transaction where
  arena := base.names ++ [.param type]
  front := (List.range' 0 pos).map Slot.same ++ Slot.added base.size ::
    (List.range' pos (base.arity - pos)).map Slot.same
  back := (List.range' base.arity (base.size - base.arity)).map Slot.same
  result := base.result
  dups := []

theorem keepsResult_adding (hbase : base.WellFormed) (hpos : pos ≤ base.arity) :
    (adding base pos type).KeepsResult base := by
  refine ⟨fun h => h, fun r hr => ⟨Slot.same r, ?_, rfl, hr⟩⟩
  have := hbase.result_lt r hr
  simp [slots, adding, Slot.same, Slot.added]
  omega

variable (type) in
theorem layout_adding (hbase : base.WellFormed) (hpos : pos ≤ base.arity) :
    Layout base (adding base pos type) [] [] [] id base.names (adding base pos type).front
      (List.range' 0 pos ++ base.size :: List.range' pos (base.arity - pos)) [] [] [] := by
  have hle := hbase.arity_le
  have hnew : (adding base pos type).arena[base.size]? = some (.param type) := by
    simp [adding, Form.size]
  refine Layout.of_params hbase (.refl base []) (List.prefix_append _ _) ?_ ?_ ?_ ?_ (by simp)
    (by simp) (by simp) (.nil _) ?_ ?_ (by simp [slots, adding])
    fun r hr => (keepsResult_adding hbase hpos).placed hr
  case refine_1 => simp [adding, Slot.same]
  case refine_2 =>
    simp [adding, range_split hpos, Slot.added, Slot.same, List.filterMap_map, Function.comp_def]
  case refine_3 =>
    intro s hs
    simp only [adding, List.mem_append, List.mem_map, List.mem_cons] at hs ⊢
    obtain ⟨a, ha, rfl⟩ | rfl | ⟨a, ha, rfl⟩ := hs
    · exact .inl (.inl ha)
    · exact .inl (.inr (.inl rfl))
    · exact .inl (.inr (.inr ha))
  case refine_4 =>
    intro a ha
    simp only [List.mem_append, List.mem_cons] at ha
    obtain ha | rfl | ha := ha
    · exact .inl (List.mem_append_left _ (List.mem_map_of_mem ha))
    · exact .inr ⟨Nat.le_refl _, by rw [holdsParam_eq hnew]; rfl⟩
    · exact .inl (List.mem_append_right _ (List.mem_cons_of_mem _ (List.mem_map_of_mem ha)))
  case refine_5 => simp [adding, Slot.added, Slot.same, Function.comp_def]
  case refine_6 =>
    simp [List.nodup_append, List.nodup_range', List.nodup_cons]
    grind

theorem place_adding (hbase : base.WellFormed) (hpos : pos ≤ base.arity) {o : Nat}
    (ho : o < base.arity) :
    (adding base pos type).place (adding base pos type).front o =
      if o < pos then o else o + 1 := by
  have hlayout := layout_adding type hbase hpos
  refine hlayout.place_was (s := Slot.same o) ?_ rfl ?_
  · simp [slots, adding, Slot.same, Slot.added]
    omega
  · rw [hlayout.order_eq]
    clear hlayout
    simp [List.getElem?_append, List.getElem?_cons, Slot.same]
    grind

/-! ## Merging -/

/-- Parameter `dst` was made a copy of parameter `src`. -/
def merging (base : Form) (src dst : Nat) : Transaction where
  arena := base.names
  front := (List.range' 0 dst).map Slot.same ++ ⟨src, some dst⟩ ::
    (List.range' (dst + 1) (base.arity - (dst + 1))).map Slot.same
  back := (List.range' base.arity (base.size - base.arity)).map Slot.same
  result := Draft.follow base.result dst src
  dups := [src]

theorem keepsResult_merging (hbase : base.WellFormed) (hdst : dst < base.arity) :
    (merging base src dst).KeepsResult base := by
  refine ⟨fun h => by simp [merging, Draft.follow, h], fun r hr => ?_⟩
  have := hbase.result_lt r hr
  by_cases hrd : r = dst
  · exact ⟨⟨src, some dst⟩, by simp [slots, merging], by rw [hrd],
      by simp [merging, Draft.follow, hr, hrd]⟩
  · refine ⟨Slot.same r, ?_, rfl, by simp [merging, Draft.follow, hr, hrd, Slot.same]⟩
    simp [slots, merging, Slot.same]
    omega

theorem layout_merging (hbase : base.WellFormed) (hsrc : src < dst) (hdst : dst < base.arity) :
    Layout base (merging base src dst) [] [] [] id base.names
      ((List.range' 0 dst).map Slot.same ++
        (List.range' (dst + 1) (base.arity - (dst + 1))).map Slot.same)
      (List.range' 0 dst ++ List.range' (dst + 1) (base.arity - (dst + 1))) [] [] [] := by
  have hle := hbase.arity_le
  refine Layout.of_params hbase (.refl base []) (List.prefix_refl _) ?_ ?_ ?_ ?_ (by simp)
    (by simp) (by simp) ?_ ?_ ?_ ?_ fun r hr => (keepsResult_merging hbase hdst).placed hr
  case refine_1 => simp [merging, Slot.same]
  case refine_2 =>
    simp [merging, range_split_at hdst, Slot.same, List.filterMap_map, Function.comp_def]
  case refine_3 =>
    intro s hs
    simp only [merging, List.mem_append, List.mem_map, List.mem_cons] at hs ⊢
    obtain ⟨a, ha, rfl⟩ | rfl | ⟨a, ha, rfl⟩ := hs
    · exact .inl (.inl ha)
    · exact .inl (.inl (by simp [hsrc]))
    · exact .inl (.inr ha)
  case refine_4 =>
    intro a ha
    refine .inl ?_
    obtain ha | ha := List.mem_append.1 ha
    · exact List.mem_append_left _ (List.mem_map_of_mem ha)
    · exact List.mem_append_right _ (List.mem_cons_of_mem _ (List.mem_map_of_mem ha))
  case refine_5 =>
    refine .cons ?_ ⟨rfl, by simp; omega⟩ (.nil _)
    intro u hu
    obtain ⟨a, -, rfl⟩ := List.mem_map.1 hu
    exact fun h => h.2 (congrArg some h.1)
  case refine_6 => simp [Slot.same, Function.comp_def]
  case refine_7 =>
    simp [List.nodup_append, List.nodup_range']
    grind
  case refine_8 => simp [slots, merging]

theorem place_merging (hbase : base.WellFormed) (hsrc : src < dst) (hdst : dst < base.arity)
    {o : Nat} (ho : o < base.arity) :
    (merging base src dst).place ((List.range' 0 dst).map Slot.same ++
        (List.range' (dst + 1) (base.arity - (dst + 1))).map Slot.same) o =
      if o < dst then o else if o = dst then src else o - 1 := by
  have hlayout := layout_merging hbase hsrc hdst
  by_cases hod : o = dst
  · refine hlayout.place_was (s := ⟨src, some dst⟩) ?_ (by rw [hod]) ?_
    · simp [slots, merging]
    · rw [hlayout.order_eq]
      simp [List.getElem?_append, hod, hsrc]
  · refine hlayout.place_was (s := Slot.same o) ?_ rfl ?_
    · simp [slots, merging, Slot.same]
      omega
    · rw [hlayout.order_eq]
      clear hlayout
      simp [List.getElem?_append, Slot.same]
      grind

end Transaction

namespace Edit

open Transaction

variable {base : Form} {pos src dst : Nat} {type : BasicType}

theorem deriveAdd_eq (hbase : base.WellFormed) (hpos : pos ≤ base.arity) (id : Nat) :
    deriveAdd base pos type id = Form.verified ((Adaptation.adding base pos type).form base id) := by
  have hle := hbase.arity_le
  have hsize : (adding base pos type).arena[base.size]? = some (.param type) := by
    simp [adding, Form.size]
  have hlayout := layout_adding type hbase hpos
  obtain ⟨d, hd, hshows⟩ := Draft.start_ofForm hbase
  obtain ⟨hid, halloc⟩ := hshows.alloc (.param type)
  rw [opening_eq hpos] at hid halloc
  obtain ⟨d', hd', hshows'⟩ := halloc.insertParameter hsize rfl
  have hfinish := hlayout.adapt (A := .adding base pos type) hshows' ?_ rfl rfl
    (by simp [Adaptation.adding]) ?_ (.inl ⟨rfl, keepsResult_adding hbase hpos⟩) id
  · rw [List.length_map, List.length_range'] at hd'
    have hid : (d.alloc (.param type)).1 = base.size := hid
    simpa [deriveAdd, hd, hid, hd'] using hfinish
  · have h1 := map_nameOf_range' hlayout.arena_isPrefix (a := 0) (b := pos) (by omega)
    have h2 := map_nameOf_range' hlayout.arena_isPrefix (a := pos) (b := base.arity) hle
    rw [Nat.sub_zero, List.drop_zero] at h1
    simp [h1, h2, nameOf_eq hsize, Adaptation.adding]
  · exact fun o ho => place_adding hbase hpos ho

theorem deriveDup_eq (hbase : base.WellFormed) (hsrc : src < dst) (hdst : dst < base.arity)
    (htype : base.paramType dst = base.paramType src) (id : Nat) :
    deriveDup base src dst id = Form.verified ((Adaptation.merging base src dst).form base id) := by
  have hle := hbase.arity_le
  have hlayout := layout_merging hbase hsrc hdst
  obtain ⟨n, hs, -⟩ := hbase.exists_param (Nat.lt_trans hsrc hdst)
  obtain ⟨m, ht, hparam⟩ := hbase.exists_param hdst
  have htypes : m.type = n.type := by
    simpa [Form.paramType_eq hdst ht, Form.paramType_eq (Nat.lt_trans hsrc hdst) hs] using htype
  obtain ⟨d, hd, hshows⟩ := Draft.start_ofForm hbase
  rw [opening_eq (Nat.le_of_lt hdst), show base.arity - dst = base.arity - (dst + 1) + 1 by omega,
    List.range'_succ] at hshows
  have hsource : ((List.range' 0 dst).map Slot.same ++ Slot.same dst ::
      (List.range' (dst + 1) (base.arity - (dst + 1))).map Slot.same ++
      (List.range' base.arity (base.size - base.arity)).map Slot.same)[src]? =
        some (Slot.same src) := by
    simp [List.getElem?_append, hsrc]
  obtain ⟨d', hd', hshows'⟩ := hshows.replaceByCopy rfl ht hparam hsource hs htypes
    (by simp; omega)
  have hfinish := hlayout.adapt (A := .merging base src dst) hshows' ?_ rfl rfl
    (by simp [Adaptation.merging]) ?_ (.inl ⟨rfl, keepsResult_merging hbase hdst⟩) id
  · rw [List.length_map, List.length_range'] at hd'
    simpa [deriveDup, hd, hd'] using hfinish
  · have h1 := map_nameOf_range' hlayout.arena_isPrefix (a := 0) (b := dst) (by omega)
    have h2 := map_nameOf_range' hlayout.arena_isPrefix (a := dst + 1) (b := base.arity) hle
    rw [Nat.sub_zero, List.drop_zero] at h1
    simp [h1, h2, Adaptation.merging]
  · exact fun o ho => place_merging hbase hsrc hdst ho

theorem derivePermute_eq {skip : Nat} {reorder : List Nat} (hbase : base.WellFormed)
    (hlen : skip + reorder.length = base.arity) (id : Nat) :
    derivePermute base skip reorder id =
      Form.verified ((Adaptation.permuting base skip reorder).form base id) := by
  have hle := hbase.arity_le
  unfold Form.size at hle
  have hparams : (Adaptation.permuting base skip reorder).params.length = base.arity := by
    simp [Adaptation.permuting]
    omega
  have hmove : (Adaptation.permuting base skip reorder).move base.arity =
      permuted skip base.arity reorder := by
    funext i
    simp only [Adaptation.move, hparams]
    split
    · rfl
    · next hi =>
      simp only [Adaptation.permuting, List.length_nil, permuted, if_pos (Or.inr (Nat.not_lt.1 hi))]
      omega
  have hnames : (Adaptation.permuting base skip reorder).names base = base.names.take skip ++
      ((List.range reorder.length).map fun j =>
        (base.param? (skip + reorder.idxOf j)).getD .void).map Name.param ++
      (base.names.drop base.arity).map (Name.mapArgs (permuted skip base.arity reorder)) := by
    have hmoved : (Adaptation.permuting base skip reorder).moved base =
        Name.mapArgs (permuted skip base.arity reorder) := by
      funext n
      rw [Adaptation.moved, hmove]
      rfl
    rw [Adaptation.names, hmoved]
    simp [Adaptation.permuting, Function.comp_def]
  simp only [derivePermute, Form.assemble, Adaptation.form, hnames, hparams, hmove]
  rfl

end Edit

end HandleForms
