import HandleForms.Proofs.Edit.Parameters

/-!
# Growing the carrier

Edits that append a field to the carrier begin in the same way: reads of the old fields are
retargeted and a carrier of the extended species takes the place of parameter 0
(`Shows.switchCarrier`). The forms that `Edit.bind` derives, where the appended field supplies a
parameter, are written down here.
-/

namespace HandleForms

open Transaction

namespace Draft

variable {base : Form} {g : CarrierGrowth} {field : BasicType} {d : Draft}

/-- The carrier takes the place of parameter 0, and the expressions are looked at. -/
theorem Shows.switchCarrier (hshows : d.Shows (opening base)) (hbase : base.WellFormed)
    (hpos : 0 < base.arity) (htype : base.paramType 0 = .ok .ref) (hg : g.Appends field) :
    ∃ d' arena k, d.switchCarrier g = .ok (arena.length, d') ∧
      d'.Shows ⟨arena ++ [.carrier g.new],
        ⟨arena.length, some 0⟩ :: (List.range' 1 (base.arity - 1)).map Slot.same,
        (List.range' base.arity (base.size - base.arity)).map fun i => ⟨k i, some i⟩,
        follow (base.result.map k) 0 arena.length, []⟩ ∧
      Replacement base.names arena (Function.getters g.old) (Function.getters g.new) [.name 0]
        base.arity (base.size - base.arity) k := by
  have hle := hbase.arity_le
  obtain ⟨n, hn, hparam⟩ := hbase.exists_param hpos
  have href : n.type = .ref := by simpa [Form.paramType_eq hpos hn] using htype
  have hfront : (opening base).front =
      Slot.same 0 :: (List.range' 1 (base.arity - 1)).map Slot.same := by
    obtain ⟨m, hm⟩ := Nat.exists_eq_add_of_lt hpos
    simp [opening, hm, List.range_eq_range', List.range'_succ]
  have hslot : (opening base).slots[0]? = some (Slot.same 0) := by simp [slots, hfront]
  have hzero : d.idAt 0 = .ok 0 := hshows.idAt hslot
  have hlen : (Function.getters g.old : List (Function Form)).length ≤
      (Function.getters g.new : List (Function Form)).length := by
    simp [Function.getters, show g.new.fields = _ from hg]
  obtain ⟨d1, arena, k, heq, h1, hk⟩ := hshows.replaceFunctions [.name 0] hlen (by simp)
    (by unfold Form.size at hle ⊢; omega)
  obtain ⟨hid, h2⟩ := h1.alloc (.carrier g.new)
  have harena := hk.arena_isPrefix.trans (List.prefix_append arena [.carrier g.new])
  rw [show (List.range base.arity).map Slot.same = (opening base).front from rfl, hfront] at h2
  have hnew : (arena ++ [.carrier g.new])[arena.length]? = some (.carrier g.new) := by simp
  rw [← List.nil_append (Slot.same 0 :: _)] at h2
  obtain ⟨d3, heq3, h3⟩ := h2.renameParameter rfl (getElem?_of_isPrefix harena hn) hparam hnew href
    rfl
  refine ⟨d3, arena, k, ?_, h3, hk⟩
  rw [List.length_nil] at heq3
  have hid : (d1.alloc (.carrier g.new)).1 = arena.length := hid
  simp [Draft.switchCarrier, hzero, heq, hid, heq3]

end Draft

namespace Adaptation

/-- Parameter `pos`, which is not the carrier, becomes a read of the appended field. -/
def binding (base : Form) (g : CarrierGrowth) (pos : Nat) : Adaptation where
  params := .carrier g.new :: ((base.names.take pos).drop 1 ++
    (base.names.take base.arity).drop (pos + 1))
  early := [g.readOf 0]
  late := []
  place i := if i < pos then i else if i = pos then base.arity - 1 else i - 1
  growth := some g
  result := none

/-- Parameter 0, a plain reference, becomes a read of the only field of a carrier. -/
def bindingHandle (base : Form) (g : CarrierGrowth) : Adaptation where
  params := .carrier g.new :: (base.names.take base.arity).drop 1
  early := [g.readOf 0]
  late := []
  place i := if i = 0 then base.arity else i
  growth := none
  result := none

end Adaptation

namespace Transaction

variable {base : Form} {g : CarrierGrowth} {pos : Nat} {arena : List (Name Form)} {k : Nat → Nat}

/-- An expression whose number changed got a new one. -/
theorem replacement_ne {old new : List (Function Form)} {args : List Arg}
    (hk : Draft.Replacement base.names arena old new args base.arity (base.size - base.arity) k)
    {r o : Nat} (hr : r < base.size) (ho : o < base.arity) (hne : r ≠ o) : k r ≠ o := by
  have := hk.same_or_new r
  unfold Form.size at hr
  by_cases hlt : r < base.arity
  · rw [hk.outside r (.inl hlt)]
    exact hne
  · omega

/-- The result is kept when it follows the parameters to `c` and the expressions to `k`. -/
theorem keepsResult_of {t : Transaction} {c : Nat → Nat} (hbase : base.WellFormed)
    (hfront : ∀ o < base.arity, ⟨c o, some o⟩ ∈ t.front)
    (hback : ∀ i, base.arity ≤ i → i < base.size → ⟨k i, some i⟩ ∈ t.back)
    (hresult : t.result = base.result.map fun r => if r < base.arity then c r else k r) :
    t.KeepsResult base := by
  refine ⟨fun h => by simp [hresult, h], fun r hr => ?_⟩
  have hlt := hbase.result_lt r hr
  by_cases ha : r < base.arity
  · exact ⟨⟨c r, some r⟩, List.mem_append_left _ (hfront r ha), rfl, by simp [hresult, hr, ha]⟩
  · exact ⟨⟨k r, some r⟩, List.mem_append_right _ (hback r (Nat.not_lt.1 ha) hlt), rfl,
      by simp [hresult, hr, ha]⟩

/-! ## Binding -/

/-- Parameter `pos` was bound. -/
def binding (base : Form) (g : CarrierGrowth) (pos : Nat) (arena : List (Name Form))
    (k : Nat → Nat) : Transaction where
  arena := arena ++ [.carrier g.new, g.readOf arena.length]
  front := ⟨arena.length, some 0⟩ :: ((List.range' 1 (pos - 1)).map Slot.same ++
    ⟨arena.length + 1, some pos⟩ ::
      (List.range' (pos + 1) (base.arity - (pos + 1))).map Slot.same)
  back := (List.range' base.arity (base.size - base.arity)).map fun i => ⟨k i, some i⟩
  result := Draft.follow (Draft.follow (base.result.map k) 0 arena.length) pos (arena.length + 1)
  dups := []

theorem keepsResult_binding {old new : List (Function Form)} {args : List Arg}
    (hbase : base.WellFormed) (hpos : 0 < pos) (hlt : pos < base.arity)
    (hk : Draft.Replacement base.names arena old new args base.arity (base.size - base.arity) k) :
    (binding base g pos arena k).KeepsResult base := by
  refine keepsResult_of (k := k)
    (c := fun o => if o = 0 then arena.length else if o = pos then arena.length + 1 else o) hbase
    ?_ ?_ ?_
  · intro o ho
    simp [binding, Slot.same]
    grind
  · intro i h1 h2
    simp [binding]
    omega
  · have hle := hk.arena_isPrefix.length_le
    have hsize := hbase.arity_le
    unfold Form.size at *
    cases hr : base.result with
    | none => simp [binding, hr, Draft.follow]
    | some r =>
      have hlt := hbase.result_lt r hr
      have h0 := fun h => replacement_ne hk hlt (o := 0) (by omega) h
      have h1 := fun h => replacement_ne hk hlt (o := pos) (by omega) h
      have h2 := hk.outside r
      simp [binding, hr, Draft.follow]
      grind

theorem layout_binding (hbase : base.WellFormed) (hpos : 0 < pos) (hlt : pos < base.arity)
    (hk : Draft.Replacement base.names arena (Function.getters g.old) (Function.getters g.new)
      [.name 0] base.arity (base.size - base.arity) k) :
    Layout base (binding base g pos arena k) (Function.getters g.old) (Function.getters g.new)
      [.name 0] k arena (binding base g pos arena k).front
      (arena.length :: (List.range' 1 (pos - 1) ++
        List.range' (pos + 1) (base.arity - (pos + 1)))) [arena.length + 1] [] [] := by
  have hle := hbase.arity_le
  have harena : base.size ≤ arena.length := hk.arena_isPrefix.length_le
  have hcarrier : (binding base g pos arena k).arena[arena.length]? = some (.carrier g.new) := by
    simp [binding]
  have hread : (binding base g pos arena k).arena[arena.length + 1]? =
      some (g.readOf arena.length) := by
    simp [binding]
  have hinitial : arena <+: (binding base g pos arena k).arena := List.prefix_append _ _
  have hparam : ∀ a < base.arity, (binding base g pos arena k).holdsParam a = true := fun a ha =>
    holdsParam_of_lt hbase (hk.arena_isPrefix.trans hinitial) ha
  have hnow : (binding base g pos arena k).front.map Slot.now = arena.length ::
      (List.range' 1 (pos - 1) ++
        (arena.length + 1) :: List.range' (pos + 1) (base.arity - (pos + 1))) := by
    simp [binding, Slot.same, Function.comp_def]
  refine Layout.of_new hbase hk hinitial ?_ ?_ ?_ ?_ ?_ ?_ (by simp) (.nil _) ?_ ?_ ?_
    (by simp [slots, binding]) fun r hr => (keepsResult_binding hbase hpos hlt hk).placed hr
  case refine_1 => simp [binding]
  case refine_2 =>
    simp [binding, range_split_at hlt, range'_zero hpos, Slot.same, List.filterMap_map,
      Function.comp_def]
  case refine_3 =>
    intro s hs
    simp [binding, Slot.same] at hs ⊢
    grind
  case refine_4 =>
    intro a ha
    rcases List.mem_cons.1 ha with rfl | ha
    · exact .inr ⟨Nat.le_refl _, by rw [holdsParam_eq hcarrier]; rfl⟩
    · left
      simp [binding, Slot.same] at ha ⊢
      grind
  case refine_5 => simp [hread]
  case refine_6 =>
    intro i a ha b hb
    obtain rfl : a = arena.length + 1 := by simpa using List.mem_of_getElem? ha
    obtain rfl : b = arena.length := by simpa [nameOf_eq hread, Arg.name?] using hb
    simp
  case refine_7 =>
    rw [Transaction.params, hnow, List.filter_cons_of_pos (by rw [holdsParam_eq hcarrier]; rfl),
      List.filter_append, List.filter_cons_of_neg (by rw [holdsParam_eq hread]; simp)]
    rw [List.filter_eq_self.2, List.filter_eq_self.2]
    · exact fun a ha => hparam a (by simp at ha; omega)
    · exact fun a ha => hparam a (by simp at ha; omega)
  case refine_8 =>
    rw [hnow, List.filter_cons_of_neg (by rw [holdsParam_eq hcarrier]; simp), List.filter_append,
      List.filter_cons_of_pos (by rw [holdsParam_eq hread]; rfl), List.filter_eq_nil_iff.2,
      List.filter_eq_nil_iff.2]
    · rfl
    · exact fun a ha => by simp [hparam a (by simp at ha; omega)]
    · exact fun a ha => by simp [hparam a (by simp at ha; omega)]
  case refine_9 =>
    simp [List.nodup_append, List.nodup_range', List.nodup_cons]
    grind

theorem place_binding (hbase : base.WellFormed) (hpos : 0 < pos) (hlt : pos < base.arity)
    (hk : Draft.Replacement base.names arena (Function.getters g.old) (Function.getters g.new)
      [.name 0] base.arity (base.size - base.arity) k) {o : Nat} (ho : o < base.arity) :
    (binding base g pos arena k).place (binding base g pos arena k).front o =
      if o < pos then o else if o = pos then base.arity - 1 else o - 1 := by
  have hlayout := layout_binding (g := g) hbase hpos hlt hk
  have hslot : ⟨if o = 0 then arena.length else if o = pos then arena.length + 1 else o, some o⟩ ∈
      (binding base g pos arena k).slots := by
    clear hlayout
    simp [slots, binding, Slot.same]
    grind
  refine hlayout.place_was hslot rfl ?_
  rw [hlayout.order_eq]
  clear hlayout hslot hk
  simp [List.getElem?_append, List.getElem?_cons]
  grind

/-! ## Binding the handle -/

/-- Parameter 0 was bound. -/
def bindingHandle (base : Form) (g : CarrierGrowth) : Transaction where
  arena := base.names ++
    [.carrier g.new, g.readOf base.size]
  front := Slot.added base.size :: ⟨base.size + 1, some 0⟩ ::
    (List.range' 1 (base.arity - 1)).map Slot.same
  back := (List.range' base.arity (base.size - base.arity)).map Slot.same
  result := Draft.follow base.result 0 (base.size + 1)
  dups := []

theorem keepsResult_bindingHandle (hbase : base.WellFormed) (hpos : 0 < base.arity) :
    (bindingHandle base g).KeepsResult base := by
  refine keepsResult_of (k := id) (c := fun o => if o = 0 then base.size + 1 else o) hbase ?_ ?_ ?_
  · intro o ho
    simp [bindingHandle, Slot.same]
    grind
  · intro i h1 h2
    simp [bindingHandle, Slot.same]
    omega
  · cases hr : base.result with
    | none => simp [bindingHandle, hr, Draft.follow]
    | some r =>
      have := hbase.result_lt r hr
      simp [bindingHandle, hr, Draft.follow]
      grind

theorem layout_bindingHandle (hbase : base.WellFormed) (hpos : 0 < base.arity) :
    Layout base (bindingHandle base g) [] [] [] id base.names (bindingHandle base g).front
      (base.size :: List.range' 1 (base.arity - 1)) [base.size + 1] [] [] := by
  have hle := hbase.arity_le
  have hcarrier : (bindingHandle base g).arena[base.size]? = some (.carrier g.new) := by
    simp [bindingHandle, Form.size]
  have hread : (bindingHandle base g).arena[base.size + 1]? =
      some (g.readOf base.size) := by
    simp [bindingHandle, Form.size]
  have hinitial : base.names <+: (bindingHandle base g).arena := List.prefix_append _ _
  have hparam : ∀ a ∈ List.range' 1 (base.arity - 1), (bindingHandle base g).holdsParam a = true :=
    fun a ha => holdsParam_of_lt hbase hinitial (by simp at ha; omega)
  have hnow : (bindingHandle base g).front.map Slot.now =
      base.size :: (base.size + 1) :: List.range' 1 (base.arity - 1) := by
    simp [bindingHandle, Function.comp_def]
  refine Layout.of_new hbase (.refl base []) hinitial ?_ ?_ ?_ ?_ ?_ ?_ (by simp) (.nil _) ?_ ?_ ?_
    (by simp [slots, bindingHandle]) fun r hr => (keepsResult_bindingHandle hbase hpos).placed hr
  case refine_1 => simp [bindingHandle, Slot.same]
  case refine_2 =>
    rw [List.range_eq_range', range'_zero hpos]
    simp [bindingHandle, List.filterMap_map, List.filterMap_cons, Function.comp_def]
  case refine_3 =>
    intro s hs
    simp [bindingHandle, Slot.same, Slot.added] at hs ⊢
    grind
  case refine_4 =>
    intro a ha
    rcases List.mem_cons.1 ha with rfl | ha
    · exact .inr ⟨Nat.le_refl _, by rw [holdsParam_eq hcarrier]; rfl⟩
    · exact .inl (by simp [bindingHandle, List.mem_map_of_mem ha])
  case refine_5 =>
    intro a ha
    obtain rfl : a = base.size + 1 := by simpa using ha
    exact ⟨Nat.le_succ _, _, hread, rfl⟩
  case refine_6 =>
    intro i a ha b hb
    obtain rfl : a = base.size + 1 := by simpa using List.mem_of_getElem? ha
    obtain rfl : b = base.size := by simpa [nameOf_eq hread, Arg.name?] using hb
    simp
  case refine_7 =>
    rw [Transaction.params, hnow, List.filter_cons_of_pos (by rw [holdsParam_eq hcarrier]; rfl),
      List.filter_cons_of_neg (by rw [holdsParam_eq hread]; simp), List.filter_eq_self.2 hparam]
  case refine_8 =>
    rw [hnow, List.filter_cons_of_neg (by rw [holdsParam_eq hcarrier]; simp),
      List.filter_cons_of_pos (by rw [holdsParam_eq hread]; rfl), List.filter_eq_nil_iff.2]
    · rfl
    · exact fun a ha => by simp [hparam a ha]
  case refine_9 =>
    simp [List.nodup_range', List.nodup_append]
    grind

theorem place_bindingHandle (hbase : base.WellFormed) (hpos : 0 < base.arity) {o : Nat}
    (ho : o < base.arity) :
    (bindingHandle base g).place (bindingHandle base g).front o =
      if o = 0 then base.arity else o := by
  have hlayout := layout_bindingHandle (g := g) hbase hpos
  have hslot : ⟨if o = 0 then base.size + 1 else o, some o⟩ ∈ (bindingHandle base g).slots := by
    clear hlayout
    simp [slots, bindingHandle, Slot.same]
    grind
  refine hlayout.place_was hslot rfl ?_
  rw [hlayout.order_eq]
  clear hlayout hslot
  simp [List.getElem?_append, List.getElem?_cons]
  grind

end Transaction

namespace Edit

variable {base : Form} {g : CarrierGrowth} {field : BasicType} {pos : Nat}

theorem deriveBind_eq (hbase : base.WellFormed) (hpos : 0 < pos) (hlt : pos < base.arity)
    (href : base.paramType 0 = .ok .ref) (htype : base.paramType pos = .ok field)
    (hg : g.Appends field) (id : Nat) :
    deriveBind base g pos id = Form.verified ((Adaptation.binding base g pos).form base id) := by
  have hle := hbase.arity_le
  obtain ⟨n, hn, hparam⟩ := hbase.exists_param hlt
  have hfield : n.type = field := by simpa [Form.paramType_eq hlt hn] using htype
  obtain ⟨d, hd, hshows⟩ := Draft.start_ofForm hbase
  obtain ⟨d1, arena, k, hd1, hshows1, hk⟩ :=
    hshows.switchCarrier hbase (Nat.lt_trans hpos hlt) href hg
  have hlayout := layout_binding (g := g) hbase hpos hlt hk
  rw [range'_split_at hpos hlt, List.map_append, List.map_cons, ← List.cons_append] at hshows1
  have hread : (binding base g pos arena k).arena[arena.length + 1]? = some (g.readOf arena.length) := by
    simp [binding]
  have hold : (binding base g pos arena k).arena[pos]? = some n :=
    Draft.getElem?_of_isPrefix (hk.arena_isPrefix.trans (List.prefix_append _ _)) hn
  obtain ⟨hid, halloc⟩ := hshows1.alloc (g.readOf arena.length)
  rw [List.append_assoc] at halloc
  obtain ⟨d2, hd2, hshows2⟩ := halloc.replaceByExpression rfl hold hparam hread
    (by rw [hfield, g.type_readOf hg]) rfl (by
    intro s hs
    have hsize := hlayout.size_le
    simp only [List.mem_append, List.mem_cons, List.mem_map, List.mem_range'_1] at hs
    obtain ((rfl | ⟨a, ha, rfl⟩) | rfl | ⟨a, ha, rfl⟩) | ⟨i, hi, rfl⟩ := hs
    · simp
    · simp
      omega
    · simp
      omega
    · simp
      omega
    · have : k i < arena.length := hlayout.g_lt hi.1 (by omega)
      simp
      omega)
  have hshows2' : d2.Shows (binding base g pos arena k) := by simpa [binding] using hshows2
  have hfinish := hlayout.adapt (A := .binding base g pos) hshows2' ?_ ?_ rfl (fun n => rfl)
    (fun o ho => place_binding hbase hpos hlt hk ho)
    (.inl ⟨rfl, keepsResult_binding hbase hpos hlt hk⟩) id
  · have hne : pos ≠ 0 := by omega
    have hid : (d1.alloc (g.readOf arena.length)).1 = arena.length + 1 := by simpa using hid
    have hd2 : (d1.alloc (g.readOf arena.length)).2.replaceByExpression pos (arena.length + 1) = .ok d2 := by
      have hlen : pos - 1 + 1 = pos := by omega
      simpa [hlen] using hd2
    simpa [deriveBind, hd, hd1, hne, g.getter_eq hg, g.apply_getter, hid, hd2] using hfinish
  · have hp := hk.arena_isPrefix.trans hlayout.arena_isPrefix
    have h1 := map_nameOf_range' hp (a := 1) (b := pos) (by omega)
    have h2 := map_nameOf_range' hp (a := pos + 1) (b := base.arity) hle
    have h3 : (binding base g pos arena k).arena[arena.length]? = some (.carrier g.new) := by
      simp [binding]
    simp [h1, h2, nameOf_eq h3, Adaptation.binding]
  · have hcarrier : (binding base g pos arena k).place (binding base g pos arena k).front
        arena.length = 0 := hlayout.place_eq (by rw [hlayout.order_eq]; rfl)
    simp [nameOf_eq hread, Adaptation.binding, hcarrier]

theorem deriveBind_zero_eq (hbase : base.WellFormed) (hpos : 0 < base.arity)
    (href : base.paramType 0 = .ok .ref) (htop : g.old.isTop = true) (hg : g.Appends .ref)
    (id : Nat) :
    deriveBind base g 0 id = Form.verified ((Adaptation.bindingHandle base g).form base id) := by
  have hle := hbase.arity_le
  obtain ⟨n, hn, hparam⟩ := hbase.exists_param hpos
  have htype : n.type = .ref := by simpa [Form.paramType_eq hpos hn] using href
  have hlayout := layout_bindingHandle (g := g) hbase hpos
  have hcarrier : (bindingHandle base g).arena[base.size]? = some (.carrier g.new) := by
    simp [bindingHandle, Form.size]
  have hread : (bindingHandle base g).arena[base.size + 1]? = some (g.readOf base.size) := by
    simp [bindingHandle, Form.size]
  have hold : (bindingHandle base g).arena[0]? = some n :=
    Draft.getElem?_of_isPrefix (List.prefix_append _ _) hn
  obtain ⟨d, hd, hshows⟩ := Draft.start_ofForm hbase
  obtain ⟨hid1, halloc1⟩ := hshows.alloc (.carrier g.new)
  have hid1 : (d.alloc (.carrier g.new)).1 = base.size := hid1
  obtain ⟨hid2, halloc2⟩ := halloc1.alloc (g.readOf base.size)
  have hid2 : ((d.alloc (.carrier g.new)).2.alloc (g.readOf base.size)).1 = base.size + 1 := by
    simpa [opening, Form.size] using hid2
  have hfront : (opening base).front =
      [] ++ Slot.same 0 :: (List.range' 1 (base.arity - 1)).map Slot.same := by
    simp [opening, List.range_eq_range', range'_zero hpos]
  rw [List.append_assoc, hfront] at halloc2
  obtain ⟨d1, hd1, hshows1⟩ := halloc2.replaceByExpression rfl hold hparam hread
    (by rw [htype, g.type_readOf hg]) rfl (by
    intro s hs
    simp [opening, Slot.same] at hs
    grind)
  obtain ⟨d2, hd2, hshows2⟩ := hshows1.insertParameter hcarrier rfl
  have hfinish := hlayout.adapt (A := .bindingHandle base g) hshows2 ?_ ?_ rfl
    (by simp [Adaptation.bindingHandle]) (fun o ho => place_bindingHandle hbase hpos ho)
    (.inl ⟨rfl, keepsResult_bindingHandle hbase hpos⟩) id
  · rw [List.length_nil] at hd1 hd2
    simpa [deriveBind, hd, g.getter_eq hg, htop, hid1, g.apply_getter, hid2, hd1, hd2] using hfinish
  · have h1 := map_nameOf_range' hlayout.arena_isPrefix (a := 1) (b := base.arity) hle
    simp [h1, nameOf_eq hcarrier, Adaptation.bindingHandle]
  · have hzero : (bindingHandle base g).place (bindingHandle base g).front base.size = 0 :=
      hlayout.place_eq (by rw [hlayout.order_eq]; rfl)
    simp [nameOf_eq hread, Adaptation.bindingHandle, hzero]

/-- A carrier cannot be bound. -/
theorem deriveBind_refused (hbase : base.WellFormed) (htop : g.old.isTop = false)
    (hg : g.Appends field) (id : Nat) : deriveBind base g 0 id = .error .bindCarrier := by
  obtain ⟨d, hd, -⟩ := Draft.start_ofForm hbase
  simp [deriveBind, hd, g.getter_eq hg, htop, throw, throwThe, MonadExceptOf.throw]

end Edit

end HandleForms
