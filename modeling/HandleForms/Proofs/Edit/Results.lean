import HandleForms.Proofs.Edit.Carrier

/-!
# Edits of the result

The forms that `Edit.filterReturn` and `Edit.zeroReturn` derive. The new names come behind all
others, so every name of the base stays where it is.
-/

namespace HandleForms

open Transaction

namespace Adaptation

/-- The result is passed to a handle of type `filter` in the appended field. -/
def filteringReturn (base : Form) (g : CarrierGrowth) (filter : Signature) : Adaptation where
  params := .carrier g.new :: (base.names.take base.arity).drop 1
  early := []
  late := [g.readOf 0, .call filter (base.size :: base.result.toList)]
  place i := i
  growth := some g
  result := some (some (base.size + 1))

/-- The result is the zero of a type, or nothing. -/
def zeroingReturn (base : Form) (type : BasicType) : Adaptation where
  params := base.names.take base.arity
  early := []
  late := if type = .void then [] else [.apply (.intrinsic (.zero type)) []]
  place i := i
  growth := none
  result := some (if type = .void then none else some base.size)

end Adaptation

namespace Transaction

variable {base : Form} {g : CarrierGrowth} {filter : Signature} {type : BasicType}
  {arena : List (Name Form)} {k : Nat → Nat}

/-! ## Filtering the result -/

/-- The result was filtered. -/
def filteringReturn (base : Form) (g : CarrierGrowth) (filter : Signature)
    (arena : List (Name Form)) (k : Nat → Nat) : Transaction where
  arena := arena ++ [.carrier g.new, g.readOf arena.length,
    .call filter ((arena.length + 1) :: base.result.toList)]
  front := ⟨arena.length, some 0⟩ :: (List.range' 1 (base.arity - 1)).map Slot.same
  back := (List.range' base.arity (base.size - base.arity)).map (fun i => ⟨k i, some i⟩) ++
    [Slot.added (arena.length + 1), Slot.added (arena.length + 2)]
  result := some (arena.length + 2)
  dups := []

variable (g filter) in
theorem layout_filteringReturn (hbase : base.WellFormed) (hpos : 0 < base.arity)
    (hk : Draft.Replacement base.names arena (Function.getters g.old) (Function.getters g.new)
      [.name 0] base.arity (base.size - base.arity) k) :
    Layout base (filteringReturn base g filter arena k) (Function.getters g.old)
      (Function.getters g.new) [.name 0] k arena (filteringReturn base g filter arena k).front
      (arena.length :: List.range' 1 (base.arity - 1)) [] []
      [arena.length + 1, arena.length + 2] := by
  have hle := hbase.arity_le
  have harena : base.size ≤ arena.length := hk.arena_isPrefix.length_le
  have hcarrier : (filteringReturn base g filter arena k).arena[arena.length]? =
      some (.carrier g.new) := by
    simp [filteringReturn]
  have hread : (filteringReturn base g filter arena k).arena[arena.length + 1]? =
      some (g.readOf arena.length) := by
    simp [filteringReturn]
  have hcall : (filteringReturn base g filter arena k).arena[arena.length + 2]? = 
      some (.call filter ((arena.length + 1) :: base.result.toList)) := by
    simp [filteringReturn]
  refine Layout.of_params hbase hk (List.prefix_append _ _) ?_ ?_ ?_ ?_ ?_ (by simp) ?_ (.nil _) ?_
    ?_ (by simp [slots, filteringReturn]) ?_
  case refine_1 => simp [filteringReturn]
  case refine_2 =>
    rw [List.range_eq_range', range'_zero hpos]
    simp [filteringReturn, List.filterMap_map, Function.comp_def]
  case refine_3 =>
    intro s hs
    simp [filteringReturn, Slot.same] at hs ⊢
    grind
  case refine_4 =>
    intro a ha
    rcases List.mem_cons.1 ha with rfl | ha
    · exact .inr ⟨Nat.le_refl _, by rw [holdsParam_eq hcarrier]; rfl⟩
    · exact .inl (List.mem_cons_of_mem _ (List.mem_map_of_mem ha))
  case refine_5 => simp [hread, hcall]
  case refine_6 =>
    intro i a ha b hb
    rcases i with _ | _ | i
    · obtain rfl : arena.length + 1 = a := by simpa using ha
      obtain rfl : b = arena.length := by simpa [nameOf_eq hread] using hb
      simp
    · obtain rfl : arena.length + 2 = a := by simpa using ha
      rw [nameOf_eq hcall, Name.operands_call, List.mem_cons, Option.mem_toList] at hb
      obtain rfl | hb := hb
      · simp
      · exact .inl (hbase.result_lt b hb)
    · simp at ha
  case refine_7 => simp [filteringReturn, Function.comp_def]
  case refine_8 =>
    simp [List.nodup_range', List.nodup_append]
    grind
  case refine_9 =>
    rintro r ⟨⟩
    exact ⟨Slot.added (arena.length + 2), by simp [slots, filteringReturn], rfl⟩

theorem place_filteringReturn (hbase : base.WellFormed) (hpos : 0 < base.arity)
    (hk : Draft.Replacement base.names arena (Function.getters g.old) (Function.getters g.new)
      [.name 0] base.arity (base.size - base.arity) k) {o : Nat} (ho : o < base.size) :
    (filteringReturn base g filter arena k).place (filteringReturn base g filter arena k).front o =
      o := by
  have hlayout := layout_filteringReturn g filter hbase hpos hk
  by_cases hlt : o < base.arity
  · have hslot : ⟨if o = 0 then arena.length else o, some o⟩ ∈
        (filteringReturn base g filter arena k).slots := by
      clear hlayout
      simp [slots, filteringReturn, Slot.same]
      grind
    refine hlayout.place_was hslot rfl ?_
    rw [hlayout.order_eq]
    clear hlayout hslot hk
    simp [List.getElem?_append, List.getElem?_cons]
    grind
  · rw [hlayout.place_expr (Nat.not_lt.1 hlt) ho]
    simp
    omega

variable (g filter) in
/-- The new names are found at both ends. -/
theorem place_filteringReturn_new (hbase : base.WellFormed) (hpos : 0 < base.arity)
    (hk : Draft.Replacement base.names arena (Function.getters g.old) (Function.getters g.new)
      [.name 0] base.arity (base.size - base.arity) k) :
    (filteringReturn base g filter arena k).place (filteringReturn base g filter arena k).front
        arena.length = 0 ∧
      (filteringReturn base g filter arena k).place (filteringReturn base g filter arena k).front
        (arena.length + 1) = base.size ∧
      (filteringReturn base g filter arena k).place (filteringReturn base g filter arena k).front
        (arena.length + 2) = base.size + 1 := by
  have hlayout := layout_filteringReturn g filter hbase hpos hk
  have hle := hbase.arity_le
  refine ⟨hlayout.place_eq ?_, hlayout.place_eq ?_, hlayout.place_eq ?_⟩ <;> rw [hlayout.order_eq]
  · rfl
  · rw [← Nat.add_zero base.size, Layout.getElem?_length_add (n := base.size) (by simp; omega)]
    rfl
  · rw [Layout.getElem?_length_add (n := base.size) (by simp; omega) 1]
    rfl

/-! ## A zero result -/

/-- The result was replaced by a zero. -/
def zeroingReturn (base : Form) (type : BasicType) : Transaction where
  arena := base.names ++ [.apply (.intrinsic (.zero type)) []]
  front := (List.range' 0 base.arity).map Slot.same
  back := (List.range' base.arity (base.size - base.arity)).map Slot.same ++ [Slot.added base.size]
  result := some base.size
  dups := []

/-- The result was dropped. -/
def droppingReturn (base : Form) : Transaction := { opening base with result := none }

variable (type) in
theorem layout_zeroingReturn (hbase : base.WellFormed) :
    Layout base (zeroingReturn base type) [] [] [] id base.names (zeroingReturn base type).front
      (List.range' 0 base.arity) [] [] [base.size] := by
  have hle := hbase.arity_le
  have hzero : (zeroingReturn base type).arena[base.size]? =
      some (.apply (.intrinsic (.zero type)) []) := by
    simp [zeroingReturn, Form.size]
  refine Layout.of_params hbase (.refl base []) (List.prefix_append _ _) ?_ ?_ ?_ ?_ ?_ (by simp) ?_
    (.nil _) ?_ ?_ (by simp [slots, zeroingReturn]) ?_
  case refine_1 => simp [zeroingReturn, Slot.same]
  case refine_2 =>
    simp [zeroingReturn, List.range_eq_range', List.filterMap_map, Function.comp_def]
  case refine_3 =>
    intro s hs
    obtain ⟨a, ha, rfl⟩ := List.mem_map.1 hs
    exact List.mem_append_left _ ha
  case refine_4 => exact fun a ha => .inl (List.mem_map_of_mem ha)
  case refine_5 =>
    intro a ha
    obtain rfl : a = base.size := by simpa using ha
    exact ⟨Nat.le_refl _, _, hzero, rfl⟩
  case refine_6 =>
    intro i a ha b hb
    obtain rfl : a = base.size := by simpa using List.mem_of_getElem? ha
    simp [nameOf_eq hzero] at hb
  case refine_7 => simp [zeroingReturn, Function.comp_def]
  case refine_8 =>
    simp [List.nodup_range', List.nodup_append]
    omega
  case refine_9 =>
    rintro r ⟨⟩
    exact ⟨Slot.added base.size, by simp [slots, zeroingReturn], rfl⟩

theorem layout_droppingReturn (hbase : base.WellFormed) :
    Layout base (droppingReturn base) [] [] [] id base.names (droppingReturn base).front
      (List.range' 0 base.arity) [] [] [] := by
  refine Layout.of_params hbase (.refl base []) (List.prefix_refl _) ?_ ?_ ?_ ?_ (by simp) (by simp)
    (by simp) (.nil _) ?_ ?_ (by simp [slots, droppingReturn, opening]) (by simp [droppingReturn])
  case refine_1 => simp [droppingReturn, opening, Slot.same]
  case refine_2 => simp [droppingReturn, opening, List.filterMap_map, Function.comp_def]
  case refine_3 =>
    intro s hs
    obtain ⟨a, ha, rfl⟩ := List.mem_map.1 hs
    simpa using ha
  case refine_4 =>
    intro a ha
    rw [← List.range_eq_range'] at ha
    exact .inl (List.mem_map_of_mem ha)
  case refine_5 => simp [droppingReturn, opening, List.range_eq_range', Function.comp_def]
  case refine_6 => simp [List.nodup_range']

end Transaction

namespace Edit

variable {base : Form} {g : CarrierGrowth} {type : BasicType}

theorem deriveFilterReturn_eq {filter : Signature} (hbase : base.WellFormed) (hpos : 0 < base.arity)
    (href : base.paramType 0 = .ok .ref) {field : BasicType} (hg : g.Appends field)
    (hfilter : Signature.ofBasic type (base.result.toList.map fun _ => base.ret) = .ok filter)
    (id : Nat) :
    deriveFilterReturn base g type id =
      Stop.ofViolation (Form.verified ((Adaptation.filteringReturn base g filter).form base id)) := by
  have hle := hbase.arity_le
  obtain ⟨d, hd, hshows⟩ := Draft.start_ofForm hbase
  obtain ⟨d1, arena, k, hd1, hshows1, hk⟩ := hshows.switchCarrier hbase hpos href hg
  have hlayout := layout_filteringReturn g filter hbase hpos hk
  -- The read and the call are put behind the expressions.
  obtain ⟨hid1, halloc1⟩ := hshows1.alloc (g.readOf arena.length)
  have hid1 : (d1.alloc (g.readOf arena.length)).1 = arena.length + 1 := by simpa using hid1
  rw [← List.append_nil ((List.range' base.arity _).map _), List.append_assoc arena] at halloc1
  have hread : (arena ++ ([.carrier g.new] ++ [g.readOf arena.length]))[arena.length + 1]? =
      some (g.readOf arena.length) := by simp
  obtain ⟨d2, hd2, hshows2⟩ := halloc1.insertExpression hread rfl
  obtain ⟨hid2, halloc2⟩ := hshows2.alloc (.call filter ((arena.length + 1) :: base.result.toList))
  have hid2 : (d2.alloc (.call filter ((arena.length + 1) :: base.result.toList))).1 =
      arena.length + 2 := by simpa using hid2
  have hcall : (filteringReturn base g filter arena k).arena[arena.length + 2]? =
      some (.call filter ((arena.length + 1) :: base.result.toList)) := by simp [filteringReturn]
  rw [← List.append_nil (_ ++ [Slot.added (arena.length + 1)]), List.append_assoc arena] at halloc2
  obtain ⟨d3, hd3, hshows3⟩ := halloc2.insertExpression hcall rfl
  have hshows3 : d3.Shows { filteringReturn base g filter arena k with
      result := Draft.follow (base.result.map k) 0 arena.length } := by
    simpa [filteringReturn] using hshows3
  have hplaced : ∀ i, some (arena.length + 2) = some i →
      ∃ s ∈ (filteringReturn base g filter arena k).slots, s.now = i := by
    rintro i ⟨⟩
    exact ⟨Slot.added (arena.length + 2), by simp [slots, filteringReturn], rfl⟩
  obtain ⟨d4, hd4, hshows4⟩ := hshows3.setResult hplaced
  have hplace : ∀ o < base.size, (filteringReturn base g filter arena k).place
      (filteringReturn base g filter arena k).front o = o := fun o ho =>
    place_filteringReturn hbase hpos hk ho
  have hfinish := hlayout.adapt (A := .filteringReturn base g filter) hshows4 ?_ rfl ?_
    (fun n => rfl) (fun o ho => hplace o (Nat.lt_of_lt_of_le ho hle)) (.inr ?_) id
  · have hlen : base.arity - 1 + 1 + (base.size - base.arity) = base.size := by omega
    have hcall' : Name.apply (Function.invokeBasic filter)
        (Arg.name (arena.length + 1) :: base.result.toList.map Arg.name) =
          Name.call filter ((arena.length + 1) :: base.result.toList) := rfl
    simp only [List.length_map, List.length_range', List.length_cons, hlen, List.length_append,
      List.length_nil, Nat.zero_add, ← Nat.add_assoc] at hd2 hd3
    simp [deriveFilterReturn, hd, hd1, g.getter_eq hg, g.apply_getter, hid1, hd2, hfilter,
      hcall', hid2, hd3, hd4, hfinish, -List.map_const']
  · have hcarrier : (filteringReturn base g filter arena k).arena[arena.length]? =
        some (.carrier g.new) := by
      simp [filteringReturn]
    have h1 := map_nameOf_range' (hk.arena_isPrefix.trans hlayout.arena_isPrefix) (a := 1)
      (b := base.arity) hle
    simp [h1, nameOf_eq hcarrier, Adaptation.filteringReturn]
  · have hread : (filteringReturn base g filter arena k).arena[arena.length + 1]? =
        some (g.readOf arena.length) := by simp [filteringReturn]
    have hresult : base.result.toList.map ((filteringReturn base g filter arena k).place
        (filteringReturn base g filter arena k).front) = base.result.toList := by
      cases hr : base.result with
      | none => rfl
      | some r => simp [hplace r (hbase.result_lt r hr)]
    simp [nameOf_eq hread, nameOf_eq hcall, place_filteringReturn_new g filter hbase hpos hk, hresult,
      Adaptation.filteringReturn]
  · have hlast := (place_filteringReturn_new g filter hbase hpos hk).2.2
    simp only [Adaptation.filteringReturn]
    exact congrArg some (congrArg some hlast.symm)

/-- A filter that cannot take the result is refused. -/
theorem deriveFilterReturn_refused (hbase : base.WellFormed) (hpos : 0 < base.arity)
    (href : base.paramType 0 = .ok .ref) {field : BasicType} (hg : g.Appends field)
    {err : SignatureError}
    (hfilter : Signature.ofBasic type (base.result.toList.map fun _ => base.ret) = .error err)
    (id : Nat) : deriveFilterReturn base g type id = .error (.error (.signature err)) := by
  have hle := hbase.arity_le
  obtain ⟨d, hd, hshows⟩ := Draft.start_ofForm hbase
  obtain ⟨d1, arena, k, hd1, hshows1, hk⟩ := hshows.switchCarrier hbase hpos href hg
  obtain ⟨hid1, halloc1⟩ := hshows1.alloc (g.readOf arena.length)
  have hid1 : (d1.alloc (g.readOf arena.length)).1 = arena.length + 1 := by simpa using hid1
  rw [← List.append_nil ((List.range' base.arity _).map _), List.append_assoc arena] at halloc1
  have hread : (arena ++ ([.carrier g.new] ++ [g.readOf arena.length]))[arena.length + 1]? =
      some (g.readOf arena.length) := by simp
  obtain ⟨d2, hd2, hshows2⟩ := halloc1.insertExpression hread rfl
  have hlen : base.arity - 1 + 1 + (base.size - base.arity) = base.size := by omega
  simp only [List.length_map, List.length_range', List.length_cons, hlen] at hd2
  simp [deriveFilterReturn, hd, hd1, g.getter_eq hg, g.apply_getter, hid1, hd2, hfilter,
    -List.map_const']

theorem deriveZeroReturn_eq (hbase : base.WellFormed) (id : Nat) :
    deriveZeroReturn base type id =
      Form.verified ((Adaptation.zeroingReturn base type).form base id) := by
  have hle := hbase.arity_le
  obtain ⟨d, hd, hshows⟩ := Draft.start_ofForm hbase
  by_cases hvoid : type = .void
  · have hlayout := layout_droppingReturn hbase
    have hnone : ∀ i, none = some i → ∃ s ∈ (opening base).slots, s.now = i := by simp
    obtain ⟨d1, hd1, hshows1⟩ := hshows.setResult hnone
    have hfinish := hlayout.adapt (A := .zeroingReturn base type) hshows1 ?_ rfl
      (by simp [Adaptation.zeroingReturn, hvoid]) (by simp [Adaptation.zeroingReturn]) ?_
      (.inr (by simp [Adaptation.zeroingReturn, hvoid, droppingReturn])) id
    · simpa [deriveZeroReturn, hd, hvoid, hd1] using hfinish
    · have h1 := map_nameOf_range' hlayout.arena_isPrefix (a := 0) (b := base.arity) hle
      rw [Nat.sub_zero, List.drop_zero] at h1
      exact h1
    · intro o ho
      refine hlayout.place_was (s := Slot.same o) ?_ rfl ?_
      · simp [slots, droppingReturn, opening, Slot.same, ho]
      · rw [hlayout.order_eq]
        simp [List.getElem?_append, ho, Adaptation.zeroingReturn]
  · have hlayout := layout_zeroingReturn type hbase
    have hzero : (zeroingReturn base type).arena[base.size]? =
        some (.apply (.intrinsic (.zero type)) []) := by
      simp [zeroingReturn, Form.size]
    obtain ⟨hid, halloc⟩ := hshows.alloc (.apply (.intrinsic (.zero type)) [])
    have hid : (d.alloc (.apply (.intrinsic (.zero type)) [])).1 = base.size := hid
    have hback : (opening base).back =
        (List.range' base.arity (base.size - base.arity)).map Slot.same ++ [] := by
      simp [opening]
    rw [hback] at halloc
    obtain ⟨d1, hd1, hshows1⟩ := halloc.insertExpression hzero rfl
    have hshows1 : d1.Shows { zeroingReturn base type with result := base.result } := by
      simpa [zeroingReturn, opening, List.range_eq_range'] using hshows1
    have hplaced : ∀ i, some base.size = some i →
        ∃ s ∈ (zeroingReturn base type).slots, s.now = i := by
      rintro i ⟨⟩
      exact ⟨Slot.added base.size, by simp [slots, zeroingReturn], rfl⟩
    obtain ⟨d2, hd2, hshows2⟩ := hshows1.setResult hplaced
    have hplace : (zeroingReturn base type).place (zeroingReturn base type).front base.size =
        base.size := by
      refine hlayout.place_eq ?_
      rw [hlayout.order_eq, ← Nat.add_zero base.size,
        Layout.getElem?_length_add (n := base.size) (by simp; omega)]
      rfl
    have hfinish := hlayout.adapt (A := .zeroingReturn base type) hshows2 ?_ rfl ?_
      (by simp [Adaptation.zeroingReturn]) ?_ (.inr ?_) id
    · have hlen : base.arity + (base.size - base.arity) = base.size := by omega
      simp only [opening, List.length_map, List.length_range, List.length_range', hlen] at hd1
      simp [deriveZeroReturn, hd, hvoid, hid, hd1, hd2, hfinish]
    · have h1 := map_nameOf_range' hlayout.arena_isPrefix (a := 0) (b := base.arity) hle
      rw [Nat.sub_zero, List.drop_zero] at h1
      exact h1
    · simp [nameOf_eq hzero, Adaptation.zeroingReturn, hvoid, Name.mapArgs, Name.apply]
    · intro o ho
      refine hlayout.place_was (s := Slot.same o) ?_ rfl ?_
      · simp [slots, zeroingReturn, Slot.same, ho]
      · rw [hlayout.order_eq]
        simp [List.getElem?_append, ho, Adaptation.zeroingReturn]
    · simp only [Adaptation.zeroingReturn, if_neg hvoid]
      exact congrArg some (congrArg some hplace.symm)

end Edit

end HandleForms
