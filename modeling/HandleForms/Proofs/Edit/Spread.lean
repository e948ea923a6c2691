import HandleForms.Proofs.Edit.Carrier

/-!
# Spreading parameters over an array

The form that `Edit.spread` derives. The length of the array is checked first, then its elements are
loaded, all in front of the expressions of the base. The loads are placed one at a time, each
followed by a copy in the place of the parameter that it supplies.
-/

namespace HandleForms

open Transaction

/-- The check of the length of an array. -/
def Name.checkLength (array count : Nat) : Name Form :=
  .apply (.intrinsic .checkSpreadLength) [.name array, .int count]

/-- The load of an element of an array. -/
def Name.load (element : Ty) (array index : Nat) : Name Form :=
  .apply (.intrinsic (.arrayLoad element)) [.name array, .int index]

namespace Name

variable {element : Ty} {array index count : Nat}

@[simp] theorem operands_checkLength : (checkLength array count).operands = [array] := rfl

@[simp] theorem operands_load : (load element array index).operands = [array] := rfl

@[simp] theorem isParam_checkLength : (checkLength array count).isParam = false := rfl

@[simp] theorem isParam_load : (load element array index).isParam = false := rfl

@[simp] theorem type_load : (load element array index).type = element.basicType := rfl

@[simp] theorem mapArgs_checkLength (f : Nat → Nat) :
    (checkLength array count).mapArgs f = checkLength (f array) count := rfl

@[simp] theorem mapArgs_load (f : Nat → Nat) :
    (load element array index).mapArgs f = load element (f array) index := rfl

end Name

namespace Adaptation

/-- The `count` parameters from `pos` on become the elements of an array. -/
def spreading (base : Form) (pos : Nat) (element : Ty) (count : Nat) : Adaptation where
  params := base.names.take pos ++ .param .ref :: (base.names.take base.arity).drop (pos + count)
  early := .checkLength pos count :: (List.range count).map fun k => .load element pos k
  late := []
  place i :=
    if i < pos then i
    else if i < pos + count then base.arity - count + 2 + (i - pos)
    else i + 1 - count
  growth := none
  result := none

end Adaptation

namespace Transaction

/-- Copies of names with consecutive numbers in consecutive places. -/
def copies (id pos count : Nat) : List Slot :=
  (List.range count).map fun k => ⟨id + k, some (pos + k)⟩

theorem copies_succ (id pos count : Nat) :
    copies id pos (count + 1) = copies id pos count ++ [⟨id + count, some (pos + count)⟩] := by
  simp [copies, List.range_succ]

theorem copies_cons (id pos count : Nat) :
    copies id pos (count + 1) = ⟨id, some pos⟩ :: copies (id + 1) (pos + 1) count := by
  simp [copies, List.range_succ_eq_map, Function.comp_def, Nat.add_assoc, Nat.add_comm 1]

@[simp] theorem length_copies (id pos count : Nat) : (copies id pos count).length = count := by
  simp [copies]

theorem mem_copies {id pos count : Nat} {s : Slot} :
    s ∈ copies id pos count ↔ ∃ k < count, s = ⟨id + k, some (pos + k)⟩ := by
  simp [copies, eq_comm]

theorem was_copies (id pos count : Nat) :
    (copies id pos count).filterMap Slot.was = List.range' pos count := by
  induction count with
  | zero => rfl
  | succ count ih => simp [copies_succ, ih, List.range'_concat]

/-- Copies of names that stand nowhere in front of them are removed one after the other. -/
theorem clears_copies {id : Nat} (pos : Nat) {count : Nat} {us : List Slot} (vs : List Slot)
    (hus : ∀ u ∈ us, ∀ k < count, u.now ≠ id + k) (hpos : pos + count ≤ id) :
    Clears (List.range' id count) (us ++ (copies id pos count ++ vs)) (us ++ vs) := by
  induction count generalizing id pos with
  | zero => exact .nil _
  | succ count ih =>
    rw [copies_cons, List.range'_succ]
    refine .cons (fun u hu h => hus u hu 0 (Nat.succ_pos _) h.1) ⟨rfl, by simp; omega⟩
      (ih (pos + 1) ?_ ?_)
    · intro u hu k hk
      have := hus u hu (k + 1) (by omega)
      omega
    · omega

/-- The first `count` parameters from `pos` on were replaced by loads. The array, which has no place
yet, and the check of its length have the first new numbers. -/
def loading (base : Form) (pos : Nat) (element : Ty) (total count : Nat) : Transaction where
  arena := base.names ++ (.param .ref :: .checkLength base.size total ::
    (List.range count).map fun k => .load element base.size k)
  front := (List.range' 0 pos).map Slot.same ++ (copies (base.size + 2) pos count ++
    (List.range' (pos + count) (base.arity - (pos + count))).map Slot.same)
  back := Slot.added (base.size + 1) :: ((List.range' (base.size + 2) count).map Slot.added ++
    (List.range' base.arity (base.size - base.arity)).map Slot.same)
  result := base.result.map fun r =>
    if pos ≤ r ∧ r < pos + count then base.size + 2 + (r - pos) else r
  dups := List.range' (base.size + 2) count

/-- The parameters were replaced by loads, and the array was put into their place. -/
def spreading (base : Form) (pos : Nat) (element : Ty) (count : Nat) : Transaction :=
  { loading base pos element count count with
    front := (List.range' 0 pos).map Slot.same ++ Slot.added base.size ::
      (copies (base.size + 2) pos count ++
        (List.range' (pos + count) (base.arity - (pos + count))).map Slot.same) }

variable {base : Form} {pos count total : Nat} {element : Ty}

variable (base pos count total element) in
theorem arena_loading : (loading base pos element total count).arena[base.size]? =
      some (.param .ref) ∧
    (loading base pos element total count).arena[base.size + 1]? =
      some (.checkLength base.size total) ∧
    ∀ k < count, (loading base pos element total count).arena[base.size + 2 + k]? =
      some (.load element base.size k) := by
  refine ⟨by simp [loading, Form.size], by simp [loading, Form.size], fun k hk => ?_⟩
  simp only [loading, Form.size]
  rw [Nat.add_assoc, Layout.getElem?_length_add rfl, Nat.add_comm 2 k]
  simp [hk]

variable (base pos count element) in
theorem arena_spreading : (spreading base pos element count).arena[base.size]? =
      some (.param .ref) ∧
    (spreading base pos element count).arena[base.size + 1]? =
      some (.checkLength base.size count) ∧
    ∀ k < count, (spreading base pos element count).arena[base.size + 2 + k]? =
      some (.load element base.size k) :=
  arena_loading base pos count count element

theorem keepsResult_spreading (hbase : base.WellFormed) (hle : pos + count ≤ base.arity) :
    (spreading base pos element count).KeepsResult base := by
  refine keepsResult_of (k := id)
    (c := fun o => if pos ≤ o ∧ o < pos + count then base.size + 2 + (o - pos) else o) hbase ?_ ?_ ?_
  · intro o ho
    simp only [spreading, List.mem_append, List.mem_map, List.mem_cons, List.mem_range'_1, mem_copies]
    by_cases hin : pos ≤ o ∧ o < pos + count
    · refine .inr (.inr (.inl ⟨o - pos, by omega, ?_⟩))
      simp [hin]
    · simp [hin, Slot.same]
      omega
  · intro i h1 h2
    simp [spreading, loading, Slot.same]
    omega
  · refine Option.map_congr fun r hr => ?_
    have := hbase.result_lt r hr
    grind

variable (element) in
theorem layout_spreading (hbase : base.WellFormed) (hle : pos + count ≤ base.arity) :
    Layout base (spreading base pos element count) [] [] [] id base.names
      ((List.range' 0 pos).map Slot.same ++ Slot.added base.size ::
        (List.range' (pos + count) (base.arity - (pos + count))).map Slot.same)
      (List.range' 0 pos ++ base.size ::
        List.range' (pos + count) (base.arity - (pos + count)))
      ((base.size + 1) :: List.range' (base.size + 2) count)
      ((base.size + 1) :: List.range' (base.size + 2) count) [] := by
  have hsize := hbase.arity_le
  obtain ⟨harray, hcheck, hload⟩ := arena_spreading base pos count element
  refine Layout.of_params hbase (.refl base []) (List.prefix_append _ _) ?_ ?_ ?_ ?_ ?_ ?_ (by simp)
    ?_ ?_ ?_ ?_ fun r hr => (keepsResult_spreading hbase hle).placed hr
  case refine_1 => simp [spreading, loading, Slot.same]
  case refine_2 =>
    rw [range_split (show pos ≤ base.arity by omega)]
    have : List.range' pos (base.arity - pos) =
        List.range' pos count ++ List.range' (pos + count) (base.arity - (pos + count)) := by
      rw [List.range'_append_1]
      congr 1
      omega
    simp only [spreading, this, List.filterMap_append, List.filterMap_map, Function.comp_def,
      Slot.was_same, List.filterMap_some, List.filterMap_cons, Slot.was_added, was_copies]
  case refine_3 =>
    intro s hs
    simp only [spreading, List.mem_append, List.mem_map, List.mem_cons, mem_copies] at hs ⊢
    obtain ⟨a, ha, rfl⟩ | rfl | ⟨k, hk, rfl⟩ | ⟨a, ha, rfl⟩ := hs
    · exact .inl (.inl ha)
    · exact .inl (.inr (.inl rfl))
    · exact .inr (.inr (by simp [hk]))
    · exact .inl (.inr (.inr ha))
  case refine_4 =>
    intro a ha
    simp only [List.mem_cons, List.mem_append] at ha
    obtain ha | rfl | ha := ha
    · exact .inl (by simp [spreading, List.mem_map_of_mem, ha])
    · exact .inr ⟨Nat.le_refl _, by rw [holdsParam_eq harray]; rfl⟩
    · exact .inl (by simp [spreading, List.mem_map_of_mem, ha])
  case refine_5 =>
    intro a ha
    simp only [List.append_nil, List.mem_cons] at ha
    obtain rfl | ha := ha
    · exact ⟨Nat.le_succ _, _, hcheck, rfl⟩
    · obtain ⟨i, hi, rfl⟩ := List.mem_range'.1 ha
      rw [Nat.one_mul]
      refine ⟨?_, _, hload i hi, rfl⟩
      unfold Form.size
      omega
  case refine_6 =>
    intro i a ha b hb
    have hoperands : ((spreading base pos element count).nameOf a).operands = [base.size] := by
      rcases List.mem_cons.1 (List.mem_of_getElem? ha) with rfl | ha
      · rw [nameOf_eq hcheck, Name.operands_checkLength]
      · obtain ⟨k, hk, rfl⟩ := List.mem_range'.1 ha
        rw [Nat.one_mul, nameOf_eq (hload k hk), Name.operands_load]
    obtain rfl : b = base.size := by simpa [hoperands] using hb
    simp
  case refine_7 =>
    have hus : ∀ u ∈ (List.range' 0 pos).map Slot.same ++ [Slot.added base.size], ∀ k < count,
        u.now ≠ base.size + 2 + k := by
      intro u hu k hk
      simp only [List.mem_append, List.mem_map, List.mem_range'_1, List.mem_singleton] at hu
      obtain ⟨a, ha, rfl⟩ | rfl := hu
      · simp
        omega
      · simp
        omega
    have := clears_copies pos ((List.range' (pos + count)
      (base.arity - (pos + count))).map Slot.same) hus (by omega)
    simpa [spreading, loading] using this
  case refine_8 => simp [Function.comp_def]
  case refine_9 =>
    simp [List.nodup_range', List.nodup_append]
    grind
  case refine_10 =>
    simp [slots, spreading, loading]
    omega

theorem place_spreading (hbase : base.WellFormed) (hle : pos + count ≤ base.arity) {o : Nat}
    (ho : o < base.arity) :
    (spreading base pos element count).place ((List.range' 0 pos).map Slot.same ++
      Slot.added base.size ::
        (List.range' (pos + count) (base.arity - (pos + count))).map Slot.same) o =
      (Adaptation.spreading base pos element count).place o := by
  have hlayout := layout_spreading element hbase hle
  have hslot : ⟨if pos ≤ o ∧ o < pos + count then base.size + 2 + (o - pos) else o, some o⟩ ∈
      (spreading base pos element count).slots := by
    refine List.mem_append_left _ ?_
    simp only [spreading, List.mem_append, List.mem_map, List.mem_cons, List.mem_range'_1,
      mem_copies]
    by_cases hin : pos ≤ o ∧ o < pos + count
    · refine .inr (.inr (.inl ⟨o - pos, by omega, ?_⟩))
      simp [hin]
    · simp [hin, Slot.same]
      omega
  refine hlayout.place_was hslot rfl ?_
  rw [hlayout.order_eq]
  clear hlayout hslot
  simp [List.getElem?_append, List.getElem?_cons, Adaptation.spreading]
  grind

variable (element) in
/-- The array comes in front of the check and the loads. -/
theorem place_spreading_array (hbase : base.WellFormed) (hle : pos + count ≤ base.arity) :
    (spreading base pos element count).place ((List.range' 0 pos).map Slot.same ++
      Slot.added base.size ::
        (List.range' (pos + count) (base.arity - (pos + count))).map Slot.same) base.size = pos := by
  have hlayout := layout_spreading element hbase hle
  refine hlayout.place_eq ?_
  rw [hlayout.order_eq]
  simp

end Transaction

namespace Edit

variable {base : Form} {pos count total : Nat} {element : Ty} {d : Draft}

/-- The result follows the parameter that is replaced. -/
theorem follow_loading (hbase : base.WellFormed) (hlt : pos + count < base.arity) :
    Draft.follow (loading base pos element total count).result (pos + count)
        (base.size + 2 + count) = (loading base pos element total (count + 1)).result := by
  have hle := hbase.arity_le
  cases hr : base.result with
  | none => simp [loading, hr, Draft.follow]
  | some r =>
    simp only [loading, hr, Draft.follow, Option.map_some, Option.some.injEq]
    by_cases hin : pos ≤ r ∧ r < pos + count
    · rw [if_pos hin, if_neg (by omega), if_pos (by omega)]
    · by_cases heq : r = pos + count
      · rw [if_neg hin, if_pos heq, if_pos (by omega), heq, Nat.add_sub_cancel_left]
      · rw [if_neg hin, if_neg heq, if_neg (by omega)]

/-- One element is loaded. -/
theorem loadElement_eq (hbase : base.WellFormed)
    (hshows : d.Shows (loading base pos element total count)) (hlt : pos + count < base.arity)
    (htype : base.paramType (pos + count) = .ok element.basicType) :
    ∃ d', loadElement element base.size pos (base.arity + 1) d count = .ok d' ∧
      d'.Shows (loading base pos element total (count + 1)) := by
  have hle := hbase.arity_le
  obtain ⟨n, hn, hparam⟩ := hbase.exists_param hlt
  have hfield : n.type = element.basicType := by simpa [Form.paramType_eq hlt hn] using htype
  obtain ⟨-, -, hload⟩ := arena_loading base pos (count + 1) total element
  have hload := hload count (Nat.lt_succ_self count)
  have harena : (loading base pos element total count).arena ++ [.load element base.size count] =
      (loading base pos element total (count + 1)).arena := by
    simp [loading, List.range_succ]
  obtain ⟨hid, h1⟩ := hshows.alloc (.load element base.size count)
  have hid : (d.alloc (.load element base.size count)).1 = base.size + 2 + count := by
    rw [hid]
    simp [loading, Form.size]
    omega
  have hrest : List.range' (pos + count) (base.arity - (pos + count)) =
      (pos + count) :: List.range' (pos + count + 1) (base.arity - (pos + count + 1)) := by
    rw [show base.arity - (pos + count) = base.arity - (pos + count + 1) + 1 by omega,
      List.range'_succ]
  have h1 : (d.alloc (.load element base.size count)).2.Shows
      ⟨(loading base pos element total (count + 1)).arena,
        ((List.range' 0 pos).map Slot.same ++ copies (base.size + 2) pos count) ++
          Slot.same (pos + count) ::
            (List.range' (pos + count + 1) (base.arity - (pos + count + 1))).map Slot.same,
        (Slot.added (base.size + 1) :: (List.range' (base.size + 2) count).map Slot.added) ++
          (List.range' base.arity (base.size - base.arity)).map Slot.same,
        (loading base pos element total count).result, List.range' (base.size + 2) count⟩ := by
    rw [harena] at h1
    simpa [loading, hrest] using h1
  obtain ⟨d1, hd1, h2⟩ := h1.insertExpression hload rfl
  have hold : (loading base pos element total (count + 1)).arena[pos + count]? = some n :=
    Draft.getElem?_of_isPrefix (List.prefix_append _ _) hn
  have hsource : (((List.range' 0 pos).map Slot.same ++ copies (base.size + 2) pos count) ++
      Slot.same (pos + count) ::
        (List.range' (pos + count + 1) (base.arity - (pos + count + 1))).map Slot.same ++
      ((Slot.added (base.size + 1) :: (List.range' (base.size + 2) count).map Slot.added) ++
        Slot.added (base.size + 2 + count) ::
          (List.range' base.arity (base.size - base.arity)).map Slot.same))[base.arity + 1 + count]? =
        some (Slot.added (base.size + 2 + count)) := by
    rw [show base.arity + 1 + count = base.arity + (count + 1 + 0) by omega,
      Layout.getElem?_length_add (by simp; omega), Layout.getElem?_length_add (by simp)]
    rfl
  obtain ⟨d2, hd2, h3⟩ := h2.replaceByCopy rfl hold hparam hsource hload
    (by rw [hfield, Name.type_load]) (by simp; omega)
  refine ⟨d2, ?_, ?_⟩
  · have hlen : pos + count + (base.arity - (pos + count + 1) + 1) + (count + 1) =
      base.arity + 1 + count := by omega
    simp only [List.length_append, List.length_cons, List.length_map, List.length_range',
      length_copies, hlen] at hd1 hd2
    have hload' : Name.apply (.intrinsic (.arrayLoad element)) [.name base.size, .int count] =
      Name.load element base.size count := rfl
    simp [loadElement, hload', hid, hd1, hd2]
  · simp only [Slot.now_added, Slot.now_same, follow_loading hbase hlt] at h3
    simpa [loading, copies_succ, List.range'_concat, Nat.add_assoc] using h3

/-- All elements are loaded. -/
theorem loadElements_eq (hbase : base.WellFormed)
    (hshows : d.Shows (loading base pos element total 0)) (hle : pos + count ≤ base.arity)
    (htypes : ∀ k < count, base.paramType (pos + k) = .ok element.basicType) :
    ∃ d', (List.range count).foldlM (loadElement element base.size pos (base.arity + 1)) d = .ok d' ∧
      d'.Shows (loading base pos element total count) := by
  induction count with
  | zero => exact ⟨d, rfl, hshows⟩
  | succ count ih =>
    obtain ⟨d1, hd1, h1⟩ := ih (by omega) fun k hk => htypes k (by omega)
    obtain ⟨d2, hd2, h2⟩ := loadElement_eq hbase h1 (by omega) (htypes count (by omega))
    exact ⟨d2, by simp [List.range_succ, hd1, hd2], h2⟩

theorem deriveSpread_eq (hbase : base.WellFormed) (hle : pos + count ≤ base.arity)
    (htypes : ∀ k < count, base.paramType (pos + k) = .ok element.basicType) (id : Nat) :
    deriveSpread base pos element count id =
      Form.verified ((Adaptation.spreading base pos element count).form base id) := by
  have hsize := hbase.arity_le
  have hlayout := layout_spreading element hbase hle
  obtain ⟨harray, hcheck, hload⟩ := arena_spreading base pos count element
  obtain ⟨d, hd, hshows⟩ := Draft.start_ofForm hbase
  obtain ⟨hid1, h1⟩ := hshows.alloc (.param .ref)
  obtain ⟨hid2, h2⟩ := h1.alloc (.checkLength base.size count)
  have hid1 : (d.alloc (.param .ref)).1 = base.size := hid1
  have hid2 : ((d.alloc (.param .ref)).2.alloc (.checkLength base.size count)).1 =
      base.size + 1 := by
    simpa [opening, Form.size] using hid2
  have h2 : ((d.alloc (.param .ref)).2.alloc (.checkLength base.size count)).2.Shows
      ⟨(loading base pos element count 0).arena, (loading base pos element count 0).front,
        [] ++ (List.range' base.arity (base.size - base.arity)).map Slot.same, base.result, []⟩ := by
    have hfront : (opening base).front = (loading base pos element count 0).front := by
      simp [opening, loading, copies, range_split (show pos ≤ base.arity by omega)]
    rw [hfront, List.append_assoc] at h2
    exact h2
  obtain ⟨d1, hd1, h3⟩ := h2.insertExpression (arena_loading base pos 0 count element).2.1 rfl
  have h3 : d1.Shows (loading base pos element count 0) := by
    have hresult : (loading base pos element count 0).result = base.result := by
      cases hr : base.result with
      | none => simp [loading, hr]
      | some r =>
        simp only [loading, hr, Option.map_some, Nat.add_zero]
        rw [if_neg (by omega)]
    rw [← hresult] at h3
    simpa [loading] using h3
  obtain ⟨d2, hd2, h4⟩ := loadElements_eq hbase h3 hle htypes
  obtain ⟨d3, hd3, h5⟩ := h4.insertParameter harray rfl
  have hplace := place_spreading_array element hbase hle
  have hfinish := hlayout.adapt (A := .spreading base pos element count) h5 ?_ ?_ rfl
    (by simp [Adaptation.spreading]) (fun o ho => place_spreading hbase hle ho)
    (.inl ⟨rfl, keepsResult_spreading hbase hle⟩) id
  · have hlen : pos + (base.arity - pos) = base.arity := by omega
    have hcheck' : Name.apply (.intrinsic .checkSpreadLength) [.name base.size, .int count] =
      Name.checkLength base.size count := rfl
    simp only [loading, copies, List.length_append, List.length_map, List.length_range',
      List.range_zero, List.map_nil, List.length_nil, Nat.add_zero, Nat.zero_add, hlen] at hd1 hd3
    simp [deriveSpread, hd, hid1, hcheck', hid2, hd1, hd2, hd3, hfinish]
  · have h1 := map_nameOf_range' hlayout.arena_isPrefix (a := 0) (b := pos) (by omega)
    have h2 := map_nameOf_range' hlayout.arena_isPrefix (a := pos + count) (b := base.arity) hsize
    rw [Nat.sub_zero, List.drop_zero] at h1
    simp [h1, h2, nameOf_eq harray, Adaptation.spreading]
  · have hloads : (List.range' (base.size + 2) count).map
        (fun a => ((spreading base pos element count).nameOf a).mapArgs
          ((spreading base pos element count).place ((List.range' 0 pos).map Slot.same ++
            Slot.added base.size ::
              (List.range' (pos + count) (base.arity - (pos + count))).map Slot.same))) =
        (List.range count).map fun k => .load element pos k := by
      refine List.ext_getElem? fun i => ?_
      by_cases hi : i < count
      · simp [hi, nameOf_eq (hload i hi), hplace]
      · simp [hi]
    simp [nameOf_eq hcheck, hplace, hloads, Adaptation.spreading]

end Edit

end HandleForms
