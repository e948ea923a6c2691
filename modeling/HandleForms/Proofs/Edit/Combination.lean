import HandleForms.Proofs.Edit.Results

/-!
# Combiners

The form that `Edit.deriveCombination` derives, which `Edit.filter`, `Edit.collect` and `Edit.fold`
share: a handle in the appended field is called in front of the expressions of the base, over new
parameters or over parameters that are there, and unless its result is dropped, that takes the place
of a parameter.
-/

namespace HandleForms

open Transaction

/-! ## Runs of parameters -/

namespace Draft

variable {d : Draft} {t : Transaction} {arena : List (Name Form)} {xs ys zs : List Slot}
  {result : Option Nat} {dups : List Nat}

theorem Shows.allocParams (h : d.Shows t) (types : List BasicType) :
    (d.allocParams types).1 = List.range' t.arena.length types.length ∧
      (d.allocParams types).2.Shows { t with arena := t.arena ++ types.map Name.param } := by
  induction types generalizing d t with
  | nil => exact ⟨rfl, by simpa [Draft.allocParams] using h⟩
  | cons type types ih =>
    obtain ⟨hid, halloc⟩ := h.alloc (.param type)
    obtain ⟨hids, hrest⟩ := ih halloc
    refine ⟨?_, by simpa [Draft.allocParams] using hrest⟩
    simpa [Draft.allocParams, List.range'_succ, hid] using hids

theorem Shows.insertParameters {ids : List Nat} (h : d.Shows ⟨arena, xs ++ ys, zs, result, dups⟩)
    (hids : ∀ id ∈ ids, ∃ n, arena[id]? = some n ∧ n.isParam = true) :
    ∃ d', d.insertParameters xs.length ids = .ok d' ∧
      d'.Shows ⟨arena, xs ++ ids.map Slot.added ++ ys, zs, result, dups⟩ := by
  induction ids generalizing d xs with
  | nil => exact ⟨d, rfl, by simpa using h⟩
  | cons id ids ih =>
    obtain ⟨n, hn, hparam⟩ := hids id (by simp)
    obtain ⟨d1, hd1, h1⟩ := h.insertParameter hn hparam
    rw [show xs ++ Slot.added id :: ys = (xs ++ [Slot.added id]) ++ ys by simp] at h1
    obtain ⟨d2, hd2, h2⟩ := ih h1 fun i hi => hids i (List.mem_cons_of_mem _ hi)
    refine ⟨d2, ?_, by simpa using h2⟩
    rw [List.length_append] at hd2
    simpa [Draft.insertParameters, hd1] using hd2

/-- Names that did not move are found under their positions. -/
theorem Shows.mapM_idAt (h : d.Shows t) {a c : Nat}
    (hsame : ∀ i, a ≤ i → i < a + c → t.slots[i]? = some (Slot.same i)) :
    (List.range' a c).mapM d.idAt = .ok (List.range' a c) := by
  induction c generalizing a with
  | zero => rfl
  | succ c ih =>
    have hhead : d.idAt a = .ok a := h.idAt (hsame a (Nat.le_refl a) (by omega))
    have htail := ih (a := a + 1) fun i h1 h2 => hsame i (by omega) (by omega)
    simp [List.range'_succ, hhead, htail, pure, Except.pure]

end Draft

namespace Adaptation

/-- The types of the parameters that a combination adds. -/
def combinationParams (combiner : Signature) (keep : Bool) : List BasicType :=
  if keep then [] else combiner.basicParams

/-- A handle of type `combiner` in the appended field is called in front of the base. -/
def combining (base : Form) (g : CarrierGrowth) (pos : Nat) (combiner : Signature)
    (keep drop : Bool) : Adaptation where
  params := .carrier g.new :: ((base.names.take pos).drop 1 ++
    ((combinationParams combiner keep).map Name.param ++
      (base.names.take base.arity).drop (pos + Edit.resultArity drop)))
  early := [g.readOf 0, .call combiner
    ((base.arity - Edit.resultArity drop + (combinationParams combiner keep).length) ::
      List.range' pos combiner.arity)]
  late := []
  place i :=
    if i < pos then i
    else if i < pos + Edit.resultArity drop then
      base.arity - Edit.resultArity drop + (combinationParams combiner keep).length + 1
    else i - Edit.resultArity drop + (combinationParams combiner keep).length
  growth := some g
  result := none

end Adaptation

namespace Transaction

open Edit (resultArity)
open Adaptation (combinationParams)

/-- A combiner was put in front of the base. The call has the number `call`, behind those of the
`count` new parameters. -/
def combining (base : Form) (g : CarrierGrowth) (pos : Nat) (combiner : Signature)
    (keep drop : Bool) (arena : List (Name Form)) (k : Nat → Nat) : Transaction :=
  let types := combinationParams combiner keep
  let call := arena.length + 2 + types.length
  let kept := List.range' (pos + resultArity drop) (if keep then combiner.arity else 0)
  { arena := arena ++ (.carrier g.new :: g.readOf arena.length :: (types.map Name.param ++
      [.call combiner ((arena.length + 1) :: (kept ++ List.range' (arena.length + 2) types.length))]))
    front := ⟨arena.length, some 0⟩ :: ((List.range' 1 (pos - 1)).map Slot.same ++
      ((if drop then [] else [⟨call, some pos⟩]) ++
        ((List.range' (arena.length + 2) types.length).map Slot.added ++
          (List.range' (pos + resultArity drop)
            (base.arity - (pos + resultArity drop))).map Slot.same)))
    back := Slot.added (arena.length + 1) :: Slot.added call ::
      (List.range' base.arity (base.size - base.arity)).map (fun i => ⟨k i, some i⟩)
    result :=
      if drop then Draft.follow (base.result.map k) 0 arena.length
      else Draft.follow (Draft.follow (base.result.map k) 0 arena.length) pos call
    dups := if drop then [] else [call] }

variable {base : Form} {g : CarrierGrowth} {pos : Nat} {combiner : Signature} {keep drop : Bool}
  {arena : List (Name Form)} {k : Nat → Nat}

theorem keepsResult_combining {old new : List (Function Form)} {args : List Arg}
    (hbase : base.WellFormed) (hpos : 0 < pos) (hlt : pos + resultArity drop ≤ base.arity)
    (hk : Draft.Replacement base.names arena old new args base.arity (base.size - base.arity) k) :
    (combining base g pos combiner keep drop arena k).KeepsResult base := by
  refine keepsResult_of (k := k)
    (c := fun o => if o = 0 then arena.length else if o = pos ∧ drop = false then
      arena.length + 2 + (combinationParams combiner keep).length else o) hbase ?_ ?_ ?_
  · intro o ho
    simp only [combining, List.mem_cons, List.mem_append, List.mem_map, List.mem_range'_1]
    cases drop <;> simp [resultArity, Slot.same] at hlt ⊢ <;> grind
  · intro i h1 h2
    simp [combining]
    omega
  · have hle := hk.arena_isPrefix.length_le
    have hsize := hbase.arity_le
    unfold Form.size at *
    cases hr : base.result with
    | none => cases drop <;> simp [combining, hr, Draft.follow]
    | some r =>
      have hrlt := hbase.result_lt r hr
      have h2 := hk.outside r
      have h0 := fun h => replacement_ne hk hrlt (o := 0) (by omega) h
      cases drop with
      | true =>
        simp [combining, hr, Draft.follow]
        grind
      | false =>
        simp only [resultArity, Bool.false_eq_true, if_false] at hlt
        have h1 := fun h => replacement_ne hk hrlt (o := pos) (by omega) h
        simp [combining, hr, Draft.follow]
        grind

variable (base g pos combiner keep drop arena k) in
/-- The new names have the numbers that they are referred to by. -/
theorem arena_combining :
    (combining base g pos combiner keep drop arena k).arena[arena.length]? =
        some (.carrier g.new) ∧
      (combining base g pos combiner keep drop arena k).arena[arena.length + 1]? =
        some (g.readOf arena.length) ∧
      (∀ i t, (combinationParams combiner keep)[i]? = some t →
        (combining base g pos combiner keep drop arena k).arena[arena.length + 2 + i]? =
          some (.param t)) ∧
      (combining base g pos combiner keep drop arena k).arena[arena.length + 2 +
          (combinationParams combiner keep).length]? =
        some (.call combiner ((arena.length + 1) ::
          (List.range' (pos + resultArity drop) (if keep then combiner.arity else 0) ++
            List.range' (arena.length + 2) (combinationParams combiner keep).length))) := by
  have hlast : ∀ i, (combining base g pos combiner keep drop arena k).arena[arena.length + 2 + i]? =
      ((combinationParams combiner keep).map Name.param ++ [.call combiner ((arena.length + 1) ::
          (List.range' (pos + resultArity drop) (if keep then combiner.arity else 0) ++
            List.range' (arena.length + 2) (combinationParams combiner keep).length))])[i]? := by
    intro i
    simp only [combining]
    rw [Nat.add_assoc arena.length 2 i, Layout.getElem?_length_add rfl, Nat.add_comm 2 i]
    rfl
  refine ⟨by simp [combining], by simp [combining], fun i t ht => ?_, ?_⟩
  · have hi := (List.getElem?_eq_some_iff.1 ht).1
    rw [hlast, List.getElem?_append_left (by simpa using hi), List.getElem?_map, ht]
    rfl
  · rw [hlast, List.getElem?_append_right (by simp)]
    simp

/-- What is left of the places below the arity when the copy is removed. -/
def combiningLeft (base : Form) (pos : Nat) (combiner : Signature) (keep drop : Bool)
    (arena : List (Name Form)) : List Slot :=
  ⟨arena.length, some 0⟩ :: ((List.range' 1 (pos - 1)).map Slot.same ++
    ((List.range' (arena.length + 2) (combinationParams combiner keep).length).map Slot.added ++
      (List.range' (pos + resultArity drop)
        (base.arity - (pos + resultArity drop))).map Slot.same))

theorem layout_combining (hbase : base.WellFormed) (hpos : 0 < pos)
    (hlt : pos + resultArity drop ≤ base.arity)
    (hkeep : keep = true → pos + resultArity drop + combiner.arity ≤ base.arity)
    (hk : Draft.Replacement base.names arena (Function.getters g.old) (Function.getters g.new)
      [.name 0] base.arity (base.size - base.arity) k) :
    Layout base (combining base g pos combiner keep drop arena k) (Function.getters g.old)
      (Function.getters g.new) [.name 0] k arena
      (combiningLeft base pos combiner keep drop arena)
      (arena.length :: (List.range' 1 (pos - 1) ++
        (List.range' (arena.length + 2) (combinationParams combiner keep).length ++
          List.range' (pos + resultArity drop) (base.arity - (pos + resultArity drop)))))
      [arena.length + 1, arena.length + 2 + (combinationParams combiner keep).length]
      [arena.length + 1, arena.length + 2 + (combinationParams combiner keep).length] [] := by
  have hle := hbase.arity_le
  have harena : base.size ≤ arena.length := hk.arena_isPrefix.length_le
  obtain ⟨hcarrier, hread, hparam, hcall⟩ := arena_combining base g pos combiner keep drop arena k
  refine Layout.of_params hbase hk (List.prefix_append _ _) ?_ ?_ ?_ ?_ ?_ ?_ (by simp) ?_ ?_ ?_ ?_
    fun r hr => (keepsResult_combining hbase hpos hlt hk).placed hr
  case refine_1 => simp [combining]
  case refine_2 =>
    cases drop with
    | true =>
      rw [range_split (show pos ≤ base.arity by simpa [resultArity] using hlt), range'_zero hpos]
      simp [combining, resultArity, List.filterMap_map, Function.comp_def]
    | false =>
      rw [range_split_at (Nat.lt_of_succ_le (by simpa [resultArity] using hlt)), range'_zero hpos]
      simp [combining, resultArity, List.filterMap_map, Function.comp_def]
  case refine_3 =>
    intro s hs
    simp only [combining, List.mem_cons, List.mem_append, List.mem_map] at hs ⊢
    obtain rfl | ⟨a, ha, rfl⟩ | hs | ⟨a, ha, rfl⟩ | ⟨a, ha, rfl⟩ := hs
    · simp
    · simp only [Slot.now_same, ha, true_or, or_true]
    · cases drop with
      | true => simp at hs
      | false =>
        obtain rfl : s = _ := by simpa using hs
        simp
    · simp only [Slot.now_added, ha, true_or, or_true]
    · simp only [Slot.now_same, ha, true_or, or_true]
  case refine_4 =>
    intro a ha
    simp only [List.mem_cons, List.mem_append] at ha
    obtain rfl | ha | ha | ha := ha
    · exact .inr ⟨Nat.le_refl _, by rw [holdsParam_eq hcarrier]; rfl⟩
    · exact .inl (by simp [combining, List.mem_map_of_mem, ha])
    · obtain ⟨i, hi, rfl⟩ := List.mem_range'.1 ha
      rw [Nat.one_mul]
      refine .inr ⟨by omega, ?_⟩
      rw [holdsParam_eq (hparam i _ (List.getElem?_eq_getElem hi))]
      rfl
    · exact .inl (by simp [combining, List.mem_map_of_mem, ha])
  case refine_5 =>
    intro a ha
    simp only [List.append_nil, List.mem_cons, List.not_mem_nil, or_false] at ha
    obtain rfl | rfl := ha
    · exact ⟨by omega, _, hread, rfl⟩
    · exact ⟨by omega, _, hcall, rfl⟩
  case refine_6 =>
    intro i a ha b hb
    rcases i with _ | _ | i
    · obtain rfl : arena.length + 1 = a := by simpa using ha
      obtain rfl : b = arena.length := by simpa [nameOf_eq hread] using hb
      simp
    · obtain rfl : arena.length + 2 + (combinationParams combiner keep).length = a := by
        simpa using ha
      rw [nameOf_eq hcall, Name.operands_call] at hb
      cases keep with
      | true =>
        have hle := hkeep rfl
        simp at hb ⊢
        omega
      | false =>
        simp at hb ⊢
        omega
    · simp at ha
  case refine_7 =>
    cases drop with
    | true => exact .nil _
    | false =>
      have hfirst : ∀ u ∈ (⟨arena.length, some 0⟩ : Slot) :: (List.range' 1 (pos - 1)).map Slot.same,
          ¬ u.Copies (arena.length + 2 + (combinationParams combiner keep).length) := by
        intro u hu hcopy
        rcases List.mem_cons.1 hu with rfl | hu
        · have hcopy : arena.length = arena.length + 2 + (combinationParams combiner keep).length :=
            hcopy.1
          omega
        · obtain ⟨a, -, rfl⟩ := List.mem_map.1 hu
          exact hcopy.2 (congrArg some hcopy.1)
      exact .cons hfirst ⟨rfl, by simp [resultArity] at hlt ⊢; omega⟩ (.nil _)
  case refine_8 => simp [combiningLeft, Function.comp_def]
  case refine_9 =>
    simp [List.nodup_range', List.nodup_append]
    grind
  case refine_10 =>
    cases drop <;> simp [slots, combining]

theorem place_combining (hbase : base.WellFormed) (hpos : 0 < pos)
    (hlt : pos + resultArity drop ≤ base.arity)
    (hkeep : keep = true → pos + resultArity drop + combiner.arity ≤ base.arity)
    (hk : Draft.Replacement base.names arena (Function.getters g.old) (Function.getters g.new)
      [.name 0] base.arity (base.size - base.arity) k) {o : Nat} (ho : o < base.arity) :
    (combining base g pos combiner keep drop arena k).place
        (combiningLeft base pos combiner keep drop arena) o =
      (Adaptation.combining base g pos combiner keep drop).place o := by
  have hlayout := layout_combining (g := g) hbase hpos hlt hkeep hk
  have hslot : ⟨if o = 0 then arena.length else if o = pos ∧ drop = false then
      arena.length + 2 + (combinationParams combiner keep).length else o, some o⟩ ∈
        (combining base g pos combiner keep drop arena k).slots := by
    refine List.mem_append_left _ ?_
    simp only [combining, List.mem_cons, List.mem_append, List.mem_map, List.mem_range'_1]
    clear hlayout
    cases drop <;> simp [resultArity, Slot.same] at hlt ⊢ <;> grind
  refine hlayout.place_was hslot rfl ?_
  rw [hlayout.order_eq]
  clear hlayout hslot hk
  cases drop <;> simp [List.getElem?_append, List.getElem?_cons, Adaptation.combining, resultArity] at hlt ⊢
  · generalize (combinationParams combiner keep).length = q
    grind
  · generalize (combinationParams combiner keep).length = q
    grind

/-- The new names are found in front of the expressions. -/
theorem place_combining_new (hbase : base.WellFormed) (hpos : 0 < pos)
    (hlt : pos + resultArity drop ≤ base.arity)
    (hkeep : keep = true → pos + resultArity drop + combiner.arity ≤ base.arity)
    (hk : Draft.Replacement base.names arena (Function.getters g.old) (Function.getters g.new)
      [.name 0] base.arity (base.size - base.arity) k) :
    (combining base g pos combiner keep drop arena k).place
        (combiningLeft base pos combiner keep drop arena) arena.length = 0 ∧
      (combining base g pos combiner keep drop arena k).place
        (combiningLeft base pos combiner keep drop arena) (arena.length + 1) =
          base.arity - resultArity drop + (combinationParams combiner keep).length ∧
      ((List.range' (pos + resultArity drop) (if keep then combiner.arity else 0) ++
        List.range' (arena.length + 2) (combinationParams combiner keep).length).map
          ((combining base g pos combiner keep drop arena k).place
            (combiningLeft base pos combiner keep drop arena))) =
        List.range' pos combiner.arity := by
  have hlayout := layout_combining (g := g) hbase hpos hlt hkeep hk
  refine ⟨hlayout.place_eq (by rw [hlayout.order_eq]; rfl), hlayout.place_eq ?_, ?_⟩
  · rw [hlayout.order_eq]
    clear hlayout hk
    generalize (combinationParams combiner keep).length = q
    simp [List.getElem?_append, List.getElem?_cons]
    grind
  · refine List.ext_getElem? fun i => ?_
    cases keep with
    | true =>
      have hle := hkeep rfl
      by_cases hi : i < combiner.arity
      · have hplace : (combining base g pos combiner true drop arena k).place
            (combiningLeft base pos combiner true drop arena) (pos + resultArity drop + i) =
              pos + i := by
          rw [place_combining hbase hpos hlt hkeep hk (by omega)]
          simp only [Adaptation.combining, combinationParams, if_true, List.length_nil]
          rw [if_neg (by omega), if_neg (by omega)]
          omega
        simp [combinationParams, hi, hplace]
      · simp [combinationParams, hi]
    | false =>
      by_cases hi : i < combiner.arity
      · have hplace : (combining base g pos combiner false drop arena k).place
            (combiningLeft base pos combiner false drop arena) (arena.length + 2 + i) = pos + i := by
          refine hlayout.place_eq ?_
          rw [hlayout.order_eq, List.append_assoc, List.append_assoc, ← List.cons_append,
            List.append_assoc, Layout.getElem?_length_add (by simp; omega), List.append_assoc,
            List.getElem?_append_left (by simpa [combinationParams] using hi)]
          simp [combinationParams, hi]
        simp [combinationParams, hi, hplace]
      · simp [combinationParams, hi]

end Transaction

namespace Edit

open Adaptation (combinationParams)

variable {base : Form} {g : CarrierGrowth} {field : BasicType} {pos : Nat} {combiner : Signature}
  {keep drop : Bool}

/-- The names that a combination allocates. -/
theorem combination_alloc {d : Draft} {arena : List (Name Form)} (k : Nat → Nat)
    {result : Option Nat} {back : List Slot}
    (hshows : d.Shows ⟨arena ++ [.carrier g.new],
      ⟨arena.length, some 0⟩ :: (List.range' 1 (base.arity - 1)).map Slot.same, back, result, []⟩)
    (hpos : 0 < pos)
    (hkeep : keep = true → pos + resultArity drop + combiner.arity ≤ base.arity) :
    ∃ d2 d3 d4, d.alloc (g.readOf arena.length) = (arena.length + 1, d2) ∧
      d2.allocParams (combinationParams combiner keep) =
        (List.range' (arena.length + 2) (combinationParams combiner keep).length, d3) ∧
      (List.range' (pos + resultArity drop) (if keep then combiner.arity else 0)).mapM d3.idAt =
        .ok (List.range' (pos + resultArity drop) (if keep then combiner.arity else 0)) ∧
      d3.alloc (.call combiner ((arena.length + 1) ::
        (List.range' (pos + resultArity drop) (if keep then combiner.arity else 0) ++
          List.range' (arena.length + 2) (combinationParams combiner keep).length))) =
            (arena.length + 2 + (combinationParams combiner keep).length, d4) ∧
      d4.Shows ⟨(combining base g pos combiner keep drop arena k).arena,
        ⟨arena.length, some 0⟩ :: (List.range' 1 (base.arity - 1)).map Slot.same, back, result,
        []⟩ := by
  obtain ⟨hid1, h1⟩ := hshows.alloc (g.readOf arena.length)
  obtain ⟨hid2, h2⟩ := h1.allocParams (combinationParams combiner keep)
  obtain ⟨hid3, h3⟩ := h2.alloc (.call combiner ((arena.length + 1) ::
    (List.range' (pos + resultArity drop) (if keep then combiner.arity else 0) ++
      List.range' (arena.length + 2) (combinationParams combiner keep).length)))
  refine ⟨_, _, _, Prod.ext (by simpa using hid1) rfl, Prod.ext (by simpa using hid2) rfl, ?_,
    Prod.ext (by rw [hid3]; simp; omega) rfl,
    by simpa [combining] using h3⟩
  refine h2.mapM_idAt fun i h1 h2 => ?_
  have hi : 0 < i ∧ i < base.arity := by
    cases keep with
    | true =>
      have := hkeep rfl
      simp only [if_true] at h2
      omega
    | false => simp at h2; omega
  obtain ⟨j, rfl⟩ := Nat.exists_eq_add_of_lt hi.1
  have hj : j < base.arity - 1 := by omega
  simp [slots, List.getElem?_append_left, hj, Nat.add_comm 1]

/-- The names that a combination puts into their places. -/
theorem combination_insert {d : Draft} {arena : List (Name Form)} {k : Nat → Nat}
    (hbase : base.WellFormed)
    (hk : Draft.Replacement base.names arena (Function.getters g.old) (Function.getters g.new)
      [.name 0] base.arity (base.size - base.arity) k)
    (hshows : d.Shows ⟨(combining base g pos combiner keep drop arena k).arena,
      ⟨arena.length, some 0⟩ :: (List.range' 1 (base.arity - 1)).map Slot.same,
      (List.range' base.arity (base.size - base.arity)).map fun i => ⟨k i, some i⟩,
      Draft.follow (base.result.map k) 0 arena.length, []⟩)
    (hpos : 0 < pos) (hlt : pos + resultArity drop ≤ base.arity)
    (hret : drop = false → base.paramType pos = .ok combiner.basicRet) :
    ∃ d1 d2 d3 d4, d.insertExpression base.arity (arena.length + 1) = .ok d1 ∧
      d1.insertExpression (base.arity + 1)
        (arena.length + 2 + (combinationParams combiner keep).length) = .ok d2 ∧
      d2.insertParameters (pos + resultArity drop)
        (List.range' (arena.length + 2) (combinationParams combiner keep).length) = .ok d3 ∧
      (if drop then .ok d3
        else d3.replaceByCopy pos (base.arity + 1 + (combinationParams combiner keep).length)) =
          .ok d4 ∧
      d4.Shows (combining base g pos combiner keep drop arena k) := by
  obtain ⟨hcarrier, hread, hparam, hcall⟩ := arena_combining base g pos combiner keep drop arena k
  rw [← List.nil_append ((List.range' base.arity _).map _),
    range'_one_split (by omega : 0 < pos + resultArity drop) hlt, List.map_append,
    ← List.cons_append] at hshows
  obtain ⟨d1, hd1, h1⟩ := hshows.insertExpression hread rfl
  rw [List.nil_append, ← List.singleton_append (x := Slot.added (arena.length + 1))] at h1
  obtain ⟨d2, hd2, h2⟩ := h1.insertExpression hcall rfl
  have hnew : ∀ id ∈ List.range' (arena.length + 2) (combinationParams combiner keep).length,
      ∃ n, (combining base g pos combiner keep drop arena k).arena[id]? = some n ∧
        n.isParam = true := by
    intro id hid
    obtain ⟨i, hi, rfl⟩ := List.mem_range'.1 hid
    rw [Nat.one_mul]
    exact ⟨_, hparam i _ (List.getElem?_eq_getElem hi), rfl⟩
  obtain ⟨d3, hd3, h3⟩ := h2.insertParameters hnew
  have hlen : pos + resultArity drop + (base.arity - (pos + resultArity drop)) = base.arity := by
    omega
  have hpre : pos + resultArity drop - 1 + 1 = pos + resultArity drop := by omega
  simp only [List.length_append, List.length_cons, List.length_map, List.length_range', hpre, hlen,
    List.length_nil, Nat.zero_add, Nat.add_zero] at hd1 hd2 hd3
  refine ⟨d1, d2, d3, ?_⟩
  cases drop with
  | true => exact ⟨d3, hd1, hd2, hd3, rfl, by simpa [combining, resultArity] using h3⟩
  | false =>
    have hlt' : pos < base.arity := Nat.lt_of_succ_le (by simpa [resultArity] using hlt)
    obtain ⟨n, hn, hnparam⟩ := hbase.exists_param hlt'
    have htype : n.type = combiner.basicRet := by
      simpa [Form.paramType_eq hlt' hn] using hret rfl
    have hold : (combining base g pos combiner keep false arena k).arena[pos]? = some n :=
      Draft.getElem?_of_isPrefix (hk.arena_isPrefix.trans (List.prefix_append _ _)) hn
    have hsplit : List.range' 1 pos = List.range' 1 (pos - 1) ++ [pos] := by
      simpa using range'_one_split hpos (Nat.le_succ pos)
    have h3 : d3.Shows ⟨(combining base g pos combiner keep false arena k).arena,
        (⟨arena.length, some 0⟩ :: (List.range' 1 (pos - 1)).map Slot.same) ++ Slot.same pos ::
          ((List.range' (arena.length + 2) (combinationParams combiner keep).length).map
            Slot.added ++ (List.range' (pos + 1) (base.arity - (pos + 1))).map Slot.same),
        [Slot.added (arena.length + 1),
          Slot.added (arena.length + 2 + (combinationParams combiner keep).length)] ++
            (List.range' base.arity (base.size - base.arity)).map (fun i => ⟨k i, some i⟩),
        Draft.follow (base.result.map k) 0 arena.length, []⟩ := by
      simpa [resultArity, hsplit] using h3
    have hsource : ((⟨arena.length, some 0⟩ :: (List.range' 1 (pos - 1)).map Slot.same) ++
        Slot.same pos ::
          ((List.range' (arena.length + 2) (combinationParams combiner keep).length).map
            Slot.added ++ (List.range' (pos + 1) (base.arity - (pos + 1))).map Slot.same) ++
        ([Slot.added (arena.length + 1),
          Slot.added (arena.length + 2 + (combinationParams combiner keep).length)] ++
            (List.range' base.arity (base.size - base.arity)).map
              (fun i => ⟨k i, some i⟩)))[base.arity + 1 + (combinationParams combiner keep).length]? =
          some (Slot.added (arena.length + 2 + (combinationParams combiner keep).length)) := by
      rw [show base.arity + 1 + (combinationParams combiner keep).length =
        base.arity + (combinationParams combiner keep).length + 1 by omega,
        Layout.getElem?_length_add (by simp; omega)]
      rfl
    obtain ⟨d4, hd4, h4⟩ := h3.replaceByCopy rfl hold hnparam hsource hcall
      (by rw [htype, Name.type_call]) (by simp; omega)
    refine ⟨d4, hd1, hd2, hd3, ?_, ?_⟩
    · have hlen : pos - 1 + 1 = pos := by omega
      simpa [hlen] using hd4
    · simpa [combining, resultArity] using h4

theorem deriveCombination_eq (hbase : base.WellFormed) (hpos : 0 < pos)
    (hmax : pos ≤ Signature.maxSlots) (hlt : pos + resultArity drop ≤ base.arity)
    (hkeep : keep = true → pos + resultArity drop + combiner.arity ≤ base.arity)
    (hbasic : combiner.isBasic = true) (href : base.paramType 0 = .ok .ref)
    (hret : drop = false → combiner.basicRet ≠ .void ∧ base.paramType pos = .ok combiner.basicRet)
    (hg : g.Appends field) (id : Nat) :
    deriveCombination base g pos combiner keep drop id =
      Form.verified ((Adaptation.combining base g pos combiner keep drop).form base id) := by
  have hle := hbase.arity_le
  obtain ⟨d, hd, hshows⟩ := Draft.start_ofForm hbase
  obtain ⟨d1, arena, k, hd1, hshows1, hk⟩ := hshows.switchCarrier hbase (by omega) href hg
  have hlayout := layout_combining (g := g) hbase hpos hlt hkeep hk
  obtain ⟨d2, d3, d4, hd2, hd3, hkept, hd4, hshows4⟩ :=
    combination_alloc k hshows1 hpos hkeep
  obtain ⟨d5, d6, d7, d8, hd5, hd6, hd7, hd8, hshows8⟩ :=
    combination_insert hbase hk hshows4 hpos hlt fun h => (hret h).2
  obtain ⟨hcarrier, hread, hparam, hcall⟩ := arena_combining base g pos combiner keep drop arena k
  obtain ⟨hplace0, hplace1, hplace2⟩ := place_combining_new hbase hpos hlt hkeep hk
  have hfinish := hlayout.adapt (A := .combining base g pos combiner keep drop) hshows8 ?_ ?_ rfl
    (fun n => rfl) (fun o ho => place_combining hbase hpos hlt hkeep hk ho)
    (.inl ⟨rfl, keepsResult_combining hbase hpos hlt hk⟩) id
  · have hrange : ¬ (pos = 0 ∨ Signature.maxSlots < pos) ∧
        ¬ base.arity < pos + resultArity drop + (if keep then combiner.arity else 0) ∧
        ¬ (combiner.isBasic = false ∨ combiner.basicRet = .void ∧ drop = false) := by
      refine ⟨by omega, ?_, ?_⟩
      · cases keep with
        | true => simpa using hkeep rfl
        | false => simpa using hlt
      · rw [hbasic]
        rintro (h | ⟨h1, h2⟩)
        · cases h
        · exact (hret h2).1 h1
    obtain ⟨hrange1, hrange2, hrange3⟩ := hrange
    have hcall' : Name.apply (Function.invokeBasic combiner) (Arg.name (arena.length + 1) ::
        ((List.range' (pos + resultArity drop) (if keep then combiner.arity else 0)).map Arg.name ++
          (List.range' (arena.length + 2) (combinationParams combiner keep).length).map Arg.name)) =
        Name.call combiner ((arena.length + 1) ::
          (List.range' (pos + resultArity drop) (if keep then combiner.arity else 0) ++
            List.range' (arena.length + 2) (combinationParams combiner keep).length)) := by
      simp [Name.call]
    simp only [combinationParams] at hd3 hcall' hd4 hd5 hd6 hd7 hd8
    simp only [deriveCombination, hrange1, hrange2, hd, hd1, g.getter_eq hg, g.apply_getter, hd2,
      hd3, hkept, ok_bind, List.map_append, List.map_cons, List.cons_append, hcall', hd4, hd5, hd6,
      hd7, if_false, List.length_range', Bool.not_eq_true', hrange3]
    cases drop with
    | true =>
      obtain rfl : d7 = d8 := by simpa using hd8
      exact hfinish
    | false => simpa [show d7.replaceByCopy _ _ = .ok d8 from hd8] using hfinish
  · have hp := hk.arena_isPrefix.trans hlayout.arena_isPrefix
    have h1 := map_nameOf_range' hp (a := 1) (b := pos) (by omega)
    have h2 := map_nameOf_range' hp (a := pos + resultArity drop) (b := base.arity) hle
    have h3 : (List.range' (arena.length + 2) (combinationParams combiner keep).length).map
        (combining base g pos combiner keep drop arena k).nameOf =
          (combinationParams combiner keep).map Name.param := by
      refine List.ext_getElem? fun i => ?_
      by_cases hi : i < (combinationParams combiner keep).length
      · have ht := List.getElem?_eq_getElem hi
        simp [hi, nameOf_eq (hparam i _ ht)]
      · simp [hi]
    simp [h1, h2, h3, nameOf_eq hcarrier, Adaptation.combining]
  · simp [nameOf_eq hread, nameOf_eq hcall, hplace0, hplace1, hplace2, Adaptation.combining]

end Edit

end HandleForms
