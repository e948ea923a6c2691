import HandleForms.Proofs.Run.Edited

/-!
# What spreading over an array computes

The form that takes parameters out of an array first checks the length of the array and then loads
its elements. When the length is right it yields what the base does over the elements
(`Exec.yields_spread`), and otherwise it fails before it does anything (`Exec.yields_spread_error`).
-/

namespace HandleForms

namespace Exec

variable {σ : Type} {host : Host σ} {re : Reentry σ} {held : List Value} {base f : Form}
  {fields : List BasicType} {bound args : List Value} {X : Nat → Exec σ Value}

/-- What an array, or `null` in the place of an empty one, unpacks to. -/
inductive Unpacks : Value → List Value → Prop
  | array (id : Nat) (element : Ty) (values : List Value) : Unpacks (.array id element values) values
  | null : Unpacks .null []

/-- Why a value does not unpack to `count` elements. -/
inductive Packs : Value → Nat → RuntimeError → Prop
  | length {id : Nat} {element : Ty} {values : List Value} {count : Nat} (h : values.length ≠ count) :
      Packs (.array id element values) count (.spreadLength count values.length)
  | null {count : Nat} (h : 0 < count) : Packs .null count (.nullPointer "argument spreading")
  | sort {a : Value} {count : Nat} (hnull : a ≠ .null)
      (harray : ∀ id element values, a ≠ .array id element values) :
      Packs a count (.classCast "array" a.sort)

theorem Packs.checkSpreadLength_eq {a : Value} {count : Nat} {e : RuntimeError}
    (h : Packs a count e) : checkSpreadLength a count = .error e := by
  cases h with
  | length h => exact if_neg h
  | null h => exact if_neg (Nat.pos_iff_ne_zero.1 h)
  | sort hnull harray =>
    unfold checkSpreadLength
    split
    · exact absurd rfl hnull
    · exact absurd rfl (harray _ _ _)
    · rfl

/-- Small counts are what they are. -/
theorem elementCount_ofNat {n : Nat} (h : n ≤ Signature.maxSlots) :
    elementCount (Int32.ofNat n) = n := by
  have hall : ∀ m : Fin (2 ^ 8), elementCount (Int32.ofNat m) = m := by decide +kernel
  exact hall ⟨n, Nat.lt_of_le_of_lt h (by decide)⟩

theorem toInt_ofNat {n : Nat} (h : n ≤ Signature.maxSlots) : (Int32.ofNat n).toInt = n :=
  Int32.toInt_ofNat_of_lt (Nat.lt_of_le_of_lt h (by decide))

/-- An intrinsic that needs no world. -/
theorem fieldStep_ofError {run : Runner σ} {n : Name Form} {bound values vs : List Value}
    {op : Intrinsic} {operands : List Arg} {r : Except RuntimeError Value}
    (hread : n.fieldRead? = none) (hexpr : n.expr = some ⟨.intrinsic op, operands⟩)
    (hargs : operands.mapM (operand values) = .ok vs)
    (hop : (intrinsic host re run op vs : Exec σ Value) = act (Act.ofError r)) :
    fieldStep (apply host re run) bound n values = act (Act.ofError r) := by
  have hframe : withFrame ⟨[], values⟩ (act (Act.ofError r)) = (act (Act.ofError r) : Exec σ Value) :=
    withFrame_ofStop _ _
  simp only [fieldStep, hread, hexpr, hargs]
  rw [← hframe, ← hop]
  rfl

theorem fieldStep_checkLength {run : Runner σ} {bound values : List Value} {a : Value}
    {i count : Nat} (ha : values[i]? = some a) (hcount : count ≤ Signature.maxSlots) :
    fieldStep (apply host re run) bound (.checkLength i count) values =
      act (Act.ofError (checkSpreadLength a count)) := by
  refine fieldStep_ofError rfl rfl (?_ : _ = Except.ok [a, .int (Int32.ofNat count)]) ?_
  · simp only [List.mapM_cons, List.mapM_nil, operand, valueAt, ha, Arg.int]
    rfl
  · conv_rhs => rw [← elementCount_ofNat hcount]
    rfl

theorem fieldStep_load {run : Runner σ} {bound values : List Value} {a : Value} {element : Ty}
    {i k : Nat} (ha : values[i]? = some a) (hk : k ≤ Signature.maxSlots) :
    fieldStep (apply host re run) bound (.load element i k) values =
      act (Act.ofError (arrayLoad a k)) := by
  refine fieldStep_ofError rfl rfl (?_ : _ = Except.ok [a, .int (Int32.ofNat k)]) ?_
  · simp only [List.mapM_cons, List.mapM_nil, operand, valueAt, ha, Arg.int]
    rfl
  · conv_rhs => rw [← toInt_ofNat hk]
    rfl

/-- The loads of consecutive elements. -/
theorem loop_loads {run : Runner σ} {bound : List Value} {element : Ty} {id i : Nat} {type : Ty}
    {es : List Value} (hsmall : es.length ≤ Signature.maxSlots) (m : Nat) :
    ∀ (k : Nat) (values : List Value), k + m ≤ es.length → values[i]? = some (.array id type es) →
      loop (fieldStep (apply host re run) bound) ((List.range' k m).map (.load element i)) values =
        pure (values ++ (es.drop k).take m) := by
  induction m with
  | zero => simp [loop]
  | succ m ih =>
    intro k values hle ha
    have hlt : k < es.length := by omega
    have hload : arrayLoad (.array id type es) k = .ok es[k] := by
      show Value.element es (k : Int) = _
      have hnonneg : ¬ (k : Int) < 0 := by omega
      simp [Value.element, hnonneg, hlt]
    rw [List.range'_succ, List.map_cons, loop_cons, fieldStep_load ha (by omega), hload]
    show (pure es[k] >>= _ : Exec σ (List Value)) = _
    rw [pure_bind, ih (k + 1) _ (by omega)
      (by rw [List.getElem?_append_left (List.getElem?_eq_some_iff.1 ha).1, ha]),
      List.drop_eq_getElem_cons hlt, List.take_succ_cons, List.append_assoc]
    rfl

theorem checkSpreadLength_unpacks {a : Value} {es : List Value} (hes : Unpacks a es) :
    checkSpreadLength a es.length = .ok .void := by
  cases hes with
  | array id element => exact if_pos rfl
  | null => rfl

variable {pos count : Nat} {array element : Ty} {a : Value} {es : List Value}

/-- The early names of a spread, over what unpacks. -/
theorem loop_spreading {run : Runner σ} {bound values : List Value} {i : Nat}
    (hsmall : es.length ≤ Signature.maxSlots) (ha : values[i]? = some a) (hes : Unpacks a es) :
    loop (fieldStep (apply host re run) bound) (.checkLength i es.length ::
      (List.range es.length).map fun k => .load element i k) values =
        pure (values ++ .void :: es) := by
  have hlt := (List.getElem?_eq_some_iff.1 ha).1
  rw [loop_cons, fieldStep_checkLength ha hsmall, checkSpreadLength_unpacks hes]
  show (pure Value.void >>= _ : Exec σ (List Value)) = _
  rw [pure_bind, List.append_cons values .void es]
  cases hes with
  | array id type =>
    rw [List.range_eq_range', loop_loads hsmall es.length 0 _ (by omega)
      (by rw [List.getElem?_append_left hlt, ha]), List.drop_zero, List.take_length]
  | null => simp [loop]

/-- The elements of the array are the arguments in its place. -/
theorem yields_spread (hre : re.Blind) (hbase : base.Carrier fields)
    (hf : (Edit.spread (pos + 1) array es.length).Answers base f) (hargs : args.length + 1 = f.arity)
    (hheld : ∀ v ∈ args, v.Within held) (ha : args[pos]? = some a) (hes : Unpacks a es)
    (h : Yields host re held base bound (args.take pos ++ es ++ args.drop (pos + 1)) X) :
    Yields host re held f bound args X := by
  have hmax : base.arity ≤ Signature.maxSlots := hbase.editable.arity_le
  have hsize := hbase.editable.wellFormed.arity_le
  unfold Form.size at hsize
  have hlt := (List.getElem?_eq_some_iff.1 ha).1
  refine yields_of_starts hre hbase (hf.derives.resolve_left fun h => nomatch h.1) nofun
    (fun i hi => rfl) (fun g A hadapts hg hparams => ?_) h
  cases hadapts with
  | @spread _ _ _ t harray hpos hle htypes hslots =>
    have hlength : args.length + es.length = base.arity := by
      rw [← hparams] at hargs
      simp only [Adaptation.spreading, List.length_append, List.length_take, List.length_cons,
        List.length_drop] at hargs
      omega
    have htake : (args.take pos).length = pos := by
      rw [List.length_take]
      omega
    refine ⟨rfl, rfl, .void :: args ++ .void :: es, fun run =>
      loop_spreading (by omega) (List.getElem?_cons_succ.trans ha) hes, ⟨?_, ?_, fun i hi hi' => ?_,
        fun u hu => ?_, fun u hu => ?_⟩⟩
    · rw [hparams]
      simp only [Adaptation.spreading, List.length_append, List.length_cons, List.length_map,
        List.length_range]
      omega
    · simp only [List.length_cons, List.length_append, htake, List.length_drop]
      omega
    · obtain ⟨i, rfl⟩ : ∃ k, i = k + 1 := ⟨i - 1, by omega⟩
      have hplace : (Adaptation.spreading base (pos + 1) t.erase es.length).place (i + 1) =
          (if i < pos then i else if i < pos + es.length then args.length + (i - pos + 1)
            else i + 1 - es.length) + 1 := by
        simp only [Adaptation.spreading]
        split_ifs <;> omega
      rw [hplace, List.cons_append, List.getElem?_cons_succ, List.getElem?_cons_succ,
        List.append_assoc]
      split_ifs with hbefore hwithin
      · rw [List.getElem?_append_left (by omega), List.getElem?_append_left (by omega),
          List.getElem?_take_of_lt hbefore]
      · rw [List.getElem?_append_right (by omega), List.getElem?_append_right (by omega), htake,
          List.getElem?_append_left (by omega), Nat.add_sub_cancel_left, List.getElem?_cons_succ]
      · rw [List.getElem?_append_left (by omega), List.getElem?_append_right (by omega), htake,
          List.getElem?_append_right (by omega), List.getElem?_drop]
        congr 1
        omega
    · simp only [List.mem_append, List.mem_cons] at hu ⊢
      rcases hu with (rfl | hu) | rfl | hu
      · exact .inl (.inl rfl)
      · exact .inr (hheld u hu)
      · exact .inl (.inl rfl)
      · exact .inl (.inr (.inl (.inr hu)))
    · simp only [List.mem_append, List.mem_cons] at hu ⊢
      rcases hu with rfl | (hu | hu) | hu
      · exact .inl (.inl (.inl rfl))
      · exact .inl (.inl (.inr (List.mem_of_mem_take hu)))
      · exact .inl (.inr (.inr hu))
      · exact .inl (.inl (.inr (List.mem_of_mem_drop hu)))

/-- Before anything else happens, the length of the array is checked. -/
theorem yields_spread_error {e : RuntimeError} (hbase : base.Editable)
    (hf : (Edit.spread (pos + 1) array count).Answers base f) (ha : args[pos]? = some a)
    (he : checkSpreadLength a count = .error e) :
    Yields host re held f bound args fun _ => fail e := by
  intro d d' hlt
  have hmax : base.arity ≤ Signature.maxSlots := hbase.arity_le
  obtain ⟨g, A, id, hadapts, hg, rfl⟩ := hf.derives.resolve_left fun h => nomatch h.1
  cases hadapts with
  | spread harray hpos hle htypes hslots =>
    have hcheck : fieldStep (apply host re (runForm host re d)) bound (.checkLength (pos + 1) count)
        (.void :: args) = fail e := by
      rw [fieldStep_checkLength (List.getElem?_cons_succ.trans ha) (by omega), he]
      rfl
    rw [body_form rfl, Adaptation.spreading, loop_cons, hcheck]
    exact .ofOutcome (.stop _)

end Exec

end HandleForms
