import HandleForms.Proofs.Edit.Accept

/-!
# Operands of keys fit in a byte

The operands of an edit are positions, counts and ordinals. A form whose parameters all take a slot
has at most as many of them as there are slots, so the operands of an edit that is let through fit
in a byte (`Edit.operands_lt`) and the edit has a key that says which it is
(`EditKey.keys_faithful`). A parameter of type `void` takes no slot, and a form may have any number
of these (`EditKey.dup_past_byte`).
-/

namespace HandleForms

theorem BasicType.ordinal_lt_byte (t : BasicType) : t.ordinal < 256 :=
  Nat.lt_trans t.ordinal_lt_count (by decide)

theorem Signature.arity_lt_byte (s : Signature) : s.arity < 256 := by
  have hle := BasicType.length_le_slotSum (Signature.ne_void_of_mem_basicParams (s := s) rfl)
  rw [length_basicParams, slotSum_basicParams] at hle
  exact Nat.lt_succ_of_le (Nat.le_trans hle s.slots_le)

namespace Edit

variable {base : Form} {e : Edit} {pos count : Nat}

theorem forall_mem_pair {p : Nat → Prop} {m n : Nat} (hm : p m) (hn : p n) : ∀ k ∈ [m, n], p k :=
  List.forall_mem_cons.2 ⟨hm, List.forall_mem_singleton.2 hn⟩

theorem elementOperand_lt (element : Ty) : elementOperand element < 256 := by
  unfold elementOperand
  split
  case h_5 => exact element.basicType.ordinal_lt_byte
  all_goals decide

/-- The positions and counts of an edit, which are machine words. -/
def words : Edit → List Nat
  | bind pos _ | add pos _ | filter pos _ | collect pos _ | fold pos _ _ => [pos]
  | dup src dst => [src, dst]
  | spread pos _ count => [pos, count]
  | filterReturn _ | zeroReturn _ => []
  | permute skip reorder => skip :: reorder

/-! ## Positions are among the parameters -/

section

variable (hbase : base.WellFormed)
include hbase

theorem lt_arity {t : BasicType} (h : base.param? pos = some t) : pos < base.arity := by
  rw [← Form.length_params hbase]
  exact (List.getElem?_eq_some_iff.1 h).1

/-- Parameters that are all there do not reach past the last one; a run of none starts where its
bounds say. -/
theorem add_le_arity (hword : pos < Text.wordCount) (hle : Text.wordAdd pos count ≤ base.arity)
    (hrun : ∀ k < count, ∃ t, base.param? (pos + k) = some t) : pos + count ≤ base.arity := by
  cases count with
  | zero => rwa [Text.wordAdd_of_lt hword] at hle
  | succ count =>
    obtain ⟨t, ht⟩ := hrun count (Nat.lt_succ_self _)
    exact lt_arity hbase ht

/-- The position of a collector that is let through. -/
theorem le_arity_of_collect {collector : Signature} (hword : pos < Text.wordCount)
    (hcheck : (collect pos collector).check base = .ok ()) : pos ≤ base.arity := by
  simp only [check, bind_unit_eq_ok_iff, require_eq_ok_iff] at hcheck
  obtain ⟨⟨-, hle⟩, hcheck⟩ := hcheck
  by_cases hvoid : collector.basicRet = .void
  · simp only [hvoid, beq_self_eq_true] at hle
    exact add_le_arity hbase hword hle fun k hk => absurd hk (Nat.not_lt_zero k)
  · simp only [beq_eq_false_iff_ne.2 hvoid, Bool.false_eq_true, if_false, bind_unit_eq_ok_iff,
      Form.expectParam_eq_ok_iff] at hcheck
    exact Nat.le_of_lt (lt_arity hbase hcheck.1)

/-- The position of a combiner that is let through. -/
theorem le_arity_of_fold {drop : Bool} {combiner : Signature} (hword : pos < Text.wordCount)
    (hcheck : (fold pos drop combiner).check base = .ok ()) : pos ≤ base.arity := by
  simp only [check, bind_unit_eq_ok_iff, require_eq_ok_iff] at hcheck
  obtain ⟨-, hcheck⟩ := hcheck
  split at hcheck
  · obtain ⟨s, -, hs⟩ := bind_eq_ok_iff.1 hcheck
    cases hs
  next hcond =>
  cases drop with
  | false =>
    simp only [Bool.not_false, if_true, bind_unit_eq_ok_iff, Form.expectParam_eq_ok_iff] at hcheck
    exact Nat.le_of_lt (lt_arity hbase hcheck.1)
  | true =>
    -- No result is passed on, so the parameters of the combiner start at its position.
    have hsum : Text.wordAdd pos (resultArity true) = pos := Text.wordAdd_of_lt hword
    simp only [Bool.not_true, Bool.false_eq_true, if_false, hsum,
      Form.expectParams_eq_ok_iff] at hcheck
    refine Nat.le_trans (Nat.le_add_right pos combiner.arity) (add_le_arity hbase hword
      (hsum ▸ Nat.not_lt.1 (not_or.1 hcond).2) fun k hk => ?_)
    obtain ⟨rest, hrest⟩ := hcheck
    have hk : k < (base.params.drop pos).length := by
      rw [← hrest, List.length_append, Signature.length_basicParams]
      omega
    rw [List.length_drop] at hk
    exact ⟨_, List.getElem?_eq_getElem (by omega)⟩

/-- The positions of an edit that is let through are among the parameters, also when a sum of them
wraps around: a parameter past the last one is then looked at and missing. -/
theorem operands_lt_of_arity (hcheck : e.check base = .ok ())
    (hwords : ∀ n ∈ e.words, n < Text.wordCount) (harity : base.arity < 256) :
    ∀ v ∈ e.operands.2, v < 256 := by
  cases e with
  | bind pos type =>
    simp only [check, bind_unit_eq_ok_iff, require_eq_ok_iff] at hcheck
    exact List.forall_mem_singleton.2 (by omega)
  | add pos type =>
    simp only [check, bind_unit_eq_ok_iff, require_eq_ok_iff] at hcheck
    exact forall_mem_pair (by omega) type.ordinal_lt_byte
  | dup src dst =>
    simp only [check, bind_unit_eq_ok_iff, require_eq_ok_iff] at hcheck
    exact forall_mem_pair (by omega) (by omega)
  | spread pos array count =>
    simp only [check, bind_unit_eq_ok_iff, require_eq_ok_iff] at hcheck
    obtain ⟨⟨-, hle⟩, hcheck⟩ := hcheck
    cases harray : array.component? with
    | none => simp [harray, throw, throwThe, MonadExceptOf.throw] at hcheck
    | some element =>
      simp only [harray, bind_unit_eq_ok_iff, Form.expectRun_eq_ok_iff] at hcheck
      -- The end that was compared may have wrapped around, but the run is all there.
      have hsum := add_le_arity hbase (hwords pos (by simp [words])) hle
        fun k hk => ⟨_, hcheck.1 k hk⟩
      exact List.forall_mem_cons.2 ⟨by omega, forall_mem_pair (elementOperand_lt _) (by omega)⟩
  | filter pos type =>
    simp only [check, bind_unit_eq_ok_iff, require_eq_ok_iff] at hcheck
    exact forall_mem_pair (by omega) type.ordinal_lt_byte
  | collect pos collector =>
    have hpos := le_arity_of_collect hbase (hwords pos (by simp [words])) hcheck
    simp only [operands, List.forall_mem_cons, List.forall_mem_map]
    exact ⟨by omega, collector.arity_lt_byte, fun t _ => t.ordinal_lt_byte⟩
  | filterReturn type => exact List.forall_mem_singleton.2 type.ordinal_lt_byte
  | zeroReturn type => exact List.forall_mem_singleton.2 type.ordinal_lt_byte
  | fold pos drop combiner =>
    have hpos := le_arity_of_fold hbase (hwords pos (by simp [words])) hcheck
    exact forall_mem_pair (by omega) combiner.arity_lt_byte
  | permute skip reorder =>
    simp only [check, bind_unit_eq_ok_iff, require_eq_ok_iff] at hcheck
    obtain ⟨rfl, hlength, hperm⟩ := hcheck
    -- A permutation names every parameter once and nothing else.
    intro v hv
    have := List.mem_range.1 ((perm_of_isPermutation hperm).subset hv)
    omega

end

/-- Bringing an edit to the shape that it shares with others puts other operands in front only for
collectors, and these are the position or the first one. -/
theorem operands_normal_lt (h : ∀ v ∈ e.operands.2, v < 256) :
    ∀ v ∈ e.normal.operands.2, v < 256 := by
  cases e with
  | collect pos collector =>
    obtain ⟨hpos, hrest⟩ := List.forall_mem_cons.1 h
    by_cases hvoid : collector.basicRet = .void
    · rw [normal_collect_void hvoid]
      refine List.forall_mem_cons.2 ⟨?_, hrest⟩
      split
      · decide
      · exact hpos
    · by_cases hone : ∃ t, collector.basicParams = [t]
      · obtain ⟨t, ht⟩ := hone
        rw [normal_collect_one hvoid ht]
        exact forall_mem_pair hpos t.ordinal_lt_byte
      · rwa [normal_collect_of_ne hvoid fun t ht => hone ⟨t, ht⟩]
  | _ => exact h

/-- The operands of an edit that is let through fit in a byte. -/
theorem operands_lt (hbase : base.WellFormed) (hargs : ∀ t ∈ base.params, t ≠ .void)
    (hcheck : e.check base = .ok ()) (hwords : ∀ n ∈ e.words, n < Text.wordCount) :
    ∀ v ∈ e.normal.operands.2, v < 256 := by
  have harity : base.arity ≤ Signature.maxSlots := by
    rw [← Form.length_params hbase]
    exact Nat.le_trans (BasicType.length_le_slotSum hargs) hbase.slots_le
  exact operands_normal_lt (operands_lt_of_arity hbase hcheck hwords (Nat.lt_succ_of_le harity))

end Edit

namespace EditKey

/-! ## Keys say which edit they are of -/

theorem toNat_ordinal (kind : EditKind) : (UInt8.ofNat kind.ordinal).toNat = kind.ordinal := by
  cases kind <;> rfl

theorem map_toNat_ofNat {vs : List Nat} (hvs : ∀ v ∈ vs, v < 256) :
    (vs.map UInt8.ofNat).map UInt8.toNat = vs := by
  rw [List.map_map]
  exact (List.map_congr_left fun v hv => UInt8.toNat_ofNat_of_lt' (hvs v hv)).trans (List.map_id vs)

/-- A key is made of operands that fit in a byte; its bytes are the ordinal of the kind and the
operands, and it is packed exactly when the bytes are short and small enough. Keys are equal only
when kinds and operands are, and every edit that a form without parameters of type `void` lets
through has operands that fit. -/
theorem keys_faithful :
    (∀ kind vs, (∀ v ∈ vs, v < 256) → ∃ key, of kind vs = .ok key ∧
      key.toBytes.map UInt8.toNat = kind.ordinal :: vs ∧ key.kind = kind ∧
      (key.isPacked = true ↔ key.toBytes.length ≤ 15 ∧ ∀ b ∈ key.toBytes, b < 16) ∧
      ∀ word, key.word? = some word → word = packWord key.toBytes) ∧
    (∀ kind vs kind' ws, (∀ v ∈ vs, v < 256) → (∀ w ∈ ws, w < 256) →
      (of kind vs = of kind' ws ↔ kind = kind' ∧ vs = ws)) ∧
    ∀ (base : Form) (e : Edit), base.WellFormed → (∀ t ∈ base.params, t ≠ .void) →
      (∀ n ∈ e.words, n < Text.wordCount) → e.check base = .ok () →
      ∀ v ∈ e.normal.operands.2, v < 256 := by
  refine ⟨fun kind vs hvs => ?_, fun kind vs kind' ws hvs hws => ?_,
    fun base e hbase hargs hwords hcheck => Edit.operands_lt hbase hargs hcheck hwords⟩
  · refine ⟨_, of_eq_ok_iff.2 ⟨hvs, rfl⟩, ?_, ?_, ?_, ?_⟩
    · rw [toBytes_ofBytes, List.map_cons, toNat_ordinal, map_toNat_ofNat hvs]
    · rw [kind_ofBytes, toNat_ordinal, EditKind.ofOrdinal?_ordinal, Option.getD_some]
    · rw [isPacked_ofBytes, toBytes_ofBytes, fits_iff]
      rfl
    · intro word hword
      rw [toBytes_ofBytes]
      exact word?_ofBytes hword
  · constructor
    · intro heq
      exact of_inj (of_eq_ok_iff.2 ⟨hvs, rfl⟩) (heq ▸ of_eq_ok_iff.2 ⟨hvs, rfl⟩)
    · rintro ⟨rfl, rfl⟩
      rfl

/-- The key of a merge of two parameters, which a zero behind the operands would change. -/
theorem key_of_dup :
    (∃ key, of .dupArg [1, 2] = .ok key ∧ key.toBytes.map UInt8.toNat = [3, 1, 2] ∧
      key.kind = .dupArg) ∧
    of .dupArg [1, 2] ≠ of .dupArg [1, 2, 0] ∧
    ∀ v ∈ (Edit.dup 1 2).normal.operands.2, v < 256 := by
  obtain ⟨hkey, hequal, hoperands⟩ := keys_faithful
  refine ⟨?_, fun heq => ?_, ?_⟩
  · obtain ⟨key, hof, hbytes, hkind, -⟩ := hkey .dupArg [1, 2] (by decide)
    exact ⟨key, hof, hbytes, hkind⟩
  · exact absurd ((hequal _ _ _ _ (by decide) (by decide)).1 heq).2 (by decide)
  · exact hoperands ⟨0, 3, [.param .ref, .param .int, .param .int], none, .generic⟩ (.dup 1 2)
      (Form.defect?_eq_none_iff.1 rfl) (by decide) (by decide) rfl

set_option maxRecDepth 4000 in
/-- A form of one slot with 256 parameters of type `void`: the position of the last one does not fit
in a byte. -/
theorem dup_past_byte : ∃ base : Form,
    Form.build 0 257 (.param .ref :: List.replicate 256 (.param .void)) none .generic = .ok base ∧
    base.slots = 1 ∧ (Edit.dup 1 256).check base = .ok () ∧
    (Edit.dup 1 256).normal.operands.2 = [1, 256] ∧
    (Edit.dup 1 256).normal.key = .error (.keyOperand 256 "DupArg") :=
  ⟨⟨0, 257, .param .ref :: List.replicate 256 (.param .void), none, .generic⟩, rfl,
    by decide +kernel, rfl, rfl, rfl⟩

end EditKey

end HandleForms
