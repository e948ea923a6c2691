import HandleForms.Proofs.Edit.Key
import HandleForms.Proofs.Edit.Shape
import HandleForms.Proofs.Signature.Basic
import Mathlib.Data.List.Perm.Subperm

/-!
# Which edits are accepted

`Edit.check` is a list of preconditions and refusals in the order in which they are looked at. What
it lets through is carried out by an adaptation (`adapts_of_check`), and what the cache knows by the
same key is carried out by the same one (`Adapts.eq_of_key`).
-/

namespace HandleForms

namespace Form

variable {f : Form} {pos count : Nat} {t : BasicType} {added removed : List BasicType}

theorem expectParam_eq_ok_iff : f.expectParam pos t = .ok () ↔ f.param? pos = some t := by
  unfold expectParam paramType
  cases f.param? pos with
  | none => simp
  | some u => by_cases h : u = t <;> simp [h, pure, Except.pure, throw, throwThe, MonadExceptOf.throw]

theorem expectParams_eq_ok_iff {ts : List BasicType} :
    f.expectParams pos ts = .ok () ↔ ts <+: f.params.drop pos := by
  induction ts generalizing pos with
  | nil => simp [expectParams]
  | cons t ts ih =>
    have hstep : f.expectParams pos (t :: ts) = .ok () ↔
        f.param? pos = some t ∧ ts <+: f.params.drop (pos + 1) := by
      rw [expectParams, bind_unit_eq_ok_iff, expectParam_eq_ok_iff, ih]
    rw [hstep]
    constructor
    · rintro ⟨ht, hts⟩
      obtain ⟨hlt, rfl⟩ := List.getElem?_eq_some_iff.1 ht
      rw [List.drop_eq_getElem_cons hlt]
      exact List.cons_prefix_cons.2 ⟨rfl, hts⟩
    · intro h
      have hlt : pos < f.params.length := by
        have := h.length_le
        simp at this
        omega
      rw [List.drop_eq_getElem_cons hlt, List.cons_prefix_cons] at h
      exact ⟨List.getElem?_eq_some_iff.2 ⟨hlt, h.1.symm⟩, h.2⟩

theorem expectRun_eq_ok_iff :
    f.expectRun pos t count = .ok () ↔ ∀ k < count, f.param? (pos + k) = some t := by
  induction count generalizing pos with
  | zero => simp [expectRun]
  | succ count ih =>
    rw [expectRun, bind_unit_eq_ok_iff, expectParam_eq_ok_iff, ih]
    constructor
    · rintro ⟨h0, hs⟩ k hk
      cases k with
      | zero => exact h0
      | succ k => exact Nat.add_right_comm pos k 1 ▸ hs k (by omega)
    · intro h
      exact ⟨h 0 (by omega), fun k hk => Nat.add_right_comm pos 1 k ▸ h (k + 1) (by omega)⟩

theorem checkSlots_eq_ok_iff : f.checkSlots added removed = .ok () ↔
    f.slots + BasicType.slotSum added - BasicType.slotSum removed ≤ Signature.maxSlots := by
  simp only [checkSlots]
  split
  · next h =>
    simp only [reduceCtorEq, false_iff, Nat.not_le]
    exact h
  · next h => exact ⟨fun _ => Nat.not_lt.1 h, fun _ => rfl⟩

end Form

/-- Types that are no `void` and fit in the slots make a signature. -/
theorem Signature.exists_ofBasic (ret : BasicType) {ts : List BasicType} (h : ∀ t ∈ ts, t ≠ .void)
    (hslots : BasicType.slotSum ts ≤ maxSlots) : ∃ s, ofBasic ret ts = .ok s := by
  have hsum : Ty.slotSum (ts.map BasicType.ty) = BasicType.slotSum ts := by
    simp [Ty.slotSum, Function.comp_def]
  refine exists_ofTypes _ (fun ty hty hvoid => ?_) (hsum ▸ hslots)
  obtain ⟨t, ht, rfl⟩ := List.mem_map.1 hty
  cases t <;> first | exact absurd rfl (h _ ht) | cases hvoid

theorem Form.Editable.exists_signature {f : Form} (h : f.Editable) : ∃ s, f.signature = .ok s := by
  obtain ⟨s, hs⟩ := Signature.exists_ofBasic f.ret h.args h.wellFormed.slots_le
  exact ⟨s, by simp [Form.signature, hs]⟩

namespace Edit

theorem require_eq_ok_iff {p : Prop} [Decidable p] {v : Violation} :
    require p v = .ok () ↔ p := by
  unfold require
  split <;> simp_all

/-- Whether the sums of positions and counts fit in a machine word. -/
def InWords : Edit → Prop
  | spread pos _ count => pos + count < Text.wordCount
  | collect pos collector => pos + resultArity (collector.basicRet == .void) < Text.wordCount
  | fold pos drop combiner => pos + resultArity drop + combiner.arity < Text.wordCount
  | bind _ _ | add _ _ | dup _ _ | filter _ _ | filterReturn _ | zeroReturn _ | permute _ _ => True

theorem isArg_iff {t : BasicType} : t.isArg = true ↔ t ≠ .void := by
  simp [BasicType.isArg]

theorem length_eraseDups_le (ns : List Nat) : ns.eraseDups.length ≤ ns.length := by
  induction h : ns.length using Nat.strongRecOn generalizing ns with
  | ind k ih =>
    cases ns with
    | nil => simp
    | cons n ns =>
      have hfilter := List.length_filter_le (fun b => !b == n) ns
      have hrest := ih _ (by rw [← h]; exact Nat.lt_succ_of_le hfilter) _ rfl
      rw [List.eraseDups_cons, List.length_cons, ← h, List.length_cons]
      omega

/-- A list that loses nothing with its duplicates has none. -/
theorem nodup_of_length_eraseDups {ns : List Nat} (h : ns.eraseDups.length = ns.length) :
    ns.Nodup := by
  induction ns with
  | nil => exact List.nodup_nil
  | cons n ns ih =>
    rw [List.eraseDups_cons, List.length_cons, List.length_cons] at h
    have hle := length_eraseDups_le (ns.filter fun b => !b == n)
    have hfilter := List.length_filter_le (fun b => !b == n) ns
    have hall := List.length_filter_eq_length_iff.1
      (show (ns.filter fun b => !b == n).length = ns.length by omega)
    rw [List.filter_eq_self.2 hall] at h
    refine List.nodup_cons.2 ⟨fun hn => ?_, ih (by omega)⟩
    simpa using hall n hn

theorem perm_of_isPermutation {reorder : List Nat} (h : isPermutation reorder = true) :
    reorder.Perm (List.range reorder.length) := by
  simp only [isPermutation, Bool.and_eq_true, List.all_eq_true, decide_eq_true_eq,
    beq_iff_eq] at h
  have hsub : reorder ⊆ List.range reorder.length := fun r hr => List.mem_range.2 (h.1 r hr)
  exact (List.subperm_of_subset (nodup_of_length_eraseDups h.2) hsub).perm_of_length_le (by simp)

theorem isPermutation_of_perm {reorder : List Nat}
    (h : reorder.Perm (List.range reorder.length)) : isPermutation reorder = true := by
  have hdups : ∀ ns : List Nat, ns.Nodup → ns.eraseDups = ns := by
    intro ns hns
    induction ns with
    | nil => rfl
    | cons n ns ih =>
      obtain ⟨hn, hns⟩ := List.nodup_cons.1 hns
      have hall : (ns.filter fun b => !b == n) = ns :=
        List.filter_eq_self.2 fun b hb => by simpa using fun heq : b = n => hn (heq ▸ hb)
      rw [List.eraseDups_cons, hall, ih hns]
  simp only [isPermutation, Bool.and_eq_true, List.all_eq_true, decide_eq_true_eq, beq_iff_eq]
  exact ⟨fun r hr => List.mem_range.1 (h.subset hr),
    by rw [hdups _ (h.nodup_iff.2 List.nodup_range)]⟩

variable {base : Form} {e : Edit}

/-- The slots after `added` takes the place of the parameters from `pos` up to `pos + r`. -/
theorem slotSum_spliced {added : List BasicType} {pos r : Nat} (h : base.slots +
      BasicType.slotSum added - BasicType.slotSum ((base.params.take (pos + r)).drop pos) ≤
        Signature.maxSlots) :
    BasicType.slotSum (base.params.take pos ++ (added ++ base.params.drop (pos + r))) ≤
      Signature.maxSlots := by
  have hsum := BasicType.slotSum_take_drop base.params (Nat.le_add_right pos r)
  simp only [BasicType.slotSum_append, Form.slots] at h ⊢
  omega

theorem ofBasic_one (ret : BasicType) {type : BasicType} (h : type ≠ .void) :
    ∃ check, Signature.ofBasic ret [type] = .ok check := by
  refine Signature.exists_ofBasic ret (by simpa using h) ?_
  cases type <;> decide

theorem take_drop_one {pos : Nat} {t : BasicType} (h : base.param? pos = some t) :
    (base.params.take (pos + 1)).drop pos = [t] := by
  obtain ⟨hlt, rfl⟩ := List.getElem?_eq_some_iff.1 h
  rw [List.drop_take, Nat.add_sub_cancel_left, List.drop_eq_getElem_cons hlt]
  rfl

/-- The edits that are refused only while they are carried out: a carrier cannot be bound, and a
result that a filter cannot take cannot be filtered. -/
def Refused (base : Form) (e : Edit) : Prop :=
  (∃ type, e = bind 0 type ∧ base.fields ≠ []) ∨
    ∃ type err, e = filterReturn type ∧
      Signature.ofBasic type (base.result.toList.map fun _ => base.ret) = .error err

theorem not_refused_of_ne (hbind : ∀ type, e ≠ bind 0 type) (hreturn : ∀ type, e ≠ filterReturn type) :
    ¬ e.Refused base := by
  rintro (⟨type, htype, -⟩ | ⟨type, err, htype, -⟩)
  · exact hbind type htype
  · exact hreturn type htype

theorem wordAdd_le {a b n : Nat} (h : a + b < Text.wordCount) :
    Text.wordAdd a b ≤ n ↔ a + b ≤ n := by
  rw [Text.wordAdd_of_lt h]

theorem normal_collect_void {pos : Nat} {collector : Signature} (h : collector.basicRet = .void) :
    (collect pos collector).normal =
      collect (if collector.basicParams = [] then 1 else pos) collector := by
  rw [normal, h]
  rcases collector.basicParams with _ | ⟨t, _ | ⟨u, ts⟩⟩ <;> simp

theorem normal_collect_one {pos : Nat} {collector : Signature} {t : BasicType}
    (h : collector.basicRet ≠ .void) (ht : collector.basicParams = [t]) :
    (collect pos collector).normal = filter pos t := by
  unfold normal
  split <;> simp_all

theorem normal_collect_of_ne {pos : Nat} {collector : Signature} (h : collector.basicRet ≠ .void)
    (ht : ∀ t, collector.basicParams ≠ [t]) :
    (collect pos collector).normal = collect pos collector := by
  unfold normal
  split <;> simp_all

/-- What is let through is carried out by an adaptation or refused then. -/
theorem adapts_of_check (hbase : base.Editable) (hcheck : e.check base = .ok ())
    (hwords : e.normal.InWords) (g : CarrierGrowth) :
    (∃ A, Adapts base g e.normal A) ∨ e.Refused base := by
  have hlen := Form.length_params hbase.wellFormed
  cases e with
  | bind pos type =>
    simp only [check, bind_unit_eq_ok_iff, require_eq_ok_iff, Form.expectParam_eq_ok_iff] at hcheck
    obtain ⟨hlt, htype⟩ := hcheck
    cases pos with
    | succ pos => exact .inl ⟨_, .bind (Nat.succ_pos pos) htype⟩
    | zero =>
      obtain rfl : type = .ref := by simpa [hbase.ref] using htype.symm
      by_cases hplain : base.fields = []
      · exact .inl ⟨_, .bindHandle hplain⟩
      · exact .inr (.inl ⟨_, rfl, hplain⟩)
  | add pos type =>
    simp only [check, bind_unit_eq_ok_iff, require_eq_ok_iff, Form.checkSlots_eq_ok_iff,
      isArg_iff] at hcheck
    obtain ⟨⟨hpos, hle⟩, hvoid, hslots⟩ := hcheck
    exact .inl ⟨_, .add hpos hle hvoid (by simpa using hslots)⟩
  | dup src dst =>
    simp only [check, bind_unit_eq_ok_iff, require_eq_ok_iff] at hcheck
    obtain ⟨⟨hpos, hlt, hdst⟩, -, -, hcheck⟩ := hcheck
    obtain ⟨type, hsrc, hparam⟩ := bind_eq_ok_iff.1 hcheck
    rw [Form.expectParam_eq_ok_iff] at hparam
    have hsrc := Form.paramType_eq_ok_iff.1 (Stop.ofViolation_eq_ok_iff.1 hsrc)
    exact .inl ⟨_, .dup hpos hlt hdst (hparam.trans hsrc.symm)⟩
  | spread pos array count =>
    simp only [check, bind_unit_eq_ok_iff, require_eq_ok_iff] at hcheck
    obtain ⟨⟨hpos, hle⟩, hcheck⟩ := hcheck
    rw [wordAdd_le hwords] at hle
    cases harray : array.component? with
    | none => simp [harray, throw, throwThe, MonadExceptOf.throw] at hcheck
    | some element =>
      simp only [harray, bind_unit_eq_ok_iff, Form.expectRun_eq_ok_iff, Ty.basicType_erase,
        Form.checkSlots_eq_ok_iff] at hcheck
      obtain ⟨htypes, hslots⟩ := hcheck
      refine .inl ⟨_, .spread harray hpos hle htypes (slotSum_spliced ?_)⟩
      have hrun : (base.params.take (pos + count)).drop pos =
          List.replicate count element.basicType := by
        have htypes : ∀ k < count, base.params[pos + k]? = some element.basicType := htypes
        refine List.ext_getElem? fun k => ?_
        rw [List.getElem?_drop, List.getElem?_take, List.getElem?_replicate]
        by_cases hk : k < count
        · simpa [hk] using htypes k hk
        · simp [hk]
      rw [hrun]
      exact hslots
  | filter pos type =>
    simp only [check, bind_unit_eq_ok_iff, require_eq_ok_iff, isArg_iff] at hcheck
    obtain ⟨⟨hpos, hlt⟩, hvoid, hcheck⟩ := hcheck
    obtain ⟨ret, hparam, hslots⟩ := bind_eq_ok_iff.1 hcheck
    rw [Form.checkSlots_eq_ok_iff] at hslots
    have hparam := Form.paramType_eq_ok_iff.1 (Stop.ofViolation_eq_ok_iff.1 hparam)
    obtain ⟨check, hfilter⟩ := ofBasic_one ret hvoid
    refine .inl ⟨_, .filter hpos hparam hfilter (slotSum_spliced ?_)⟩
    rw [take_drop_one hparam]
    exact hslots
  | collect pos collector =>
    simp only [check, bind_unit_eq_ok_iff, require_eq_ok_iff] at hcheck
    obtain ⟨⟨hpos, hle⟩, hcheck⟩ := hcheck
    by_cases hvoid : collector.basicRet = .void
    · simp only [hvoid, beq_self_eq_true, if_true, Form.checkSlots_eq_ok_iff] at hcheck hle
      rw [normal_collect_void hvoid] at hwords ⊢
      have hdrop : true = (collector.basicRet == .void) := by simp [hvoid]
      have hslots : ∀ pos, BasicType.slotSum (base.params.take pos ++ (collector.basicParams ++
          base.params.drop (pos + resultArity true))) ≤ Signature.maxSlots := by
        intro pos
        refine slotSum_spliced ?_
        have : (base.params.take (pos + resultArity true)).drop pos = [] := by simp [resultArity]
        rw [this]
        exact hcheck
      by_cases hnone : collector.basicParams = []
      · rw [if_pos hnone]
        exact .inl ⟨_, .collect Nat.one_pos hdrop hbase.arity_pos (by simp) (hslots 1)⟩
      · rw [if_neg hnone] at hwords ⊢
        rw [wordAdd_le (by simpa [InWords, hvoid] using hwords)] at hle
        exact .inl ⟨_, .collect hpos hdrop hle (by simp) (hslots pos)⟩
    · simp only [beq_eq_false_iff_ne.2 hvoid, Bool.false_eq_true, if_false, bind_unit_eq_ok_iff,
        Form.expectParam_eq_ok_iff, Form.checkSlots_eq_ok_iff] at hcheck
      obtain ⟨hparam, hslots⟩ := hcheck
      have hlt := (List.getElem?_eq_some_iff.1 hparam).1
      have hslots : BasicType.slotSum (base.params.take pos ++ (collector.basicParams ++
          base.params.drop (pos + 1))) ≤ Signature.maxSlots := slotSum_spliced
        (by rwa [take_drop_one hparam])
      by_cases hone : ∃ t, collector.basicParams = [t]
      · obtain ⟨t, ht⟩ := hone
        have hne : t ≠ .void := Signature.ne_void_of_mem_basicParams ht t (List.mem_singleton_self t)
        obtain ⟨check, hfilter⟩ := ofBasic_one collector.basicRet hne
        rw [normal_collect_one hvoid ht]
        exact .inl ⟨_, .filter hpos hparam hfilter (ht ▸ hslots)⟩
      · rw [normal_collect_of_ne hvoid fun t ht => hone ⟨t, ht⟩]
        exact .inl ⟨_, .collect hpos (beq_eq_false_iff_ne.2 hvoid).symm (hlen ▸ hlt)
          (fun _ => hparam) hslots⟩
  | filterReturn type =>
    cases hfilter : Signature.ofBasic type (base.result.toList.map fun _ => base.ret) with
    | ok filter => exact .inl ⟨_, .filterReturn hfilter⟩
    | error err => exact .inr (.inr ⟨_, _, rfl, hfilter⟩)
  | zeroReturn type => exact .inl ⟨_, .zeroReturn⟩
  | fold pos drop combiner =>
    simp only [check, bind_unit_eq_ok_iff, require_eq_ok_iff] at hcheck
    obtain ⟨hpos, hcheck⟩ := hcheck
    have hwords : pos + resultArity drop + combiner.arity < Text.wordCount := hwords
    have hwords' : pos + resultArity drop < Text.wordCount := by omega
    rw [Text.wordAdd_of_lt hwords', Text.wordAdd_of_lt hwords] at hcheck
    split at hcheck
    · obtain ⟨s, hs⟩ := hbase.exists_signature
      simp [hs, throw, throwThe, MonadExceptOf.throw] at hcheck
    · next hcond =>
      obtain ⟨hdrop, hle⟩ := not_or.1 hcond
      have hdrop : drop = (combiner.basicRet == .void) := by
        cases drop <;> simpa using hdrop
      cases drop with
      | true =>
        simp only [Bool.not_true, Bool.false_eq_true, if_false,
          Form.expectParams_eq_ok_iff] at hcheck
        exact .inl ⟨_, .fold hpos hdrop (by omega) (by simp) hcheck⟩
      | false =>
        simp only [Bool.not_false, if_true, bind_unit_eq_ok_iff, Form.expectParam_eq_ok_iff,
          Form.expectParams_eq_ok_iff] at hcheck
        exact .inl ⟨_, .fold hpos hdrop (by omega) (fun _ => hcheck.1) hcheck.2⟩
  | permute skip reorder =>
    simp only [check, bind_unit_eq_ok_iff, require_eq_ok_iff] at hcheck
    obtain ⟨rfl, hlength, hperm⟩ := hcheck
    exact .inl ⟨_, .permute hlength (perm_of_isPermutation hperm)⟩

/-! ## Edits with the same key -/

/-- Operands of a key are positions and counts, and their sums do not come near the end of a word. -/
theorem inWords_of_key {key : EditKey} (h : e.key = .ok key) : e.InWords := by
  have hlt := (EditKey.of_eq_ok_iff.1 h).1
  have hresult : ∀ drop, resultArity drop ≤ 1 := fun drop => by cases drop <;> simp [resultArity]
  cases e with
  | spread pos array count =>
    have hpos := hlt pos (by simp [operands])
    have hcount := hlt count (by simp [operands])
    simp only [InWords, Text.wordCount, UInt64.size]
    omega
  | collect pos collector =>
    have hpos := hlt pos (by simp [operands])
    have := hresult (collector.basicRet == .void)
    simp only [InWords, Text.wordCount, UInt64.size]
    omega
  | fold pos drop combiner =>
    have hpos := hlt pos (by simp [operands])
    have harity := hlt combiner.arity (by simp [operands])
    have := hresult drop
    simp only [InWords, Text.wordCount, UInt64.size]
    omega
  | bind _ _ | add _ _ | dup _ _ | filter _ _ | filterReturn _ | zeroReturn _ | permute _ _ =>
    trivial

namespace Adapts

variable {g : CarrierGrowth} {A A' : Adaptation} {e' : Edit}

/-- What is carried out has a key. -/
theorem exists_key (h : Adapts base g e A) (hbase : base.Editable) : ∃ key, e.key = .ok key := by
  suffices hlt : ∀ v ∈ e.operands.2, v < 256 from ⟨_, EditKey.of_eq_ok_iff.2 ⟨hlt, rfl⟩⟩
  have hmax : base.arity ≤ 255 := hbase.arity_le
  have hlen := Form.length_params hbase.wellFormed
  have hordinal : ∀ t : BasicType, t.ordinal < 256 := fun t => by cases t <;> decide
  have harity : ∀ s : Signature, s.arity < 256 := by
    intro s
    have := BasicType.length_le_slotSum (Signature.ne_void_of_mem_basicParams (s := s) rfl)
    rw [Signature.length_basicParams, Signature.slotSum_basicParams] at this
    exact Nat.lt_succ_of_le (Nat.le_trans this s.slots_le)
  have hparam : ∀ {pos t}, base.param? pos = some t → pos < base.arity := fun ht =>
    hlen ▸ (List.getElem?_eq_some_iff.1 ht).1
  cases h with
  | bind hpos htype =>
    have := hparam htype
    simp [operands]
    omega
  | bindHandle hplain => simp [operands]
  | add hpos hle hvoid hslots =>
    simp [operands, hordinal]
    omega
  | dup hpos hlt hdst htype =>
    simp [operands]
    omega
  | @spread pos count array element harray hpos hle htypes hslots =>
    have helement : elementOperand element.erase < 256 := by
      unfold elementOperand
      split <;> simp [BasicType.count, BasicType.all, hordinal]
    simp [operands, harray, helement]
    omega
  | filter hpos htype hfilter hslots =>
    have := hparam htype
    simp [operands, hordinal]
    omega
  | @collect pos collector drop hpos hdrop hle hret hslots =>
    have := harity collector
    simp [operands, hordinal]
    omega
  | filterReturn hfilter => simp [operands, hordinal]
  | zeroReturn => simp [operands, hordinal]
  | @fold pos combiner drop hpos hdrop hle hret hkept =>
    have := harity combiner
    simp [operands]
    omega
  | permute hlength hperm =>
    intro r hr
    have := List.mem_range.1 (hperm.subset hr)
    omega

theorem ctorIdx_eq_of_kind (h : e.operands.1 = e'.operands.1) : e.ctorIdx = e'.ctorIdx := by
  revert h
  cases e <;> cases e' <;> simp only [operands] <;> (try split) <;> (try split) <;>
    first | exact fun _ => rfl | exact nofun

/-- Erased element types have numbers of their own. -/
theorem elementOperand_inj {s t : Ty}
    (h : elementOperand s.erase = elementOperand t.erase) : s.erase = t.erase := by
  revert h
  cases s <;> cases t <;> first | exact fun _ => rfl | exact nofun

theorem basic_eq {s t : Signature} (hparams : s.basicParams = t.basicParams)
    (hret : s.basicRet = t.basicRet) : s.basic = t.basic := by
  refine Signature.ext' ?_ (congrArg BasicType.ty hret)
  have hbasic : ∀ u : Signature, u.basic.params = u.basicParams.map BasicType.ty := fun u =>
    (List.map_map ..).symm
  rw [hbasic, hbasic, hparams]

/-- A result that is used has the type of the parameter that it supplies. -/
theorem basicRet_eq {pos : Nat} {drop : Bool} {s t : Signature}
    (hdrop : drop = (s.basicRet == .void)) (hdrop' : drop = (t.basicRet == .void))
    (hret : drop = false → base.param? pos = some s.basicRet)
    (hret' : drop = false → base.param? pos = some t.basicRet) : s.basicRet = t.basicRet := by
  cases drop with
  | false => exact Option.some.inj ((hret rfl).symm.trans (hret' rfl))
  | true => rw [beq_iff_eq.1 hdrop.symm, beq_iff_eq.1 hdrop'.symm]

/-- Edits that the cache of the base knows by the same key are carried out by the same
adaptation. -/
theorem eq_of_key {key : EditKey} (h : Adapts base g e A) (h' : Adapts base g e' A')
    (hkey : e.key = .ok key) (hkey' : e'.key = .ok key) : A = A' ∧ e.field? = e'.field? := by
  obtain ⟨hkind, hops⟩ := EditKey.of_inj hkey hkey'
  have hctor := ctorIdx_eq_of_kind hkind
  cases h with
  | bind hpos htype =>
    cases h' with
    | bind hpos' htype' =>
      obtain rfl := List.singleton_inj.1 hops
      obtain rfl := Option.some.inj (htype.symm.trans htype')
      exact ⟨rfl, rfl⟩
    | bindHandle hplain' => exact absurd (List.singleton_inj.1 hops) (Nat.ne_of_gt hpos)
    | _ => cases hctor
  | bindHandle hplain =>
    cases h' with
    | bind hpos' htype' => exact absurd (List.singleton_inj.1 hops) (Nat.ne_of_lt hpos')
    | bindHandle hplain' => exact ⟨rfl, rfl⟩
    | _ => cases hctor
  | add hpos hle hvoid hslots =>
    cases h' with
    | add hpos' hle' hvoid' hslots' =>
      simp only [operands, List.cons.injEq, and_true] at hops
      obtain ⟨rfl, htype⟩ := hops
      obtain rfl := BasicType.ordinal_inj htype
      exact ⟨rfl, rfl⟩
    | _ => cases hctor
  | dup hpos hlt hdst htype =>
    cases h' with
    | dup hpos' hlt' hdst' htype' =>
      simp only [operands, List.cons.injEq, and_true] at hops
      obtain ⟨rfl, rfl⟩ := hops
      exact ⟨rfl, rfl⟩
    | _ => cases hctor
  | spread harray hpos hle htypes hslots =>
    cases h' with
    | spread harray' hpos' hle' htypes' hslots' =>
      simp only [operands, harray, harray', Option.getD_some, List.cons.injEq, and_true] at hops
      obtain ⟨rfl, helement, rfl⟩ := hops
      rw [elementOperand_inj helement]
      exact ⟨rfl, rfl⟩
    | _ => cases hctor
  | filter hpos htype hfilter hslots =>
    cases h' with
    | filter hpos' htype' hfilter' hslots' =>
      simp only [operands, List.cons.injEq, and_true] at hops
      obtain ⟨rfl, htypes⟩ := hops
      obtain rfl := BasicType.ordinal_inj htypes
      obtain rfl := Option.some.inj (htype.symm.trans htype')
      obtain rfl := Except.ok.inj (hfilter.symm.trans hfilter')
      exact ⟨rfl, rfl⟩
    | _ => cases hctor
  | @collect pos collector drop hpos hdrop hle hret hslots =>
    cases h' with
    | @collect pos' collector' drop' hpos' hdrop' hle' hret' hslots' =>
      simp only [operands, List.cons.injEq] at hops
      obtain ⟨rfl, -, hparams⟩ := hops
      have hparams := List.map_injective_iff.2 (fun _ _ => BasicType.ordinal_inj) hparams
      have hkind : (if collector.basicRet = .void then EditKind.collectArgsToVoid
          else EditKind.collectArgs) = if collector'.basicRet = .void then .collectArgsToVoid
          else .collectArgs := hkind
      obtain rfl : drop = drop' := by
        rw [hdrop, hdrop']
        by_cases h1 : collector.basicRet = .void <;> by_cases h2 : collector'.basicRet = .void <;>
          simp [h1, h2] at hkind ⊢
      rw [basic_eq hparams (basicRet_eq hdrop hdrop' hret hret')]
      exact ⟨rfl, rfl⟩
    | _ => cases hctor
  | filterReturn hfilter =>
    cases h' with
    | filterReturn hfilter' =>
      obtain rfl := BasicType.ordinal_inj (List.singleton_inj.1 hops)
      obtain rfl := Except.ok.inj (hfilter.symm.trans hfilter')
      exact ⟨rfl, rfl⟩
    | _ => cases hctor
  | zeroReturn =>
    cases h' with
    | zeroReturn =>
      obtain rfl := BasicType.ordinal_inj (List.singleton_inj.1 hops)
      exact ⟨rfl, rfl⟩
    | _ => cases hctor
  | @fold pos combiner drop hpos hdrop hle hret hkept =>
    cases h' with
    | @fold pos' combiner' drop' hpos' hdrop' hle' hret' hkept' =>
      simp only [operands, List.cons.injEq, and_true] at hops
      obtain ⟨rfl, harity⟩ := hops
      have hkind : (if drop = true then EditKind.foldArgsToVoid else EditKind.foldArgs) =
          if drop' = true then .foldArgsToVoid else .foldArgs := hkind
      obtain rfl : drop = drop' := by cases drop <;> cases drop' <;> simp at hkind ⊢
      have hparams := (List.prefix_of_prefix_length_le hkept hkept'
        (by simp [harity])).eq_of_length (by simp [harity])
      rw [basic_eq hparams (basicRet_eq hdrop hdrop' hret hret')]
      exact ⟨rfl, rfl⟩
    | _ => cases hctor
  | permute hlength hperm =>
    cases h' with
    | permute hlength' hperm' =>
      obtain rfl := hops
      exact ⟨rfl, rfl⟩
    | _ => cases hctor

/-- What is refused while it is carried out has the key of no edit that is carried out. -/
theorem not_refused {key : EditKey} (h : Adapts base g e A) (hkey : e.key = .ok key)
    (hkey' : e'.normal.key = .ok key) : ¬ e'.Refused base := by
  obtain ⟨hkind, hops⟩ := EditKey.of_inj hkey hkey'
  have hctor := ctorIdx_eq_of_kind hkind
  rintro (⟨type, rfl, hfields⟩ | ⟨type, err, rfl, herr⟩)
  · cases h with
    | bind hpos htype => exact absurd (List.singleton_inj.1 hops) (Nat.ne_of_gt hpos)
    | bindHandle hplain => exact hfields hplain
    | _ => cases hctor
  · cases h with
    | filterReturn hfilter =>
      obtain rfl := BasicType.ordinal_inj (List.singleton_inj.1 hops)
      cases hfilter.symm.trans herr
    | _ => cases hctor

end Adapts

/-- What is let through has a key. -/
theorem exists_key_of_check (hbase : base.Editable) (hcheck : e.check base = .ok ())
    (hwords : e.normal.InWords) : ∃ key, e.normal.key = .ok key := by
  rcases adapts_of_check hbase hcheck hwords ⟨⟨0, []⟩, ⟨0, []⟩⟩ with ⟨A, hA⟩ | hrefused
  · exact hA.exists_key hbase
  · rcases hrefused with ⟨type, rfl, -⟩ | ⟨type, err, rfl, -⟩
    · exact ⟨_, EditKey.of_eq_ok_iff.2 ⟨by simp [normal, operands], rfl⟩⟩
    · have hordinal : type.ordinal < 256 := by cases type <;> decide
      exact ⟨_, EditKey.of_eq_ok_iff.2 ⟨by simpa [normal, operands] using hordinal, rfl⟩⟩

/-! ## Preconditions -/

/-- The preconditions of an edit that concern the base alone. Sums of positions and counts stand
for themselves here, so they have to fit in a machine word. -/
def Allowed (base : Form) : Edit → Prop
  | bind pos _ => pos < base.arity
  | add pos type => 0 < pos ∧ pos ≤ base.arity ∧ type.isArg = true
  | dup src dst => 0 < src ∧ src < dst ∧ dst < base.arity ∧ base.species? src = none ∧
      base.species? dst = none
  | spread pos _ count => 0 < pos ∧ pos + count ≤ base.arity
  | filter pos type => 0 < pos ∧ pos < base.arity ∧ type.isArg = true
  | collect pos collector => 0 < pos ∧ pos + resultArity (collector.basicRet == .void) ≤ base.arity
  | filterReturn _ | zeroReturn _ => True
  | fold pos drop combiner => 0 < pos ∧ pos + resultArity drop + combiner.arity < Text.wordCount
  | permute skip reorder =>
    skip = 1 ∧ skip + reorder.length = base.arity ∧ isPermutation reorder = true

open Stop (Unbroken unbroken_ok unbroken_error)

theorem unbroken_require {p : Prop} [Decidable p] {v : Violation} (h : p) :
    Unbroken (require p v) := by
  rw [require, if_pos h]
  exact unbroken_ok _

theorem unbroken_paramType {pos : Nat} (hbase : base.Editable) (h : pos < base.arity) :
    Unbroken (Stop.ofViolation (base.paramType pos) : Except (Stop FormError) BasicType) := by
  have hlt : pos < base.params.length := Form.length_params hbase.wellFormed ▸ h
  rw [Form.paramType_eq_ok_iff.2 (List.getElem?_eq_getElem hlt)]
  exact unbroken_ok _

theorem unbroken_expectParam {pos : Nat} (hbase : base.Editable) (h : pos < base.arity)
    (t : BasicType) : Unbroken (base.expectParam pos t) := by
  refine (unbroken_paramType hbase h).bind fun actual _ => ?_
  split
  · exact unbroken_ok _
  · exact unbroken_error _

theorem unbroken_expectParams (ts : List BasicType) {pos : Nat} (hbase : base.Editable)
    (h : pos + ts.length ≤ base.arity) : Unbroken (base.expectParams pos ts) := by
  induction ts generalizing pos with
  | nil => exact unbroken_ok _
  | cons t ts ih =>
    rw [List.length_cons] at h
    exact (unbroken_expectParam hbase (by omega) t).bind fun _ _ => ih (by omega)

theorem unbroken_expectRun {count pos : Nat} {t : BasicType} (hbase : base.Editable)
    (h : pos + count ≤ base.arity) : Unbroken (base.expectRun pos t count) := by
  induction count generalizing pos with
  | zero => exact unbroken_ok _
  | succ count ih =>
    exact (unbroken_expectParam hbase (by omega) t).bind fun _ _ => ih (by omega)

theorem unbroken_checkSlots (added removed : List BasicType) :
    Unbroken (base.checkSlots added removed) := by
  simp only [Form.checkSlots]
  split
  · exact unbroken_error _
  · exact unbroken_ok _

/-- Sums within the arity do not reach the end of a word. -/
theorem lt_wordCount {n : Nat} (hbase : base.Editable) (h : n ≤ base.arity) : n < Text.wordCount := by
  have hmax : base.arity ≤ 255 := hbase.arity_le
  simp only [Text.wordCount, UInt64.size]
  omega

/-- What is allowed is let through or refused with an error. -/
theorem unbroken_check (hbase : base.Editable) (h : e.Allowed base) : Unbroken (e.check base) := by
  cases e with
  | bind pos type =>
    have h : pos < base.arity := h
    exact (unbroken_require h).bind fun _ _ => unbroken_expectParam hbase h type
  | add pos type =>
    obtain ⟨hpos, hle, harg⟩ := h
    exact (unbroken_require ⟨hpos, hle⟩).bind fun _ _ => (unbroken_require harg).bind fun _ _ =>
      unbroken_checkSlots _ _
  | dup src dst =>
    obtain ⟨hpos, hlt, hdst, hsrc, hspecies⟩ := h
    refine (unbroken_require ⟨hpos, hlt, hdst⟩).bind fun _ _ =>
      (unbroken_require (by simp [hsrc])).bind fun _ _ =>
        (unbroken_require (by simp [hspecies])).bind fun _ _ =>
          (unbroken_paramType hbase (by omega)).bind fun _ _ => unbroken_expectParam hbase hdst _
  | spread pos array count =>
    obtain ⟨hpos, hle⟩ := h
    refine (unbroken_require ⟨hpos, (wordAdd_le (lt_wordCount hbase hle)).2 hle⟩).bind fun _ _ => ?_
    split
    · exact unbroken_error _
    · exact (unbroken_expectRun hbase hle).bind fun _ _ => unbroken_checkSlots _ _
  | filter pos type =>
    obtain ⟨hpos, hlt, harg⟩ := h
    exact (unbroken_require ⟨hpos, hlt⟩).bind fun _ _ => (unbroken_require harg).bind fun _ _ =>
      (unbroken_paramType hbase hlt).bind fun _ _ => unbroken_checkSlots _ _
  | collect pos collector =>
    obtain ⟨hpos, hle⟩ := h
    refine (unbroken_require ⟨hpos, (wordAdd_le (lt_wordCount hbase hle)).2 hle⟩).bind fun _ _ => ?_
    split
    · exact unbroken_checkSlots _ _
    · next hdrop =>
      rw [Bool.not_eq_true] at hdrop
      rw [hdrop] at hle
      exact (unbroken_expectParam hbase hle _).bind fun _ _ => unbroken_checkSlots _ _
  | filterReturn type => exact unbroken_ok _
  | zeroReturn type => exact unbroken_ok _
  | fold pos drop combiner =>
    obtain ⟨hpos, hwords⟩ := h
    obtain ⟨s, hs⟩ := hbase.exists_signature
    have hwords' : pos + resultArity drop < Text.wordCount := by omega
    simp only [check, Text.wordAdd_of_lt hwords', Text.wordAdd_of_lt hwords]
    refine (unbroken_require hpos).bind fun _ _ => ?_
    split
    · rw [hs]
      exact unbroken_error _
    · next hcond =>
      have hle := Nat.not_lt.1 (not_or.1 hcond).2
      have hparams := unbroken_expectParams combiner.basicParams hbase (by simpa using hle)
      cases drop with
      | true => exact hparams
      | false =>
        have hlt : pos < base.arity := by
          simp only [resultArity, Bool.false_eq_true, if_false] at hle
          omega
        exact (unbroken_expectParam hbase hlt _).bind fun _ _ => hparams
  | permute skip reorder =>
    obtain ⟨hskip, hlen, hperm⟩ := h
    exact (unbroken_require hskip).bind fun _ _ => (unbroken_require hlen).bind fun _ _ =>
      unbroken_require hperm

end Edit

end HandleForms
