import HandleForms.Proofs.Edit.Chain

/-!
# Calls in front of a form

A filter, a collector and a combiner are one thing to the form that they are put in front of: a
handle that is called over the parameters from a position on, which are kept or not, and whose
result, if it has one, takes the place of one parameter (`Edit.Combines`).
-/

namespace HandleForms

namespace Edit

open Adaptation (combining)

variable {base f : Form} {pos : Nat} {c : Signature}

/-- In front of the base, a handle of type `c` is called over the parameters from `pos` on. -/
structure Combines (base : Form) (pos : Nat) (c : Signature) (keep : Bool) (f : Form) : Prop where
  pos_pos : 0 < pos
  le : pos + resultArity (c.basicRet == .void) ≤ base.arity
  /-- Parameters that are kept are there. -/
  kept : keep = true → pos + resultArity (c.basicRet == .void) + c.arity ≤ base.arity
  made : ∃ g sig e id, Adapts base g e (combining base g pos sig keep (c.basicRet == .void)) ∧
    Grows base e g ∧ e.KeepsHandle ∧ e.field? = some .ref ∧ sig.basic = c.basic ∧
    f = (combining base g pos sig keep (c.basicRet == .void)).form base id

/-- A call without parameters and without a result may stand anywhere. -/
theorem combining_nothing {g : CarrierGrowth} (hc : c.basicParams = []) (hpos : 0 < pos)
    (hle : pos ≤ base.arity) :
    combining base g 1 c.basic false true = combining base g pos c.basic false true := by
  have harity : c.basic.arity = 0 := by
    rw [← Signature.length_basicParams, Signature.basicParams_basic, hc]
    rfl
  have hparams : (base.names.take 1).drop 1 ++ (base.names.take base.arity).drop 1 =
      (base.names.take pos).drop 1 ++ (base.names.take base.arity).drop pos := by
    have htake : base.names.take pos = (base.names.take base.arity).take pos := by
      rw [List.take_take, Nat.min_eq_left hle]
    have hsplit : ∀ l : List (Name Form), (l.take pos).drop 1 ++ l.drop pos = l.drop 1 := by
      intro l
      have hdrop : l.drop pos = (l.drop 1).drop (pos - 1) := by
        rw [List.drop_drop, Nat.add_sub_cancel' (Nat.succ_le_of_lt hpos)]
      rw [List.drop_take, hdrop, List.take_append_drop]
    rw [htake, hsplit]
    simp
  have hplace : ∀ (n i : Nat), (if i < n then i else if i < n then base.arity + 1 else i) = i := by
    intro n i
    split
    · rfl
    · rfl
  simp only [combining, Adaptation.combinationParams, Signature.basicParams_basic, hc, harity,
    resultArity, if_true, Bool.false_eq_true, if_false, List.map_nil, List.nil_append,
    List.length_nil, Nat.add_zero, Nat.sub_zero, List.range'_zero, hparams, hplace]

theorem DerivesTo.combines_filter {type : BasicType} (hf : (filter pos type).DerivesTo base f)
    (hbase : base.Editable) (hparams : c.basicParams = [type])
    (hret : base.param? pos = some c.basicRet) : Combines base pos c false f := by
  obtain ⟨g, A, id, hadapts, hg, rfl⟩ := hf
  have hvoid : c.basicRet ≠ .void := hbase.args _ (List.mem_of_getElem? hret)
  have hdrop : (c.basicRet == .void) = false := by simpa using hvoid
  cases hadapts with
  | @filter _ _ ret check hpos htype hfilter hslots =>
    obtain rfl := Option.some.inj (hret.symm.trans htype)
    obtain ⟨hcheck, hcheckRet⟩ := Adapts.basicParams_ofBasic hfilter
    have hbasic : check.basic = c.basic := Adapts.basic_eq (hcheck.trans hparams.symm) hcheckRet
    have hlt := (List.getElem?_eq_some_iff.1 htype).1
    rw [Form.length_params hbase.wellFormed] at hlt
    refine ⟨hpos, by rw [hdrop]; exact hlt, nofun, g, check, _, id, ?_, hg, nofun, rfl, hbasic,
      by rw [hdrop]⟩
    rw [hdrop]
    exact .filter hpos htype hfilter hslots

namespace Answers

theorem combines_filter {type : BasicType} (hf : (filter pos type).Answers base f)
    (hbase : base.Editable) (hparams : c.basicParams = [type])
    (hret : base.param? pos = some c.basicRet) : Combines base pos c false f :=
  (hf.derives.resolve_left fun h => nomatch h.1).combines_filter hbase hparams hret

/-- The ways in which a collector is put in front are one. -/
theorem combines_collect (hf : (collect pos c).Answers base f) (hbase : base.Editable)
    (hle : pos ≤ base.arity) : Combines base pos c false f := by
  have hderives := hf.derives.resolve_left fun h => by cases h.1
  have hcheck := hf.check
  simp only [Edit.check, bind_unit_eq_ok_iff, require_eq_ok_iff] at hcheck
  obtain ⟨⟨hpos, -⟩, hcheck⟩ := hcheck
  have hplain : ∀ {f}, (collect pos c).DerivesTo base f → Combines base pos c false f := by
    rintro f ⟨g, A, id, hadapts, hg, rfl⟩
    cases hadapts with
    | collect hpos hdrop hle hret hslots =>
      subst hdrop
      exact ⟨hpos, hle, by simp, g, c.basic, _, id, .collect hpos rfl hle hret hslots, hg,
        fun _ h => (by cases h), rfl, Signature.basic_basic c, rfl⟩
  by_cases hvoid : c.basicRet = .void
  · rw [normal_collect_void hvoid] at hderives
    split at hderives
    · next hc =>
      obtain ⟨g, A, id, hadapts, hg, rfl⟩ := hderives
      cases hadapts with
      | @collect _ _ drop _ hdrop hle' hret hslots =>
        obtain rfl : drop = true := hdrop.trans (by simpa using hvoid)
        refine ⟨hpos, by rwa [← hdrop], by simp, g, c.basic, _, id, ?_, hg, fun _ h => (by cases h), rfl,
          Signature.basic_basic c, ?_⟩
        · rw [← hdrop, ← combining_nothing hc hpos hle]
          exact .collect Nat.one_pos hdrop hle' hret hslots
        · rw [← hdrop, ← combining_nothing hc hpos hle]
    · exact hplain hderives
  · simp only [beq_eq_false_iff_ne.2 hvoid, Bool.false_eq_true, if_false, bind_unit_eq_ok_iff,
      Form.expectParam_eq_ok_iff] at hcheck
    by_cases hone : ∃ t, c.basicParams = [t]
    · obtain ⟨t, ht⟩ := hone
      rw [normal_collect_one hvoid ht] at hderives
      exact hderives.combines_filter hbase ht hcheck.1
    · rw [normal_collect_of_ne hvoid fun t ht => hone ⟨t, ht⟩] at hderives
      exact hplain hderives

theorem combines_fold {drop : Bool} (hf : (fold pos drop c).Answers base f)
    (hbase : base.Editable) :
    Combines base pos c true f := by
  obtain ⟨g, A, id, hadapts, hg, rfl⟩ := hf.derives.resolve_left fun h => nomatch h.1
  cases hadapts with
  | fold hpos hdrop hle hret hkept =>
    subst hdrop
    have hlength := hkept.length_le
    rw [Signature.length_basicParams, List.length_drop, Form.length_params hbase.wellFormed]
      at hlength
    exact ⟨hpos, hle, fun _ => by omega, g, c.basic, _, id, .fold hpos rfl hle hret hkept, hg, nofun,
      rfl, Signature.basic_basic c, rfl⟩

end Answers

end Edit

end HandleForms
