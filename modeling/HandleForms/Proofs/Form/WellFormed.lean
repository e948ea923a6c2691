import HandleForms.Violation
import Mathlib.Data.List.Forall2

/-!
# Verification finds every defect

`Form.defect?` stops at the first violation that it comes across; `Form.WellFormed` says what holds
when there is none. The two agree (`defect?_eq_none_iff`), so a form that was built is well-formed
and a well-formed form is built (`build_eq_ok_iff`, `assemble_eq_ok_iff`).

Later modules look at expressions one at a time. `Expr.Fits types` says that the operands of an
expression fit its function when `types` are the types of the names before it, and
`wellFormed_iff_fits` states well-formedness in these words.
-/

namespace HandleForms

/-! ## Operands -/

/-- An operand has a type when the names before it have these types. -/
def Arg.Fits (types : List BasicType) (a : Arg) (t : BasicType) : Prop :=
  match a with
  | .name j => types[j]? = some t
  | .const c => c.basicType = t

/-- The operands of an expression are those that its function takes. -/
def Expr.Fits (types : List BasicType) (e : Expr Form) : Prop :=
  List.Forall₂ (Arg.Fits types) e.args e.function.params

namespace Arg

/-- Operands may be renamed along any map that keeps the types. -/
theorem Fits.map {types types' : List BasicType} {a : Arg} {t : BasicType} (f : Nat → Nat)
    (h : a.Fits types t) (hf : ∀ j u, types[j]? = some u → types'[f j]? = some u) :
    (a.map f).Fits types' t := by
  cases a with
  | name j => exact hf j t h
  | const c => exact h

end Arg

namespace Expr

theorem Fits.exists_of_mem {types : List BasicType} {e : Expr Form} (h : e.Fits types) {a : Arg}
    (ha : a ∈ e.args) : ∃ t, a.Fits types t := by
  obtain ⟨i, hi⟩ := List.getElem_of_mem ha
  obtain ⟨hlt, rfl⟩ := hi
  have hlt' : i < e.function.params.length := h.length_eq ▸ hlt
  exact ⟨_, (List.forall₂_iff_get.1 h).2 i hlt hlt'⟩

end Expr

namespace Form

variable {f : Form}

/-- What the names before name `i` have as types. -/
def typesBefore (f : Form) (i : Nat) : List BasicType := (f.names.take i).map Name.type

theorem getElem?_typesBefore {i j : Nat} {t : BasicType} :
    (f.typesBefore i)[j]? = some t ↔ j < i ∧ f.names[j]?.map Name.type = some t := by
  by_cases h : j < i
  · simp [typesBefore, List.getElem?_take_of_lt h, h]
  · have hnone : (f.names.take i)[j]? = none := List.getElem?_take_eq_none (Nat.not_lt.1 h)
    rw [typesBefore, List.getElem?_map, hnone]
    exact ⟨nofun, fun hlt => absurd hlt.1 h⟩

/-! ## Operands have no defect -/

theorem operandDefect?_eq_none_iff {index operand : Nat} {function : String} {a : Arg}
    {t : BasicType} (hi : index < f.size) :
    f.operandDefect? index operand function a t = none ↔ a.Fits (f.typesBefore index) t := by
  cases a with
  | const c => simp [operandDefect?, Arg.Fits]
  | name j =>
    rw [Arg.Fits, getElem?_typesBefore]
    by_cases hj : index ≤ j
    · simp [operandDefect?, hj, Nat.not_lt.2 hj]
    · have hlt : j < f.names.length := by unfold size at hi; omega
      simp [operandDefect?, hj, Nat.lt_of_not_le hj, List.getElem?_eq_getElem hlt]

theorem operandsDefect?_eq_none_iff {index : Nat} {function : String} (hi : index < f.size)
    {args : List Arg} {types : List BasicType} (hl : types.length = args.length) (operand : Nat) :
    f.operandsDefect? index function operand args types = none ↔
      List.Forall₂ (Arg.Fits (f.typesBefore index)) args types := by
  induction args generalizing types operand with
  | nil =>
    obtain rfl := List.length_eq_zero_iff.1 hl
    simp [operandsDefect?]
  | cons a args ih =>
    cases types with
    | nil => simp at hl
    | cons t types =>
      simp only [operandsDefect?, Option.or_eq_none_iff, List.forall₂_cons,
        operandDefect?_eq_none_iff hi, ih (Nat.succ.inj hl)]

/-! ## Names have no defect -/

/-- Name `i` stands where it has to and its operands fit. -/
structure FitsAt (f : Form) (i : Nat) (n : Name Form) : Prop where
  isParam_iff : n.isParam = true ↔ i < f.arity
  carrier : n.species.isSome → i < f.arity ∧ n.type = .ref
  operands : ∀ e, n.expr = some e → e.Fits (f.typesBefore i)

theorem nameDefect?_eq_none_iff {i : Nat} {n : Name Form} (hi : i < f.size) :
    f.nameDefect? i n = none ↔ f.FitsAt i n := by
  have hparam : (n.isParam != decide (i < f.arity)) = false ↔ (n.isParam = true ↔ i < f.arity) := by
    cases n.isParam <;> simp
  have hspecies : (n.species.isSome && (!decide (i < f.arity) || n.type != .ref)) = false ↔
      (n.species.isSome → i < f.arity ∧ n.type = .ref) := by
    cases n.species.isSome <;> simp
  by_cases h1 : n.isParam = true ↔ i < f.arity
  · by_cases h2 : n.species.isSome → i < f.arity ∧ n.type = .ref
    · simp only [nameDefect?, hparam.2 h1, hspecies.2 h2, Bool.false_eq_true, if_false]
      cases he : n.expr with
      | none => simpa using ⟨h1, h2, fun e h => by simp [he] at h⟩
      | some e =>
        have huniq : ∀ d, n.expr = some d → e = d := fun d hd => by simpa [he] using hd
        by_cases hc : e.function.params.length = e.args.length
        · simp only [hc, ne_eq, not_true, if_false, operandsDefect?_eq_none_iff hi hc]
          exact ⟨fun h => ⟨h1, h2, fun d hd => huniq d hd ▸ h⟩, fun h => h.operands e he⟩
        · simp only [hc, ne_eq, not_false_eq_true, if_true, reduceCtorEq, false_iff]
          exact fun hf => hc (hf.operands e he).length_eq.symm
    · have hs := Bool.of_not_eq_false (mt hspecies.1 h2)
      simp only [nameDefect?, hparam.2 h1, hs, Bool.false_eq_true, if_false, if_true, reduceCtorEq,
        false_iff]
      exact fun hf => h2 hf.carrier
  · have hp := Bool.of_not_eq_false (mt hparam.1 h1)
    simp only [nameDefect?, hp, if_true, reduceCtorEq, false_iff]
    exact fun hf => h1 hf.isParam_iff

theorem namesDefect?_eq_none_iff {names before : List (Name Form)} (h : f.names = before ++ names) :
    f.namesDefect? before.length names = none ↔
      ∀ k n, names[k]? = some n → f.FitsAt (before.length + k) n := by
  induction names generalizing before with
  | nil => simp [namesDefect?]
  | cons n ns ih =>
    have hi : before.length < f.size := by simp [size, h]
    have hnext : f.names = (before ++ [n]) ++ ns := by simp [h]
    have ih := ih hnext
    simp only [List.length_append, List.length_cons, List.length_nil, Nat.zero_add] at ih
    simp only [namesDefect?, Option.or_eq_none_iff, nameDefect?_eq_none_iff hi, ih]
    constructor
    · rintro ⟨h0, hs⟩ k m hk
      cases k with
      | zero => obtain rfl : n = m := by simpa using hk
                exact h0
      | succ k => simpa [Nat.add_assoc, Nat.add_comm 1] using hs k m (by simpa using hk)
    · intro hs
      refine ⟨hs 0 n rfl, fun k m hk => ?_⟩
      simpa [Nat.add_assoc, Nat.add_comm 1] using hs (k + 1) m (by simpa using hk)

/-! ## Forms have no defect -/

/-- Well-formedness, one name at a time. -/
theorem wellFormed_iff_fits :
    f.WellFormed ↔ f.arity ≤ f.size ∧ f.slots ≤ Signature.maxSlots ∧
      (∀ i n, f.names[i]? = some n → f.FitsAt i n) ∧ ∀ r, f.result = some r → r < f.size := by
  constructor
  · intro h
    refine ⟨h.arity_le, h.slots_le, fun i n hn => ⟨h.isParam_iff i n hn, h.carrier i n hn, ?_⟩,
      h.result_lt⟩
    intro e he
    refine List.forall₂_iff_get.2 ⟨h.operandCount i n e hn he, fun k hk hk' => ?_⟩
    have ha := List.getElem?_eq_getElem hk
    have ht := List.getElem?_eq_getElem hk'
    simp only [List.get_eq_getElem]
    cases harg : e.args[k] with
    | const c => exact h.constOperand i k c n e _ hn he (by rw [ha, harg]) ht
    | name j =>
      obtain ⟨hj, htype⟩ := h.nameOperand i k j n e _ hn he (by rw [ha, harg]) ht
      have hlt : j < f.names.length := by
        have := (List.getElem?_eq_some_iff.1 hn).1
        omega
      refine getElem?_typesBefore.2 ⟨hj, ?_⟩
      simpa [List.getElem?_eq_getElem hlt] using htype
  · rintro ⟨harity, hslots, hnames, hresult⟩
    refine ⟨harity, hslots, fun i n hn => (hnames i n hn).isParam_iff,
      fun i n hn => (hnames i n hn).carrier,
      fun i n e hn he => ((hnames i n hn).operands e he).length_eq, ?_, ?_, hresult⟩
    · intro i k j n e t hn he ha ht
      obtain ⟨hk, ha⟩ := List.getElem?_eq_some_iff.1 ha
      obtain ⟨hk', ht⟩ := List.getElem?_eq_some_iff.1 ht
      have := (List.forall₂_iff_get.1 ((hnames i n hn).operands e he)).2 k hk hk'
      simp only [List.get_eq_getElem, ha, ht] at this
      obtain ⟨hj, htype⟩ := getElem?_typesBefore.1 this
      exact ⟨hj, by simp [htype]⟩
    · intro i k c n e t hn he ha ht
      obtain ⟨hk, ha⟩ := List.getElem?_eq_some_iff.1 ha
      obtain ⟨hk', ht⟩ := List.getElem?_eq_some_iff.1 ht
      have := (List.forall₂_iff_get.1 ((hnames i n hn).operands e he)).2 k hk hk'
      simpa [ha, ht, Arg.Fits] using this

/-- Verification finds a defect exactly in the forms that have one. -/
theorem defect?_eq_none_iff : f.defect? = none ↔ f.WellFormed := by
  rw [wellFormed_iff_fits]
  unfold defect?
  split
  · next h => simp [Nat.not_le.2 h]
  next harity =>
  split
  · next h => simp [Nat.not_le.2 h]
  next hslots =>
  have hnames := namesDefect?_eq_none_iff (List.nil_append f.names).symm
  simp only [List.length_nil, Nat.zero_add] at hnames
  rw [Option.or_eq_none_iff, hnames]
  cases hr : f.result with
  | none => simp [Nat.not_lt.1 harity, Nat.not_lt.1 hslots]
  | some r => simp [Nat.not_lt.1 harity, Nat.not_lt.1 hslots]

/-! ## Parameters -/

/-- A position below the arity holds a parameter. -/
theorem WellFormed.exists_param (h : f.WellFormed) {i : Nat} (hi : i < f.arity) :
    ∃ n, f.names[i]? = some n ∧ n.isParam = true := by
  have hn := List.getElem?_eq_getElem (Nat.lt_of_lt_of_le hi h.arity_le)
  exact ⟨_, hn, (h.isParam_iff i _ hn).2 hi⟩

theorem param?_eq {i : Nat} {n : Name Form} (hi : i < f.arity) (hn : f.names[i]? = some n) :
    f.param? i = some n.type := by
  simp [param?, params, List.getElem?_take_of_lt hi, hn]

theorem length_params (h : f.WellFormed) : f.params.length = f.arity := by
  have := h.arity_le
  unfold size at this
  simp [params, this]

/-! ## Building forms -/

theorem verified_eq_ok_iff {g : Form} : verified f = .ok g ↔ f.WellFormed ∧ g = f := by
  unfold verified
  split
  · next h => simp [defect?_eq_none_iff.1 h, eq_comm]
  · next d h =>
    have : ¬ f.WellFormed := fun hw => by simp [defect?_eq_none_iff.2 hw] at h
    simp [this]

theorem verified_of_wellFormed (h : f.WellFormed) : verified f = .ok f :=
  verified_eq_ok_iff.2 ⟨h, rfl⟩

/-- A form is assembled from its parts exactly when they are well-formed. -/
theorem assemble_eq_ok_iff {id arity : Nat} {names : List (Name Form)} {result : Option Nat}
    {kind : FormKind} :
    assemble id arity names result kind = .ok f ↔
      f.WellFormed ∧ f = ⟨id, arity, names, keptResult names result, kind⟩ := by
  rw [assemble, verified_eq_ok_iff]
  constructor <;> rintro ⟨h, rfl⟩ <;> exact ⟨h, rfl⟩

theorem wellFormed_of_build {id arity : Nat} {names : List (Name Form)} {result : Option Nat}
    {kind : FormKind} (h : build id arity names result kind = .ok f) : f.WellFormed := by
  obtain ⟨hw, rfl⟩ := verified_eq_ok_iff.1 h
  exact hw

end Form

end HandleForms
