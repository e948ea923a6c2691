import HandleForms.Edit.Derive
import HandleForms.Proofs.Draft.Layout

/-!
# What an edit derives

An `Adaptation` writes down the form that an edit derives, as a list of names: the parameters, the
early names in front of the expressions of the base, these expressions with their operands moved and
perhaps their field reads retargeted, and the late names behind them. `Layout.adapt` is the bridge
from drafts: an edit whose transaction has the layout of an adaptation ends in its form, if that is
well-formed.
-/

namespace HandleForms

namespace CarrierGrowth

/-- The extended species has one more field. -/
def Appends (g : CarrierGrowth) (field : BasicType) : Prop := g.new.fields = g.old.fields ++ [field]

/-- The name that reads the appended field of a carrier. -/
def readOf (g : CarrierGrowth) (carrier : Nat) : Name Form :=
  .apply (.getter g.new g.old.fields.length) [.name carrier]

variable {g : CarrierGrowth} {field : BasicType}

theorem getter_eq (h : g.Appends field) :
    g.getter = .ok (Function.getter g.new g.old.fields.length) := by
  simp [getter, Species.getter, show g.new.fields = _ from h]

theorem apply_getter (carrier : Nat) :
    Name.apply (.getter g.new g.old.fields.length) [.name carrier] = g.readOf carrier := rfl

theorem type_readOf (h : g.Appends field) (carrier : Nat) : (g.readOf carrier).type = field := by
  simp [readOf, Name.apply, Function.ret, Function.getter, Intrinsic.ret,
    show g.new.fields = _ from h]

@[simp] theorem mapArgs_readOf (f : Nat → Nat) (carrier : Nat) :
    (g.readOf carrier).mapArgs f = g.readOf (f carrier) := rfl

@[simp] theorem operands_readOf (carrier : Nat) : (g.readOf carrier).operands = [carrier] := rfl

@[simp] theorem isParam_readOf (carrier : Nat) : (g.readOf carrier).isParam = false := rfl

end CarrierGrowth

/-- The name that calls a handle of this type; the handle is the first operand. -/
def Name.call (type : Signature) (operands : List Nat) : Name Form :=
  .apply (.invokeBasic type) (operands.map Arg.name)

namespace Name

variable {type : Signature} {operands : List Nat}

@[simp] theorem mapArgs_call (f : Nat → Nat) :
    (call type operands).mapArgs f = call type (operands.map f) := by
  simp [call, apply, mapArgs, Arg.map]

@[simp] theorem operands_call : (call type operands).operands = operands := by
  simp [call, List.filterMap_map, Function.comp_def, Arg.name?]

@[simp] theorem type_call : (call type operands).type = type.basicRet := by
  simp [call, apply, Function.invokeBasic, Function.ret, Intrinsic.ret, Signature.basic,
    Signature.basicRet]

@[simp] theorem isParam_call : (call type operands).isParam = false := rfl

end Name

/-- A name of the base whose carrier has grown: reads of fields of parameter 0 are reads of the
extended species. -/
def Name.retarget (n : Name Form) : Option CarrierGrowth → Name Form
  | none => n
  | some g => Draft.replaced (Function.getters g.old) (Function.getters g.new) [.name 0] n

/-- How the names of a derived form come from those of its base. -/
structure Adaptation where
  params : List (Name Form)
  early : List (Name Form)
  late : List (Name Form)
  /-- Where the parameters of the base are found. -/
  place : Nat → Nat
  /-- The growth of the carrier in parameter 0, if it grows. -/
  growth : Option CarrierGrowth
  /-- The result, unless that of the base is kept. -/
  result : Option (Option Nat)

namespace Adaptation

/-- Where a name of a base of this arity is found. -/
def move (A : Adaptation) (arity i : Nat) : Nat :=
  if i < arity then A.place i else A.params.length + A.early.length + (i - arity)

/-- A name of the base as it stands in the derived form. -/
def moved (A : Adaptation) (base : Form) (n : Name Form) : Name Form :=
  (n.retarget A.growth).mapArgs (A.move base.arity)

/-- The names of the derived form. -/
def names (A : Adaptation) (base : Form) : List (Name Form) :=
  A.params ++ A.early ++ (base.names.drop base.arity).map (A.moved base) ++ A.late

/-- The derived form. -/
def form (A : Adaptation) (base : Form) (id : Nat) : Form where
  id := id
  arity := A.params.length
  names := A.names base
  result := Form.keptResult (A.names base) (A.result.getD (base.result.map (A.move base.arity)))
  kind := .generic

end Adaptation

@[simp] theorem Name.retarget_none (n : Name Form) : n.retarget none = n := rfl

@[simp] theorem Name.operands_retarget (n : Name Form) (g : Option CarrierGrowth) :
    (n.retarget g).operands = n.operands := by
  cases g with
  | none => rfl
  | some g => exact Draft.operands_replaced _ _ _ n

@[simp] theorem Name.isParam_retarget (n : Name Form) (g : Option CarrierGrowth) :
    (n.retarget g).isParam = n.isParam := by
  cases g with
  | none => rfl
  | some g => exact Draft.isParam_replaced _ _ _ n

theorem Form.paramType_eq {f : Form} {i : Nat} {n : Name Form} (hi : i < f.arity)
    (hn : f.names[i]? = some n) : f.paramType i = .ok n.type := by
  simp [Form.paramType, Form.param?_eq hi hn]

/-- Nothing is replaced when there is nothing to replace. -/
@[simp] theorem Draft.replaced_nil (new : List (Function Form)) (args : List Arg) (n : Name Form) :
    Draft.replaced [] new args n = n := by
  unfold Draft.replaced
  cases n.function? <;> simp [Draft.functionIndex?]

/-- Nothing is replaced. -/
theorem Draft.Replacement.refl (f : Form) (args : List Arg) :
    Draft.Replacement f.names f.names [] [] args f.arity (f.size - f.arity) id where
  arena_isPrefix := List.prefix_refl _
  name i _ _ n hn := by simpa using hn
  same_or_new i := .inl rfl
  outside i _ := rfl
  injective i j _ _ h := h

namespace Transaction

/-- The result of the transaction is that of the form, or what took its place. -/
def KeepsResult (t : Transaction) (f : Form) : Prop :=
  (f.result = none → t.result = none) ∧
    ∀ r, f.result = some r → ∃ s ∈ t.slots, s.was = some r ∧ t.result = some s.now

variable {t : Transaction} {f : Form} {a b k : Nat}

theorem KeepsResult.placed (h : t.KeepsResult f) {r : Nat} (hr : t.result = some r) :
    ∃ s ∈ t.slots, s.now = r := by
  cases hf : f.result with
  | none => simp [h.1 hf] at hr
  | some o =>
    obtain ⟨s, hs, -, hresult⟩ := h.2 o hf
    exact ⟨s, hs, by simpa [hresult] using hr⟩

theorem holdsParam_eq {n : Name Form} (hn : t.arena[a]? = some n) : t.holdsParam a = n.isParam := by
  simp [holdsParam, hn]

theorem holdsParam_of_lt (hf : f.WellFormed) (hp : f.names <+: t.arena) (ha : a < f.arity) :
    t.holdsParam a = true := by
  have hn := List.getElem?_eq_getElem (Nat.lt_of_lt_of_le ha hf.arity_le)
  simpa [holdsParam, Draft.getElem?_of_isPrefix hp hn] using (hf.isParam_iff _ _ hn).2 ha

theorem range_split (h : a ≤ b) : List.range b = List.range' 0 a ++ List.range' a (b - a) := by
  have hsplit := List.range'_append_1 (s := 0) (m := a) (n := b - a)
  rw [Nat.zero_add, Nat.add_sub_cancel' h] at hsplit
  rw [hsplit, List.range_eq_range']

theorem range'_zero (h : 0 < a) : List.range' 0 a = 0 :: List.range' 1 (a - 1) := by
  obtain ⟨m, rfl⟩ := Nat.exists_eq_add_of_lt h
  simp [List.range'_succ]

theorem range_split_at (h : a < b) :
    List.range b = List.range' 0 a ++ a :: List.range' (a + 1) (b - (a + 1)) := by
  rw [range_split (Nat.le_of_lt h), show b - a = b - (a + 1) + 1 by omega, List.range'_succ]

theorem range'_split_at (h0 : 0 < a) (h : a < b) : List.range' 1 (b - 1) =
    List.range' 1 (a - 1) ++ a :: List.range' (a + 1) (b - (a + 1)) := by
  have hsplit := range_split_at h
  rw [List.range_eq_range', range'_zero (Nat.lt_trans h0 h), range'_zero h0] at hsplit
  exact List.tail_eq_of_cons_eq hsplit

theorem range'_one_split (h0 : 0 < a) (h : a ≤ b) :
    List.range' 1 (b - 1) = List.range' 1 (a - 1) ++ List.range' a (b - a) := by
  have hsplit := range_split h
  rw [List.range_eq_range', range'_zero (Nat.lt_of_lt_of_le h0 h), range'_zero h0] at hsplit
  exact List.tail_eq_of_cons_eq hsplit

/-- The names of the form from `a` up to `b`, by their numbers. -/
theorem map_nameOf_range' (hp : f.names <+: t.arena) (hb : b ≤ f.size) :
    (List.range' a (b - a)).map t.nameOf = (f.names.take b).drop a := by
  refine List.ext_getElem? fun k => ?_
  by_cases hk : k < b - a
  · have hn := List.getElem?_eq_getElem (show a + k < f.names.length by unfold Form.size at hb; omega)
    rw [List.getElem?_map, List.getElem?_range' hk, List.getElem?_drop,
      List.getElem?_take_of_lt (by omega), hn, Option.map_some, Nat.one_mul,
      nameOf_eq (Draft.getElem?_of_isPrefix hp hn)]
  · have hout : ((f.names.take b).drop a)[k]? = none := by
      rw [List.getElem?_eq_none_iff, List.length_drop, List.length_take]
      omega
    simp [hout, hk]

namespace Layout

variable {f : Form} {t : Transaction} {old new : List (Function Form)} {args : List Arg}
  {g : Nat → Nat} {arena : List (Name Form)} {left : List Slot} {params early lead late : List Nat}
  {d : Draft}

/-- A layout in which every parameter is new or did not move, and every expression is new. -/
theorem of_new (hf : f.WellFormed)
    (hreplacement : Draft.Replacement f.names arena old new args f.arity (f.size - f.arity) g)
    (hinitial : arena <+: t.arena)
    (hback : t.back = lead.map Slot.added ++
      (List.range' f.arity (f.size - f.arity)).map (fun i => ⟨g i, some i⟩) ++ late.map Slot.added)
    (hwas : t.front.filterMap Slot.was = List.range f.arity)
    (hplaced : ∀ s ∈ t.front, s.now ∈ params ++ early)
    (hparams : ∀ a ∈ params, Slot.same a ∈ t.front ∨ arena.length ≤ a ∧ t.holdsParam a = true)
    (hexprs : ∀ a ∈ early ++ late,
      arena.length ≤ a ∧ ∃ n, t.arena[a]? = some n ∧ n.isParam = false)
    (hearly : ∀ i a, early[i]? = some a → ∀ b ∈ (t.nameOf a).operands,
      b ∈ params ++ early.take i)
    (hlate : ∀ i a, late[i]? = some a → ∀ b ∈ (t.nameOf a).operands,
      b < f.size ∨ b ∈ params ++ early ++ late.take i)
    (hclears : Clears t.dups t.front left) (hparamsEq : t.params left = params)
    (hearlyEq : (left.map Slot.now).filter (fun a => !t.holdsParam a) ++ lead = early)
    (hnodup : (params ++ early ++ late).Nodup)
    (hroom : t.front.length + t.dups.length ≤ t.slots.length + min 1 t.dups.length)
    (hresult : ∀ r, t.result = some r → ∃ s ∈ t.slots, s.now = r) :
    Layout f t old new args g arena left params early lead late := by
  have hsame : ∀ a, Slot.same a ∈ t.front → a < f.arity := by
    intro a ha
    have : a ∈ t.front.filterMap Slot.was := List.mem_filterMap.2 ⟨_, ha, rfl⟩
    simpa [hwas] using this
  refine ⟨hf, hreplacement, hinitial, hback, hwas, ?_, hplaced, ?_, ?_, hearly, hlate, hclears,
    hparamsEq, hearlyEq, hnodup, hroom, hresult⟩
  case refine_1 =>
    intro s hs
    obtain ha | ha := List.mem_append.1 (hplaced s hs)
    · exact (hparams _ ha).symm.imp_left And.left
    · exact .inl (hexprs _ (List.mem_append_left _ ha)).1
  case refine_2 =>
    intro a ha
    obtain ⟨hle, n, hn, hexpr⟩ := hexprs a ha
    exact ⟨hle, by rw [holdsParam_eq hn, hexpr]⟩
  case refine_3 =>
    intro a ha
    rw [List.append_assoc] at ha
    obtain ha | ha := List.mem_append.1 ha
    · rcases hparams a ha with ha | ⟨-, ha⟩
      · have hlt := Nat.lt_of_lt_of_le (hsame a ha) hf.arity_le
        exact Nat.lt_of_lt_of_le hlt (hreplacement.arena_isPrefix.trans hinitial).length_le
      · refine Nat.lt_of_not_le fun hle => ?_
        simp [holdsParam, List.getElem?_eq_none hle] at ha
    · obtain ⟨-, n, hn, -⟩ := hexprs a ha
      exact (List.getElem?_eq_some_iff.1 hn).1

/-- Nothing has to move behind the parameters. -/
theorem of_params (hf : f.WellFormed)
    (hreplacement : Draft.Replacement f.names arena old new args f.arity (f.size - f.arity) g)
    (hinitial : arena <+: t.arena)
    (hback : t.back = early.map Slot.added ++
      (List.range' f.arity (f.size - f.arity)).map (fun i => ⟨g i, some i⟩) ++ late.map Slot.added)
    (hwas : t.front.filterMap Slot.was = List.range f.arity)
    (hplaced : ∀ s ∈ t.front, s.now ∈ params ++ early)
    (hparams : ∀ a ∈ params, Slot.same a ∈ t.front ∨ arena.length ≤ a ∧ t.holdsParam a = true)
    (hexprs : ∀ a ∈ early ++ late,
      arena.length ≤ a ∧ ∃ n, t.arena[a]? = some n ∧ n.isParam = false)
    (hearly : ∀ i a, early[i]? = some a → ∀ b ∈ (t.nameOf a).operands,
      b ∈ params ++ early.take i)
    (hlate : ∀ i a, late[i]? = some a → ∀ b ∈ (t.nameOf a).operands,
      b < f.size ∨ b ∈ params ++ early ++ late.take i)
    (hclears : Clears t.dups t.front left) (hleft : left.map Slot.now = params)
    (hnodup : (params ++ early ++ late).Nodup)
    (hroom : t.front.length + t.dups.length ≤ t.slots.length + min 1 t.dups.length)
    (hresult : ∀ r, t.result = some r → ∃ s ∈ t.slots, s.now = r) :
    Layout f t old new args g arena left params early early late := by
  have hall : ∀ a ∈ params, t.holdsParam a = true := by
    intro a ha
    rcases hparams a ha with ha | ⟨-, ha⟩
    · refine holdsParam_of_lt hf (hreplacement.arena_isPrefix.trans hinitial) ?_
      have : a ∈ t.front.filterMap Slot.was := List.mem_filterMap.2 ⟨_, ha, rfl⟩
      simpa [hwas] using this
    · exact ha
  refine of_new hf hreplacement hinitial hback hwas hplaced hparams hexprs hearly hlate hclears ?_ ?_
    hnodup hroom hresult
  · rw [Transaction.params, hleft, List.filter_eq_self.2 hall]
  · rw [hleft, List.filter_eq_nil_iff.2 fun a ha => by simp [hall a ha], List.nil_append]

/-- The result is found where the result of the base goes. -/
theorem place_result (h : Layout f t old new args g arena left params early lead late)
    (hkeeps : t.KeepsResult f) : t.result.map (t.place left) = f.result.map (t.place left) := by
  cases hr : f.result with
  | none => simp [hkeeps.1 hr]
  | some r =>
    obtain ⟨s, hs, hsr, hresult⟩ := hkeeps.2 r hr
    simp only [hresult, Option.map_some, place, h.current_eq hs hsr, h.current_now hs]

/-- The form that an edit ends in, as an adaptation of its base. -/
theorem adapt (h : Layout f t old new args g arena left params early lead late) (hd : d.Shows t)
    {A : Adaptation} (hparams : params.map t.nameOf = A.params)
    (hearly : early.map (fun a => (t.nameOf a).mapArgs (t.place left)) = A.early)
    (hlate : late.map (fun a => (t.nameOf a).mapArgs (t.place left)) = A.late)
    (hreplaced : ∀ n, Draft.replaced old new args n = n.retarget A.growth)
    (hplace : ∀ o < f.arity, t.place left o = A.place o)
    (hresult : A.result = none ∧ t.KeepsResult f ∨ A.result = some (t.result.map (t.place left)))
    (id : Nat) : d.finish id = Form.verified (A.form f id) := by
  have hlen : params.length = A.params.length ∧ early.length = A.early.length := by
    rw [← hparams, ← hearly]
    simp
  have hmove : ∀ o < f.size, t.place left o = A.move f.arity o := by
    intro o ho
    unfold Adaptation.move
    split
    · next hlt => exact hplace o hlt
    · next hge => rw [h.place_expr (Nat.not_lt.1 hge) ho, hlen.1, hlen.2]
  have hexprs : (f.names.drop f.arity).map
      (fun n => (Draft.replaced old new args n).mapArgs (t.place left)) =
        (f.names.drop f.arity).map (A.moved f) := by
    refine List.map_congr_left fun n hn => ?_
    obtain ⟨i, hi⟩ := List.getElem?_of_mem (List.mem_of_mem_drop hn)
    rw [hreplaced, Adaptation.moved]
    refine Name.mapArgs_congr fun a ha => hmove a ?_
    have hlt := h.wellFormed.operand_lt hi (by simpa using ha)
    have := (List.getElem?_eq_some_iff.1 hi).1
    unfold Form.size
    omega
  have hres : t.result.map (t.place left) = A.result.getD (f.result.map (A.move f.arity)) := by
    rcases hresult with ⟨hkept, hkeeps⟩ | hnew
    · rw [h.place_result hkeeps, hkept, Option.getD_none]
      cases hr : f.result with
      | none => rfl
      | some r => simp [hmove r (h.wellFormed.result_lt r hr)]
    · simp [hnew]
  rw [h.finish hd, hparams, hearly, hlate, hexprs, hres, hlen.1]
  rfl

end Layout

end Transaction

end HandleForms
