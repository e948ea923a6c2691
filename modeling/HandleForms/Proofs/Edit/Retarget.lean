import HandleForms.Proofs.Edit.Adaptation
import HandleForms.Proofs.Form.Made

/-!
# Retargeted reads

When the carrier grows, the reads of its old fields become reads of the same fields of the extended
species, and every other name stays (`retarget_getter`, `retarget_of_not_getter`). Types and
operands do not change, so neither does what fits.
-/

namespace HandleForms

theorem Draft.sameArgs_name {args : List Arg} {i : Nat} :
    sameArgs args [.name i] = true ↔ args = [.name i] := by
  constructor
  · intro h
    match args with
    | [] => simp [sameArgs] at h
    | [.name j] => simpa [sameArgs, Arg.same] using h
    | [.const c] => simp [sameArgs, Arg.same] at h
    | _ :: _ :: _ => simp [sameArgs] at h
  · rintro rfl
    simp [sameArgs, Arg.same]

namespace Name

/-- A read of field `i` of a species with these fields, from parameter 0. -/
def ReadsField (fields : List BasicType) (i : Nat) (n : Name Form) : Prop :=
  ∃ s : Species, s.fields = fields ∧ n.expr = some ⟨.getter s i, [.name 0]⟩

end Name

/-- The carrier does not grow, or by one field. -/
def CarrierGrowth.Proper (growth : Option CarrierGrowth) : Prop :=
  ∀ g, growth = some g → ∃ field, g.Appends field

/-- The getters of a species are found by their field. -/
theorem Draft.functionIndex?_getters {s t : Species} {i : Nat} (hs : t.fields = s.fields)
    (hi : i < s.fields.length) :
    Draft.functionIndex? (.getter t i : Function Form) (Function.getters s) = some i := by
  rw [Draft.functionIndex?, List.findIdx?_eq_some_iff_getElem]
  refine ⟨by simpa [Function.getters] using hi, ?_, fun j hj => ?_⟩
  · simp [Function.getters, Function.getter, Function.same, Intrinsic.same, hs]
  · simp [Function.getters, Function.getter, Function.same, Intrinsic.same]
    omega

/-- What is found among the getters of a species is one. -/
theorem Draft.of_functionIndex?_getters {s : Species} {f : Function Form} {k : Nat}
    (h : Draft.functionIndex? f (Function.getters s) = some k) :
    k < s.fields.length ∧ ∃ t : Species, t.fields = s.fields ∧ f = .getter t k := by
  obtain ⟨hk, hsame, -⟩ := List.findIdx?_eq_some_iff_getElem.1 h
  have hk' : k < s.fields.length := by simpa [Function.getters] using hk
  refine ⟨hk', ?_⟩
  simp only [Function.getters, List.getElem_map, List.getElem_range] at hsame
  match f with
  | .intrinsic (.boundField t i) =>
    simp only [Function.getter, Function.same, Intrinsic.same, Bool.and_eq_true, Species.beq_iff,
      beq_iff_eq] at hsame
    exact ⟨t, hsame.1.symm, by rw [Function.getter, hsame.2]⟩
  | .intrinsic (.invokeBasic _) | .intrinsic .checkSpreadLength | .intrinsic (.arrayLoad _)
  | .intrinsic (.zero _) | .intrinsic (.identity _) | .intrinsic .checkExactType
  | .intrinsic .checkGenericType | .intrinsic .ensureInitialized | .intrinsic .internalMemberName
  | .intrinsic .allocateInstance | .intrinsic .constructorMember | .intrinsic (.linkTo _ _)
  | .external _ _ | .form _ => simp [Function.getter, Function.same, Intrinsic.same] at hsame

namespace Name

variable {g : CarrierGrowth} {field : BasicType} {n : Name Form} {i : Nat}

/-- A read of an old field becomes a read of the same field of the extended species. -/
theorem retarget_getter (hg : g.Appends field) (hi : i < g.old.fields.length)
    (hn : n.ReadsField g.old.fields i) :
    n.retarget (some g) = .apply (.getter g.new i) [.name 0] := by
  obtain ⟨s, hs, he⟩ := hn
  have hfound := Draft.functionIndex?_getters hs hi
  have hnew : (Function.getters g.new : List (Function Form))[i]? = some (.getter g.new i) := by
    have : i < g.new.fields.length := by
      simp [show g.new.fields = _ from hg]
      omega
    simp [Function.getters, this]
  simp [retarget, Draft.replaced, function?, args, he, Draft.sameArgs_name, hfound, hnew]

/-- Every other name stays. -/
theorem retarget_of_not_getter
    (hn : ∀ i < g.old.fields.length, ¬ n.ReadsField g.old.fields i) :
    n.retarget (some g) = n := by
  simp only [retarget, Draft.replaced]
  cases he : n.expr with
  | none => simp [function?, he]
  | some e =>
    simp only [function?, he, Option.map_some]
    split
    · next hargs =>
      have hargs : e.args = [.name 0] := by
        simpa [args, he, Draft.sameArgs_name] using hargs
      cases hk : Draft.functionIndex? e.function (Function.getters g.old) with
      | none => rfl
      | some k =>
        obtain ⟨hlt, t, ht, hf⟩ := Draft.of_functionIndex?_getters hk
        refine absurd ⟨t, ht, ?_⟩ (hn k hlt)
        rw [he, ← hargs, ← hf]
    · rfl

theorem retarget_cases (n : Name Form) (hg : g.Appends field) :
    (∃ i < g.old.fields.length, n.ReadsField g.old.fields i ∧
      n.retarget (some g) = .apply (.getter g.new i) [.name 0]) ∨
    (∀ i < g.old.fields.length, ¬ n.ReadsField g.old.fields i) ∧ n.retarget (some g) = n := by
  by_cases h : ∃ i < g.old.fields.length, n.ReadsField g.old.fields i
  · obtain ⟨i, hi, hn⟩ := h
    exact .inl ⟨i, hi, hn, retarget_getter hg hi hn⟩
  · have h : ∀ i < g.old.fields.length, ¬ n.ReadsField g.old.fields i := fun i hi hn => h ⟨i, hi, hn⟩
    exact .inr ⟨h, retarget_of_not_getter h⟩

variable {growth : Option CarrierGrowth}

theorem Made.retarget (h : n.Made) (hgrowth : CarrierGrowth.Proper growth) : (n.retarget growth).Made := by
  cases growth with
  | none => exact h
  | some g =>
    obtain ⟨field, hg⟩ := hgrowth g rfl
    rcases n.retarget_cases hg with ⟨i, -, -, heq⟩ | ⟨-, heq⟩
    · rw [heq]
      exact .apply _ _
    · rwa [heq]

theorem Made.type_retarget (h : n.Made) (hgrowth : CarrierGrowth.Proper growth) :
    (n.retarget growth).type = n.type := by
  cases growth with
  | none => rfl
  | some g =>
    obtain ⟨field, hg⟩ := hgrowth g rfl
    rcases n.retarget_cases hg with ⟨i, hi, ⟨s, hs, he⟩, heq⟩ | ⟨-, heq⟩
    · rw [heq, h.type_eq he]
      simp [Name.apply, Function.ret, Function.getter, Intrinsic.ret, hs,
        show g.new.fields = _ from hg, List.getElem?_append_left hi]
    · rw [heq]

/-- What fits still fits when it is retargeted and its operands move along with their types. -/
theorem fits_moved {types types' : List BasicType} (hgrowth : CarrierGrowth.Proper growth) {move : Nat → Nat}
    (hmove : ∀ j t, types[j]? = some t → types'[move j]? = some t) {e : Expr Form}
    (hfits : ∀ e, n.expr = some e → e.Fits types)
    (he : ((n.retarget growth).mapArgs move).expr = some e) : e.Fits types' := by
  have hmap : ∀ {d : Expr Form}, d.Fits types →
      Expr.Fits types' ⟨d.function, d.args.map (Arg.map move)⟩ := by
    intro d hd
    refine List.forall₂_map_left_iff.2 (hd.imp fun a t ha => ?_)
    exact ha.map move hmove
  cases growth with
  | none =>
    obtain ⟨d, hd, rfl⟩ := Option.map_eq_some_iff.1 he
    exact hmap (hfits d hd)
  | some g =>
    obtain ⟨field, hg⟩ := hgrowth g rfl
    rcases n.retarget_cases hg with ⟨i, -, ⟨s, hs, hn⟩, heq⟩ | ⟨-, heq⟩
    · rw [heq] at he
      obtain rfl := Option.some.inj he
      -- Getters of all species take the same operand.
      have hread := hfits _ hn
      exact hmap (d := ⟨.getter g.new i, [.name 0]⟩) hread
    · rw [heq] at he
      obtain ⟨d, hd, rfl⟩ := Option.map_eq_some_iff.1 he
      exact hmap (hfits d hd)

end Name

end HandleForms
