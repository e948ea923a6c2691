import HandleForms.Proofs.Edit.Weak

/-!
# Refused edits

An edit is checked before anything is looked up, so a refusal leaves no trace and depends on nothing
but the base (`Context.edit_of_check_error`). Only the type of the filter of a result is made after
the lookup, and it cannot be made if the result has no value (`Context.filterReturn_of_edit`): a form
has such a result exactly if its client asked for one whose number does not fit in a word
(`Form.exists_size_le_of_build`). So these are the only refusals that leave a trace
(`Context.edit_refused`).
-/

namespace HandleForms

namespace Edit

variable {base : Form} {e : Edit}

/-- A filter that is let through takes a value. -/
theorem filter_ne_void (hcheck : e.check base = .ok ()) {pos : Nat} {type : BasicType}
    (hnormal : e.normal = filter pos type) : type ≠ .void := by
  cases e with
  | filter pos type =>
    obtain ⟨rfl, rfl⟩ := Edit.filter.inj hnormal
    simp only [check, bind_unit_eq_ok_iff, require_eq_ok_iff, isArg_iff] at hcheck
    exact hcheck.2.1
  | collect pos collector =>
    by_cases hvoid : collector.basicRet = .void
    · rw [normal_collect_void hvoid] at hnormal
      cases hnormal
    · by_cases hone : ∃ t, collector.basicParams = [t]
      · obtain ⟨t, ht⟩ := hone
        rw [normal_collect_one hvoid ht] at hnormal
        obtain ⟨-, rfl⟩ := Edit.filter.inj hnormal
        exact Signature.ne_void_of_mem_basicParams ht _ (List.mem_singleton_self _)
      · rw [normal_collect_of_ne hvoid fun t ht => hone ⟨t, ht⟩] at hnormal
        cases hnormal
  | _ => cases hnormal

theorem errorless_filterReturn {type : BasicType} {g : CarrierGrowth} {id : Nat}
    (h : base.result.isSome = true → base.ret ≠ .void) :
    Stop.Errorless (deriveFilterReturn base g type id) := by
  obtain ⟨filter, hfilter⟩ : ∃ filter,
      Signature.ofBasic type (base.result.toList.map fun _ => base.ret) = .ok filter := by
    cases hresult : base.result with
    | none => exact Signature.exists_ofBasic type nofun (Nat.zero_le _)
    | some r => exact ofBasic_one type (h (by rw [hresult]; rfl))
  refine (Stop.errorless_ofViolation _).bind fun d => (Stop.errorless_ofViolation _).bind fun r =>
    (Stop.errorless_ofViolation _).bind fun read => (Stop.errorless_ofViolation _).bind fun d => ?_
  simp only [hfilter]
  exact (Stop.errorless_ok filter).bind fun filter => (Stop.errorless_ofViolation _).bind fun d =>
    (Stop.errorless_ofViolation _).bind fun d => Stop.errorless_ofViolation _

/-- While an edit is carried out, it is refused only when it filters a result of no value. -/
theorem errorless_derive (hcheck : e.check base = .ok ()) {growth : Option CarrierGrowth} {id : Nat}
    (h : ∀ type, e.normal = filterReturn type → base.result.isSome = true → base.ret ≠ .void) :
    Stop.Errorless (e.normal.derive base growth id) := by
  cases hnormal : e.normal with
  | filter pos type =>
    cases growth with
    | none => exact nofun
    | some g =>
      refine (Stop.errorless_ofViolation _).bind fun ret => ?_
      obtain ⟨filter, hfilter⟩ := ofBasic_one ret (filter_ne_void hcheck hnormal)
      rw [hfilter]
      exact (Stop.errorless_ok filter).bind fun filter => Stop.errorless_ofViolation _
  | filterReturn type =>
    cases growth with
    | none => exact nofun
    | some g => exact errorless_filterReturn (h type hnormal)
  | bind | collect | fold =>
    cases growth with
    | none => exact nofun
    | some g => exact Stop.errorless_ofViolation _
  | _ => exact Stop.errorless_ofViolation _

end Edit

/-- A form over names of its client has a result without a value only if the client asked for one
whose number does not fit in a word. -/
theorem Form.exists_size_le_of_build {id arity : Nat} {names : List (Name Form)}
    {result : Option Nat} {kind : FormKind} {f : Form}
    (hbuild : Form.build id arity names result kind = .ok f) (hresult : f.result.isSome = true)
    (hvoid : f.ret = .void) : ∃ r, result = some r ∧ UInt32.size ≤ r := by
  have hwf := Form.wellFormed_of_build hbuild
  obtain ⟨-, rfl⟩ := Form.verified_eq_ok_iff.1 hbuild
  cases hkept : Form.keptResult names result with
  | none => simp [hkept] at hresult
  | some r =>
    obtain ⟨hasked, hvalue⟩ := Option.filter_eq_some_iff.1 hkept
    refine ⟨r, hasked, Nat.le_of_not_lt fun hlt => ?_⟩
    -- The number is kept as it is, so the result is the name that was asked for.
    have hword : nameNumber r = r := Nat.mod_eq_of_lt hlt
    have hlt : r < names.length := hwf.result_lt r (by simp [hkept, hword])
    simp only [Form.ret, hkept, Option.map_some, hword, List.getElem?_eq_getElem hlt,
      Option.getD_some] at hvoid
    rw [List.getElem?_eq_getElem hlt, Option.map_some, hvoid] at hvalue
    exact absurd hvalue (by decide)

namespace Context

variable {η : Type} {c : Context η} {live : Live η} {base : Form} {e : Edit}

/-- An edit that passes every check is refused with an error only when it filters a result of no
value. -/
theorem filterReturn_of_edit {err : FormError} (hcheck : e.check base = .ok ())
    (hrefused : (c.edit live base e).1 = .error (.error err)) :
    ∃ type, e = .filterReturn type ∧ base.result.isSome = true ∧ base.ret = .void := by
  by_contra hvalue
  have hvalue : ∀ type, e.normal = .filterReturn type → base.result.isSome = true →
      base.ret ≠ .void := by
    intro type hnormal hresult hret
    refine hvalue ⟨type, ?_, hresult, hret⟩
    cases e with
    | filterReturn => exact hnormal
    | collect pos collector =>
      simp only [Edit.normal] at hnormal
      split at hnormal
      · cases hnormal
      · split at hnormal <;> cases hnormal
      · cases hnormal
    | _ => cases hnormal
  have hedits := c.edits_edit live base e
  rw [hrefused] at hedits
  generalize (c.edit live base e).2 = context at hedits
  cases hedits with
  | unchecked h => exact absurd (h.symm.trans hcheck) (by simp)
  | @refused key _ c' _ _ _ _ hderive =>
    have herror := congrArg Prod.fst hderive
    unfold deriveAnew at herror
    revert herror
    cases e.normal.field? with
    | none => exact Edit.errorless_derive hcheck hvalue err
    | some field =>
      simp only
      split
      · simp
      · exact Edit.errorless_derive hcheck hvalue err

/-- What a check refuses is refused in every context, which stays as it is. -/
theorem edit_of_check_error {stop : Stop FormError} (hcheck : e.check base = .error stop)
    (c : Context η) (live : Live η) : c.edit live base e = (.error stop, c) := by
  simp only [Context.edit, hcheck]

/-- **Refused edits leave no trace.** A refused edit of a form leaves the context as it was and is
refused in every other one; only the filter of a result that the client of the form asked for with a
number that does not fit in a word counts a lookup and may intern a species. -/
theorem edit_refused {id arity : Nat} {names : List (Name Form)} {result : Option Nat}
    {kind : FormKind} (hbuild : Form.build id arity names result kind = .ok base) {err : FormError}
    (hrefused : (c.edit live base e).1 = .error (.error err)) :
    ((c.edit live base e).2 = c ∧
      ∀ (c' : Context η) (live' : Live η), c'.edit live' base e = (.error (.error err), c')) ∨
    ∃ r type t, result = some r ∧ UInt32.size ≤ r ∧ e = .filterReturn type ∧
      (c.edit live base e).2 = { c.lookedUp with species := t, nextForm := c.nextForm + 1 } := by
  cases hcheck : e.check base with
  | error stop =>
    rw [edit_of_check_error hcheck] at hrefused
    obtain rfl := Except.error.inj hrefused
    exact .inl ⟨by rw [edit_of_check_error hcheck], edit_of_check_error hcheck⟩
  | ok u =>
    obtain ⟨type, htype, hresult, hvoid⟩ := filterReturn_of_edit hcheck hrefused
    obtain ⟨r, hr, hlarge⟩ := Form.exists_size_le_of_build hbuild hresult hvoid
    refine .inr ⟨r, type, ?_⟩
    have hedits := c.edits_edit live base e
    rw [hrefused] at hedits
    generalize (c.edit live base e).2 = context at hedits
    cases hedits with
    | unchecked h => exact absurd (h.symm.trans hcheck) (by simp)
    | refused _ _ _ _ hderive =>
      obtain ⟨t, ht⟩ := c.lookedUp.deriveAnew_frame base e.normal
      rw [hderive] at ht
      exact ⟨t, hr, hlarge, htype, ht⟩

/-- An integer parameter cannot be bound as a long, whatever was derived before. -/
theorem edit_refused_bind :
    Form.build 0 2 [.param .ref, .param .int] none .generic =
        .ok ⟨0, 2, [.param .ref, .param .int], none, .generic⟩ ∧
      ∀ (c : Context Empty) (live : Live Empty),
        c.edit live ⟨0, 2, [.param .ref, .param .int], none, .generic⟩ (.bind 1 .long) =
          (.error (.error (.typeMismatch 1 .int .long)), c) := by
  have hbuild : Form.build 0 2 [.param .ref, .param .int] none .generic =
      .ok ⟨0, 2, [.param .ref, .param .int], none, .generic⟩ := rfl
  have hrefused : ((new {} : Context Empty).edit ⟨fun _ => true, fun _ => true⟩
      ⟨0, 2, [.param .ref, .param .int], none, .generic⟩ (.bind 1 .long)).1 =
        .error (.error (.typeMismatch 1 .int .long)) := rfl
  refine ⟨hbuild, ?_⟩
  rcases edit_refused hbuild hrefused with ⟨-, h⟩ | ⟨r, type, t, hr, -⟩
  · exact h
  · cases hr

end Context

end HandleForms
