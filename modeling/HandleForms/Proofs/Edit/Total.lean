import HandleForms.Proofs.Edit.Context

/-!
# Editing forms

The main result about edits: in every context that a client can bring about, an edit that keeps to
its preconditions is refused with an error or answers a well-formed form of the shape that the edit
says (`Context.Reachable.edit`).
-/

namespace HandleForms

open Edit (resultArity)

/-! ## Shapes of equal edits -/

namespace Edit

variable {base : Form} {e : Edit}

theorem permuteTypes_range {skip n : Nat} {ts : List BasicType} (h : skip + n = ts.length) :
    permuteTypes skip (List.range n) ts = ts := by
  have hperm : (List.range n).Perm (List.range (List.range n).length) := by
    rw [List.length_range]
  refine List.ext_getElem? fun i => ?_
  by_cases hskip : i < skip
  · exact getElem?_permuteTypes_of_lt (by omega) hskip
  · obtain ⟨j, rfl⟩ := Nat.exists_eq_add_of_le (Nat.not_lt.1 hskip)
    by_cases hj : j < n
    · exact getElem?_permuteTypes hperm (by simpa using h) (List.getElem?_range hj)
    · rw [List.getElem?_eq_none (by simp [permuteTypes]; omega),
        List.getElem?_eq_none (by omega)]

/-- A trivial edit keeps the shape. -/
theorem reshape_of_isTrivial (hbase : base.Editable) (hcheck : e.check base = .ok ())
    (h : e.isTrivial = true) : e.reshape base.shape = base.shape := by
  cases e with
  | permute skip reorder =>
    simp only [check, bind_unit_eq_ok_iff, require_eq_ok_iff] at hcheck
    obtain ⟨rfl, hlen, -⟩ := hcheck
    have hreorder : reorder = List.range reorder.length := beq_iff_eq.1 h
    rw [← Form.length_params hbase.wellFormed] at hlen
    rw [reshape, hreorder]
    exact congrArg (fun ts => { base.shape with params := ts }) (permuteTypes_range hlen)
  | _ => cases h

/-- Edits that are brought to one form by `Edit.normal` change the shape in the same way. -/
theorem reshape_normal (hcheck : e.check base = .ok ()) :
    e.normal.reshape base.shape = e.reshape base.shape := by
  cases e with
  | collect pos collector =>
    simp only [check, bind_unit_eq_ok_iff, require_eq_ok_iff] at hcheck
    obtain ⟨⟨hpos, hle⟩, hcheck⟩ := hcheck
    by_cases hvoid : collector.basicRet = .void
    · rw [normal_collect_void hvoid]
      split
      · next hnone => simp [reshape, hvoid, hnone, resultArity, -List.drop_one]
      · rfl
    · simp only [beq_eq_false_iff_ne.2 hvoid, Bool.false_eq_true, if_false, bind_unit_eq_ok_iff,
        Form.expectParam_eq_ok_iff] at hcheck
      have hlt := (List.getElem?_eq_some_iff.1 hcheck.1).1
      by_cases hone : ∃ t, collector.basicParams = [t]
      · obtain ⟨t, ht⟩ := hone
        rw [normal_collect_one hvoid ht]
        simp [reshape, Form.shape, ht, beq_eq_false_iff_ne.2 hvoid, resultArity,
          List.set_eq_take_append_cons_drop, hlt]
      · rw [normal_collect_of_ne hvoid fun t ht => hone ⟨t, ht⟩]
  | _ => rfl

/-- The sums of an edit that is allowed fit in a machine word. -/
theorem Allowed.inWords (h : e.Allowed base) (hbase : base.Editable) : e.normal.InWords := by
  cases e with
  | spread pos array count => exact lt_wordCount hbase h.2
  | collect pos collector =>
    by_cases hvoid : collector.basicRet = .void
    · rw [normal_collect_void hvoid]
      split
      · simp [InWords, hvoid, resultArity, Text.wordCount, UInt64.size]
      · exact lt_wordCount hbase h.2
    · by_cases hone : ∃ t, collector.basicParams = [t]
      · obtain ⟨t, ht⟩ := hone
        rw [normal_collect_one hvoid ht]
        trivial
      · rw [normal_collect_of_ne hvoid fun t ht => hone ⟨t, ht⟩]
        exact lt_wordCount hbase h.2
  | fold pos drop combiner => exact h.2
  | _ => trivial

end Edit

/-! ## Contexts -/

namespace Context

variable {η : Type} [Identified η]

/-- The contexts that a client can bring about, whatever is alive at each step. -/
inductive Reachable : Context η → Prop
  | new (config : CacheConfig) : Reachable (new config)
  | freshForm {c : Context η} (h : Reachable c) : Reachable c.freshForm.2
  | internSpecies {c : Context η} (h : Reachable c) (fields : List BasicType) :
      Reachable (c.internSpecies fields).2
  | retainForm {c : Context η} (h : Reachable c) (f : Form) : Reachable (c.retainForm f)
  | retainHandle {c : Context η} (h : Reachable c) (k : η) : Reachable (c.retainHandle k)
  | release {c : Context η} (h : Reachable c) : Reachable c.release
  | edit {c : Context η} (h : Reachable c) (live : Live η) (base : Form) (e : Edit) :
      Reachable (c.edit live base e).2
  | typeForm {c : Context η} (h : Reachable c) (s : Signature) : Reachable (c.typeForm s).2
  | cachedForm {c : Context η} (h : Reachable c) (live : Live η) (t : TypeForm) (p : FormPurpose) :
      Reachable (c.cachedForm live t p).2
  | setCachedForm {c : Context η} (h : Reachable c) (live : Live η) (t : TypeForm) (p : FormPurpose)
      (f : Form) :
      Reachable (c.setCachedForm live t p f).2
  | cachedHandle {τ : Type} {c : Context η} (h : Reachable c) (live : Live η) (select : η → Option τ)
      (t : TypeForm) (p : HandlePurpose) : Reachable (c.cachedHandle live select t p).2
  | setCachedHandle {τ : Type} {c : Context η} (h : Reachable c) (live : Live η) (select : η → Option τ)
      (wrap : τ → η) (t : TypeForm) (p : HandlePurpose) (k : τ) :
      Reachable (c.setCachedHandle live select wrap t p k).2

variable {c : Context η}

theorem Reachable.sound (h : c.Reachable) : c.Sound := by
  induction h with
  | new config => exact sound_new config
  | freshForm _ ih => exact ih.freshForm
  | internSpecies _ fields ih => exact ih.internSpecies fields
  | retainForm _ _ ih | retainHandle _ _ ih | release _ ih | typeForm _ _ ih =>
    exact ih.of_eq rfl rfl
  | edit _ live base e ih => exact ih.edit live base e
  | cachedForm _ live t p ih =>
    unfold Context.cachedForm
    split <;> exact ih.of_eq rfl rfl
  | setCachedForm _ live t p f ih =>
    unfold Context.setCachedForm
    split <;> exact ih.of_eq rfl rfl
  | cachedHandle _ live select t p ih =>
    unfold Context.cachedHandle
    split <;> exact ih.of_eq rfl rfl
  | setCachedHandle _ live select wrap t p k ih =>
    unfold Context.setCachedHandle
    split
    · split <;> exact ih.of_eq rfl rfl
    · exact ih.of_eq rfl rfl

/-- An edit of a form that a client built is refused with an error or answers a well-formed form of
the shape that the edit says. -/
theorem edit_shape (hc : c.Reachable) (live : Live η) {id arity : Nat} {names : List (Name Form)}
    {result : Option Nat} {kind : FormKind} {base : Form} {e : Edit}
    (hbuild : Form.build id arity names result kind = .ok base) (hmade : ∀ n ∈ names, n.Made)
    (href : base.param? 0 = some .ref) (hargs : ∀ t ∈ base.params, t ≠ .void)
    (hallowed : e.Allowed base) (hplain : ∀ type, e = .bind 0 type → base.fields = []) :
    (∃ err, (c.edit live base e).1 = .error (.error err)) ∨
      ∃ f, (c.edit live base e).1 = .ok f ∧ f.WellFormed ∧ f.shape = e.reshape base.shape := by
  have hbase : base.Editable := by
    refine ⟨Form.wellFormed_of_build hbuild, ?_, href, hargs⟩
    obtain ⟨-, rfl⟩ := Form.verified_eq_ok_iff.1 hbuild
    exact hmade
  have htotal := edit_total hc.sound live hbase (Edit.unbroken_check hbase hallowed)
    (hallowed.inWords hbase) hplain
  refine htotal.imp_right fun ⟨f, hok⟩ => ⟨f, hok, ?_⟩
  have hcheck : e.check base = .ok () := check_of_edit_ok hok
  rcases edit_ok hc.sound live hbase hok with ⟨htrivial, rfl⟩ | hderives
  · exact ⟨hbase.wellFormed, (Edit.reshape_of_isTrivial hbase hcheck htrivial).symm⟩
  · refine ⟨(hderives.editable hbase).wellFormed, ?_⟩
    rw [hderives.shape_eq hbase, Edit.reshape_normal hcheck]

/-- Binding the long parameter of a carrier appends a field, also once the cache knows the form. -/
theorem edit_shape_bind : ∃ f,
    ((new {} : Context Empty).edit ⟨fun _ => true, nofun⟩ ⟨0, 2, [.carrier ⟨1, [.int]⟩,
      .param .long], none, .generic⟩ (.bind 1 .long)).1 = .ok f ∧ f.WellFormed ∧
    f.shape = ⟨[.ref], .void, some [.int, .long]⟩ := by
  have h := edit_shape (.new {}) (c := (new {} : Context Empty)) ⟨fun _ => true, nofun⟩
    (e := .bind 1 .long) (show Form.build 0 2 [.carrier ⟨1, [.int]⟩, .param .long] none .generic =
      .ok ⟨0, 2, [.carrier ⟨1, [.int]⟩, .param .long], none, .generic⟩ from rfl)
    (List.forall_mem_cons.2 ⟨.carrier _, List.forall_mem_singleton.2 (.param _)⟩) rfl (by decide)
    (show 1 < 2 by decide) (by simp)
  exact h.resolve_left (by rintro ⟨err, herr⟩; cases herr)

/-- A carrier with fields cannot be bound, and a fold whose sums wrap around reads a parameter that
is not there, although both keep to what is asserted before anything is looked up. -/
theorem edit_breaks : ∃ carrier plain : Form, ∃ combiner : Signature,
    (Form.build 0 2 [.carrier ⟨1, [.int]⟩, .param .int] none .generic = .ok carrier ∧
      Form.build 0 2 [.param .ref, .param .int] none .generic = .ok plain ∧
      carrier.params = [.ref, .int] ∧ plain.params = [.ref, .int]) ∧
    ((new {} : Context Empty).edit ⟨fun _ => true, nofun⟩ carrier (.bind 0 .ref)).1 =
      .error (.violation .bindCarrier) ∧
    ((new {} : Context Empty).edit ⟨fun _ => true, nofun⟩ plain
      (.fold (2 ^ 64 - 1) true combiner)).1 = .error (.violation .outOfBounds) :=
  ⟨⟨0, 2, [.carrier ⟨1, [.int]⟩, .param .int], none, .generic⟩,
    ⟨0, 2, [.param .ref, .param .int], none, .generic⟩,
    ⟨[.int], .void, by decide, by decide⟩, ⟨rfl, rfl, rfl, rfl⟩, rfl, rfl⟩

end Context

end HandleForms
