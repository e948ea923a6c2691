import HandleForms.Proofs.Handle.Makes
import HandleForms.Proofs.Run.Congruence
import HandleForms.Proofs.World.Live
import HandleForms.Proofs.World.Triple

/-!
# Operations make what they say

Every operation on handles keeps the world sound, and of proper handles it makes what
`HandleOp.Makes` says (`Act.triple_perform`). Handles that are not proper can do no harm: what is
made of them may be of no use, but nothing that is shared comes to depend on it.
-/

namespace HandleForms

variable {σ α : Type}

/-! ## Types -/

namespace Signature

variable {s t : Signature} {pos start stop : Nat} {types : List Ty}

theorem arity_le (s : Signature) : s.arity ≤ maxSlots := by
  rw [← length_basicParams]
  exact Nat.le_trans (BasicType.length_le_slotSum (ne_void_of_mem_basicParams rfl)) s.slots_le

/-- Positions among parameters are far from the end of the machine words. -/
theorem add_lt_wordCount (s : Signature) {a b : Nat} (h : a + b ≤ s.arity + maxSlots) :
    a + b < Text.wordCount := by
  have hle := s.arity_le
  have hsmall : 2 * maxSlots < Text.wordCount := by decide
  omega

theorem wordAdd_resultArity (s : Signature) (drop : Bool) (hpos : pos ≤ s.arity) :
    Text.wordAdd pos (Edit.resultArity drop) = pos + Edit.resultArity drop := by
  have hone : Edit.resultArity drop ≤ maxSlots := by cases drop <;> decide
  exact Text.wordAdd_of_lt (s.add_lt_wordCount (by omega))

theorem of_drop? (h : s.drop? start stop = some t) :
    start ≤ stop ∧ stop ≤ s.arity ∧ t.params = s.params.take start ++ s.params.drop stop ∧
      t.ret = s.ret := by
  unfold drop? at h
  split at h
  · next hrange =>
    obtain rfl := Option.some.inj h
    exact ⟨hrange.1, hrange.2, rfl, rfl⟩
  · cases h

theorem of_insert? (h : s.insert? pos types = some (.ok t)) :
    pos ≤ s.arity ∧ t.params = s.params.take pos ++ types ++ s.params.drop pos ∧ t.ret = s.ret := by
  unfold insert? at h
  split at h
  · next hpos => exact ⟨hpos, ofTypes_eq_ok_iff.1 (Option.some.inj h)⟩
  · cases h

theorem of_changeParam? {ty : Ty} (h : s.changeParam? pos ty = some (.ok t)) :
    pos < s.arity ∧ t.params = s.params.set pos ty ∧ t.ret = s.ret := by
  unfold changeParam? at h
  split at h
  · next hpos => exact ⟨hpos, ofTypes_eq_ok_iff.1 (Option.some.inj h)⟩
  · cases h

end Signature

theorem InvokerTable.handles_request (t : InvokerTable) (live : Invokers → Bool) (type : Signature)
    (id : Nat) : (t.request live type id).2.handles = t.handles := by
  unfold request
  split
  · rfl
  · dsimp only
    split <;> rfl

theorem InvokerTable.type_request (t : InvokerTable) (live : Invokers → Bool) (type : Signature)
    (id : Nat) : (t.request live type id).1.type = type := by
  unfold request
  split
  · next i hi =>
    have hfound := (Option.filter_eq_some_iff.1 hi).1
    simpa using List.find?_some hfound
  · rfl

namespace Act

variable {owned : List TypeForm} {Q : α → Prop} {h : Handle}

theorem triple_require (p : Prop) [Decidable p] (v : Violation) :
    Triple (σ := σ) owned (require p v) fun _ => p := by
  unfold require
  split
  · next h => exact .pure h
  · exact .throw _

theorem triple_paramType (type : Signature) (pos : Nat) :
    Triple (σ := σ) owned (paramType type pos) fun t => type.params[pos]? = some t := by
  unfold paramType
  split
  · next h => exact .pure h
  · exact .throw _

theorem triple_paramRange (type : Signature) (start stop : Nat) :
    Triple (σ := σ) owned (paramRange type start stop) fun ts =>
      (start ≤ stop ∧ stop ≤ type.arity) ∧ ts = (type.params.take stop).drop start := by
  unfold paramRange
  split
  · next h => exact .pure ⟨h, rfl⟩
  · exact .throw _

theorem triple_dropParams (type : Signature) (start stop : Nat) :
    Triple (σ := σ) owned (dropParams type start stop) fun t => start ≤ stop ∧ stop ≤ type.arity ∧
      t.params = type.params.take start ++ type.params.drop stop ∧ t.ret = type.ret := by
  unfold dropParams
  split
  · next h => exact .pure (Signature.of_drop? h)
  · exact .throw _

theorem triple_insertParams (type : Signature) (pos : Nat) (types : List Ty) :
    Triple (σ := σ) owned (insertParams type pos types) fun t => pos ≤ type.arity ∧
      t.params = type.params.take pos ++ types ++ type.params.drop pos ∧ t.ret = type.ret := by
  unfold insertParams
  split
  · next h => exact (Triple.ofSignature _).imp fun t ht => Signature.of_insert? (ht ▸ h)
  · exact .throw _

theorem triple_changeParam (type : Signature) (pos : Nat) (ty : Ty) :
    Triple (σ := σ) owned (changeParam type pos ty) fun t => pos < type.arity ∧
      t.params = type.params.set pos ty ∧ t.ret = type.ret := by
  unfold changeParam
  split
  · next h => exact (Triple.ofSignature _).imp fun t ht => Signature.of_changeParam? (ht ▸ h)
  · exact .throw _

/-- Some parameters take the place of others. -/
theorem triple_splice {type : Signature} {pos stop : Nat} {types : List Ty}
    {k : Signature → Act σ α} (hk : ∀ t : Signature, pos ≤ stop → stop ≤ type.arity →
      t.params = type.params.take pos ++ types ++ type.params.drop stop → t.ret = type.ret →
        Triple owned (k t) Q) :
    Triple owned (dropParams type pos stop >>= fun s => insertParams s pos types >>= k) Q := by
  refine (triple_dropParams _ _ _).bind fun s hs => (triple_insertParams _ _ _).bind fun t ht => ?_
  obtain ⟨hle, hstop, hparams, hret⟩ := hs
  obtain ⟨-, hparams', hret'⟩ := ht
  have hlen : (type.params.take pos).length = pos := by
    rw [List.length_take]
    exact Nat.min_eq_left (Nat.le_trans hle hstop)
  refine hk t hle hstop ?_ (hret'.trans hret)
  rw [hparams', hparams, List.take_left' hlen, List.drop_left' hlen]

theorem triple_checkSlots (type : Signature) (limit : Nat) :
    Triple (σ := σ) owned (checkSlots type limit) fun _ => True := by
  unfold checkSlots
  split
  · exact .throw _
  · exact .pure trivial

/-! ## Carriers -/

theorem triple_rebind (h : Handle) : Triple (σ := σ) owned (rebind h) h.Rebound := by
  unfold rebind
  split
  · next hbound => exact .pure (.self hbound)
  · next hplain =>
    refine triple_typeForm fun t ht => ?_
    rw [Signature.basic_basic] at ht
    refine Triple.bind (triple_sharedForm (.head _) (p := .boundReinvoker) ?_) fun form hform => ?_
    · refine (triple_species _).bind fun s hs => (triple_newForm _).imp fun f hf => ?_
      obtain ⟨id, hf⟩ := hf
      exact ⟨s, id, hs, ht ▸ hf⟩
    · obtain ⟨s, id, hs, hform⟩ := hform
      refine (triple_species _).bind fun s' hs' => (triple_newHandle _ _ _).imp fun R hR => ?_
      obtain ⟨htype, rfl, hdata⟩ := hR
      exact .wrapped (by simpa using hplain) htype hs (ht ▸ hform) hs' hdata

/-- Edits the form of a carrier of a handle. -/
theorem triple_carrier {e : Edit} {k : Handle → Form → Act σ α}
    (hk : ∀ R f, h.Rebound R → (h.Proper → e.Answers R.form f) → Triple owned (k R f) Q) :
    Triple owned (rebind h >>= fun R => editForm R e >>= fun f => k R f) Q := by
  refine (triple_rebind h).bind fun R hR => ?_
  have hedit : Triple (σ := σ) owned (editForm R e) fun f => R.form.Editable → e.Answers R.form f :=
    .look fun w _ => by
      rw [World.currentForm_of_bound hR.isSome]
      exact triple_edit R.form e
  exact hedit.bind fun f hf => hk R f hR fun hh => hf (hR.serves hh).editable

theorem triple_copyWith (R : Handle) (type : Signature) (form : Form) :
    Triple (σ := σ) owned (copyWith R type form) fun B =>
      B.type = type ∧ B.form = form ∧ B.data = R.data :=
  triple_newHandle _ _ _

theorem triple_copyWithExtra (R : Handle) (type : Signature) (form : Form) (value : Value) :
    Triple (σ := σ) owned (copyWithExtra R type form value) fun B =>
      B.type = type ∧ B.form = form ∧
        ∃ s, form.species? 0 = some s ∧ B.data = .bound s (R.bound ++ [value]) := by
  unfold copyWithExtra
  split
  · next s hs => exact (triple_newHandle _ _ _).imp fun B hB => ⟨hB.1, hB.2.1, s, hs, hB.2.2⟩
  · exact .throw _

end Act

/-- A copy of the carrier over the edited form. -/
theorem HandleOf.Adapted.of_copy {h R B : Handle} {f : Form} {es : List Edit} {type : Signature}
    (hR : h.Rebound R) (hf : Edit.Chain R.form es f)
    (hB : B.type = type ∧ B.form = f ∧ B.data = R.data) : h.Adapted type es [] B :=
  ⟨hB.1, R, hR, hB.2.1 ▸ hf, .inl ⟨rfl, hB.2.2⟩⟩

/-- A copy of the carrier over the edited form, with one more value. -/
theorem HandleOf.Adapted.of_extra {h R B : Handle} {f : Form} {e : Edit} {type : Signature}
    {value : Value} (hR : h.Rebound R) (hf : e.Answers R.form f)
    (hB : B.type = type ∧ B.form = f ∧
      ∃ s, f.species? 0 = some s ∧ B.data = .bound s (R.bound ++ [value])) :
    h.Adapted type [e] [value] B := by
  obtain ⟨htype, rfl, s, hs, hdata⟩ := hB
  exact ⟨htype, R, hR, .single hf, .inr ⟨s, hs, hdata⟩⟩

namespace Act

variable {owned : List TypeForm} {h : Handle}

/-! ## Arguments -/

theorem triple_incompatible (combiner target : Signature) :
    Triple (σ := σ) owned (incompatible combiner target : Act σ α) fun _ => False :=
  .throw _

theorem triple_bindArgument (h : Handle) (pos : Nat) (value : Value) :
    Triple (σ := σ) owned (bindArgument h pos value) fun B =>
      ((pos < h.type.arity ∧ h.type.basicParams[pos]? = some value.basicType) ∧
        B.type.params = h.type.params.take pos ++ h.type.params.drop (pos + 1) ∧
        B.type.ret = h.type.ret) ∧
      (h.Proper → h.Adapted B.type [.bind (pos + 1) value.basicType] [value] B) := by
  refine (triple_require _ _).bind fun _ hpos => (triple_paramType _ _).bind fun t ht =>
    .guarded (fun _ => .throw _) fun hvalue => ?_
  obtain hvalue : value.basicType = t.basicType := by simpa using hvalue
  refine triple_carrier fun R f hR hf => (triple_dropParams _ _ _).bind fun type htype =>
    (triple_copyWithExtra _ _ _ _).imp fun B hB => ?_
  obtain ⟨-, -, hparams, hret⟩ := htype
  refine ⟨⟨⟨hpos, ?_⟩, hB.1 ▸ hparams, hB.1 ▸ hret⟩, fun hh =>
    .of_extra hR (hvalue ▸ hf hh) ⟨rfl, hB.2⟩⟩
  rw [Signature.basicParams, List.getElem?_map, ht, hvalue]
  rfl

end Act

/-- One value is bound. -/
theorem HandleOp.Adapts.insert_one {h : Handle} {pos : Nat} {v : Value} {type : Signature}
    (hpos : pos < h.type.arity) (hv : h.type.basicParams[pos]? = some v.basicType)
    (hparams : type.params = h.type.params.take pos ++ h.type.params.drop (pos + 1))
    (hret : type.ret = h.type.ret) :
    (HandleOp.insert h pos [v]).Adapts h type [.bind (pos + 1) v.basicType] [v] := by
  refine .insert hpos (List.ext_getElem? fun k => ?_) hparams hret
  cases k with
  | zero => simp [hv]
  | succ k =>
    have hshort : ((h.type.basicParams.drop pos).take [v].length).length ≤ k + 1 :=
      Nat.le_trans (List.length_take_le _ _) (Nat.succ_le_succ (Nat.zero_le k))
    rw [List.getElem?_eq_none hshort]
    rfl

namespace Act

variable {owned : List TypeForm} {h : Handle}

theorem triple_insertArguments (h : Handle) (pos : Nat) (values : List Value) :
    Triple (σ := σ) owned (insertArguments h pos values) fun B =>
      h.Proper → (HandleOp.insert h pos values).Makes B := by
  induction values generalizing h with
  | nil => exact .pure fun _ => .insertNone
  | cons v values ih =>
    refine (triple_bindArgument h pos v).bind fun C hC => ?_
    obtain ⟨⟨⟨hpos, hv⟩, hparams, hret⟩, hadapted⟩ := hC
    have hle : pos ≤ h.type.params.length := Nat.le_of_lt hpos
    have hfirst := HandleOp.Adapts.insert_one hpos hv hparams hret
    obtain rfl | hvalues := eq_or_ne values []
    · exact .pure fun hh => .adapted hfirst (hadapted hh)
    refine (ih C).imp fun B hB hh => ?_
    cases hB ((hadapted hh).proper hfirst hh) with
    | insertNone => exact absurd rfl hvalues
    | adapted hop hrest =>
      obtain ⟨hlen, htypes, hparams', hret'⟩ := hop
      have harity : C.type.arity + 1 = h.type.arity := by
        simp only [Signature.arity, hparams, List.length_append, List.length_take, List.length_drop]
          at hpos ⊢
        omega
      have hdrop : C.type.params.drop pos = h.type.params.drop (pos + 1) := by
        rw [hparams, List.drop_left' (by simp [hle])]
      have hdropMore : C.type.params.drop (pos + values.length) =
          h.type.params.drop (pos + (v :: values).length) := by
        rw [← List.drop_drop, hdrop, List.drop_drop, List.length_cons]
        congr 1
        omega
      have htake : C.type.params.take pos = h.type.params.take pos := by
        rw [hparams, List.take_left' (by simp [hle])]
      have hbasic : C.type.basicParams.drop pos = h.type.basicParams.drop (pos + 1) := by
        rw [Signature.basicParams, Signature.basicParams, ← List.map_drop, ← List.map_drop, hdrop]
      refine .adapted (.insert ?_ ?_ ?_ (hret'.trans hret)) ((hadapted hh).trans hrest hvalues)
      · rw [List.length_cons]
        omega
      · obtain ⟨hlt, hv⟩ := List.getElem?_eq_some_iff.1 hv
        rw [List.drop_eq_getElem_cons hlt, List.length_cons, List.take_succ_cons, List.map_cons,
          htypes, hbasic, hv]
      · rw [hparams', hdropMore, htake]

theorem triple_addParams (form : Form) (pos : Nat) (types : List Ty) :
    Triple (σ := σ) owned (addParams form pos types) fun f =>
      form.Editable → Edit.Chain form (Edit.additions pos types) f := by
  induction types generalizing form pos with
  | nil => exact .pure fun _ => .nil form
  | cons t ts ih =>
    refine (triple_edit form (.add pos t.basicType)).bind fun g hg =>
      (ih g (pos + 1)).imp fun f hf hbase => ?_
    exact .cons (hg hbase) (hf ((hg hbase).editable hbase))

theorem triple_dropArguments (h : Handle) (pos : Nat) (types : List Ty) :
    Triple (σ := σ) owned (dropArguments h pos types) fun B =>
      h.Proper → (HandleOp.drop h pos types).Makes B := by
  refine (triple_require _ _).bind fun _ hpos => (triple_insertParams _ _ _).bind fun type htype => ?_
  obtain ⟨-, hparams, hret⟩ := htype
  split
  · next hnil =>
    obtain rfl := List.isEmpty_iff.1 hnil
    exact .pure fun _ => .dropNone
  refine (triple_checkSlots _ _).bind fun _ _ => (triple_rebind h).bind fun R hR =>
    .look fun w _ => ?_
  rw [World.currentForm_of_bound hR.isSome]
  refine (triple_addParams _ _ _).bind fun f hf => (triple_copyWith _ _ _).imp fun B hB hh => ?_
  exact .adapted (.drop hpos hparams hret) (.of_copy hR (hf (hR.serves hh).editable) hB)

theorem triple_dupArguments (h : Handle) (src dst : Nat) :
    Triple (σ := σ) owned (dupArguments h src dst) fun B =>
      h.Proper → (HandleOp.dup h src dst).Makes B := by
  refine (triple_require _ _).bind fun _ hlt => (triple_paramType _ _).bind fun source hsource =>
    (triple_paramType _ _).bind fun target htarget => .guarded (fun _ => .throw _) fun hsame => ?_
  refine triple_carrier fun R f hR hf => (triple_dropParams _ _ _).bind fun type htype =>
    (triple_copyWith _ _ _).imp fun B hB hh => ?_
  obtain ⟨-, -, hparams, hret⟩ := htype
  refine .adapted (.dup hlt.1 hlt.2 ?_ hparams hret) (.of_copy hR (.single (hf hh)) hB)
  rw [hsource, htarget, not_not.1 hsame]

theorem triple_spreadArguments (h : Handle) (pos : Nat) (array : Ty) (count : Nat) :
    Triple (σ := σ) owned (spreadArguments h pos array count) fun B =>
      h.Proper → (HandleOp.spread h pos array count).Makes B := by
  refine (triple_require _ _).bind fun _ _ => triple_splice fun type _ _ hparams hret =>
    triple_carrier fun R f hR hf => (triple_copyWith _ _ _).imp fun B hB hh => ?_
  -- The form has the parameters that are spread, so their count did not wrap around.
  have harity := (hR.serves hh).arity_eq
  obtain ⟨⟨⟩, -⟩ | ⟨g, A, id, hadapts, -, -⟩ := (hf hh).derives
  cases hadapts with
  | spread harray _ hle _ _ =>
    have hstop : Text.wordAdd pos count = pos + count :=
      Text.wordAdd_of_lt (h.type.add_lt_wordCount (by omega))
    exact .adapted (.spread harray (by omega) (hstop ▸ hparams) hret)
      (.of_copy hR (.single (hf hh)) hB)

/-! ## Handles that are called on the way -/

theorem triple_filterArgument (h : Handle) (pos : Nat) (f : Handle) :
    Triple (σ := σ) owned (filterArgument h pos f) fun B =>
      h.Proper → (HandleOp.filter h pos f).Makes B := by
  refine (triple_require _ _).bind fun _ _ => ?_
  split
  · next param hparam =>
    refine (triple_paramType _ _).bind fun t ht =>
      .guarded (fun _ => triple_incompatible _ _) fun hret => ?_
    refine triple_carrier fun R f hR hf => (triple_changeParam _ _ _).bind fun type htype =>
      (triple_copyWithExtra _ _ _ _).imp fun B hB hh => ?_
    obtain ⟨-, hparams, hret'⟩ := htype
    exact .adapted (.filter hparam (not_not.1 hret ▸ ht) hparams hret') (.of_extra hR (hf hh) hB)
  · exact (triple_incompatible _ _).imp fun _ hfalse => hfalse.elim

theorem triple_collectArguments (h : Handle) (pos : Nat) (c : Handle) :
    Triple (σ := σ) owned (collectArguments h pos c) fun B =>
      h.Proper → (HandleOp.collect h pos c).Makes B := by
  refine (triple_require _ _).bind fun _ _ => ?_
  have hrest : (c.type.ret.isVoid = false → h.type.params[pos]? = some c.type.ret) →
      Triple (σ := σ) owned (do
        let type ← insertParams (← dropParams h.type pos (Text.wordAdd pos
          (Edit.resultArity c.type.ret.isVoid))) pos c.type.params
        let carrier ← rebind h
        let form ← editForm carrier (.collect (pos + 1) c.type)
        copyWithExtra carrier type form (.handle c)) fun B =>
          h.Proper → (HandleOp.collect h pos c).Makes B := by
    refine fun hfits => triple_splice fun type hle hstop hparams hret =>
      triple_carrier fun R f hR hf => (triple_copyWithExtra _ _ _ _).imp fun B hB hh => ?_
    have hpos := Nat.le_trans hle hstop
    rw [h.type.wordAdd_resultArity _ hpos] at hstop hparams
    exact .adapted (.collect hstop hfits hparams hret) (.of_extra hR (hf hh) hB)
  dsimp only
  split
  · refine (triple_paramType _ _).bind fun t ht =>
      .guarded (fun _ => triple_incompatible _ _) fun hret => hrest fun _ => not_not.1 hret ▸ ht
  · next hvoid => exact hrest fun hvalue => absurd hvalue (by simpa using hvoid)

theorem triple_foldArguments (h : Handle) (pos : Nat) (c : Handle) :
    Triple (σ := σ) owned (foldArguments h pos c) fun B =>
      h.Proper → (HandleOp.fold h pos c).Makes B := by
  have hrest : (c.type.ret.isVoid = false → h.type.params[pos]? = some c.type.ret) →
      Triple (σ := σ) owned (do
        let kept ← paramRange h.type (Text.wordAdd pos (Edit.resultArity c.type.ret.isVoid))
          (Text.wordAdd (Text.wordAdd pos (Edit.resultArity c.type.ret.isVoid)) c.type.arity)
        if c.type.params ≠ kept then incompatible c.type h.type
        let type ← dropParams h.type pos (Text.wordAdd pos
          (Edit.resultArity c.type.ret.isVoid))
        let carrier ← rebind h
        let form ← editForm carrier (.fold (pos + 1) c.type.ret.isVoid c.type)
        copyWithExtra carrier type form (.handle c)) fun B =>
          h.Proper → (HandleOp.fold h pos c).Makes B := by
    refine fun hfits => (triple_paramRange _ _ _).bind fun kept hkept =>
      .guarded (fun _ => triple_incompatible _ _) fun hsame => (triple_dropParams _ _ _).bind
        fun type htype => triple_carrier fun R f hR hf =>
          (triple_copyWithExtra _ _ _ _).imp fun B hB hh => ?_
    obtain ⟨hle, hfolded, hparams, hret⟩ := htype
    obtain ⟨⟨-, hstop⟩, hkept⟩ := hkept
    have hpos := Nat.le_trans hle hfolded
    rw [h.type.wordAdd_resultArity _ hpos] at hstop hfolded hparams hkept
    have hsum := Text.wordAdd_of_lt
      (h.type.add_lt_wordCount (Nat.add_le_add hfolded c.type.arity_le))
    rw [hsum] at hstop hkept
    refine .adapted (.fold hstop hfits ?_ hparams hret) (.of_extra hR (hf hh) hB)
    rw [List.drop_take, Nat.add_sub_cancel_left] at hkept
    rw [← hkept, not_not.1 hsame]
  unfold foldArguments
  dsimp only
  refine .guarded (fun _ => triple_incompatible _ _) fun _ => ?_
  split
  · exact (triple_paramType _ _).bind fun t ht =>
      .guarded (fun _ => triple_incompatible _ _) fun hret => hrest fun _ => not_not.1 hret ▸ ht
  · next hvoid => exact hrest fun hvalue => absurd hvalue (by simpa using hvoid)

/-! ## Results -/

theorem triple_filterReturn (h f : Handle) :
    Triple (σ := σ) owned (filterReturn h f) fun B =>
      h.Proper → (HandleOp.filterReturn h f).Makes B := by
  unfold filterReturn
  dsimp only
  refine .guarded (fun _ => triple_incompatible _ _) fun hfits => triple_carrier fun R form hR hform =>
    (triple_copyWithExtra _ _ _ _).imp fun B hB hh => ?_
  exact .adapted (.filterReturn (not_not.1 hfits)) (.of_extra hR (hform hh) hB)

theorem triple_zeroReturn (h : Handle) (type : Ty) :
    Triple (σ := σ) owned (zeroReturn h type) fun B =>
      h.Proper → (HandleOp.zeroReturn h type).Makes B :=
  triple_carrier fun _ _ hR hf => (triple_copyWith _ _ _).imp fun _ hB hh =>
    .adapted .zeroReturn (.of_copy hR (.single (hf hh)) hB)

/-! ## Reorders -/

theorem triple_mergeParams (form : Form) (steps : List (Nat × Nat)) :
    Triple (σ := σ) owned (mergeParams form steps) fun f =>
      form.Editable → Edit.Chain form (Edit.merging steps) f := by
  induction steps generalizing form with
  | nil => exact .pure fun _ => .nil form
  | cons step steps ih =>
    refine (triple_edit form _).bind fun g hg => (ih g).imp fun f hf hbase => ?_
    exact .cons (hg hbase) (hf ((hg hbase).editable hbase))

theorem triple_addUnread (type : Signature) (form : Form) (steps : List (Nat × Nat)) :
    Triple (σ := σ) owned (addUnread type form steps) fun f =>
      form.Editable → Edit.Chain form (Edit.adding type steps) f := by
  induction steps generalizing form with
  | nil => exact .pure fun _ => .nil form
  | cons step steps ih =>
    refine (triple_paramType _ _).bind fun t ht => (triple_edit form _).bind fun g hg =>
      (ih g).imp fun f hf hbase => ?_
    have hanswers : (Edit.add (step.1 + 1) ((type.basicParams[step.2]?).getD .void)).Answers form g := by
      rw [Signature.basicParams, List.getElem?_map, ht]
      exact hg hbase
    exact .cons hanswers (hf (hanswers.editable hbase))

theorem triple_permuteArguments (h : Handle) (type : Signature) (reorder : List Nat) :
    Triple (σ := σ) owned (permuteArguments h type reorder) fun B =>
      h.Proper → (HandleOp.permute h type reorder).Makes B := by
  unfold permuteArguments
  split
  · exact .throw _
  next hreorder =>
  refine (triple_rebind h).bind fun R hR => .look fun w _ => ?_
  rw [World.currentForm_of_bound hR.isSome]
  refine (triple_mergeParams _ _).bind fun f₁ hf₁ => (triple_addUnread _ _ _).bind fun f₂ hf₂ =>
    (triple_edit _ _).bind fun f₃ hf₃ => (triple_copyWith _ _ _).imp fun B hB hh => ?_
  have hbase := (hR.serves hh).editable
  have hmerged := hf₁ hbase
  have hadded := hf₂ (hmerged.editable hbase)
  exact .adapted (.permute hreorder) (.of_copy hR (hmerged.append (hadded.append
    (.single (hf₃ (hadded.editable (hmerged.editable hbase)))))) hB)

/-! ## Handles of their own -/

theorem triple_asType (h : Handle) (type : Signature) :
    Triple (σ := σ) owned (asType h type) fun B => h.Proper → (HandleOp.asType h type).Makes B := by
  unfold asType
  split
  · next htype => exact .pure fun hh => .asType (by rw [htype]) htype hh (fun _ => rfl) rfl
  split
  · exact .throw _
  next hbasic =>
  refine .look fun w hw => (triple_copyWith _ _ _).imp fun B hB hh => ?_
  obtain ⟨htype, hform, hdata⟩ := hB
  refine .asType (not_not.1 hbasic) htype (hform ▸ hw.fits_currentForm hh) (fun hplain => ?_) hdata
  rw [hform, World.currentForm_of_plain hplain]

theorem triple_external (name : String) (type : Signature) :
    Triple (σ := σ) owned (external name type) (HandleOp.external name type).Makes := by
  refine (triple_checkSlots _ _).bind fun _ _ => (triple_newForm _).bind fun f hf => ?_
  refine Triple.bind (Q := fun _ => True)
    (.contextSame (fun _ _ hc => ⟨hc.of_eq rfl rfl, trivial⟩) fun _ _ => rfl) fun _ _ => ?_
  refine (triple_newHandle _ _ _).imp fun B hB => ?_
  obtain ⟨id, hf⟩ := hf
  obtain ⟨htype, rfl, hdata⟩ := hB
  exact .external htype hf hdata

theorem triple_empty (type : Signature) :
    Triple (σ := σ) owned (empty type) (HandleOp.empty type).Makes := by
  have hview : ∀ (owned : List TypeForm) (h : Handle), h.Links type.basic .empty →
      Triple (σ := σ) owned (asType h type) (HandleOp.empty type).Makes := by
    rintro owned h ⟨hdata, htype, id, hform⟩
    have hh : h.Proper := ⟨htype ▸ Form.serves_empty hform, by simp [hdata], by simp [hdata],
      fun _ => Form.overlooks_empty hform, fun _ => Form.reachesNoMember_empty hform⟩
    refine (triple_asType h type).imp fun B hB => ?_
    cases hB hh with
    | asType hbasic htype' hfits hsame hdata' =>
      rw [← hsame (by simp [HandleOf.member?, hdata])] at hform
      exact .empty htype' hform (hdata'.trans hdata)
    | adapted hop _ => cases hop
  refine (triple_checkSlots _ _).bind fun _ _ => triple_typeForm fun t ht =>
    (triple_sharedHandle? (.head _) .empty).bind fun found hfound => ?_
  rw [Signature.basic_basic] at ht
  cases found with
  | some h => exact hview _ h (ht ▸ hfound h rfl)
  | none =>
    have hbuild : Triple (σ := σ) (t :: owned) (newForm (Form.empty type.basic))
        fun f => f.Links t.basic .empty := by
      rw [ht]
      exact triple_newForm _
    refine (triple_sharedForm (.head _) hbuild).bind fun f hf => (triple_newHandle _ _ _).bind
      fun h hh => ?_
    obtain ⟨htype, rfl, hdata⟩ := hh
    have hlinks : h.Links t.basic .empty := ⟨hdata, ht ▸ htype, hf⟩
    exact (triple_shareHandle (.head _) hlinks).bind fun g hg => hview _ g (ht ▸ hg)

/-! ## Direct handles -/

theorem triple_directForm (type : Signature) (kind : DispatchKind) (barrier : Bool) :
    Triple (σ := σ) owned (directForm type kind barrier) fun f =>
      ∃ id, Form.direct type.basic kind (barrier && kind.needsClass) id = .ok f := by
  refine (triple_checkSlots _ _).bind fun _ _ => triple_typeForm fun t ht => ?_
  rw [← ht]
  refine (triple_sharedForm (.head _) ?_).imp fun f hf => Form.links_direct.1 hf
  exact (triple_newForm _).imp fun f hf => Form.links_direct.2 (ht ▸ hf)

theorem triple_direct (host : Host σ) (m : Member) :
    Triple owned (direct host m) (HandleOp.direct m).Makes := by
  refine (Triple.ofSignature _).bind fun type htype => .look fun w _ =>
    (triple_directForm _ _ _).bind fun f hf => triple_freshId.bind fun memberId _ =>
      (triple_newHandle _ _ _).imp fun B hB => ?_
  obtain ⟨id, hf⟩ := hf
  obtain ⟨rfl, rfl, hdata⟩ := hB
  exact .direct htype hf hdata

/-! ## Invokers -/

theorem triple_invokerForm (type : Signature) (shape : InvokerShape) :
    Triple (σ := σ) owned (invokerForm type shape) fun f => f.Links type.basic shape.purpose := by
  refine (triple_checkSlots _ _).bind fun _ _ => triple_typeForm fun t ht => ?_
  rw [← ht]
  refine triple_sharedForm (.head _) ?_
  rw [ht]
  obtain ⟨generic, linker⟩ := shape
  cases linker with
  | true => exact (triple_newForm _).imp fun f hf => Form.links_linker.2 hf
  | false =>
    refine (triple_species _).bind fun s hs => (triple_newForm _).imp fun f hf => ?_
    obtain ⟨id, hf⟩ := hf
    exact Form.links_invoker.2 ⟨s, id, hs, hf⟩

/-- The invokers of a type are for that type. -/
theorem triple_invokers (type : Signature) :
    Triple (σ := σ) owned (invokers type) fun i => i.type = type := by
  refine triple_freshId.bind fun id _ w hw howned => ?_
  refine ⟨⟨⟨hw.context.of_eq rfl rfl, hw.types, hw.swapped, ?_⟩, rfl⟩, howned, fun i hi => ?_⟩
  · show ∀ e ∈ (w.invokers.request _ type id).2.handles, e.2.Checks e.1.2 e.1.1.type
    rw [InvokerTable.handles_request]
    exact hw.invokers
  · obtain rfl := Except.ok.inj hi
    exact InvokerTable.type_request _ _ _ _

theorem triple_invoker (type : Signature) (generic : Bool) :
    Triple (σ := σ) owned (invoker type generic) fun B => B.Checks generic type := by
  refine (triple_invokers type).bind fun i hi => .look fun w hw => ?_
  subst hi
  split
  · next h hfound => exact .pure (hw.invokers _ (TypeForms.mem_of_lookup hfound))
  refine (Triple.ofSignature _).bind fun invokerType hinvoker => (triple_invokerForm _ _).bind
    fun form hform => (triple_species _).bind fun s' hs' => (triple_newHandle _ _ _).bind
      fun h hh => ?_
  obtain ⟨rfl, rfl, hdata⟩ := hh
  have hchecks : h.Checks generic i.type := ⟨hinvoker, Form.links_invoker.1 hform, s', hs', hdata⟩
  refine Triple.bind (Q := fun _ => True) (fun w hw howned => ?_) fun _ _ => .pure hchecks
  refine ⟨⟨⟨hw.context, hw.types, hw.swapped, fun e he => ?_⟩, rfl⟩, howned, fun _ _ => trivial⟩
  rcases List.mem_cons.1 he with rfl | he
  · exact hchecks
  · exact hw.invokers e he

theorem triple_basicInvoker (type : Signature) :
    Triple (σ := σ) owned (basicInvoker type) fun B => B.Links type.basic .basicInvoker := by
  refine (triple_invokers type).bind fun _ _ => triple_typeForm fun t ht =>
    (triple_sharedHandle? (.head _) .basicInvoker).bind fun found hfound => ?_
  rw [Signature.basic_basic] at ht
  cases found with
  | some h => exact .pure (ht ▸ hfound h rfl)
  | none =>
    have hbuild : Triple (σ := σ) (t :: owned) (newForm (Form.basicInvoker type.basic))
        fun f => f.Links t.basic .basicInvoker := by
      rw [ht]
      exact triple_newForm _
    refine (Triple.ofSignature _).bind fun invokerType hinvoker =>
      (triple_sharedForm (.head _) hbuild).bind fun f hf => (triple_newHandle _ _ _).bind
        fun h hh => ?_
    obtain ⟨rfl, rfl, hdata⟩ := hh
    have hlinks : h.Links t.basic .basicInvoker := ⟨hdata, ht ▸ hinvoker, hf⟩
    exact (triple_shareHandle (.head _) hlinks).imp fun g hg => ht ▸ hg

/-! ## All of them -/

/-- Every operation keeps the world sound and makes of proper handles what it says. -/
theorem triple_perform (host : Host σ) (op : HandleOp) :
    Triple owned (perform host op) fun B => (∀ h ∈ op.handles, h.Proper) → op.Makes B := by
  have hfirst : ∀ {h : Handle} {hs : List Handle} {x : Act σ Handle} {Q : Handle → Prop},
      Triple owned x (fun B => h.Proper → Q B) →
        Triple owned x fun B => (∀ g ∈ h :: hs, g.Proper) → Q B :=
    fun hx => hx.imp fun B hB hops => hB (hops _ (.head _))
  cases op with
  | external name type => exact (triple_external name type).imp fun _ hB _ => hB
  | empty type => exact (triple_empty type).imp fun _ hB _ => hB
  | direct m => exact (triple_direct host m).imp fun _ hB _ => hB
  | exactInvoker type => exact (triple_invoker type false).imp fun _ hB _ => .exactInvoker hB
  | genericInvoker type => exact (triple_invoker type true).imp fun _ hB _ => .genericInvoker hB
  | basicInvoker type => exact (triple_basicInvoker type).imp fun _ hB _ => .basicInvoker hB
  | asType h type => exact hfirst (triple_asType h type)
  | insert h pos values => exact hfirst (triple_insertArguments h pos values)
  | drop h pos types => exact hfirst (triple_dropArguments h pos types)
  | dup h src dst => exact hfirst (triple_dupArguments h src dst)
  | spread h pos array count => exact hfirst (triple_spreadArguments h pos array count)
  | filter h pos f => exact hfirst (triple_filterArgument h pos f)
  | collect h pos c => exact hfirst (triple_collectArguments h pos c)
  | filterReturn h f => exact hfirst (triple_filterReturn h f)
  | zeroReturn h type => exact hfirst (triple_zeroReturn h type)
  | fold h pos c => exact hfirst (triple_foldArguments h pos c)
  | permute h type reorder => exact hfirst (triple_permuteArguments h type reorder)

end Act

end HandleForms
