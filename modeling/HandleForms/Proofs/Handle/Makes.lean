import HandleForms.Proofs.Handle.Reorder
import HandleForms.Proofs.World.Sound

/-!
# What the operations make

An adapter edits the form of a carrier of its target and binds a value for each field that the edits
append. `HandleOp.Adapts` says for each adapter which edits these are, which values are bound and
what the new type is, and `HandleOp.Makes` what every operation on handles answers. The new type and
the new form are computed along different ways; they agree because the edits do to the shape of the
form what the adapter does to the type (`HandleOp.Adapts.reshapes`).
-/

namespace HandleForms

namespace HandleOf

/-- The handle as a carrier: itself, or a carrier that calls it. -/
inductive Rebound (h : Handle) : Handle → Prop
  | self (hbound : h.species?.isSome) : Rebound h h
  | wrapped {R : Handle} {s t : Species} {id : Nat} (hplain : h.species? = none)
      (htype : R.type = h.type) (hs : s.fields = [.ref])
      (hform : Form.reinvoker s h.type.basic id = .ok R.form) (ht : t.fields = [.ref])
      (hdata : R.data = .bound t [.handle h]) : Rebound h R

/-- The result of an adapter that makes these edits and binds these values. -/
structure Adapted (h : Handle) (type : Signature) (es : List Edit) (extra : List Value)
    (B : Handle) : Prop where
  type_eq : B.type = type
  made : ∃ R, h.Rebound R ∧ Edit.Chain R.form es B.form ∧
    (extra = [] ∧ B.data = R.data ∨
      ∃ s, B.form.species? 0 = some s ∧ B.data = .bound s (R.bound ++ extra))

end HandleOf

/-- The handles that an operation adapts or calls, the target first. -/
def HandleOp.handles : HandleOp → List Handle
  | .external _ _ | .empty _ | .direct _ | .exactInvoker _ | .genericInvoker _ | .basicInvoker _ => []
  | .asType h _ | .insert h _ _ | .drop h _ _ | .dup h _ _ | .spread h _ _ _ | .zeroReturn h _
  | .permute h _ _ => [h]
  | .filter h _ f | .filterReturn h f => [h, f]
  | .collect h _ c | .fold h _ c => [h, c]

/-! ## The edits of an adapter -/

namespace Edit

/-- Adds parameters of these types, the first one at `pos`. -/
def additions (pos : Nat) : List Ty → List Edit
  | [] => []
  | t :: ts => .add pos t.basicType :: additions (pos + 1) ts

/-- Merges arguments pair by pair. -/
def merging (steps : List (Nat × Nat)) : List Edit :=
  steps.map fun step => .dup (step.1 + 1) (step.2 + 1)

/-- Adds a parameter for each argument of a type that nothing reads. -/
def adding (type : Signature) (steps : List (Nat × Nat)) : List Edit :=
  steps.map fun step => .add (step.1 + 1) ((type.basicParams[step.2]?).getD .void)

/-- Brings a reorder about. -/
def reordering (type : Signature) (reorder : List Nat) : List Edit :=
  let (merged, distinct) := Reorder.merges [] reorder
  let (added, permutation) := Reorder.additions distinct (List.range type.arity)
  merging merged ++ (adding type added ++ [.permute 1 permutation])

end Edit

/-- The adapter gives the target this type by these edits, and binds these values. -/
inductive HandleOp.Adapts (h : Handle) : HandleOp → Signature → List Edit → List Value → Prop
  | insert {pos : Nat} {values : List Value} {type : Signature}
      (hlen : pos + values.length ≤ h.type.arity)
      (hvalues : values.map Value.basicType = (h.type.basicParams.drop pos).take values.length)
      (hparams : type.params = h.type.params.take pos ++ h.type.params.drop (pos + values.length))
      (hret : type.ret = h.type.ret) :
      Adapts h (.insert h pos values) type
        (values.map fun v => .bind (pos + 1) v.basicType) values
  | drop {pos : Nat} {types : List Ty} {type : Signature} (hpos : pos ≤ h.type.arity)
      (hparams : type.params = h.type.params.take pos ++ types ++ h.type.params.drop pos)
      (hret : type.ret = h.type.ret) :
      Adapts h (.drop h pos types) type (Edit.additions (pos + 1) types) []
  | dup {src dst : Nat} {type : Signature} (hlt : src < dst) (hdst : dst < h.type.arity)
      (hsame : h.type.params[src]? = h.type.params[dst]?)
      (hparams : type.params = h.type.params.take dst ++ h.type.params.drop (dst + 1))
      (hret : type.ret = h.type.ret) :
      Adapts h (.dup h src dst) type [.dup (src + 1) (dst + 1)] []
  | spread {pos count : Nat} {array element : Ty} {type : Signature}
      (harray : array.component? = some element) (hle : pos + count ≤ h.type.arity)
      (hparams : type.params = h.type.params.take pos ++ [array] ++ h.type.params.drop (pos + count))
      (hret : type.ret = h.type.ret) :
      Adapts h (.spread h pos array count) type [.spread (pos + 1) array count] []
  | filter {pos : Nat} {f : Handle} {param : Ty} {type : Signature}
      (hparam : f.type.params = [param]) (hfits : h.type.params[pos]? = some f.type.ret)
      (hparams : type.params = h.type.params.set pos param) (hret : type.ret = h.type.ret) :
      Adapts h (.filter h pos f) type [.filter (pos + 1) param.basicType] [.handle f]
  | collect {pos : Nat} {c : Handle} {type : Signature}
      (hle : pos + Edit.resultArity c.type.ret.isVoid ≤ h.type.arity)
      (hfits : c.type.ret.isVoid = false → h.type.params[pos]? = some c.type.ret)
      (hparams : type.params = h.type.params.take pos ++ c.type.params ++
        h.type.params.drop (pos + Edit.resultArity c.type.ret.isVoid))
      (hret : type.ret = h.type.ret) :
      Adapts h (.collect h pos c) type [.collect (pos + 1) c.type] [.handle c]
  | filterReturn {f : Handle}
      (hfits : f.type.params = if h.type.ret.isVoid then [] else [h.type.ret]) :
      Adapts h (.filterReturn h f) (h.type.withRet f.type.ret) [.filterReturn f.type.basicRet]
        [.handle f]
  | zeroReturn {t : Ty} :
      Adapts h (.zeroReturn h t) (h.type.withRet t) [.zeroReturn t.basicType] []
  | fold {pos : Nat} {c : Handle} {type : Signature}
      (hle : pos + Edit.resultArity c.type.ret.isVoid + c.type.arity ≤ h.type.arity)
      (hfits : c.type.ret.isVoid = false → h.type.params[pos]? = some c.type.ret)
      (hkept : (h.type.params.drop (pos + Edit.resultArity c.type.ret.isVoid)).take c.type.arity =
        c.type.params)
      (hparams : type.params = h.type.params.take pos ++
        h.type.params.drop (pos + Edit.resultArity c.type.ret.isVoid))
      (hret : type.ret = h.type.ret) :
      Adapts h (.fold h pos c) type [.fold (pos + 1) c.type.ret.isVoid c.type] [.handle c]
  | permute {type : Signature} {reorder : List Nat}
      (hreorder : Reorder.defect? h.type type reorder = none) :
      Adapts h (.permute h type reorder) type (Edit.reordering type reorder) []

/-- What an operation on handles answers. -/
inductive HandleOp.Makes : HandleOp → Handle → Prop
  | external {name : String} {type : Signature} {id : Nat} {B : Handle} (htype : B.type = type)
      (hform : Form.external name type id = .ok B.form) (hdata : B.data = .simple) :
      Makes (.external name type) B
  | empty {type : Signature} {id : Nat} {B : Handle} (htype : B.type = type)
      (hform : Form.empty type.basic id = .ok B.form) (hdata : B.data = .simple) :
      Makes (.empty type) B
  | direct {m : Member} {barrier : Bool} {id memberId : Nat} {B : Handle}
      (htype : m.handleType = .ok B.type)
      (hform : Form.direct B.type.basic m.kind (barrier && m.kind.needsClass) id = .ok B.form)
      (hdata : B.data = .direct memberId m) : Makes (.direct m) B
  | exactInvoker {type : Signature} {B : Handle} (hB : B.Checks false type) :
      Makes (.exactInvoker type) B
  | genericInvoker {type : Signature} {B : Handle} (hB : B.Checks true type) :
      Makes (.genericInvoker type) B
  | basicInvoker {type : Signature} {B : Handle} (hB : B.Links type.basic .basicInvoker) :
      Makes (.basicInvoker type) B
  /-- A direct handle may have got another form in the meantime. -/
  | asType {h B : Handle} {type : Signature} (hbasic : h.type.basic = type.basic)
      (htype : B.type = type) (hfits : h.Fits B.form) (hform : h.member? = none → B.form = h.form)
      (hdata : B.data = h.data) : Makes (.asType h type) B
  /-- Nothing is inserted or dropped. -/
  | insertNone {h : Handle} {pos : Nat} : Makes (.insert h pos []) h
  | dropNone {h : Handle} {pos : Nat} : Makes (.drop h pos []) h
  | adapted {op : HandleOp} {h B : Handle} {type : Signature} {es : List Edit}
      {extra : List Value} (hop : op.Adapts h type es extra) (hB : h.Adapted type es extra B) :
      Makes op B

/-! ## The shape of what is made -/

/-- An array is a reference. -/
theorem Ty.basicType_of_component? {t element : Ty} (h : t.component? = some element) :
    t.basicType = .ref := by
  cases t with
  | array t => rfl
  | _ => cases h

/-- The result has no value exactly when its basic type has none. -/
theorem Signature.basicRet_beq_void (s : Signature) : (s.basicRet == .void) = s.ret.isVoid := by
  unfold basicRet
  cases s.ret <;> rfl

/-- The parameters of what takes the result of another one. -/
theorem Signature.basicParams_of_result {s t : Signature}
    (h : s.params = if t.ret.isVoid then [] else [t.ret]) :
    s.basicParams = if t.basicRet = .void then [] else [t.basicRet] := by
  rw [basicParams, h, ← basicRet_beq_void, apply_ite (List.map Ty.basicType)]
  simp only [beq_iff_eq]
  rfl

namespace Edit

variable {s : Form.Shape} {types : List BasicType}

/-- Parameters that are added one behind the other. -/
theorem foldl_additions (pos : Nat) (ts : List Ty) (hs : s.params = .ref :: types)
    (hpos : pos ≤ types.length) :
    ((additions (pos + 1) ts).foldl reshape s).params =
        .ref :: (types.take pos ++ ts.map Ty.basicType ++ types.drop pos) ∧
      ((additions (pos + 1) ts).foldl reshape s).ret = s.ret := by
  induction ts generalizing pos s types with
  | nil => simp [additions, hs]
  | cons t ts ih =>
    have hs' : (reshape s (.add (pos + 1) t.basicType)).params =
        .ref :: types.insertIdx pos t.basicType := by simp [reshape, hs]
    obtain ⟨hparams, hret⟩ := ih (pos + 1) hs'
      (by rw [List.length_insertIdx_of_le_length hpos]; omega)
    have hlen : (types.take pos).length = pos := by simp [hpos]
    have htake : (types.insertIdx pos t.basicType).take (pos + 1) =
        types.take pos ++ [t.basicType] := by
      rw [Adapts.insertIdx_eq hpos, List.take_append, hlen, List.take_of_length_le (by omega)]
      simp
    have hdrop : (types.insertIdx pos t.basicType).drop (pos + 1) = types.drop pos := by
      rw [Adapts.insertIdx_eq hpos, List.drop_append, hlen, List.drop_of_length_le (by omega)]
      simp
    refine ⟨hparams.trans ?_, hret⟩
    rw [htake, hdrop]
    simp

/-- Parameters at one position that are bound one after the other. -/
theorem foldl_binds (pos : Nat) (values : List Value) (hs : s.params = .ref :: types) :
    ((values.map fun v => Edit.bind (pos + 1) v.basicType).foldl reshape s).params =
        .ref :: (types.take pos ++ types.drop (pos + values.length)) ∧
      ((values.map fun v => Edit.bind (pos + 1) v.basicType).foldl reshape s).ret = s.ret := by
  induction values generalizing s types with
  | nil => simp [hs]
  | cons v values ih =>
    have hs' : (reshape s (.bind (pos + 1) v.basicType)).params = .ref :: types.eraseIdx pos := by
      simp [reshape, Form.Shape.grow, hs]
    obtain ⟨hparams, hret⟩ := ih hs'
    have hdrop : (types.eraseIdx pos).drop (pos + values.length) =
        types.drop (pos + (v :: values).length) := by
      refine List.ext_getElem? fun k => ?_
      rw [List.getElem?_drop, List.getElem?_drop, List.getElem?_eraseIdx_of_ge (by omega),
        List.length_cons]
      congr 1
      omega
    refine ⟨hparams.trans ?_, hret.trans (by simp [reshape, Form.Shape.grow])⟩
    rw [hdrop, List.take_eraseIdx_eq_take_of_le _ _ _ (Nat.le_refl pos)]

/-- A permutation of the arguments brings their types into order. -/
theorem permuteTypes_map {n : Nat} {reorder : List Nat} (hperm : reorder.Perm (List.range n))
    (ts : List BasicType) (hn : ts.length = n) :
    permuteTypes 1 reorder (.ref :: reorder.map fun r => (ts[r]?).getD .void) = .ref :: ts := by
  have hlen : reorder.length = n := by simpa using hperm.length_eq
  have hnodup : reorder.Nodup := hperm.nodup_iff.2 List.nodup_range
  unfold permuteTypes
  rw [List.take_succ_cons, List.take_zero, List.cons_append, List.nil_append]
  refine congrArg _ (List.ext_getElem (by simp [hlen, hn]) fun j hj hj' => ?_)
  have hmem : j ∈ reorder := hperm.mem_iff.2 (List.mem_range.2 (by omega))
  have hidx := List.idxOf_lt_length_of_mem hmem
  simp [Nat.add_comm 1, hidx, hj']

variable {g : Nat → BasicType} {entries : List Nat}

/-- Merging parameters takes entries out. -/
theorem foldl_merging (steps : List (Nat × Nat)) (hs : s.params = .ref :: entries.map g) :
    ((merging steps).foldl reshape s).params =
        .ref :: (steps.foldl (fun entries step => entries.eraseIdx step.2) entries).map g ∧
      ((merging steps).foldl reshape s).ret = s.ret := by
  induction steps generalizing s entries with
  | nil => exact ⟨hs, rfl⟩
  | cons step steps ih =>
    have hs' : (reshape s (.dup (step.1 + 1) (step.2 + 1))).params =
        .ref :: (entries.eraseIdx step.2).map g := by simp [reshape, hs, List.eraseIdx_map]
    exact ih hs'

/-- Adding parameters puts entries in. -/
theorem foldl_adding {type : Signature} (hg : ∀ r, g r = (type.basicParams[r]?).getD .void)
    (steps : List (Nat × Nat)) (hs : s.params = .ref :: entries.map g) :
    ((adding type steps).foldl reshape s).params =
        .ref :: (steps.foldl (fun entries step => entries.insertIdx step.1 step.2) entries).map g ∧
      ((adding type steps).foldl reshape s).ret = s.ret := by
  induction steps generalizing s entries with
  | nil => exact ⟨hs, rfl⟩
  | cons step steps ih =>
    have hs' : (reshape s (.add (step.1 + 1) ((type.basicParams[step.2]?).getD .void))).params =
        .ref :: (entries.insertIdx step.1 step.2).map g := by
      simp [reshape, hs, List.map_insertIdx, hg]
    exact ih hs'

end Edit

namespace HandleOp.Adapts

variable {op : HandleOp} {h : Handle} {type : Signature} {es : List Edit} {extra : List Value}

/-- No adapter binds the handle that is being called. -/
theorem keepsHandle (hop : op.Adapts h type es extra) : ∀ e ∈ es, e.KeepsHandle := by
  have hadditions : ∀ pos ts, ∀ e ∈ Edit.additions pos ts, e.KeepsHandle := by
    intro pos ts
    induction ts generalizing pos with
    | nil => exact nofun
    | cons t ts ih => exact List.forall_mem_cons.2 ⟨nofun, ih (pos + 1)⟩
  cases hop with
  | insert hlen hvalues hparams hret =>
    intro e he
    obtain ⟨v, -, rfl⟩ := List.mem_map.1 he
    exact fun t ht => by cases ht
  | drop hpos hparams hret => exact hadditions _ _
  | permute hreorder =>
    intro e he
    simp only [Edit.reordering, Edit.merging, Edit.adding, List.mem_append, List.mem_map,
      List.mem_singleton] at he
    rcases he with ⟨step, -, rfl⟩ | ⟨step, -, rfl⟩ | rfl <;> exact nofun
  | _ => exact List.forall_mem_singleton.2 nofun

/-- There is a value for each field that the edits append. -/
theorem fields (hop : op.Adapts h type es extra) :
    extra.map Value.basicType = es.filterMap Edit.field? := by
  have hadditions : ∀ pos ts, (Edit.additions pos ts).filterMap Edit.field? = [] := by
    intro pos ts
    induction ts generalizing pos with
    | nil => rfl
    | cons t ts ih => exact ih (pos + 1)
  cases hop with
  | insert hlen hvalues hparams hret => simp [List.filterMap_map, Function.comp_def, Edit.field?]
  | drop hpos hparams hret => exact (hadditions _ _).symm
  | permute hreorder =>
    simp [Edit.reordering, Edit.merging, Edit.adding, List.filterMap_map, Function.comp_def,
      Edit.field?]
  | _ => rfl

/-- The edits do to the shape of the form what the adapter does to the type. -/
theorem reshapes (hop : op.Adapts h type es extra) {s : Form.Shape}
    (hs : s.params = .ref :: h.type.basicParams) (hsret : s.ret = h.type.basicRet) :
    (es.foldl Edit.reshape s).params = .ref :: type.basicParams ∧
      (es.foldl Edit.reshape s).ret = type.basicRet := by
  have hbasicRet : type.ret = h.type.ret → s.ret = type.basicRet := fun hret => by
    rw [hsret, Signature.basicRet, Signature.basicRet, hret]
  cases hop with
  | insert hlen hvalues hparams hret =>
    obtain ⟨hfold, hfoldRet⟩ := Edit.foldl_binds _ extra hs
    exact ⟨hfold.trans (by simp [Signature.basicParams, hparams]), hfoldRet.trans (hbasicRet hret)⟩
  | drop hpos hparams hret =>
    obtain ⟨hfold, hfoldRet⟩ := Edit.foldl_additions _ _ hs (by simpa using hpos)
    exact ⟨hfold.trans (by simp [Signature.basicParams, hparams]), hfoldRet.trans (hbasicRet hret)⟩
  | dup hlt hdst hsame hparams hret =>
    refine ⟨?_, hbasicRet hret⟩
    simp [Edit.reshape, hs, Signature.basicParams, hparams, List.eraseIdx_eq_take_drop_succ]
  | spread harray hle hparams hret =>
    refine ⟨?_, hbasicRet hret⟩
    have href : Ty.basicType _ = .ref := Ty.basicType_of_component? harray
    simp [Edit.reshape, hs, Signature.basicParams, hparams, href, Nat.add_right_comm]
  | filter hparam hfits hparams hret =>
    refine ⟨?_, hbasicRet hret⟩
    simp [Edit.reshape, Form.Shape.grow, hs, Signature.basicParams, hparams, List.map_set]
  | @collect pos c _ hle hfits hparams hret =>
    refine ⟨?_, hbasicRet hret⟩
    have hadd : ∀ n, pos + 1 + n = pos + n + 1 := fun n => Nat.add_right_comm pos 1 n
    simp [Edit.reshape, Form.Shape.grow, hs, Signature.basicParams, hparams,
      Signature.basicRet_beq_void, hadd]
  | filterReturn hfits => exact ⟨hs, rfl⟩
  | zeroReturn => exact ⟨hs, rfl⟩
  | @fold pos c _ hle hfits hkept hparams hret =>
    refine ⟨?_, hbasicRet hret⟩
    cases hvoid : c.type.ret.isVoid <;>
      simp [Edit.reshape, Form.Shape.grow, hs, Signature.basicParams, hparams, hvoid,
        Edit.resultArity, List.eraseIdx_eq_take_drop_succ]
  | @permute _ reorder hreorder =>
    obtain ⟨hlen, hret, hentries⟩ := Reorder.defect?_eq_none_iff.1 hreorder
    -- Each parameter of the target has the type of the argument that it gets.
    have hold : h.type.basicParams =
        reorder.map fun r => (type.basicParams[r]?).getD .void := by
      refine List.ext_getElem? fun i => ?_
      rw [List.getElem?_map, Signature.basicParams, List.getElem?_map]
      cases hr : reorder[i]? with
      | none =>
        have hle : h.type.arity ≤ i := hlen ▸ List.getElem?_eq_none_iff.1 hr
        rw [Signature.arity] at hle
        simp [hle]
      | some r =>
        obtain ⟨hlt, htype⟩ := hentries i r hr
        have hsome : type.params[r]? = some type.params[r] := List.getElem?_eq_getElem hlt
        simp [Signature.basicParams, ← htype, hsome]
    have hrange : ∀ r ∈ reorder, r < type.arity := fun r hr => by
      obtain ⟨i, hi⟩ := List.getElem?_of_mem hr
      exact (hentries i r hi).1
    have hperm := Reorder.perm_range hrange
    obtain ⟨hmerged, hmergedRet⟩ := Edit.foldl_merging (Reorder.merges [] reorder).1 (hold ▸ hs)
    have hleft := Reorder.foldl_merges [] reorder
    rw [List.nil_append] at hleft
    rw [hleft] at hmerged
    obtain ⟨hadded, haddedRet⟩ := Edit.foldl_adding (fun _ => rfl)
      (Reorder.additions (Reorder.merges [] reorder).2 (List.range type.arity)).1 hmerged
    rw [Reorder.foldl_additions] at hadded
    simp only [Edit.reordering, List.foldl_append, List.foldl_cons, List.foldl_nil]
    refine ⟨?_, haddedRet.trans (hmergedRet.trans (hbasicRet hret.symm))⟩
    simp only [Edit.reshape, hadded]
    exact Edit.permuteTypes_map hperm type.basicParams (by simp)

end HandleOp.Adapts

/-! ## What is made is proper -/

namespace HandleOf

variable {h R B : Handle} {type : Signature} {es : List Edit} {extra : List Value}

theorem data_eq_of_species? {s : Species} (hs : h.species? = some s) : h.data = .bound s h.bound := by
  obtain ⟨id, type, form, data⟩ := h
  cases data with
  | bound t values =>
    obtain rfl := Option.some.inj hs
    rfl
  | simple => cases hs
  | direct id m => cases hs

/-- What a carrier is made of. -/
theorem Rebound.carrier (hR : h.Rebound R) (hh : h.Proper) :
    ∃ s, R.data = .bound s R.bound ∧ R.form.Carrier s.fields ∧
      R.bound.map Value.basicType = s.fields := by
  cases hR with
  | self hbound =>
    obtain ⟨s, hs⟩ := Option.isSome_iff_exists.1 hbound
    have hdata := data_eq_of_species? hs
    exact ⟨s, hdata, hh.bound s h.bound hdata⟩
  | @wrapped _ s t id hplain htype hs hform ht hdata =>
    have hbound : R.bound = [.handle h] := by simp [bound, hdata]
    exact ⟨t, by rw [hbound, hdata], ht ▸ Form.carrier_reinvoker hs hform, by rw [hbound, ht]; rfl⟩

theorem Rebound.isSome (hR : h.Rebound R) : R.species?.isSome := by
  cases hR with
  | self hbound => exact hbound
  | wrapped hplain htype hs hform ht hdata => simp [species?, hdata]

/-- A carrier is not wrapped. -/
theorem Rebound.eq_self (hR : h.Rebound R) (hbound : h.species?.isSome) : R = h := by
  cases hR with
  | self _ => rfl
  | wrapped hplain htype hs hform ht hdata => simp [hplain] at hbound

theorem Rebound.serves (hR : h.Rebound R) (hh : h.Proper) : R.form.Serves h.type := by
  cases hR with
  | self hbound => exact hh.serves
  | wrapped hplain htype hs hform ht hdata => exact .of_basic (Form.serves_reinvoker hs hform)

theorem member?_eq_none_of_bound (hbound : h.species?.isSome) : h.member? = none := by
  obtain ⟨s, hs⟩ := Option.isSome_iff_exists.1 hbound
  simp [member?, data_eq_of_species? hs]

/-- The form of a carrier reaches no member, even when the handle that it calls is a direct one. -/
theorem Rebound.reachesNoMember (hR : h.Rebound R) (hh : h.Proper) : R.form.ReachesNoMember := by
  cases hR with
  | self hbound => exact hh.plain (member?_eq_none_of_bound hbound)
  | wrapped hplain htype hs hform ht hdata => exact Form.reachesNoMember_reinvoker hs hform

theorem Adapted.isSome (hB : h.Adapted type es extra B) : B.species?.isSome := by
  obtain ⟨-, R, hR, -, ⟨-, hdata⟩ | ⟨s, -, hdata⟩⟩ := hB
  · rw [species?, hdata]
    exact hR.isSome
  · simp [species?, hdata]

/-- The values of what an adapter makes are those of the carrier and the values it binds. -/
theorem bound_of_data (hdata : extra = [] ∧ B.data = R.data ∨
    ∃ s, B.form.species? 0 = some s ∧ B.data = .bound s (R.bound ++ extra)) :
    B.bound = R.bound ++ extra := by
  rcases hdata with ⟨rfl, hdata⟩ | ⟨s, -, hdata⟩
  · simp [bound, hdata]
  · simp [bound, hdata]

/-- What one adapter made is the target of another one, which binds more values. -/
theorem Adapted.trans {C : Handle} {type' : Signature} {es' : List Edit} {extra' : List Value}
    (hB : h.Adapted type es extra B) (hC : B.Adapted type' es' extra' C) (hextra : extra' ≠ []) :
    h.Adapted type' (es ++ es') (extra ++ extra') C := by
  obtain ⟨htype, R', hR', hchain', hdata'⟩ := hC
  obtain rfl := hR'.eq_self hB.isSome
  obtain ⟨-, R, hR, hchain, hdata⟩ := hB
  obtain ⟨s, hs, hdata'⟩ := hdata'.resolve_left fun h => hextra h.1
  refine ⟨htype, R, hR, hchain.append hchain', .inr ⟨s, hs, ?_⟩⟩
  rw [hdata', bound_of_data hdata, List.append_assoc]

/-- An adapter that edits the form as it does the type makes a proper handle. -/
theorem Adapted.proper {op : HandleOp} (hB : h.Adapted type es extra B)
    (hop : op.Adapts h type es extra) (hh : h.Proper) : B.Proper := by
  obtain ⟨htype, R, hR, hchain, hdata⟩ := hB
  obtain ⟨s, hRdata, hcarrier, hvalues⟩ := hR.carrier hh
  have hserves := hR.serves hh
  have hgrown := hchain.carrier hcarrier hop.keepsHandle
  have hshape := hchain.shape_eq hcarrier.editable
  obtain ⟨hparams, hret⟩ := hop.reshapes (s := R.form.shape) hserves.params hserves.ret
  rw [← hshape] at hparams hret
  subst htype
  refine ⟨⟨hgrown.editable, hparams, hret, fun r hr => (hgrown.result r hr).2⟩,
    fun t values hbound => ?_, fun id m hdirect => ?_, fun hsimple => ?_,
    fun _ => hchain.reachesNoMember hcarrier.editable (hR.reachesNoMember hh)⟩
  · rcases hdata with ⟨rfl, hsame⟩ | ⟨t', hspecies, hnew⟩
    · have hnone : es.filterMap Edit.field? = [] := hop.fields.symm
      rw [hnone, List.append_nil] at hgrown
      obtain ⟨rfl, rfl⟩ : s = t ∧ R.bound = values := by simpa [hsame, hRdata] using hbound
      exact ⟨hgrown, hvalues⟩
    · obtain ⟨rfl, rfl⟩ : t' = t ∧ R.bound ++ extra = values := by simpa [hnew] using hbound
      have hfields : t'.fields = s.fields ++ es.filterMap Edit.field? := by
        simpa [hspecies] using hgrown.species
      rw [hfields, List.map_append, hvalues, hop.fields]
      exact ⟨hgrown, rfl⟩
  · rcases hdata with ⟨-, hsame⟩ | ⟨t', -, hnew⟩
    · simp [hsame, hRdata] at hdirect
    · simp [hnew] at hdirect
  · rcases hdata with ⟨-, hsame⟩ | ⟨t', -, hnew⟩
    · simp [hsame, hRdata] at hsimple
    · simp [hnew] at hsimple

/-- What checks its first argument reads the type from its carrier. -/
theorem Checks.proper {generic : Bool} (hB : B.Checks generic type) : B.Proper := by
  obtain ⟨s, id, hs, hform⟩ := hB.form
  obtain ⟨t, ht, hdata⟩ := hB.data
  have hserves := Form.serves_invoker hs hform hB.invoker
  refine ⟨hserves, fun u values hu => ?_, by simp [hdata], by simp [hdata],
    fun _ => Form.reachesNoMember_invoker hs hform⟩
  obtain ⟨rfl, rfl⟩ : t = u ∧ [Value.signature type] = values := by simpa [hdata] using hu
  rw [ht]
  exact ⟨Form.carrier_invoker hs hform hserves.editable, rfl⟩

theorem Links.proper {basic : Signature} (hB : B.Links basic .basicInvoker) : B.Proper := by
  obtain ⟨hdata, hinvoker, id, hform⟩ := hB
  exact ⟨Form.serves_basicInvoker hform hinvoker, by simp [hdata], by simp [hdata],
    fun _ => Form.overlooks_basicInvoker hform, fun _ => Form.reachesNoMember_basicInvoker hform⟩

end HandleOf

/-- A handle of the type of a member. -/
theorem Member.ret_handleType {m : Member} {type : Signature} (h : m.handleType = .ok type)
    (hkind : m.kind = .newSpecial) : type.basicRet = .ref := by
  rw [Member.handleType, hkind] at h
  obtain rfl := Except.ok.inj h
  rfl

/-- What an operation makes of proper handles is proper. -/
theorem HandleOp.Makes.proper {op : HandleOp} {B : Handle} (hB : op.Makes B)
    (hops : ∀ h ∈ op.handles, h.Proper) : B.Proper := by
  cases hB with
  | external htype hform hdata =>
    subst htype
    exact ⟨Form.serves_external hform, by simp [hdata], by simp [hdata],
      fun _ => Form.overlooks_external hform, fun _ => Form.reachesNoMember_external hform⟩
  | empty htype hform hdata =>
    subst htype
    exact ⟨.of_basic (Form.serves_empty hform), by simp [hdata], by simp [hdata],
      fun _ => Form.overlooks_empty hform, fun _ => Form.reachesNoMember_empty hform⟩
  | direct htype hform hdata =>
    refine ⟨.of_basic (Form.serves_direct hform fun hkind => ?_), by simp [hdata],
      fun id m hm => ?_, by simp [hdata], by simp [HandleOf.member?, hdata]⟩
    · rw [Signature.basicRet_basic]
      exact Member.ret_handleType htype hkind
    · obtain ⟨-, rfl⟩ : _ ∧ _ = m := by simpa [hdata] using hm
      exact ⟨_, _, hform⟩
  | exactInvoker hB | genericInvoker hB => exact hB.proper
  | basicInvoker hB => exact HandleOf.Links.proper hB
  | asType hbasic htype hfits hform hdata =>
    subst htype
    refine ⟨hfits.serves.of_basic_eq hbasic.symm, fun s values hs => hfits.bound s values (hdata ▸ hs),
      fun id m hm => hbasic ▸ hfits.direct id m (hdata ▸ hm),
      fun hsimple => hfits.simple (hdata ▸ hsimple), fun hplain => hfits.plain ?_⟩
    rwa [HandleOf.member?, ← hdata]
  | insertNone | dropNone => exact hops _ (.head _)
  | adapted hop hB =>
    refine hB.proper hop (hops _ ?_)
    cases hop <;> exact .head _

end HandleForms
