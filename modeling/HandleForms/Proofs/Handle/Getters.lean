import HandleForms.Proofs.Handle.Perform

/-!
# Forms that read their own handle

The form of a handle reads fields of that handle and of no other one: every read of a field has
parameter 0 as its operand. The linkage forms do, and what edits derive from forms that do does too
(`Edit.Chain.readsOwn`), so the forms of all handles that operations make do
(`HandleOp.Makes.readsOwn`).
-/

namespace HandleForms

/-- The name reads a field of nothing but parameter 0. -/
def Name.ReadsOwn (n : Name Form) : Prop :=
  ∀ s i args, n.expr = some ⟨.intrinsic (.boundField s i), args⟩ → args = [.name 0]

/-- The form reads fields of nothing but parameter 0. -/
def Form.ReadsOwn (f : Form) : Prop := ∀ n ∈ f.names, n.ReadsOwn

namespace Name

variable {n : Name Form}

theorem readsOwn_of_isParam (h : n.isParam = true) : n.ReadsOwn := by
  intro s i args he
  simp [isParam, he] at h

@[simp] theorem readsOwn_getter (s : Species) (i : Nat) :
    (apply (.getter s i) [.name 0] : Name Form).ReadsOwn := by
  intro t j args he
  cases Option.some.inj he
  rfl

/-- What reads no field. -/
theorem readsOwn_apply {f : Function Form} {args : List Arg}
    (hf : ∀ s i, f ≠ .intrinsic (.boundField s i)) : (apply f args).ReadsOwn := by
  intro s i args' he
  exact absurd (congrArg Expr.function (Option.some.inj he)) (hf s i)

@[simp] theorem readsOwn_call (type : Signature) (operands : List Nat) :
    (call type operands).ReadsOwn :=
  readsOwn_apply fun _ _ => nofun

theorem ReadsOwn.mapArgs (h : n.ReadsOwn) {f : Nat → Nat} (hf : f 0 = 0) :
    (n.mapArgs f).ReadsOwn := by
  intro s i args he
  obtain ⟨e, he', heq⟩ := Option.map_eq_some_iff.1 he
  obtain ⟨hfunction, rfl⟩ := Expr.mk.inj heq
  obtain ⟨function, operands⟩ := e
  obtain rfl : function = _ := hfunction
  rw [h s i operands he']
  simp [Arg.map, hf]

theorem ReadsOwn.retarget (h : n.ReadsOwn) {growth : Option CarrierGrowth}
    (hgrowth : CarrierGrowth.Proper growth) : (n.retarget growth).ReadsOwn := by
  cases growth with
  | none => exact h
  | some g =>
    obtain ⟨field, hg⟩ := hgrowth g rfl
    rcases n.retarget_cases hg with ⟨i, -, -, heq⟩ | ⟨-, heq⟩
    · rw [heq]
      exact readsOwn_getter g.new i
    · rwa [heq]

end Name

/-! ## Linkage forms -/

namespace Form

variable {f : Form} {id : Nat} {basic : Signature} {s : Species}

theorem readsOwn_ofParts {p : Name Form} {ts : List BasicType} {exprs : List (Name Form)}
    {result : Option Nat} {kind : FormKind}
    (h : ofParts id (p :: paramNames ts) exprs result kind = .ok f) (hp : p.isParam = true)
    (hexprs : ∀ n ∈ exprs, n.ReadsOwn) : f.ReadsOwn := by
  obtain ⟨-, rfl⟩ := ofParts_eq_ok_iff.1 h
  intro n hn
  rcases List.mem_append.1 hn with hn | hn
  · refine Name.readsOwn_of_isParam ?_
    rcases List.mem_cons.1 hn with rfl | hn
    · exact hp
    · obtain ⟨t, -, rfl⟩ := List.mem_map.1 hn
      rfl
  · exact hexprs n hn

theorem readsOwn_external {name : String} {type : Signature} (h : external name type id = .ok f) :
    f.ReadsOwn :=
  readsOwn_ofParts h rfl (List.forall_mem_singleton.2 (Name.readsOwn_apply fun _ _ => nofun))

theorem readsOwn_empty (h : empty basic id = .ok f) : f.ReadsOwn := by
  unfold empty at h
  dsimp only at h
  split at h
  · exact readsOwn_ofParts h rfl (List.forall_mem_nil _)
  · exact readsOwn_ofParts h rfl
      (List.forall_mem_singleton.2 (Name.readsOwn_apply fun _ _ => nofun))

theorem readsOwn_basicInvoker (h : basicInvoker basic id = .ok f) : f.ReadsOwn :=
  readsOwn_ofParts h rfl (List.forall_mem_singleton.2 (Name.readsOwn_apply fun _ _ => nofun))

theorem readsOwn_reinvoker (hs : s.fields = [.ref]) (h : reinvoker s basic id = .ok f) :
    f.ReadsOwn := by
  rw [reinvoker_eq hs] at h
  exact readsOwn_ofParts h rfl (List.forall_mem_cons.2
    ⟨Name.readsOwn_getter s 0, List.forall_mem_singleton.2 (Name.readsOwn_call _ _)⟩)

theorem readsOwn_checkedCall {generic : Bool} {target first stop token next : Nat} :
    ∀ n ∈ checkedCall generic basic target first stop token next, n.ReadsOwn := by
  unfold checkedCall
  dsimp only
  split <;> exact List.forall_mem_cons.2 ⟨Name.readsOwn_apply fun _ _ => nofun,
    List.forall_mem_singleton.2 (Name.readsOwn_apply fun _ _ => nofun)⟩

theorem readsOwn_invoker (hs : s.fields = [.ref]) {generic : Bool}
    (h : invoker generic s basic id = .ok f) : f.ReadsOwn := by
  rw [invoker_eq hs] at h
  exact readsOwn_ofParts h rfl
    (List.forall_mem_cons.2 ⟨Name.readsOwn_getter s 0, readsOwn_checkedCall⟩)

theorem readsOwn_linker {generic : Bool} (h : linker generic basic id = .ok f) : f.ReadsOwn :=
  readsOwn_ofParts h rfl readsOwn_checkedCall

theorem readsOwn_direct {kind : DispatchKind} {barrier : Bool}
    (h : direct basic kind barrier id = .ok f) : f.ReadsOwn := by
  obtain ⟨link, -, h⟩ := direct_eq_ok h
  have hplain : ∀ {op : Intrinsic} {args : List Arg}, op.reachesMember = true →
      (Name.apply (.intrinsic op) args : Name Form).ReadsOwn := fun hop =>
    Name.readsOwn_apply fun s i heq => by
      obtain rfl := Function.intrinsic.inj heq
      cases hop
  refine readsOwn_ofParts h rfl fun n hn => ?_
  unfold directExprs at hn
  dsimp only at hn
  rcases List.mem_append.1 hn with hn | hn
  · split at hn
    · rw [List.mem_singleton.1 hn]
      exact hplain rfl
    · cases hn
  · split at hn <;> simp only [List.mem_cons, List.not_mem_nil, or_false] at hn
    · rcases hn with rfl | rfl | rfl <;> exact hplain rfl
    · rcases hn with rfl | rfl <;> exact hplain rfl

end Form

/-! ## Edits -/

namespace Edit

variable {base f : Form} {e : Edit} {es : List Edit} {g : CarrierGrowth} {A : Adaptation}
  {fields : List BasicType}

/-- What an edit adds reads the carrier. -/
theorem Adapts.readsOwn_new (h : Adapts base g e A) : ∀ n ∈ A.early ++ A.late, n.ReadsOwn := by
  have hread : (g.readOf 0).ReadsOwn := Name.readsOwn_getter g.new _
  intro n hn
  cases h with
  | bind | bindHandle =>
    obtain rfl : n = g.readOf 0 := List.mem_singleton.1 hn
    exact hread
  | add | dup | permute => cases hn
  | spread =>
    simp only [Adaptation.spreading, List.append_nil, List.mem_cons, List.mem_map] at hn
    rcases hn with rfl | ⟨k, -, rfl⟩ <;> exact Name.readsOwn_apply (by simp)
  | filter | collect | fold =>
    simp only [Adaptation.combining, List.append_nil, List.mem_cons, List.not_mem_nil,
      or_false] at hn
    rcases hn with rfl | rfl
    · exact hread
    · exact Name.readsOwn_call _ _
  | filterReturn =>
    simp only [Adaptation.filteringReturn, List.nil_append, List.mem_cons, List.not_mem_nil,
      or_false] at hn
    rcases hn with rfl | rfl
    · exact hread
    · exact Name.readsOwn_call _ _
  | zeroReturn =>
    simp only [Adaptation.zeroingReturn, List.nil_append] at hn
    split at hn
    · cases hn
    · rw [List.mem_singleton.1 hn]
      exact Name.readsOwn_apply (by simp)

theorem Answers.readsOwn (hf : e.Answers base f) (hbase : base.Carrier fields)
    (hkeeps : e.KeepsHandle) (hreads : base.ReadsOwn) : f.ReadsOwn := by
  rcases hf.derives with ⟨-, rfl⟩ | ⟨g, A, id, hadapts, hg, rfl⟩
  · exact hreads
  have hfits := hadapts.fits hbase.editable hg
  have hzero := (hadapts.carries hbase hg hkeeps.normal).move_zero hbase.editable.arity_pos
  intro n hn
  obtain ⟨i, hi⟩ := List.getElem?_of_mem hn
  -- A name is a parameter, an old name that moved, or one that the edit added.
  rcases Adaptation.names_cases hi with ⟨-, hi⟩ | ⟨k, -, hk⟩ | ⟨k, m, -, hm, rfl⟩ | ⟨k, -, hk⟩
  · exact Name.readsOwn_of_isParam (hfits.params_made n (List.mem_of_getElem? hi)).2
  · exact hadapts.readsOwn_new n (List.mem_append_left _ (List.mem_of_getElem? hk))
  · exact ((hreads m (List.mem_of_getElem? hm)).retarget hfits.growth).mapArgs hzero
  · exact hadapts.readsOwn_new n (List.mem_append_right _ (List.mem_of_getElem? hk))

theorem Chain.readsOwn (hf : Chain base es f) (hbase : base.Carrier fields)
    (hkeeps : ∀ e ∈ es, e.KeepsHandle) (hreads : base.ReadsOwn) : f.ReadsOwn := by
  induction hf generalizing fields with
  | nil f => exact hreads
  | cons hanswers _ ih =>
    have hkeep := hkeeps _ (.head _)
    exact ih (hanswers.carrier hbase hkeep) (fun e he => hkeeps e (List.mem_cons_of_mem _ he))
      (hanswers.readsOwn hbase hkeep hreads)

end Edit

/-! ## Handles -/

namespace HandleOf

variable {h R B : Handle} {type : Signature} {es : List Edit} {extra : List Value}

theorem Rebound.readsOwn (hR : h.Rebound R) (hreads : h.form.ReadsOwn) : R.form.ReadsOwn := by
  cases hR with
  | self hbound => exact hreads
  | wrapped hplain htype hs hform ht hdata => exact Form.readsOwn_reinvoker hs hform

theorem Adapted.readsOwn {op : HandleOp} (hB : h.Adapted type es extra B)
    (hop : op.Adapts h type es extra) (hh : h.Proper) (hreads : h.form.ReadsOwn) :
    B.form.ReadsOwn := by
  obtain ⟨-, R, hR, hchain, -⟩ := hB
  obtain ⟨s, -, hcarrier, -⟩ := hR.carrier hh
  exact hchain.readsOwn hcarrier hop.keepsHandle (hR.readsOwn hreads)

/-- Every form that a direct handle can have does. -/
theorem Fits.readsOwn_of_direct {f : Form} {id : Nat} {m : Member} (hf : h.Fits f)
    (hdata : h.data = .direct id m) : f.ReadsOwn := by
  obtain ⟨barrier, form, hform⟩ := hf.direct id m hdata
  exact Form.readsOwn_direct hform

end HandleOf

/-- What an operation makes of handles that read themselves reads itself. -/
theorem HandleOp.Makes.readsOwn {op : HandleOp} {B : Handle} (hB : op.Makes B)
    (hops : ∀ h ∈ op.handles, h.Proper ∧ h.form.ReadsOwn) : B.form.ReadsOwn := by
  cases hB with
  | external htype hform hdata => exact Form.readsOwn_external hform
  | empty htype hform hdata => exact Form.readsOwn_empty hform
  | direct htype hform hdata => exact Form.readsOwn_direct hform
  | exactInvoker hB | genericInvoker hB =>
    obtain ⟨s, id, hs, hform⟩ := hB.form
    exact Form.readsOwn_invoker hs hform
  | basicInvoker hB =>
    obtain ⟨-, -, id, hform⟩ := hB
    exact Form.readsOwn_basicInvoker hform
  | @asType h B type hbasic htype hfits hform hdata =>
    cases hmember : h.member? with
    | none => exact hform hmember ▸ (hops h (.head _)).2
    | some m =>
      have hdata : h.data = .direct m.1 m.2 := by
        obtain ⟨id, type, form, _ | _ | _⟩ := h <;> cases hmember
        rfl
      exact hfits.readsOwn_of_direct hdata
  | insertNone | dropNone => exact (hops _ (.head _)).2
  | adapted hop hB =>
    obtain ⟨hproper, hreads⟩ := hops _ (show _ ∈ _ by cases hop <;> exact .head _)
    exact hB.readsOwn hop hproper hreads

end HandleForms
