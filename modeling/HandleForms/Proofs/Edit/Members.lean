import HandleForms.Proofs.Edit.Chain
import HandleForms.Proofs.Form.Linkage

/-!
# Forms that reach no member

Only the form of a direct handle asks a handle for its member, passes the class barrier and links to
the member. The other linkage forms do nothing of the kind, and neither does what edits derive from
them (`Edit.Chain.reachesNoMember`): an edit keeps the functions of its base, retargets reads of fields
and adds reads, calls of handles, loads and zeros.
-/

namespace HandleForms

/-- Whether an operation asks a handle for its member or calls one. -/
def Intrinsic.reachesMember : Intrinsic → Bool
  | .ensureInitialized | .internalMemberName | .allocateInstance | .constructorMember
  | .linkTo _ _ => true
  | _ => false

/-- The function neither reaches a member nor runs another form in place. -/
def Function.ReachesNoMember : Function Form → Prop
  | .intrinsic op => op.reachesMember = false
  | .external _ _ => True
  | .form _ => False

/-- The name is a parameter, or its function reaches no member. -/
def Name.ReachesNoMember (n : Name Form) : Prop :=
  ∀ e, n.expr = some e → e.function.ReachesNoMember

/-- No name of the form reaches a member. -/
def Form.ReachesNoMember (f : Form) : Prop := ∀ n ∈ f.names, n.ReachesNoMember

namespace Name

variable {n : Name Form}

theorem reachesNoMember_of_isParam (h : n.isParam = true) : n.ReachesNoMember := by
  intro e he
  simp [isParam, he] at h

@[simp] theorem reachesNoMember_apply {f : Function Form} {args : List Arg} :
    (apply f args).ReachesNoMember ↔ f.ReachesNoMember :=
  ⟨fun h => h _ rfl, fun h e he => by
    obtain rfl := Option.some.inj he
    exact h⟩

@[simp] theorem reachesNoMember_readOf (g : CarrierGrowth) (carrier : Nat) :
    (g.readOf carrier).ReachesNoMember :=
  reachesNoMember_apply.2 rfl

@[simp] theorem reachesNoMember_call (type : Signature) (operands : List Nat) :
    (call type operands).ReachesNoMember :=
  reachesNoMember_apply.2 rfl

theorem ReachesNoMember.mapArgs (h : n.ReachesNoMember) (f : Nat → Nat) :
    (n.mapArgs f).ReachesNoMember := by
  intro e he
  obtain ⟨e', he', rfl⟩ := Option.map_eq_some_iff.1 he
  exact h e' he'

theorem ReachesNoMember.retarget (h : n.ReachesNoMember) {growth : Option CarrierGrowth}
    (hgrowth : CarrierGrowth.Proper growth) : (n.retarget growth).ReachesNoMember := by
  cases growth with
  | none => exact h
  | some g =>
    obtain ⟨field, hg⟩ := hgrowth g rfl
    rcases n.retarget_cases hg with ⟨i, -, -, heq⟩ | ⟨-, heq⟩
    · rw [heq]
      exact reachesNoMember_apply.2 rfl
    · rwa [heq]

end Name

/-! ## Linkage forms -/

namespace Form

variable {f : Form} {id : Nat} {basic : Signature} {s : Species}

theorem reachesNoMember_ofParts {p : Name Form} {ts : List BasicType} {exprs : List (Name Form)}
    {result : Option Nat} {kind : FormKind}
    (h : ofParts id (p :: paramNames ts) exprs result kind = .ok f) (hp : p.isParam = true)
    (hexprs : ∀ n ∈ exprs, n.ReachesNoMember) : f.ReachesNoMember := by
  obtain ⟨-, rfl⟩ := ofParts_eq_ok_iff.1 h
  intro n hn
  rcases List.mem_append.1 hn with hn | hn
  · refine Name.reachesNoMember_of_isParam ?_
    rcases List.mem_cons.1 hn with rfl | hn
    · exact hp
    · obtain ⟨t, -, rfl⟩ := List.mem_map.1 hn
      rfl
  · exact hexprs n hn

theorem reachesNoMember_external {name : String} {type : Signature}
    (h : external name type id = .ok f) : f.ReachesNoMember :=
  reachesNoMember_ofParts h rfl (List.forall_mem_singleton.2 (Name.reachesNoMember_apply.2 trivial))

theorem reachesNoMember_empty (h : empty basic id = .ok f) : f.ReachesNoMember := by
  unfold empty at h
  dsimp only at h
  split at h
  · exact reachesNoMember_ofParts h rfl (List.forall_mem_nil _)
  · exact reachesNoMember_ofParts h rfl
      (List.forall_mem_singleton.2 (Name.reachesNoMember_apply.2 rfl))

theorem reachesNoMember_basicInvoker (h : basicInvoker basic id = .ok f) : f.ReachesNoMember :=
  reachesNoMember_ofParts h rfl (List.forall_mem_singleton.2 (Name.reachesNoMember_apply.2 rfl))

theorem reachesNoMember_reinvoker (hs : s.fields = [.ref]) (h : reinvoker s basic id = .ok f) :
    f.ReachesNoMember := by
  rw [reinvoker_eq hs] at h
  exact reachesNoMember_ofParts h rfl (List.forall_mem_cons.2
    ⟨Name.reachesNoMember_apply.2 rfl, List.forall_mem_singleton.2 (Name.reachesNoMember_call _ _)⟩)

theorem reachesNoMember_checkedCall {generic : Bool} {target first stop token next : Nat} :
    ∀ n ∈ checkedCall generic basic target first stop token next, n.ReachesNoMember := by
  unfold checkedCall
  dsimp only
  split <;> exact List.forall_mem_cons.2 ⟨Name.reachesNoMember_apply.2 rfl,
    List.forall_mem_singleton.2 (Name.reachesNoMember_apply.2 rfl)⟩

theorem reachesNoMember_invoker (hs : s.fields = [.ref]) {generic : Bool}
    (h : invoker generic s basic id = .ok f) : f.ReachesNoMember := by
  rw [invoker_eq hs] at h
  exact reachesNoMember_ofParts h rfl
    (List.forall_mem_cons.2 ⟨Name.reachesNoMember_apply.2 rfl, reachesNoMember_checkedCall⟩)

theorem reachesNoMember_linker {generic : Bool} (h : linker generic basic id = .ok f) :
    f.ReachesNoMember :=
  reachesNoMember_ofParts h rfl reachesNoMember_checkedCall

end Form

/-! ## Edits -/

namespace Edit

variable {base f : Form} {e : Edit} {es : List Edit} {g : CarrierGrowth} {A : Adaptation}

/-- What an edit adds reaches no member. -/
theorem Adapts.reachesNoMember_new (h : Adapts base g e A) :
    ∀ n ∈ A.early ++ A.late, n.ReachesNoMember := by
  have hread := Name.reachesNoMember_readOf g 0
  intro n hn
  cases h with
  | bind | bindHandle =>
    obtain rfl : n = g.readOf 0 := List.mem_singleton.1 hn
    exact hread
  | add | dup | permute => cases hn
  | spread =>
    simp only [Adaptation.spreading, List.append_nil, List.mem_cons, List.mem_map] at hn
    rcases hn with rfl | ⟨k, -, rfl⟩ <;> exact Name.reachesNoMember_apply.2 rfl
  | filter | collect | fold =>
    simp only [Adaptation.combining, List.append_nil, List.mem_cons, List.not_mem_nil, or_false] at hn
    rcases hn with rfl | rfl
    · exact hread
    · exact Name.reachesNoMember_call _ _
  | filterReturn =>
    simp only [Adaptation.filteringReturn, List.nil_append, List.mem_cons, List.not_mem_nil,
      or_false] at hn
    rcases hn with rfl | rfl
    · exact hread
    · exact Name.reachesNoMember_call _ _
  | zeroReturn =>
    simp only [Adaptation.zeroingReturn, List.nil_append] at hn
    split at hn
    · cases hn
    · rw [List.mem_singleton.1 hn]
      exact Name.reachesNoMember_apply.2 rfl

theorem Answers.reachesNoMember (hf : Answers base e f) (hbase : base.Editable)
    (hnone : base.ReachesNoMember) : f.ReachesNoMember := by
  rcases hf.derives with ⟨-, rfl⟩ | ⟨g, A, id, hadapts, hg, rfl⟩
  · exact hnone
  have hfits := hadapts.fits hbase hg
  intro n hn
  obtain ⟨i, hi⟩ := List.getElem?_of_mem hn
  rcases Adaptation.names_cases hi with ⟨-, hi⟩ | ⟨k, -, hk⟩ | ⟨k, m, -, hm, rfl⟩ | ⟨k, -, hk⟩
  · exact Name.reachesNoMember_of_isParam (hfits.params_made n (List.mem_of_getElem? hi)).2
  · exact hadapts.reachesNoMember_new n (List.mem_append_left _ (List.mem_of_getElem? hk))
  · exact ((hnone m (List.mem_of_getElem? hm)).retarget hfits.growth).mapArgs _
  · exact hadapts.reachesNoMember_new n (List.mem_append_right _ (List.mem_of_getElem? hk))

theorem Chain.reachesNoMember (hf : Chain base es f) (hbase : base.Editable)
    (hnone : base.ReachesNoMember) : f.ReachesNoMember := by
  induction hf with
  | nil f => exact hnone
  | cons hanswers _ ih => exact ih (hanswers.editable hbase) (hanswers.reachesNoMember hbase hnone)

end Edit

end HandleForms
