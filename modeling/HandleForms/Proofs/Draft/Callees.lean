import HandleForms.Edit.Derive
import HandleForms.Proofs.Outcome

/-!
# The forms that a form calls in place

An edit keeps the functions of its base, retargets reads of carrier fields and adds intrinsics. It
never makes a form call another one: every form that a derived form calls in place is called by the
base (`Edit.object_derive`). On a draft this is a property of the names in the arena, which grows by
one name at a time.
-/

namespace HandleForms

namespace Name

/-- The name calls no form in place but these. -/
def Calls (P : Form → Prop) (n : Name Form) : Prop :=
  ∀ callee, n.function? = some (.form callee) → P callee

variable {P : Form → Prop} {n : Name Form}

theorem calls_param (t : BasicType) : (param t).Calls P := nofun

theorem calls_carrier (s : Species) : (carrier s).Calls P := nofun

theorem calls_apply {f : Function Form} {args : List Arg} (h : ∀ callee, f ≠ .form callee) :
    (apply f args).Calls P :=
  fun callee hf => absurd (Option.some.inj hf) (h callee)

theorem Calls.mapArgs (h : n.Calls P) (f : Nat → Nat) : (n.mapArgs f).Calls P := by
  obtain ⟨t, s, _ | e⟩ := n
  · exact nofun
  · exact h

end Name

/-- The form is the object `id`, and it calls no form in place but these. -/
structure Form.Object (P : Form → Prop) (id : Nat) (f : Form) : Prop where
  id_eq : f.id = id
  callees : ∀ callee ∈ f.callees, P callee

theorem Form.callees_subset {f : Form} {P : Form → Prop} (h : ∀ n ∈ f.names, n.Calls P) :
    ∀ callee ∈ f.callees, P callee := by
  intro callee hcallee
  obtain ⟨n, hn, hfun⟩ := List.mem_filterMap.1 hcallee
  revert hfun
  cases hf : n.function? with
  | none => exact nofun
  | some g =>
    cases g with
    | form c =>
      intro hfun
      obtain rfl := Option.some.inj hfun
      exact h n hn c hf
    | intrinsic op => exact nofun
    | external name type => exact nofun

theorem Form.calls_of_callees {f : Form} {P : Form → Prop} (h : ∀ callee ∈ f.callees, P callee) :
    ∀ n ∈ f.names, n.Calls P :=
  fun n hn callee hfun => h callee (List.mem_filterMap.2 ⟨n, hn, by rw [hfun]⟩)

namespace Draft

/-- The names of the draft call no form in place but these. -/
def Calls (P : Form → Prop) (d : Draft) : Prop := ∀ n ∈ d.arena.toList, n.Calls P

variable {P : Form → Prop} {d : Draft}

/-- Only the arena matters. -/
theorem Calls.of_arena {d' : Draft} (h : d.Calls P) (harena : d'.arena = d.arena) : d'.Calls P := by
  rw [Calls, harena]
  exact h

theorem calls_ofForm {f : Form} (h : ∀ callee ∈ f.callees, P callee) : (ofForm f).Calls P := by
  simpa only [Calls, ofForm] using Form.calls_of_callees h

theorem Calls.alloc (h : d.Calls P) {n : Name Form} (hn : n.Calls P) : (d.alloc n).2.Calls P := by
  intro m hm
  have hm : m ∈ d.arena.toList ++ [n] := by simpa [Draft.alloc] using hm
  rcases List.mem_append.1 hm with hm | hm
  · exact h m hm
  · exact List.mem_singleton.1 hm ▸ hn

/-- Adds a call of something other than a form. -/
theorem Calls.allocApply (h : d.Calls P) {f : Function Form} (hf : ∀ callee, f ≠ .form callee)
    (args : List Arg) : (d.alloc (.apply f args)).2.Calls P :=
  h.alloc (Name.calls_apply hf)

theorem Calls.name (h : d.Calls P) (id : Nat) : Ensures (d.name id) (Name.Calls P) := by
  intro n hn
  unfold Draft.name at hn
  split at hn
  · next m hm =>
    obtain rfl := Except.ok.inj hn
    exact h _ (Array.mem_toList_iff.2 (Array.mem_of_getElem? hm))
  · cases hn

/-! ## Changing names -/

/-- A computation that leaves the names in the arena as they are. -/
abbrev KeepsArena (d : Draft) (x : Except Violation Draft) : Prop :=
  Ensures x fun d' => d'.arena = d.arena

theorem Calls.of_keepsArena {x : Except Violation Draft} (h : d.Calls P) (hx : d.KeepsArena x) :
    Ensures x (Calls P) :=
  hx.mono fun _ harena => h.of_arena harena

theorem keepsArena_start (d : Draft) : d.KeepsArena d.start :=
  ensures_ite ensures_error <| ensures_bind fun _ => ensures_ok rfl

theorem keepsArena_changeName (d : Draft) (pos id : Nat) : d.KeepsArena (d.changeName pos id) := by
  refine ensures_ite ensures_error ?_
  split
  · exact ensures_ite ensures_error (ensures_ok rfl)
  · exact ensures_error

theorem keepsArena_setResult (d : Draft) (id : Option Nat) : d.KeepsArena (d.setResult id) := by
  cases id with
  | none => exact ensures_ok rfl
  | some i => exact ensures_ite (ensures_ok rfl) ensures_error

theorem keepsArena_replaceName (d : Draft) (pos id : Nat) : d.KeepsArena (d.replaceName pos id) :=
  ensures_ite ensures_error <| ensures_bind fun _ => ensures_ite ensures_error <|
    ensures_bind fun _ => ensures_ite ensures_error (d.keepsArena_changeName pos id)

theorem keepsArena_renameParameter (d : Draft) (pos id : Nat) :
    d.KeepsArena (d.renameParameter pos id) :=
  ensures_bind fun _ => ensures_ite (d.keepsArena_replaceName pos id) ensures_error

theorem keepsArena_replaceByExpression (d : Draft) (pos id : Nat) :
    d.KeepsArena (d.replaceByExpression pos id) :=
  ensures_bind fun _ => ensures_ite ensures_error <|
    ensures_ite ensures_error (d.keepsArena_replaceName pos id)

theorem keepsArena_replaceByCopy (d : Draft) (pos source : Nat) :
    d.KeepsArena (d.replaceByCopy pos source) :=
  ensures_ite ensures_error <| ensures_bind fun id =>
    (d.keepsArena_replaceName pos id).bind fun _ harena => ensures_ok harena

theorem keepsArena_insertName (d : Draft) (pos id : Nat) (param : Bool) :
    d.KeepsArena (d.insertName pos id param) :=
  ensures_ite ensures_error <| ensures_ite ensures_error <| ensures_ite ensures_error <|
    ensures_ite ensures_error (keepsArena_changeName _ pos id)

theorem keepsArena_insertParameter (d : Draft) (pos id : Nat) :
    d.KeepsArena (d.insertParameter pos id) :=
  ensures_bind fun _ => ensures_ite (d.keepsArena_insertName pos id true) ensures_error

theorem keepsArena_insertExpression (d : Draft) (pos id : Nat) :
    d.KeepsArena (d.insertExpression pos id) :=
  ensures_bind fun _ => ensures_ite ensures_error (d.keepsArena_insertName pos id false)

theorem keepsArena_insertParameters (ids : List Nat) (d : Draft) (pos : Nat) :
    d.KeepsArena (d.insertParameters pos ids) := by
  induction ids generalizing d pos with
  | nil => exact ensures_ok rfl
  | cons id ids ih =>
    exact (d.keepsArena_insertParameter pos id).bind fun d' harena =>
      (ih d' (pos + 1)).mono fun _ h => h.trans harena

theorem Calls.replaceFunctions (h : d.Calls P) {old new : List (Function Form)} {args : List Arg}
    (hnew : ∀ f ∈ new, ∀ callee, f ≠ .form callee) :
    Ensures (d.replaceFunctions old new args) (Calls P) := by
  refine ensures_ite ensures_error (ensures_foldlM h fun d pos _ hd => ?_)
  unfold replaceFunctionAt
  split
  · refine ensures_bind fun n => ?_
    split
    · exact ensures_ok hd
    refine ensures_ite (ensures_ok hd) ?_
    split
    · exact ensures_ok hd
    split
    · exact ensures_error
    next g hg =>
      have hname : (Name.apply g args).Calls P := Name.calls_apply (hnew g (List.mem_of_getElem? hg))
      have halloc := hd.alloc hname
      exact halloc.of_keepsArena (keepsArena_changeName _ pos _)
  · exact ensures_ok hd

/-! ## Finishing -/

/-- The last step of the repair at a position only notes what was replaced. -/
theorem Calls.noteReplaced (h : d.Calls P) (pos current : Nat) (redirects : Redirects) :
    Ensures (match d.initial[pos]? with
      | some (some old) =>
        pure (d, if old = current then redirects else (old, current) :: redirects)
      | some none => pure (d, redirects)
      | none => .error .outOfBounds : Except Violation (Draft × Redirects))
        fun s => s.1.Calls P := by
  split
  · exact ensures_ok h
  · exact ensures_ok h
  · exact ensures_error

theorem Calls.repairAt (h : d.Calls P) (redirects : Redirects) (pos : Nat) :
    Ensures (d.repairAt redirects pos) fun s => s.1.Calls P := by
  unfold Draft.repairAt
  split
  · refine (h.name _).bind fun n hn => ensures_ite ensures_error ?_
    have hfresh := h.alloc (hn.mapArgs redirects.resolve)
    by_cases hmoved : d.arity ≤ pos ∧ (!redirects.isEmpty) = true ∧
        n.movedBy redirects.resolve = true
    · rw [if_pos hmoved]
      exact Calls.noteReplaced (d := { (d.alloc (n.mapArgs redirects.resolve)).2 with
        names := d.names.set pos (some (d.alloc (n.mapArgs redirects.resolve)).1)
        result := if d.result = some _ then some (d.alloc (n.mapArgs redirects.resolve)).1
          else d.result }) (hfresh.of_arena rfl) pos _ _
    · rw [if_neg hmoved]
      exact h.noteReplaced pos _ redirects
  · exact ensures_ok h

theorem Calls.repair (h : d.Calls P) : Ensures d.repair (Calls P) :=
  Ensures.bind (ensures_foldlM (Q := fun s : Draft × Redirects => s.1.Calls P) h
    fun s pos _ hs => Calls.repairAt (d := s.1) hs s.2 pos) fun _ hs => ensures_ok hs

theorem keepsArena_clearDuplicates (d : Draft) : d.KeepsArena d.clearDuplicates := by
  refine Ensures.bind (ensures_foldlM (Q := fun d' : Draft => d'.arena = d.arena) rfl
    fun d' id _ hd => ?_) fun d' hd => ensures_ok hd
  unfold clearDuplicate
  simp only
  split
  · exact ensures_error
  · exact ensures_ok hd

theorem Calls.partitionParameters (h : d.Calls P) : d.partitionParameters.Calls P := by
  unfold Draft.partitionParameters
  split
  · exact h
  · exact h.of_arena rfl

theorem Calls.publishNames (h : d.Calls P) (slots : List (Option Nat)) (placed : List (Nat × Nat))
    (pos : Nat) : Ensures (d.publishNames placed pos slots) fun r => ∀ n ∈ r.1, n.Calls P := by
  induction slots generalizing placed pos with
  | nil => exact ensures_ok (List.forall_mem_nil _)
  | cons slot slots ih =>
    cases slot with
    | none => exact ensures_error
    | some id =>
      refine (h.name id).bind fun n hn => ?_
      split
      · exact ensures_error
      · exact (ih _ _).bind fun r hr => ensures_ok (List.forall_mem_cons.2 ⟨hn.mapArgs _, hr⟩)

end Draft

theorem Form.object_assemble {P : Form → Prop} {id arity : Nat} {names : List (Name Form)}
    {result : Option Nat} {kind : FormKind} (h : ∀ n ∈ names, n.Calls P) :
    Ensures (assemble id arity names result kind) (Form.Object P id) := by
  intro f hf
  unfold assemble verified at hf
  split at hf
  · obtain rfl := Except.ok.inj hf
    exact ⟨rfl, Form.callees_subset h⟩
  · cases hf

namespace Draft

variable {P : Form → Prop} {d : Draft}

theorem Calls.publish (h : d.Calls P) (id : Nat) :
    Ensures (d.publish id) (Form.Object P id) := by
  refine (h.publishNames d.names [] 0).bind fun r hr => ?_
  simp only
  split
  · exact Form.object_assemble hr
  split
  · exact ensures_error
  · exact Form.object_assemble hr

theorem Calls.finish (h : d.Calls P) (id : Nat) :
    Ensures (d.finish id) (Form.Object P id) := by
  refine ensures_ite ensures_error (h.repair.bind fun d hd => ?_)
  have hclosed : Calls P { d with editing := false } := hd.of_arena rfl
  exact (hclosed.of_keepsArena (keepsArena_clearDuplicates _)).bind fun d hd =>
    ensures_bind fun _ => hd.partitionParameters.publish id

theorem calls_start {f : Form} (h : ∀ callee ∈ f.callees, P callee) :
    Ensures (ofForm f).start (Calls P) :=
  (calls_ofForm h).of_keepsArena (keepsArena_start _)

theorem Calls.switchCarrier (h : d.Calls P) (g : CarrierGrowth) :
    Ensures (d.switchCarrier g) fun r => r.2.Calls P := by
  refine ensures_bind fun old => (h.replaceFunctions fun f hf => ?_).bind fun d hd => ?_
  · obtain ⟨i, -, rfl⟩ := List.mem_map.1 hf
    exact nofun
  · exact ((hd.alloc (Name.calls_carrier g.new)).of_keepsArena
      (keepsArena_renameParameter _ 0 _)).bind fun d hd => ensures_ok hd

theorem Calls.allocParams (types : List BasicType) (h : d.Calls P) :
    (d.allocParams types).2.Calls P := by
  induction types generalizing d with
  | nil => exact h
  | cons t ts ih => exact ih (h.alloc (Name.calls_param t))

end Draft

/-! ## Derived forms -/

theorem CarrierGrowth.getter_notForm (g : CarrierGrowth) :
    Ensures g.getter fun read => ∀ callee, read ≠ .form callee :=
  ensures_ite (ensures_ok nofun) ensures_error

namespace Edit

variable {P : Form → Prop} {base : Form} {g : CarrierGrowth} {pos id : Nat}

theorem object_deriveBind (h : ∀ callee ∈ base.callees, P callee) :
    Ensures (deriveBind base g pos id) (Form.Object P id) := by
  refine (Draft.calls_start h).bind fun d hd => g.getter_notForm.bind fun read hread =>
    ensures_ite (ensures_ite ensures_error ?_) ((hd.switchCarrier g).bind fun r hr => ?_)
  · have hd := (hd.alloc (Name.calls_carrier g.new)).allocApply hread [.name d.arena.size]
    exact (hd.of_keepsArena (Draft.keepsArena_replaceByExpression _ 0 _)).bind fun d hd =>
      (hd.of_keepsArena (d.keepsArena_insertParameter 0 _)).bind fun d hd => hd.finish id
  · have hd := hr.allocApply hread [.name r.1]
    exact (hd.of_keepsArena (Draft.keepsArena_replaceByExpression _ pos _)).bind
      fun d hd => hd.finish id

theorem object_deriveAdd (h : ∀ callee ∈ base.callees, P callee) (type : BasicType) :
    Ensures (deriveAdd base pos type id) (Form.Object P id) := by
  refine (Draft.calls_start h).bind fun d hd => ?_
  exact ((hd.alloc (Name.calls_param type)).of_keepsArena
    (Draft.keepsArena_insertParameter _ pos _)).bind fun d hd => hd.finish id

theorem object_deriveDup (h : ∀ callee ∈ base.callees, P callee) (src dst : Nat) :
    Ensures (deriveDup base src dst id) (Form.Object P id) := by
  refine (Draft.calls_start h).bind fun d hd => ?_
  exact (hd.of_keepsArena (d.keepsArena_replaceByCopy dst src)).bind fun d hd => hd.finish id

theorem calls_loadElement {d : Draft} (hd : d.Calls P) (element : Ty) (array exprPos index : Nat) :
    Ensures (loadElement element array pos exprPos d index) (Draft.Calls P) := by
  have hd := hd.allocApply (f := .intrinsic (.arrayLoad element)) nofun [.name array, .int index]
  refine (hd.of_keepsArena (Draft.keepsArena_insertExpression _ (exprPos + index) _)).bind
    fun d hd => ?_
  exact hd.of_keepsArena (d.keepsArena_replaceByCopy _ _)

theorem object_deriveSpread (h : ∀ callee ∈ base.callees, P callee) (element : Ty) (count : Nat) :
    Ensures (deriveSpread base pos element count id) (Form.Object P id) := by
  refine (Draft.calls_start h).bind fun d hd => ?_
  have hd := (hd.alloc (Name.calls_param .ref)).allocApply
    (f := .intrinsic .checkSpreadLength) nofun [.name d.arena.size, .int count]
  refine (hd.of_keepsArena (Draft.keepsArena_insertExpression _ base.arity _)).bind fun d hd => ?_
  refine (ensures_foldlM hd fun d index _ hd => calls_loadElement hd element _ _ index).bind
    fun d hd => ?_
  exact (hd.of_keepsArena (d.keepsArena_insertParameter pos _)).bind fun d hd => hd.finish id

theorem object_deriveCombination (h : ∀ callee ∈ base.callees, P callee) (combiner : Signature)
    (keep drop : Bool) : Ensures (deriveCombination base g pos combiner keep drop id)
      (Form.Object P id) := by
  refine ensures_ite ensures_error <| ensures_ite ensures_error <| ensures_ite ensures_error ?_
  refine (Draft.calls_start h).bind fun d hd => (hd.switchCarrier g).bind fun r hr =>
    g.getter_notForm.bind fun read hread => ensures_bind fun kept => ?_
  have hd := (hr.allocApply hread [.name r.1]).allocParams
    (if keep then [] else combiner.basicParams)
  refine ((hd.allocApply (f := .invokeBasic combiner) nofun _).of_keepsArena
      (Draft.keepsArena_insertExpression _ _ _)).bind fun d hd =>
    (hd.of_keepsArena (d.keepsArena_insertExpression _ _)).bind fun d hd =>
      (hd.of_keepsArena (d.keepsArena_insertParameters _ _)).bind fun d hd => ?_
  cases drop with
  | true => exact hd.finish id
  | false =>
    exact (hd.of_keepsArena (d.keepsArena_replaceByCopy _ _)).bind fun d hd => hd.finish id

theorem object_deriveZeroReturn (h : ∀ callee ∈ base.callees, P callee) (type : BasicType) :
    Ensures (deriveZeroReturn base type id) (Form.Object P id) := by
  refine (Draft.calls_start h).bind fun d hd => ensures_ite
    ((hd.of_keepsArena (d.keepsArena_setResult none)).bind fun d hd => hd.finish id) ?_
  have hd := hd.allocApply (f := .intrinsic (.zero type)) nofun []
  exact (hd.of_keepsArena (Draft.keepsArena_insertExpression _ _ _)).bind fun d hd =>
    (hd.of_keepsArena (d.keepsArena_setResult _)).bind fun d hd => hd.finish id

theorem object_derivePermute (h : ∀ callee ∈ base.callees, P callee) (skip : Nat)
    (reorder : List Nat) :
    Ensures (derivePermute base skip reorder id) (Form.Object P id) := by
  have hnames := Form.calls_of_callees h
  refine Form.object_assemble (List.forall_mem_append.2
    ⟨List.forall_mem_append.2 ⟨fun n hn => hnames n (List.mem_of_mem_take hn), ?_⟩, ?_⟩)
  · intro n hn
    obtain ⟨t, -, rfl⟩ := List.mem_map.1 hn
    exact Name.calls_param t
  · intro n hn
    obtain ⟨m, hm, rfl⟩ := List.mem_map.1 hn
    exact (hnames m (List.mem_of_mem_drop hm)).mapArgs _

theorem object_deriveFilterReturn (h : ∀ callee ∈ base.callees, P callee) (type : BasicType) :
    Ensures (deriveFilterReturn base g type id) (Form.Object P id) := by
  refine (Stop.ensures_ofViolation (Draft.calls_start h)).bind fun d hd =>
    (Stop.ensures_ofViolation (hd.switchCarrier g)).bind fun r hr =>
      (Stop.ensures_ofViolation g.getter_notForm).bind fun read hread => ?_
  have hd := hr.allocApply hread [.name r.1]
  refine (Stop.ensures_ofViolation
    (hd.of_keepsArena (Draft.keepsArena_insertExpression _ _ _))).bind fun d hd =>
      ensures_bind fun filter => ?_
  exact (Stop.ensures_ofViolation ((hd.allocApply (f := .invokeBasic filter) nofun _).of_keepsArena
    (Draft.keepsArena_insertExpression _ _ _))).bind
    fun d hd => (Stop.ensures_ofViolation (hd.of_keepsArena (d.keepsArena_setResult _))).bind
      fun d hd => Stop.ensures_ofViolation (hd.finish id)

/-- Every form that a derived form calls in place is called by the base. -/
theorem object_derive (base : Form) (e : Edit) (growth : Option CarrierGrowth) (id : Nat) :
    Ensures (e.derive base growth id) (Form.Object (· ∈ base.callees) id) := by
  have h : ∀ callee ∈ base.callees, callee ∈ base.callees := fun _ hcallee => hcallee
  cases e with
  | bind pos type =>
    cases growth with
    | none => exact ensures_error
    | some g => exact Stop.ensures_ofViolation (object_deriveBind h)
  | add pos type => exact Stop.ensures_ofViolation (object_deriveAdd h type)
  | dup src dst => exact Stop.ensures_ofViolation (object_deriveDup h src dst)
  | spread pos array count => exact Stop.ensures_ofViolation (object_deriveSpread h _ count)
  | filter pos type =>
    cases growth with
    | none => exact ensures_error
    | some g =>
      exact ensures_bind fun _ => ensures_bind fun filter =>
        Stop.ensures_ofViolation (object_deriveCombination h filter false false)
  | collect pos collector =>
    cases growth with
    | none => exact ensures_error
    | some g => exact Stop.ensures_ofViolation (object_deriveCombination h _ false _)
  | filterReturn type =>
    cases growth with
    | none => exact ensures_error
    | some g => exact object_deriveFilterReturn h type
  | zeroReturn type => exact Stop.ensures_ofViolation (object_deriveZeroReturn h type)
  | fold pos drop combiner =>
    cases growth with
    | none => exact ensures_error
    | some g => exact Stop.ensures_ofViolation (object_deriveCombination h _ true drop)
  | permute skip reorder => exact Stop.ensures_ofViolation (object_derivePermute h skip reorder)

end Edit

end HandleForms
