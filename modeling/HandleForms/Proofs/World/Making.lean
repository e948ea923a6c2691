import HandleForms.Proofs.World.Script

/-!
# Properties that making handles keeps

Handles are made and adapted out of changes to the context, fresh identities and the table of
invokers. A property of computations that is kept by sequencing and frames, and that these have
(`Act.Making`), holds of making any handle (`Act.Making.perform`) and of the forms that calls link to.
-/

namespace HandleForms

variable {σ α β : Type}

/-- A change to the context and the table of invokers. -/
def Act.onShared (f : Live Kept → Context Kept → InvokerTable → α × Context Kept × InvokerTable) :
    Act σ α := fun w =>
  let r := f w.live w.context w.invokers
  (.ok r.1, { w with context := r.2.1, invokers := r.2.2 })

/-- A law that holds of what changes the context and the table of invokers. -/
structure Act.Making (P : (β : Type) → StateM (World σ) β → Prop) : Prop extends Act.Law P where
  onShared : ∀ {α : Type}
    (f : Live Kept → Context Kept → InvokerTable → α × Context Kept × InvokerTable),
      P _ (Act.onShared f : Act σ α)

namespace Act.Making

variable {P : (β : Type) → StateM (World σ) β → Prop} (hP : Making P)
include hP

theorem context (f : Live Kept → Context Kept → α × Context Kept) :
    P _ (Act.context f : Act σ α) :=
  hP.onShared fun live c t => ((f live c).1, (f live c).2, t)

theorem ofViolation (r : Except Violation α) : P _ (Act.ofViolation r : Act σ α) := hP.ofStop _

theorem ofError (r : Except RuntimeError α) : P _ (Act.ofError r : Act σ α) := hP.ofStop _

theorem ofSignature (r : Except SignatureError α) : P _ (Act.ofSignature r : Act σ α) :=
  hP.ofError _

/-- A check in front of a computation. -/
theorem guarded {p : Prop} {_ : Decidable p} {x : Act σ Unit} {k : Unit → Act σ α} (hx : P _ x)
    (hk : ∀ u, P _ (k u)) : P _ (if p then x >>= k else k () : Act σ α) := by
  split
  · exact hP.bind hx hk
  · exact hk ()

/-! ## Making handles -/

theorem freshId : P _ (Act.freshId : Act σ Nat) :=
  hP.outer (World.Outer.freshId.andThen (g := fun id w => (Except.ok id, w)) fun _ => .pure _)

theorem edit (base : Form) (e : Edit) : P _ (Act.edit base e : Act σ Form) :=
  hP.bind (hP.context _) fun _ => hP.ofStop _

theorem checkSlots (type : Signature) (limit : Nat) :
    P _ (Act.checkSlots type limit : Act σ Unit) := by
  unfold Act.checkSlots
  split
  · exact hP.throw _
  · exact hP.pure _

theorem newHandle (type : Signature) (form : Form) (data : HandleData Value) :
    P _ (Act.newHandle type form data : Act σ Handle) :=
  hP.bind hP.freshId fun _ => hP.pure _

theorem newForm (build : Nat → Except Violation Form) : P _ (Act.newForm build : Act σ Form) :=
  hP.bind (hP.context _) fun _ => hP.ofViolation _

theorem sharedForm (t : TypeForm) (p : FormPurpose) {build : Act σ Form}
    (hbuild : P _ build) : P _ (Act.sharedForm t p build) := by
  refine hP.bind (hP.context _) fun found => ?_
  cases found with
  | some f => exact hP.pure f
  | none => exact hP.bind hbuild fun _ => hP.context _

theorem shareHandle (t : TypeForm) (p : HandlePurpose) (h : Handle) :
    P _ (Act.shareHandle t p h : Act σ Handle) :=
  hP.bind (hP.context _) fun _ => hP.ofError _

theorem asType (h : Handle) (type : Signature) : P _ (Act.asType h type : Act σ Handle) := by
  unfold Act.asType
  split
  · exact hP.pure h
  split
  · exact hP.throw _
  · exact hP.lookAt (fun _ => hP.newHandle _ _ _) fun _ _ _ => rfl

theorem external (name : String) (type : Signature) :
    P _ (Act.external name type : Act σ Handle) :=
  hP.bind (hP.checkSlots _ _) fun _ => hP.bind (hP.newForm _) fun _ =>
    hP.bind (hP.context _) fun _ => hP.newHandle _ _ _

theorem empty (type : Signature) : P _ (Act.empty type : Act σ Handle) := by
  refine hP.bind (hP.checkSlots _ _) fun _ => hP.bind (hP.context _) fun t =>
    hP.bind (hP.context _) fun found => ?_
  cases found with
  | some h => exact hP.asType h type
  | none =>
    exact hP.bind (hP.sharedForm t _ (hP.newForm _)) fun form =>
      hP.bind (hP.newHandle _ _ _) fun h => hP.bind (hP.shareHandle t _ h) fun h => hP.asType h type

theorem rebind (h : Handle) : P _ (Act.rebind h : Act σ Handle) := by
  unfold Act.rebind
  split
  · exact hP.pure h
  · exact hP.bind (hP.context _) fun t => hP.bind (hP.sharedForm t _ (hP.bind (hP.context _) fun s =>
      hP.newForm _)) fun form => hP.bind (hP.context _) fun s => hP.newHandle _ _ _

theorem directForm (type : Signature) (kind : DispatchKind) (barrier : Bool) :
    P _ (Act.directForm type kind barrier : Act σ Form) :=
  hP.bind (hP.checkSlots _ _) fun _ => hP.bind (hP.context _) fun t => hP.sharedForm t _ (hP.newForm _)

theorem direct (host : Host σ) (m : Member) : P _ (Act.direct host m : Act σ Handle) :=
  hP.bind (hP.ofSignature _) fun _ => hP.lookAt (fun _ => hP.bind (hP.directForm _ _ _) fun _ =>
    hP.bind hP.freshId fun _ => hP.newHandle _ _ _) fun _ _ _ => rfl

theorem invokerForm (type : Signature) (shape : InvokerShape) :
    P _ (Act.invokerForm type shape : Act σ Form) := by
  refine hP.bind (hP.checkSlots _ _) fun _ => hP.bind (hP.context _) fun t => hP.sharedForm t _ ?_
  split
  · exact hP.newForm _
  · exact hP.bind (hP.context _) fun s => hP.newForm _

theorem invokers (type : Signature) : P _ (Act.invokers type : Act σ Invokers) :=
  hP.bind hP.freshId fun id => hP.onShared fun _ c t =>
    let found := t.request (fun i => c.handleRetainer.holds i.id) type id
    (found.1, c.retainHandle (.invokers found.1), found.2)

theorem invoker (type : Signature) (generic : Bool) :
    P _ (Act.invoker type generic : Act σ Handle) := by
  refine hP.bind (hP.invokers type) fun i => hP.lookAt (fun w => ?_) fun _ _ _ => rfl
  split
  · exact hP.pure _
  · exact hP.bind (hP.ofSignature _) fun invokerType => hP.bind (hP.invokerForm _ _) fun form =>
      hP.bind (hP.context _) fun s => hP.bind (hP.newHandle _ _ _) fun h =>
        hP.bind (hP.onShared fun _ c t => (PUnit.unit, c, t.setHandle i generic h)) fun _ => hP.pure h

theorem basicInvoker (type : Signature) : P _ (Act.basicInvoker type : Act σ Handle) := by
  refine hP.bind (hP.invokers type) fun i => hP.bind (hP.context _) fun t =>
    hP.bind (hP.context _) fun found => ?_
  cases found with
  | some h => exact hP.pure h
  | none =>
    exact hP.bind (hP.ofSignature _) fun invokerType =>
      hP.bind (hP.sharedForm t _ (hP.newForm _)) fun form =>
        hP.bind (hP.newHandle _ _ _) fun h => hP.shareHandle t _ h

/-! ## Adapting handles -/

theorem require (p : Prop) [Decidable p] (v : Violation) :
    P _ (Act.require p v : Act σ Unit) := by
  unfold Act.require
  split
  · exact hP.pure _
  · exact hP.throw _

theorem paramType (type : Signature) (pos : Nat) :
    P _ (Act.paramType type pos : Act σ Ty) := by
  unfold Act.paramType
  split
  · exact hP.pure _
  · exact hP.throw _

theorem paramRange (type : Signature) (start stop : Nat) :
    P _ (Act.paramRange type start stop : Act σ (List Ty)) := by
  unfold Act.paramRange
  split
  · exact hP.pure _
  · exact hP.throw _

theorem dropParams (type : Signature) (start stop : Nat) :
    P _ (Act.dropParams type start stop : Act σ Signature) := by
  unfold Act.dropParams
  split
  · exact hP.pure _
  · exact hP.throw _

theorem insertParams (type : Signature) (pos : Nat) (types : List Ty) :
    P _ (Act.insertParams type pos types : Act σ Signature) := by
  unfold Act.insertParams
  split
  · exact hP.ofSignature _
  · exact hP.throw _

theorem changeParam (type : Signature) (pos : Nat) (t : Ty) :
    P _ (Act.changeParam type pos t : Act σ Signature) := by
  unfold Act.changeParam
  split
  · exact hP.ofSignature _
  · exact hP.throw _

theorem copyWithExtra (carrier : Handle) (type : Signature) (form : Form) (value : Value) :
    P _ (Act.copyWithExtra carrier type form value : Act σ Handle) := by
  unfold Act.copyWithExtra
  split
  · exact hP.newHandle _ _ _
  · exact hP.throw _

theorem editForm (h : Handle) (e : Edit) : P _ (Act.editForm h e : Act σ Form) :=
  hP.lookAt (fun _ => hP.edit _ e) fun _ _ _ => rfl

/-- The last steps of an adapter that binds a value. -/
theorem carry (h : Handle) (e : Edit) {x : Act σ Signature} (hx : P _ x) (value : Value) :
    P _ (do
      let carrier ← Act.rebind h
      let form ← Act.editForm carrier e
      Act.copyWithExtra carrier (← x) form value : Act σ Handle) :=
  hP.bind (hP.rebind h) fun _ => hP.bind (hP.editForm _ e) fun _ => hP.bind hx fun _ =>
    hP.copyWithExtra _ _ _ _

theorem bindArgument (h : Handle) (pos : Nat) (value : Value) :
    P _ (Act.bindArgument h pos value : Act σ Handle) := by
  refine hP.bind (hP.require _ _) fun _ => hP.bind (hP.paramType _ _) fun type => ?_
  have hrest := hP.carry h (.bind (pos + 1) type.basicType)
    (hP.dropParams h.type pos (pos + 1)) value
  dsimp only
  split
  · exact hP.bind (hP.throw _) fun _ => hrest
  · exact hrest

theorem insertArguments (h : Handle) (pos : Nat) (values : List Value) :
    P _ (Act.insertArguments h pos values : Act σ Handle) := by
  induction values generalizing h with
  | nil => exact hP.pure h
  | cons value values ih => exact hP.bind (hP.bindArgument h pos value) fun h => ih h

theorem addParams (form : Form) (pos : Nat) (types : List Ty) :
    P _ (Act.addParams form pos types : Act σ Form) := by
  induction types generalizing form pos with
  | nil => exact hP.pure form
  | cons t types ih => exact hP.bind (hP.edit _ _) fun form => ih form _

theorem dropArguments (h : Handle) (pos : Nat) (types : List Ty) :
    P _ (Act.dropArguments h pos types : Act σ Handle) := by
  refine hP.bind (hP.require _ _) fun _ => hP.bind (hP.insertParams _ _ _) fun type => ?_
  split
  · exact hP.pure h
  · exact hP.bind (hP.checkSlots _ _) fun _ => hP.bind (hP.rebind h) fun carrier =>
      hP.lookAt (fun _ => hP.bind (hP.addParams _ _ _) fun _ => hP.newHandle _ _ _) fun _ _ _ => rfl

/-- The last steps of an adapter that binds nothing. -/
theorem copy (h : Handle) (e : Edit) {x : Act σ Signature} (hx : P _ x) :
    P _ (do
      let carrier ← Act.rebind h
      let form ← Act.editForm carrier e
      Act.copyWith carrier (← x) form : Act σ Handle) :=
  hP.bind (hP.rebind h) fun _ => hP.bind (hP.editForm _ e) fun _ => hP.bind hx fun _ =>
    hP.newHandle _ _ _

theorem dupArguments (h : Handle) (src dst : Nat) :
    P _ (Act.dupArguments h src dst : Act σ Handle) := by
  refine hP.bind (hP.require _ _) fun _ => hP.bind (hP.paramType _ _) fun source =>
    hP.bind (hP.paramType _ _) fun target => ?_
  have hrest := hP.copy h (.dup (src + 1) (dst + 1)) (hP.dropParams h.type dst (dst + 1))
  dsimp only
  split
  · exact hP.bind (hP.throw _) fun _ => hrest
  · exact hrest

theorem spreadArguments (h : Handle) (pos : Nat) (array : Ty) (count : Nat) :
    P _ (Act.spreadArguments h pos array count : Act σ Handle) :=
  hP.bind (hP.require _ _) fun _ => hP.bind (hP.dropParams _ _ _) fun _ =>
    hP.bind (hP.insertParams _ _ _) fun _ => hP.bind (hP.rebind h) fun _ =>
      hP.bind (hP.editForm _ _) fun _ => hP.newHandle _ _ _

theorem incompatible (combiner target : Signature) :
    P _ (Act.incompatible combiner target : Act σ α) := hP.throw _

theorem filterArgument (h : Handle) (pos : Nat) (filter : Handle) :
    P _ (Act.filterArgument h pos filter : Act σ Handle) := by
  refine hP.bind (hP.require _ _) fun _ => ?_
  split
  · next param _ =>
    refine hP.bind (hP.paramType _ _) fun ret => ?_
    have hrest := hP.carry h (.filter (pos + 1) param.basicType)
      (hP.changeParam h.type pos param) (.handle filter)
    dsimp only
    split
    · exact hP.bind (hP.incompatible _ _) fun _ => hrest
    · exact hrest
  · exact hP.incompatible _ _

theorem collectArguments (h : Handle) (pos : Nat) (collector : Handle) :
    P _ (Act.collectArguments h pos collector : Act σ Handle) := by
  refine hP.bind (hP.require _ _) fun _ => ?_
  have hrest : P _ (do
      let type ← Act.insertParams (← Act.dropParams h.type pos (Text.wordAdd pos
        (Edit.resultArity collector.type.ret.isVoid))) pos collector.type.params
      let carrier ← Act.rebind h
      let form ← Act.editForm carrier (.collect (pos + 1) collector.type)
      Act.copyWithExtra carrier type form (.handle collector) : Act σ Handle) :=
    hP.bind (hP.dropParams _ _ _) fun _ => hP.bind (hP.insertParams _ _ _) fun _ =>
      hP.bind (hP.rebind h) fun _ => hP.bind (hP.editForm _ _) fun _ => hP.copyWithExtra _ _ _ _
  dsimp only
  split
  · refine hP.bind (hP.paramType _ _) fun ret => ?_
    split
    · exact hP.bind (hP.incompatible _ _) fun _ => hrest
    · exact hrest
  · exact hrest

theorem foldArguments (h : Handle) (pos : Nat) (combiner : Handle) :
    P _ (Act.foldArguments h pos combiner : Act σ Handle) := by
  have hrest : P _ (do
      let type ← Act.dropParams h.type pos (Text.wordAdd pos
        (Edit.resultArity combiner.type.ret.isVoid))
      let carrier ← Act.rebind h
      let form ← Act.editForm carrier (.fold (pos + 1) combiner.type.ret.isVoid combiner.type)
      Act.copyWithExtra carrier type form (.handle combiner) : Act σ Handle) :=
    hP.bind (hP.dropParams _ _ _) fun _ => hP.bind (hP.rebind h) fun _ =>
      hP.bind (hP.editForm _ _) fun _ => hP.copyWithExtra _ _ _ _
  have hparams : P _ (do
      let kept ← Act.paramRange h.type (Text.wordAdd pos (Edit.resultArity combiner.type.ret.isVoid))
        (Text.wordAdd (Text.wordAdd pos (Edit.resultArity combiner.type.ret.isVoid))
          combiner.type.arity)
      if combiner.type.params ≠ kept then Act.incompatible combiner.type h.type
      let type ← Act.dropParams h.type pos (Text.wordAdd pos
        (Edit.resultArity combiner.type.ret.isVoid))
      let carrier ← Act.rebind h
      let form ← Act.editForm carrier (.fold (pos + 1) combiner.type.ret.isVoid combiner.type)
      Act.copyWithExtra carrier type form (.handle combiner) : Act σ Handle) :=
    hP.bind (hP.paramRange _ _ _) fun _ => hP.guarded (hP.incompatible _ _) fun _ => hrest
  unfold Act.foldArguments
  dsimp only
  refine hP.guarded (hP.incompatible _ _) fun _ => ?_
  split
  · exact hP.bind (hP.paramType _ _) fun _ => hP.guarded (hP.incompatible _ _) fun _ => hparams
  · exact hparams

theorem filterReturn (h filter : Handle) :
    P _ (Act.filterReturn h filter : Act σ Handle) := by
  unfold Act.filterReturn
  dsimp only
  exact hP.guarded (hP.incompatible _ _) fun _ => hP.bind (hP.rebind h) fun _ =>
    hP.bind (hP.editForm _ _) fun _ => hP.copyWithExtra _ _ _ _

theorem zeroReturn (h : Handle) (type : Ty) : P _ (Act.zeroReturn h type : Act σ Handle) :=
  hP.bind (hP.rebind h) fun _ => hP.bind (hP.editForm _ _) fun _ => hP.newHandle _ _ _

theorem mergeParams (form : Form) (steps : List (Nat × Nat)) :
    P _ (Act.mergeParams form steps : Act σ Form) := by
  induction steps generalizing form with
  | nil => exact hP.pure form
  | cons step steps ih => exact hP.bind (hP.edit _ _) fun form => ih form

theorem addUnread (type : Signature) (form : Form) (steps : List (Nat × Nat)) :
    P _ (Act.addUnread type form steps : Act σ Form) := by
  induction steps generalizing form with
  | nil => exact hP.pure form
  | cons step steps ih =>
    exact hP.bind (hP.paramType _ _) fun _ => hP.bind (hP.edit _ _) fun form => ih form

theorem permuteArguments (h : Handle) (type : Signature) (reorder : List Nat) :
    P _ (Act.permuteArguments h type reorder : Act σ Handle) := by
  unfold Act.permuteArguments
  split
  · exact hP.throw _
  · exact hP.bind (hP.rebind h) fun _ => hP.lookAt (fun _ => hP.bind (hP.mergeParams _ _) fun _ =>
      hP.bind (hP.addUnread _ _ _) fun _ => hP.bind (hP.edit _ _) fun _ =>
        hP.newHandle _ _ _) fun _ _ _ => rfl

/-- Making a handle. -/
theorem perform (host : Host σ) (op : HandleOp) : P _ (Act.perform host op) := by
  cases op with
  | external name type => exact hP.external name type
  | empty type => exact hP.empty type
  | direct m => exact hP.direct host m
  | exactInvoker type => exact hP.invoker type false
  | genericInvoker type => exact hP.invoker type true
  | basicInvoker type => exact hP.basicInvoker type
  | asType h type => exact hP.asType h type
  | insert h pos values => exact hP.insertArguments h pos values
  | drop h pos types => exact hP.dropArguments h pos types
  | dup h src dst => exact hP.dupArguments h src dst
  | spread h pos array count => exact hP.spreadArguments h pos array count
  | filter h pos f => exact hP.filterArgument h pos f
  | collect h pos c => exact hP.collectArguments h pos c
  | filterReturn h f => exact hP.filterReturn h f
  | zeroReturn h type => exact hP.zeroReturn h type
  | fold h pos c => exact hP.foldArguments h pos c
  | permute h type reorder => exact hP.permuteArguments h type reorder

end Act.Making

end HandleForms
