import HandleForms.Draft
import HandleForms.Edit.Basic

/-!
# Derived forms

Each edit is carried out on a draft of the base form. An edit that appends a field to the carrier
comes with the species of the base and the extended one; the reads of the old fields are retargeted
to the extended species, since parameter 0 is the same carrier seen with one more field. What an
edit derives is decided by the base and the edit alone.
-/

namespace HandleForms

/-- The carrier of a base before and after a field was appended. -/
structure CarrierGrowth where
  old : Species
  new : Species

namespace CarrierGrowth

/-- Reads of the appended field. -/
def getter (g : CarrierGrowth) : Except Violation (Function Form) :=
  g.new.getter g.old.fields.length

end CarrierGrowth

namespace Draft

/-- Makes parameter 0 a carrier of the extended species. Answers its number. -/
def switchCarrier (d : Draft) (g : CarrierGrowth) : Except Violation (Nat × Draft) := do
  let old ← d.idAt 0
  let d ← d.replaceFunctions (Function.getters g.old) (Function.getters g.new) [.name old]
  let (carrier, d) := d.alloc (.carrier g.new)
  return (carrier, ← d.renameParameter 0 carrier)

/-- Adds parameters of these types to the arena. Answers their numbers. -/
def allocParams (d : Draft) : List BasicType → List Nat × Draft
  | [] => ([], d)
  | t :: ts =>
    let (id, d) := d.alloc (.param t)
    let (ids, d) := d.allocParams ts
    (id :: ids, d)

/-- Inserts parameters next to each other, the first one at `pos`. -/
def insertParameters (d : Draft) (pos : Nat) : List Nat → Except Violation Draft
  | [] => .ok d
  | id :: ids => do (← d.insertParameter pos id).insertParameters (pos + 1) ids

end Draft

namespace Edit

/-- Parameter `pos` becomes a read of the appended field. When that is parameter 0 itself, which is
then a plain reference, a carrier takes its place. -/
def deriveBind (base : Form) (g : CarrierGrowth) (pos id : Nat) : Except Violation Form := do
  let d ← (Draft.ofForm base).start
  let getter ← g.getter
  if pos = 0 then
    if !g.old.isTop then throw .bindCarrier
    let (carrier, d) := d.alloc (.carrier g.new)
    let (read, d) := d.alloc (.apply getter [.name carrier])
    let d ← d.replaceByExpression 0 read
    (← d.insertParameter 0 carrier).finish id
  else
    let (carrier, d) ← d.switchCarrier g
    let (read, d) := d.alloc (.apply getter [.name carrier])
    (← d.replaceByExpression pos read).finish id

/-- A parameter that nothing reads is inserted at `pos`. -/
def deriveAdd (base : Form) (pos : Nat) (type : BasicType) (id : Nat) : Except Violation Form := do
  let d ← (Draft.ofForm base).start
  let (param, d) := d.alloc (.param type)
  (← d.insertParameter pos param).finish id

/-- Parameter `dst` becomes a copy of parameter `src`. -/
def deriveDup (base : Form) (src dst id : Nat) : Except Violation Form := do
  let d ← (Draft.ofForm base).start
  (← d.replaceByCopy dst src).finish id

/-- Element `index` of the array is loaded at `exprPos + index` and supplies parameter
`pos + index`. -/
def loadElement (element : Ty) (array pos exprPos : Nat) (d : Draft) (index : Nat) :
    Except Violation Draft := do
  let (load, d) := d.alloc (.apply (.intrinsic (.arrayLoad element)) [.name array, .int index])
  let d ← d.insertExpression (exprPos + index) load
  d.replaceByCopy (pos + index) (exprPos + index)

/-- The `count` parameters from `pos` on become loads of the elements of an array, whose length is
checked first. -/
def deriveSpread (base : Form) (pos : Nat) (element : Ty) (count id : Nat) :
    Except Violation Form := do
  let d ← (Draft.ofForm base).start
  let (array, d) := d.alloc (.param .ref)
  let (check, d) := d.alloc
    (.apply (.intrinsic .checkSpreadLength) [.name array, .int count])
  let d ← d.insertExpression base.arity check
  let d ← (List.range count).foldlM (loadElement element array pos (base.arity + 1)) d
  (← d.insertParameter pos array).finish id

/-- The handle in the appended field is called in front of the base, over new parameters or, with
`keep`, over parameters that are there. Unless it is dropped, the result of the call takes the place
of parameter `pos`. -/
def deriveCombination (base : Form) (g : CarrierGrowth) (pos : Nat) (combiner : Signature)
    (keep drop : Bool) (id : Nat) : Except Violation Form := do
  let argPos := pos + resultArity drop
  if pos = 0 ∨ Signature.maxSlots < pos then throw .combinationRange
  if base.arity < argPos + (if keep then combiner.arity else 0) then throw .combinationRange
  if !combiner.isBasic ∨ (combiner.basicRet = .void ∧ !drop) then throw .combinationRange
  let d ← (Draft.ofForm base).start
  let (carrier, d) ← d.switchCarrier g
  let (read, d) := d.alloc (.apply (← g.getter) [.name carrier])
  let (params, d) := d.allocParams (if keep then [] else combiner.basicParams)
  let kept ← (List.range' argPos (if keep then combiner.arity else 0)).mapM d.idAt
  let (call, d) := d.alloc
    (.apply (.invokeBasic combiner) ((read :: kept ++ params).map Arg.name))
  let d ← d.insertExpression base.arity read
  let d ← d.insertExpression (base.arity + 1) call
  let d ← d.insertParameters argPos params
  let d ← if drop then pure d else d.replaceByCopy pos (base.arity + 1 + params.length)
  d.finish id

/-- The handle in the appended field is called with the result of the base, if it has one. -/
def deriveFilterReturn (base : Form) (g : CarrierGrowth) (type : BasicType) (id : Nat) :
    Except (Stop FormError) Form := do
  let d ← (Draft.ofForm base).start
  let (carrier, d) ← d.switchCarrier g
  let (read, d) := d.alloc (.apply (← g.getter) [.name carrier])
  let d ← d.insertExpression base.size read
  let result := base.result.toList
  let filter ← Stop.ofError
    ((Signature.ofBasic type (result.map fun _ => base.ret)).mapError FormError.signature)
  let (call, d) := d.alloc (.apply (.invokeBasic filter) ((read :: result).map Arg.name))
  let d ← d.insertExpression (base.size + 1) call
  (← d.setResult (some call)).finish id

/-- The result becomes the zero of `type`, or nothing. -/
def deriveZeroReturn (base : Form) (type : BasicType) (id : Nat) : Except Violation Form := do
  let d ← (Draft.ofForm base).start
  if type = .void then (← d.setResult none).finish id
  else
    let (value, d) := d.alloc (.apply (.intrinsic (.zero type)) [])
    let d ← d.insertExpression base.size value
    (← d.setResult (some value)).finish id

/-- Where a name goes when the parameters behind the first `skip` are permuted. -/
def permuted (skip arity : Nat) (reorder : List Nat) (index : Nat) : Nat :=
  if index < skip ∨ arity ≤ index then index
  else match reorder[index - skip]? with
    | some r => skip + r
    | none => index

/-- The parameters behind the first `skip` change places. Their order alone is new, so the names are
written down without a draft. -/
def derivePermute (base : Form) (skip : Nat) (reorder : List Nat) (id : Nat) :
    Except Violation Form :=
  let types := (List.range reorder.length).map fun j =>
    (base.param? (skip + reorder.idxOf j)).getD .void
  let move := permuted skip base.arity reorder
  Form.assemble id base.arity
    (base.names.take skip ++ types.map Name.param ++
      (base.names.drop base.arity).map (Name.mapArgs move))
    (base.result.map move) .generic

/-- The form that an edit of shape `Edit.normal` derives. `growth` is there when the edit appends a
field to the carrier. -/
def derive (base : Form) (e : Edit) (growth : Option CarrierGrowth) (id : Nat) :
    Except (Stop FormError) Form :=
  match e, growth with
  | bind pos _, some g => Stop.ofViolation (deriveBind base g pos id)
  | add pos type, _ => Stop.ofViolation (deriveAdd base pos type id)
  | dup src dst, _ => Stop.ofViolation (deriveDup base src dst id)
  | spread pos array count, _ =>
    Stop.ofViolation (deriveSpread base pos ((array.component?.getD array).erase) count id)
  | filter pos type, some g => do
    let filter ← Stop.ofError
      ((Signature.ofBasic (← base.paramType pos) [type]).mapError FormError.signature)
    Stop.ofViolation (deriveCombination base g pos filter false false id)
  | collect pos collector, some g =>
    Stop.ofViolation (deriveCombination base g pos collector.basic false
      (collector.basicRet == .void) id)
  | filterReturn type, some g => deriveFilterReturn base g type id
  | zeroReturn type, _ => Stop.ofViolation (deriveZeroReturn base type id)
  | fold pos drop combiner, some g =>
    Stop.ofViolation (deriveCombination base g pos combiner.basic true drop id)
  | permute skip reorder, _ => Stop.ofViolation (derivePermute base skip reorder id)
  | _, none => .error (.violation .handleNotReference)

end Edit

namespace Context

variable {η : Type}

/-- The growth of the carrier of `base` by one field. -/
def growCarrier (c : Context η) (base : Form) (field : BasicType) :
    Except Violation (CarrierGrowth × Context η) := do
  let old ← base.carrier
  let (new, species) ← c.species.extended old field
  return (⟨old, new⟩, { c with species })

/-- Derives the form of an edit of shape `Edit.normal`, whatever the caches hold. The species that
the edit asks for stays even when it derives nothing. -/
def deriveAnew (c : Context η) (base : Form) (e : Edit) :
    Except (Stop FormError) Form × Context η :=
  let (id, c) := c.freshForm
  match e.field? with
  | none => (e.derive base none id, c)
  | some field =>
    match c.growCarrier base field with
    | .error v => (.error (.violation v), c)
    | .ok (g, c) => (e.derive base (some g) id, c)

/-- Adapts a form. The form that was derived by the same edit before is found again while it is
alive; otherwise the form is derived and published. -/
def edit (c : Context η) (live : Live η) (base : Form) (e : Edit) :
    Except (Stop FormError) Form × Context η :=
  match e.check base with
  | .error stop => (.error stop, c)
  | .ok () =>
    if e.isTrivial then (.ok base, c)
    else
      let e := e.normal
      match e.key with
      | .error v => (.error (.violation v), c)
      | .ok key =>
        match c.lookupDerived live base key with
        | (some f, c) => (.ok f, c)
        | (none, c) =>
          match c.deriveAnew base e with
          | (.error stop, c) => (.error stop, c)
          | (.ok f, c) =>
            let (f, c) := c.publishDerived live base key f
            (.ok f, c)

end Context

end HandleForms
