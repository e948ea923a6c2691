import HandleForms.Handle.Make
import HandleForms.Handle.Reorder

/-!
# Adapting handles

Each adapter checks the types of the handles, makes the target a carrier, edits its form and makes a
handle of the new type over it. Positions and counts are machine words, and so are their sums. A
filter, collector or combiner is bound into the carrier, where the edited form finds it. Argument
`pos` of a handle is parameter `pos + 1` of its form.
-/

namespace HandleForms

namespace Act

variable {σ : Type}

/-- A precondition of an adapter. -/
def require (p : Prop) [Decidable p] (v : Violation) : Act σ Unit := if p then return else violate v

/-- The type of parameter `pos`. -/
def paramType (type : Signature) (pos : Nat) : Act σ Ty :=
  match type.params[pos]? with
  | some t => return t
  | none => violate .outOfBounds

/-- The types of the parameters from `start` up to `stop`. -/
def paramRange (type : Signature) (start stop : Nat) : Act σ (List Ty) :=
  if start ≤ stop ∧ stop ≤ type.arity then return (type.params.take stop).drop start
  else violate .outOfBounds

/-- The type without the parameters from `start` up to `stop`. -/
def dropParams (type : Signature) (start stop : Nat) : Act σ Signature :=
  match type.drop? start stop with
  | some s => return s
  | none => violate .outOfBounds

/-- The type with parameters of these types inserted at `pos`. -/
def insertParams (type : Signature) (pos : Nat) (types : List Ty) : Act σ Signature :=
  match type.insert? pos types with
  | some s => ofSignature s
  | none => violate .outOfBounds

/-- The type with another type of parameter `pos`. -/
def changeParam (type : Signature) (pos : Nat) (t : Ty) : Act σ Signature :=
  match type.changeParam? pos t with
  | some s => ofSignature s
  | none => violate .outOfBounds

/-- The handle does not fit where a filter, collector or combiner is asked for. -/
def incompatible {α : Type} (combiner target : Signature) : Act σ α :=
  fail (.form (.incompatibleCombiner combiner target))

/-- A handle of the carrier's data and one more value, over a form that was made for them. -/
def copyWithExtra (carrier : Handle) (type : Signature) (form : Form) (value : Value) :
    Act σ Handle := do
  match form.species? 0 with
  | some s => newHandle type form (.bound s (carrier.bound ++ [value]))
  | none => violate .handleNotReference

/-- Edits the current form of a handle. -/
def editForm (h : Handle) (e : Edit) : Act σ Form := do edit ((← get).currentForm h) e

/-! ## Arguments -/

/-- Fixes parameter `pos` to a value. -/
def bindArgument (h : Handle) (pos : Nat) (value : Value) : Act σ Handle := do
  require (pos < h.type.arity) (.bindPosition pos h.type)
  let type := (← paramType h.type pos).basicType
  if value.basicType ≠ type then fail (.argumentType pos type value.basicType)
  let carrier ← rebind h
  let form ← editForm carrier (.bind (pos + 1) type)
  copyWithExtra carrier (← dropParams h.type pos (pos + 1)) form value

/-- Fixes the parameters from `pos` on to values. -/
def insertArguments (h : Handle) (pos : Nat) : List Value → Act σ Handle
  | [] => return h
  | value :: values => do insertArguments (← bindArgument h pos value) pos values

/-- Adds parameters to a form, the first one at `pos`. -/
def addParams (form : Form) (pos : Nat) : List Ty → Act σ Form
  | [] => return form
  | t :: ts => do addParams (← edit form (.add pos t.basicType)) (pos + 1) ts

/-- Accepts and ignores parameters of these types at `pos`. The size of the new type is checked
before the first of them is added. -/
def dropArguments (h : Handle) (pos : Nat) (types : List Ty) : Act σ Handle := do
  require (pos ≤ h.type.arity) (.dropPosition pos h.type)
  let type ← insertParams h.type pos types
  if types.isEmpty then return h
  checkSlots type Signature.maxHandleSlots
  let carrier ← rebind h
  let form ← addParams ((← get).currentForm carrier) (pos + 1) types
  copyWith carrier type form

/-- Passes parameter `src` in the place of parameter `dst` too, which is removed. -/
def dupArguments (h : Handle) (src dst : Nat) : Act σ Handle := do
  require (src < dst ∧ dst < h.type.arity) (.dupPositions src dst h.type)
  let source ← paramType h.type src
  let target ← paramType h.type dst
  if source ≠ target then
    fail (.invalidReorder ("parameter " ++ Text.decimal dst ++ " (" ++ target.text ++
      ") cannot alias parameter " ++ Text.decimal src ++ " (" ++ source.text ++ ")"))
  let carrier ← rebind h
  let form ← editForm carrier (.dup (src + 1) (dst + 1))
  copyWith carrier (← dropParams h.type dst (dst + 1)) form

/-- Takes the `count` parameters from `pos` on out of one array. -/
def spreadArguments (h : Handle) (pos : Nat) (array : Ty) (count : Nat) : Act σ Handle := do
  let stop := Text.wordAdd pos count
  require (stop ≤ h.type.arity) (.spreadPosition pos count h.type)
  let type ← insertParams (← dropParams h.type pos stop) pos [array]
  let carrier ← rebind h
  let form ← editForm carrier (.spread (pos + 1) array count)
  copyWith carrier type form

/-- Passes parameter `pos` through a handle of one argument. -/
def filterArgument (h : Handle) (pos : Nat) (filter : Handle) : Act σ Handle := do
  require (pos < h.type.arity) (.filterPosition pos h.type)
  match filter.type.params with
  | [param] =>
    if filter.type.ret ≠ (← paramType h.type pos) then incompatible filter.type h.type
    let carrier ← rebind h
    let form ← editForm carrier (.filter (pos + 1) param.basicType)
    copyWithExtra carrier (← changeParam h.type pos param) form (.handle filter)
  | _ => incompatible filter.type h.type

/-- Passes the arguments of a collector to it, and its result, if it has one, as parameter `pos`. -/
def collectArguments (h : Handle) (pos : Nat) (collector : Handle) : Act σ Handle := do
  let drop := collector.type.ret.isVoid
  let stop := Text.wordAdd pos (Edit.resultArity drop)
  require (stop ≤ h.type.arity) (.collectPosition pos h.type)
  if !drop then
    if collector.type.ret ≠ (← paramType h.type pos) then incompatible collector.type h.type
  let type ← insertParams (← dropParams h.type pos stop) pos collector.type.params
  let carrier ← rebind h
  let form ← editForm carrier (.collect (pos + 1) collector.type)
  copyWithExtra carrier type form (.handle collector)

/-- Runs a combiner over the parameters from `pos` on. Its result, if it has one, is passed as
parameter `pos`; the others are passed on. -/
def foldArguments (h : Handle) (pos : Nat) (combiner : Handle) : Act σ Handle := do
  let drop := combiner.type.ret.isVoid
  let folded := Text.wordAdd pos (Edit.resultArity drop)
  let stop := Text.wordAdd folded combiner.type.arity
  if h.type.arity < stop then incompatible combiner.type h.type
  if !drop then
    if combiner.type.ret ≠ (← paramType h.type pos) then incompatible combiner.type h.type
  if combiner.type.params ≠ (← paramRange h.type folded stop) then
    incompatible combiner.type h.type
  let type ← dropParams h.type pos folded
  let carrier ← rebind h
  let form ← editForm carrier (.fold (pos + 1) drop combiner.type)
  copyWithExtra carrier type form (.handle combiner)

/-! ## Results -/

/-- Passes the result, if there is one, through a handle. -/
def filterReturn (h : Handle) (filter : Handle) : Act σ Handle := do
  let expected := if h.type.ret.isVoid then [] else [h.type.ret]
  if filter.type.params ≠ expected then incompatible filter.type h.type
  let carrier ← rebind h
  let form ← editForm carrier (.filterReturn filter.type.basicRet)
  copyWithExtra carrier (h.type.withRet filter.type.ret) form (.handle filter)

/-- Answers the zero of a type instead of the result. -/
def zeroReturn (h : Handle) (type : Ty) : Act σ Handle := do
  let carrier ← rebind h
  let form ← editForm carrier (.zeroReturn type.basicType)
  copyWith carrier (h.type.withRet type) form

/-! ## Reorders -/

/-- Merges parameters of a form pair by pair. -/
def mergeParams (form : Form) : List (Nat × Nat) → Act σ Form
  | [] => return form
  | (src, dst) :: steps => do mergeParams (← edit form (.dup (src + 1) (dst + 1))) steps

/-- Adds a parameter to a form for each argument that nothing reads. -/
def addUnread (type : Signature) (form : Form) : List (Nat × Nat) → Act σ Form
  | [] => return form
  | (pos, value) :: steps => do
    let t ← paramType type value
    addUnread type (← edit form (.add (pos + 1) t.basicType)) steps

/-- Passes argument `reorder[i]` of the new type as parameter `i`. Arguments may be passed several
times or not at all. -/
def permuteArguments (h : Handle) (type : Signature) (reorder : List Nat) : Act σ Handle := do
  match Reorder.defect? h.type type reorder with
  | some reason => fail (.invalidReorder reason)
  | none =>
    let carrier ← rebind h
    let (merged, distinct) := Reorder.merges [] reorder
    let (added, permutation) := Reorder.additions distinct (List.range type.arity)
    let form ← mergeParams ((← get).currentForm carrier) merged
    let form ← addUnread type form added
    let form ← edit form (.permute 1 permutation)
    copyWith carrier type form

/-! ## All of them -/

/-- Makes a handle. -/
def perform (host : Host σ) : HandleOp → Act σ Handle
  | .external name type => external name type
  | .empty type => empty type
  | .direct m => direct host m
  | .exactInvoker type => invoker type false
  | .genericInvoker type => invoker type true
  | .basicInvoker type => basicInvoker type
  | .asType h type => asType h type
  | .insert h pos values => insertArguments h pos values
  | .drop h pos types => dropArguments h pos types
  | .dup h src dst => dupArguments h src dst
  | .spread h pos array count => spreadArguments h pos array count
  | .filter h pos f => filterArgument h pos f
  | .collect h pos c => collectArguments h pos c
  | .filterReturn h f => filterReturn h f
  | .zeroReturn h type => zeroReturn h type
  | .fold h pos c => foldArguments h pos c
  | .permute h type reorder => permuteArguments h type reorder

end Act

end HandleForms
