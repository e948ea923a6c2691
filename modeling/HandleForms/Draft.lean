import HandleForms.Violation

/-!
# Drafts: forms under edit

A draft is a working copy of a form. Its names live in an arena and operands refer to arena numbers,
so a name keeps its identity however the list of names is reordered. An edit is a transaction from
`Draft.start` to `Draft.finish`: it replaces and inserts names, and on finishing

* every operand that still refers to a replaced name is redirected to the replacement,
* names that stand twice, because a parameter was made a copy of another name, keep the place that
  was not a replacement, and
* expressions that came to stand among the parameters move behind them in their order.

The list of names as it was at the start, `initial`, is what tells replacements from the rest.
-/

namespace HandleForms

/-- A form under edit. -/
structure Draft where
  arena : Array (Name Form)
  arity : Nat
  /-- The arena number of the name at each position; a removed name leaves a hole. -/
  names : List (Option Nat)
  /-- The names at the start of the edit, with a hole at each inserted position. -/
  initial : List (Option Nat)
  /-- The first position that changed. -/
  firstChange : Nat
  /-- The arena number of the result. -/
  result : Option Nat
  /-- The names of which a second copy has to be removed. -/
  dups : List Nat
  editing : Bool

namespace Draft

/-- A working copy of a form; the arena number of each name is its position. -/
def ofForm (f : Form) : Draft where
  arena := f.names.toArray
  arity := f.arity
  names := (List.range f.size).map some
  initial := []
  firstChange := 0
  result := f.result
  dups := []
  editing := false

/-- The name with this arena number. -/
def name (d : Draft) (id : Nat) : Except Violation (Name Form) :=
  match d.arena[id]? with
  | some n => .ok n
  | none => .error .outOfBounds

/-- The arena number of the name at `pos`. -/
def idAt (d : Draft) (pos : Nat) : Except Violation Nat :=
  match d.names[pos]? with
  | some (some id) => .ok id
  | some none => .error (.noName pos)
  | none => .error .outOfBounds

/-- The name at `pos`. -/
def nameAt (d : Draft) (pos : Nat) : Except Violation (Name Form) := do d.name (← d.idAt pos)

/-- Adds a name to the arena without placing it. Answers its number. -/
def alloc (d : Draft) (n : Name Form) : Nat × Draft :=
  (d.arena.size, { d with arena := d.arena.push n })

/-- The last position of the name `id`. -/
def lastIndexOf? (d : Draft) (id : Nat) : Option Nat :=
  (d.names.reverse.findIdx? (· == some id)).map fun i => d.names.length - 1 - i

/-- Checks that exactly the names below the arity are parameters. -/
def checkArity (d : Draft) : Except Violation Unit :=
  go 0 d.names
where
  go (pos : Nat) : List (Option Nat) → Except Violation Unit
    | [] => .ok ()
    | none :: rest => go (pos + 1) rest
    | some id :: rest => do
      let n ← d.name id
      if n.isParam != decide (pos < d.arity) then .error (.misplacedName pos d.arity)
      else go (pos + 1) rest

/-! ## Changing names -/

/-- Opens an edit. -/
def start (d : Draft) : Except Violation Draft :=
  if d.editing then .error .editOpen
  else do
    d.checkArity
    return { d with initial := d.names, firstChange := d.names.length, editing := true }

/-- Replaces the name at `pos`; a position may change once in an edit. The result follows. -/
def changeName (d : Draft) (pos id : Nat) : Except Violation Draft :=
  if !d.editing then .error .editClosed
  else match d.names[pos]?, d.initial[pos]? with
    | some old, some initial =>
      if old != initial then .error (.changedTwice pos)
      else .ok { d with
        names := d.names.set pos (some id)
        firstChange := min d.firstChange pos
        result := if old.isSome && d.result == old then some id else d.result }
    | _, _ => .error .outOfBounds

/-- Makes a placed name, or nothing, the result. -/
def setResult (d : Draft) (id : Option Nat) : Except Violation Draft :=
  match id with
  | some i =>
    if (d.lastIndexOf? i).isSome then .ok { d with result := id } else .error (.resultNotPlaced i)
  | none => .ok { d with result := none }

/-- Replaces the parameter at `pos` by a name of the same type. -/
def replaceName (d : Draft) (pos id : Nat) : Except Violation Draft :=
  if d.arity ≤ pos then .error (.notParameter pos)
  else do
    let old ← d.nameAt pos
    if !old.isParam then .error .paramExpected
    else if old.type != (← d.name id).type then .error (.retyped pos)
    else d.changeName pos id

/-- Replaces the parameter at `pos` by another parameter. -/
def renameParameter (d : Draft) (pos id : Nat) : Except Violation Draft := do
  if (← d.name id).isParam then d.replaceName pos id else .error .paramExpected

/-- Replaces the parameter at `pos` by an expression that computes its value. -/
def replaceByExpression (d : Draft) (pos id : Nat) : Except Violation Draft := do
  if (← d.name id).isParam then .error .exprExpected
  else if (d.lastIndexOf? id).isSome then .error .placedBefore
  else d.replaceName pos id

/-- Makes the parameter at `pos` another occurrence of the name at `source`. -/
def replaceByCopy (d : Draft) (pos source : Nat) : Except Violation Draft :=
  if pos = source then .error .copyOfItself
  else do
    let id ← d.idAt source
    let d ← d.replaceName pos id
    return { d with dups := d.dups ++ [id] }

/-- Makes room at `pos` and puts a name there. -/
def insertName (d : Draft) (pos id : Nat) (param : Bool) : Except Violation Draft :=
  if !d.editing then .error .editClosed
  else if param && d.arity < pos then .error (.parameterPastArity pos)
  else if !param && pos < d.arity then .error (.expressionAmongParameters pos)
  else if d.names.length < pos || d.initial.length < pos then .error .outOfBounds
  else
    { d with
      names := d.names.insertIdx pos none
      initial := d.initial.insertIdx pos none
      firstChange := if pos ≤ d.firstChange then d.firstChange + 1 else d.firstChange
      arity := if param then d.arity + 1 else d.arity : Draft }.changeName pos id

/-- Inserts a parameter at `pos`. -/
def insertParameter (d : Draft) (pos id : Nat) : Except Violation Draft := do
  if (← d.name id).isParam then d.insertName pos id true else .error .paramExpected

/-- Inserts an expression at `pos`. -/
def insertExpression (d : Draft) (pos id : Nat) : Except Violation Draft := do
  if (← d.name id).isParam then .error .exprExpected else d.insertName pos id false

/-- The position of a function in a list. -/
def functionIndex? (f : Function Form) (fs : List (Function Form)) : Option Nat :=
  fs.findIdx? fun g => g.same f

/-- The expression at `pos` with its function replaced, when its function is one of `old` and its
operands are exactly `args`. -/
def replaceFunctionAt (d : Draft) (old new : List (Function Form)) (args : List Arg) (pos : Nat) :
    Except Violation Draft :=
  match d.names[pos]? with
  | some (some id) => do
    let n ← d.name id
    match n.function? with
    | none => return d
    | some f =>
      if !sameArgs n.args args then return d
      else match functionIndex? f old with
        | none => return d
        | some k =>
          match new[k]? with
          | none => .error .outOfBounds
          | some g =>
            let (id, d) := d.alloc (Name.apply g args)
            d.changeName pos id
  | _ => .ok d

/-- Replaces `old[k]` by `new[k]` in every expression whose operands are exactly `args`. -/
def replaceFunctions (d : Draft) (old new : List (Function Form)) (args : List Arg) :
    Except Violation Draft :=
  if new.length < old.length then .error .tooFewFunctions
  else (List.range' d.arity (d.names.length - d.arity)).foldlM
    (fun d pos => d.replaceFunctionAt old new args pos) d

/-! ## Finishing an edit -/

/-- Replacements of arena numbers, the newest first. -/
abbrev Redirects := List (Nat × Nat)

/-- The name that takes the place of `id` in the end. No chain that ends is longer than the list, and
`fuel` counts the replacements. -/
def Redirects.follow (r : Redirects) : Nat → Nat → Nat
  | 0, id => id
  | fuel + 1, id =>
    match r.lookup id with
    | some next => Redirects.follow r fuel next
    | none => id

/-- The name that takes the place of `id` in the end. -/
def Redirects.resolve (r : Redirects) (id : Nat) : Nat := r.follow (r.length + 1) id

/-- Whether following replacements from `id` never ends. -/
def Redirects.circles (r : Redirects) (id : Nat) : Bool := (r.lookup (r.resolve id)).isSome

/-- Redirects the operands of the name at `pos`, and notes which names it replaces. When some operand
is replaced in a circle, there is no answer. -/
def repairAt (d : Draft) (redirects : Redirects) (pos : Nat) :
    Except Violation (Draft × Redirects) :=
  match d.names[pos]? with
  | some (some id) => do
    let n ← d.name id
    if d.arity ≤ pos ∧ n.operands.any redirects.circles then .error .endless
    else
      let (current, d, redirects) :=
        if d.arity ≤ pos ∧ !redirects.isEmpty ∧ n.movedBy redirects.resolve then
          let (fresh, d) := d.alloc (n.mapArgs redirects.resolve)
          (fresh,
            { d with
              names := d.names.set pos (some fresh)
              result := if d.result = some id then some fresh else d.result },
            (id, fresh) :: redirects)
        else (id, d, redirects)
      match d.initial[pos]? with
      | some (some old) =>
        return (d, if old = current then redirects else (old, current) :: redirects)
      | some none => return (d, redirects)
      | none => .error .outOfBounds
  | _ => .ok (d, redirects)

/-- Redirects every operand that still refers to a replaced name. -/
def repair (d : Draft) : Except Violation Draft := do
  let positions := List.range' d.firstChange (d.names.length - d.firstChange)
  let (d, _) ← positions.foldlM
    (fun (state : Draft × Redirects) pos => state.1.repairAt state.2 pos) (d, [])
  return d

/-- Makes a hole at the first place of `id` that is a replacement. -/
def clearDuplicate (d : Draft) (id : Nat) : Except Violation Draft :=
  let positions := List.range' d.firstChange (d.names.length - d.firstChange)
  match positions.find? fun pos =>
      d.names[pos]? == some (some id) && d.initial[pos]? != some (some id) with
  | none => .error (.duplicateNotFound id)
  | some pos =>
    .ok { d with
      names := d.names.set pos none
      initial := d.initial.set pos none
      arity := if pos < d.arity then d.arity - 1 else d.arity }

/-- Removes the second copies and every hole. -/
def clearDuplicates (d : Draft) : Except Violation Draft := do
  let d ← d.dups.foldlM clearDuplicate d
  let kept := (d.names.zip d.initial).filter fun p => p.1.isSome
  return { d with names := kept.map Prod.fst, initial := kept.map Prod.snd, dups := [] }

/-- Whether a place holds a parameter. -/
def holdsParam (d : Draft) (slot : Option Nat) : Bool :=
  match slot with
  | some id => (d.arena[id]?.map Name.isParam).getD false
  | none => false

/-- Moves the expressions that stand below the arity behind the parameters. -/
def partitionParameters (d : Draft) : Draft :=
  if d.arity ≤ d.firstChange then d
  else
    let region := (d.names.take d.arity).drop d.firstChange
    let exprs := region.filter fun s => !d.holdsParam s
    { d with
      arity := d.arity - exprs.length
      names := d.names.take d.firstChange ++ region.filter d.holdsParam ++ exprs ++
        d.names.drop d.arity }

/-- The names in their final order, with operands turned from arena numbers into positions.
`placed` holds the position of each name that stands before `pos`. -/
def publishNames (d : Draft) (placed : List (Nat × Nat)) (pos : Nat) :
    List (Option Nat) → Except Violation (List (Name Form) × List (Nat × Nat))
  | [] => .ok ([], placed)
  | none :: _ => .error (.hole pos)
  | some id :: rest => do
    let n ← d.name id
    match n.operands.find? fun a => (placed.lookup a).isNone with
    | some a => .error (.unplacedOperand pos a)
    | none =>
      let n := n.mapArgs fun a => (placed.lookup a).getD a
      let (ns, placed) ← d.publishNames ((id, pos) :: placed) (pos + 1) rest
      return (n :: ns, placed)

/-- The form that a draft without holes describes. -/
def publish (d : Draft) (id : Nat) : Except Violation Form := do
  let (names, placed) ← d.publishNames [] 0 d.names
  match d.result with
  | none => Form.assemble id d.arity names none .generic
  | some r =>
    match placed.lookup r with
    | none => .error (.resultNotPlaced r)
    | some pos => Form.assemble id d.arity names (some pos) .generic

/-- Closes the edit and answers the edited form under a new identity. -/
def finish (d : Draft) (id : Nat) : Except Violation Form :=
  if !d.editing then .error .editClosed
  else do
    let d ← d.repair
    let d ← { d with editing := false }.clearDuplicates
    let d := d.partitionParameters
    d.checkArity
    d.publish id

end Draft

end HandleForms
