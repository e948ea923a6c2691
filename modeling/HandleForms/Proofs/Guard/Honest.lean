import HandleForms.Proofs.Handle.Makes

/-!
# Honest hosts

What a class barrier can promise depends on the host: a class that is initialized has to stay so, and
has to be so once its initializer has succeeded. `Script.Honest` says so of host code, whatever it is
answered and however the state of the host changes while it waits for an answer, and that the code
makes up no handles: those that it passes on or keeps are inside values that it was given.
-/

namespace HandleForms

variable {σ ε α β : Type}

/-- The handles inside some values are inside the known ones. -/
def Value.DrawnFrom (known values : List Value) : Prop :=
  ∀ h : Handle, .handle h ∈ parts values → .handle h ∈ parts known

/-- Values that an operation binds. -/
def HandleOp.values : HandleOp → List Value
  | .insert _ _ values => values
  | _ => []

/-- The handles that an operation adapts or calls and the values that it binds. -/
def HandleOp.operands (op : HandleOp) : List Value := op.handles.map .handle ++ op.values

mutual

/-- The values inside the plan of a value. -/
def Blueprint.givens : Blueprint → List Value
  | .given v => [v]
  | .array _ items => Blueprint.givensOf items
  | .object _ => []

/-- The values inside some plans. -/
def Blueprint.givensOf : List Blueprint → List Value
  | [] => []
  | b :: bs => b.givens ++ Blueprint.givensOf bs

end

/-- What is initialized in the first state is initialized in the second one. -/
def Host.Later (host : Host σ) (s t : σ) : Prop :=
  ∀ cls, host.isInitialized s cls = true → host.isInitialized t cls = true

/-- Code that starts in a state and knows some values takes no class back, makes up no handles, and
ends as `post` says; `values` are the values that a state holds. -/
def Script.Honest (host : Host σ) (values : σ → List Value)
    (post : List Value → σ → Except ε α → Prop) : Script σ ε α → List Value → σ → Prop
  | .done result, known, s => post known s result
  | .panic _, _, _ => True
  | .getState next, known, s => Honest host values post (next s) (values s ++ known) s
  | .setState t next, known, s =>
    host.Later s t ∧ Value.DrawnFrom known (values t) ∧ Honest host values post next known t
  | .create plan next, known, s =>
    Value.DrawnFrom known plan.givens ∧
      ∀ v, Value.DrawnFrom plan.givens [v] → Honest host values post (next v) known s
  | .getField _ _ next, known, s => ∀ v, Honest host values post (next v) (v :: known) s
  | .setField _ _ value next, known, s =>
    Value.DrawnFrom known [value] ∧ Honest host values post next known s
  | .make op next, known, s =>
    Value.DrawnFrom known op.operands ∧
      (∀ e, Honest host values post (next (.error e)) known s) ∧
      ∀ h, Honest host values post (next (.ok h)) (.handle h :: known) s
  | .formKind target next, known, s =>
    Value.DrawnFrom known [.handle target] ∧ ∀ kind, Honest host values post (next kind) known s
  | .invoke target _ args next, known, s =>
    Value.DrawnFrom known (.handle target :: args) ∧ ∀ t, host.Later s t →
      (∀ e, Honest host values post (next (.error e)) known t) ∧
      ∀ v, Honest host values post (next (.ok v)) (v :: known) t
  | .ensure _ next, known, s =>
    ∀ t, host.Later s t → ∀ r, Honest host values post (next r) known t
  | .hold _ next, known, s => Honest host values post next known s
  | .release next, known, s => Honest host values post next known s

/-- The code answers what it was given. -/
def Value.Answered (known : List Value) (_ : σ) (r : Except ε Value) : Prop :=
  ∀ v, r = .ok v → DrawnFrom known [v]

/-- A host whose code is honest, and whose classes are initialized once their initializer has
succeeded. -/
structure Host.Honest (host : Host σ) (values : σ → List Value) : Prop where
  primitive : ∀ name args s, (host.primitive name args).Honest host values Value.Answered args s
  member : ∀ kind m args s, (host.member kind m args).Honest host values Value.Answered args s
  allocate : ∀ cls s, (host.allocate cls).Honest host values Value.Answered [] s
  initializer : ∀ cls s, (host.initializer cls).Honest host values
    (fun _ t r => r = .ok () → host.isInitialized t cls = true) [] s

end HandleForms
