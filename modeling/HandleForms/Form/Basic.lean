import HandleForms.Form.Name

/-!
# Forms

A form is a straight-line program over typed names: names `0` up to the arity are parameters, every
later name applies a function to constants and earlier names, and the result, if there is one, is
one of the names. Forms never change. The identity tells two forms with the same names apart; caches
of derived forms are kept per identity.
-/

namespace HandleForms

/-- A straight-line program over typed names. -/
structure Form where
  id : Nat
  arity : Nat
  names : List (Name Form)
  /-- The name that holds the result; without one the form returns nothing. -/
  result : Option Nat
  kind : FormKind

namespace Form

instance : Inhabited Form := ⟨⟨0, 0, [], none, .generic⟩⟩

/-- Forms are compared by their identity. -/
instance : BEq Form := ⟨fun f g => f.id == g.id⟩

/-- The basic types of the parameters. -/
def params (f : Form) : List BasicType := (f.names.take f.arity).map Name.type

/-- The basic type of the result. -/
def ret (f : Form) : BasicType :=
  match f.result with
  | none => .void
  | some r => (f.names[r]?.map Name.type).getD .void

instance : FormLike Form := ⟨Form.id, Form.params, Form.ret, Form.kind⟩

/-- The number of names. -/
def size (f : Form) : Nat := f.names.length

/-- The number of expressions. -/
def exprCount (f : Form) : Nat := f.size - f.arity

/-- The basic type of parameter `index`. -/
def param? (f : Form) (index : Nat) : Option BasicType := f.params[index]?

/-- The species of name `index`, when it is a carrier. -/
def species? (f : Form) (index : Nat) : Option Species := f.names[index]?.bind Name.species

/-- The slots of the parameters. -/
def slots (f : Form) : Nat := BasicType.slotSum f.params

/-- The label of name `index`: `a0` for a parameter, `t5` for an expression. -/
def label (f : Form) (index : Nat) : String :=
  (if index < f.arity then "a" else "t") ++ Text.decimal index

/-- The forms called in place by the expressions of a form. -/
def callees (f : Form) : List Form :=
  f.names.filterMap fun n =>
    match n.function? with
    | some (.form callee) => some callee
    | _ => none

/-- The same program: names, arity, result and kind, whatever the identities. -/
structure SameProgram (f g : Form) : Prop where
  arity : f.arity = g.arity
  names : f.names = g.names
  result : f.result = g.result
  kind : f.kind = g.kind

end Form

/-! ## Equality

Two forms are equal when they have the same identity and are the same program down to the forms they
call in place. -/

deriving instance DecidableEq for Species

deriving instance DecidableEq for Intrinsic

mutual

/-- Whether two forms are equal. -/
def Form.decEq : (f g : Form) → Decidable (f = g)
  | ⟨i, a, ns, r, k⟩, ⟨j, b, ms, s, l⟩ =>
    have := Form.decEqNames ns ms
    decidable_of_iff (i = j ∧ a = b ∧ ns = ms ∧ r = s ∧ k = l) (by simp)

/-- `Form.decEq` for lists of names. -/
def Form.decEqNames : (ns ms : List (Name Form)) → Decidable (ns = ms)
  | [], [] => .isTrue rfl
  | [], _ :: _ => .isFalse nofun
  | _ :: _, [] => .isFalse nofun
  | n :: ns, m :: ms =>
    have := Form.decEqName n m
    have := Form.decEqNames ns ms
    decidable_of_iff (n = m ∧ ns = ms) (by simp)

/-- `Form.decEq` for names. -/
def Form.decEqName : (n m : Name Form) → Decidable (n = m)
  | ⟨t, s, none⟩, ⟨u, r, none⟩ => decidable_of_iff (t = u ∧ s = r) (by simp)
  | ⟨_, _, none⟩, ⟨_, _, some _⟩ => .isFalse (by simp)
  | ⟨_, _, some _⟩, ⟨_, _, none⟩ => .isFalse (by simp)
  | ⟨t, s, some d⟩, ⟨u, r, some e⟩ =>
    have := Form.decEqExpr d e
    decidable_of_iff (t = u ∧ s = r ∧ d = e) (by simp)

/-- `Form.decEq` for expressions. -/
def Form.decEqExpr : (d e : Expr Form) → Decidable (d = e)
  | ⟨f, as⟩, ⟨g, bs⟩ =>
    have := Form.decEqFunction f g
    decidable_of_iff (f = g ∧ as = bs) (by simp)

/-- `Form.decEq` for callees. -/
def Form.decEqFunction : (f g : Function Form) → Decidable (f = g)
  | .intrinsic a, .intrinsic b => decidable_of_iff (a = b) (by simp)
  | .external n a, .external m b => decidable_of_iff (n = m ∧ a = b) (by simp)
  | .form f, .form g =>
    have := Form.decEq f g
    decidable_of_iff (f = g) (by simp)
  | .intrinsic _, .external _ _ => .isFalse nofun
  | .intrinsic _, .form _ => .isFalse nofun
  | .external _ _, .intrinsic _ => .isFalse nofun
  | .external _ _, .form _ => .isFalse nofun
  | .form _, .intrinsic _ => .isFalse nofun
  | .form _, .external _ _ => .isFalse nofun

end

instance : DecidableEq Form := Form.decEq

/-! ## Nested forms -/

mutual

/-- Whether the form `id` is this form or is called in place, at any depth. -/
def Form.reaches (id : Nat) : Form → Bool
  | ⟨own, _, names, _, _⟩ => own == id || Form.reachesNames id names

/-- `Form.reaches` for some of the names. -/
def Form.reachesNames (id : Nat) : List (Name Form) → Bool
  | [] => false
  | n :: ns => Form.reachesName id n || Form.reachesNames id ns

/-- `Form.reaches` for the callee of one name. -/
def Form.reachesName (id : Nat) : Name Form → Bool
  | ⟨_, _, none⟩ => false
  | ⟨_, _, some e⟩ => Form.reachesExpr id e

/-- `Form.reaches` for the callee of one expression. -/
def Form.reachesExpr (id : Nat) : Expr Form → Bool
  | ⟨function, _⟩ => Form.reachesFunction id function

/-- `Form.reaches` for one callee. -/
def Form.reachesFunction (id : Nat) : Function Form → Bool
  | .intrinsic _ => false
  | .external _ _ => false
  | .form callee => callee.reaches id

end

end HandleForms
