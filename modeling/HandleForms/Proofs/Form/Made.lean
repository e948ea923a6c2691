import HandleForms.Proofs.Form.WellFormed
import HandleForms.Proofs.Form.Operands

/-!
# Names as they are made

A name is made as a parameter, a carrier or an expression, and the type of an expression is that of
its function. Well-formedness says nothing about the latter, so what is derived from a form of made
names can rely on more than on a well-formed form alone.
-/

namespace HandleForms

namespace Name

/-- A parameter, a carrier or an expression, with the type that it has as such. -/
inductive Made : Name Form → Prop where
  | param (type : BasicType) : Made (.param type)
  | carrier (species : Species) : Made (.carrier species)
  | apply (function : Function Form) (args : List Arg) : Made (.apply function args)

variable {n : Name Form}

theorem Made.type_eq (h : n.Made) {e : Expr Form} (he : n.expr = some e) :
    n.type = e.function.ret := by
  cases h with
  | param type => cases he
  | carrier species => cases he
  | apply function args =>
    obtain rfl : ⟨function, args⟩ = e := Option.some.inj he
    rfl

theorem Made.species_isSome (h : n.Made) (hs : n.species.isSome) :
    n.isParam = true ∧ n.type = .ref := by
  cases h with
  | param type => cases hs
  | carrier species => exact ⟨rfl, rfl⟩
  | apply function args => cases hs

theorem Made.mapArgs (h : n.Made) (f : Nat → Nat) : (n.mapArgs f).Made := by
  cases h with
  | param type => exact .param type
  | carrier species => exact .carrier species
  | apply function args => exact .apply function (args.map (Arg.map f))

end Name

/-- All names are as they are made. -/
def Form.Made (f : Form) : Prop := ∀ n ∈ f.names, n.Made

theorem Form.Made.getElem? {f : Form} (h : f.Made) {i : Nat} {n : Name Form}
    (hn : f.names[i]? = some n) : n.Made :=
  h n (List.mem_of_getElem? hn)

end HandleForms
