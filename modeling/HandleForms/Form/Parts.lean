import HandleForms.Violation

/-!
# Building forms from their parts

Linkage forms are written down as a list of parameters and a list of expressions over them.
-/

namespace HandleForms

namespace Form

/-- The form with these parameters followed by these expressions. -/
def ofParts (id : Nat) (params exprs : List (Name Form)) (result : Option Nat) (kind : FormKind) :
    Except Violation Form :=
  assemble id params.length (params ++ exprs) result kind

/-- The operands that are the names from `start` up to `stop`. -/
def argRange (start stop : Nat) : List Arg := (List.range' start (stop - start)).map Arg.name

/-- Parameters of these basic types. -/
def paramNames (types : List BasicType) : List (Name Form) := types.map Name.param

end Form

/-- The function that reads field `index` of a carrier of this species. -/
def Species.getter (s : Species) (index : Nat) : Except Violation (Function Form) :=
  if index < s.fields.length then .ok (Function.getter s index)
  else .error (.noField s.key index)

/-- The basic type of field `index`. -/
def Species.field (s : Species) (index : Nat) : Except Violation BasicType :=
  match s.fields[index]? with
  | some t => .ok t
  | none => .error .outOfBounds

/-- The species with one more field, which cannot be `void`. -/
def SpeciesTable.extended (t : SpeciesTable) (base : Species) (field : BasicType) :
    Except Violation (Species × SpeciesTable) :=
  if field.isArg then .ok (t.extend base field) else .error (.extendedByVoid base.key)

end HandleForms
