import HandleForms.Value

/-!
# Reorders

A reorder lists, for each parameter of a target, the argument of a new type that is passed to it.
Here it is brought to a permutation in two passes: parameters that get an argument which an earlier
one gets too are merged into that one, and a parameter that nothing reads is added for every
argument that no parameter gets.
-/

namespace HandleForms

namespace Reorder

/-- Why a reorder does not lead from the parameters of `old` to the arguments of `new`. -/
def defect? (old new : Signature) (reorder : List Nat) : Option String :=
  if reorder.length ≠ old.arity then
    some (Text.decimal reorder.length ++ " entries for " ++ Text.decimal old.arity ++
      " target parameters")
  else if old.ret ≠ new.ret then
    some ("return types of " ++ old.text ++ " and " ++ new.text ++ " differ")
  else (reorder.zipIdx).findSome? fun (r, i) =>
    if new.arity ≤ r then some ("index " ++ Text.decimal r ++ " out of range for " ++ new.text)
    else if new.params[r]? ≠ old.params[i]? then
      some ("parameter " ++ Text.decimal r ++ " of " ++ new.text ++ " cannot feed parameter " ++
        Text.decimal i ++ " of " ++ old.text)
    else none

/-- Merges every entry that stands in `kept` or earlier in the list already. Answers the positions
of the merges, `(src, dst)` in the list as it is at that point, and the entries that are left. -/
def merges (kept : List Nat) : List Nat → List (Nat × Nat) × List Nat
  | [] => ([], kept)
  | r :: rest =>
    match kept.idxOf? r with
    | some src =>
      let (steps, left) := merges kept rest
      ((src, kept.length) :: steps, left)
    | none => merges (kept ++ [r]) rest

/-- Where an argument that no parameter gets is inserted: in front of the first greater entry. -/
def insertPos (reorder : List Nat) (value : Nat) : Nat := reorder.findIdx fun r => value < r

/-- Inserts the arguments among `values` that are missing. Answers the insertions, `(pos, value)`,
and the list with them. -/
def additions (reorder : List Nat) : List Nat → List (Nat × Nat) × List Nat
  | [] => ([], reorder)
  | value :: values =>
    if reorder.contains value then additions reorder values
    else
      let pos := insertPos reorder value
      let (steps, full) := additions (reorder.insertIdx pos value) values
      ((pos, value) :: steps, full)

end Reorder

end HandleForms
