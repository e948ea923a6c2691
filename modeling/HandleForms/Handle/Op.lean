import HandleForms.Value

/-!
# Ways to make handles

A `HandleOp` says how a handle is made: from nothing but a type or a member, or by adapting another
handle. Positions count the arguments of the handle's type, so the handle itself is not counted.
-/

namespace HandleForms

/-- How a handle is made. -/
inductive HandleOp where
  /-- Calls a host primitive. -/
  | external (name : String) (type : Signature)
  /-- Ignores its arguments and answers the zero of its result type. -/
  | empty (type : Signature)
  /-- Dispatches to a member. -/
  | direct (member : Member)
  /-- Calls its first argument, whose type has to be exactly `type`. -/
  | exactInvoker (type : Signature)
  /-- Calls its first argument viewed at `type`. -/
  | genericInvoker (type : Signature)
  /-- Calls its first argument without a check. -/
  | basicInvoker (type : Signature)
  /-- The same handle at another type with the same basic type. -/
  | asType (target : Handle) (type : Signature)
  /-- Binds values to the parameters from `pos` on. -/
  | insert (target : Handle) (pos : Nat) (values : List Value)
  /-- Accepts and ignores parameters of these types at `pos`. -/
  | drop (target : Handle) (pos : Nat) (types : List Ty)
  /-- Passes parameter `src` in the place of parameter `dst` too. -/
  | dup (target : Handle) (src dst : Nat)
  /-- Takes the `count` parameters from `pos` on out of one array. -/
  | spread (target : Handle) (pos : Nat) (array : Ty) (count : Nat)
  /-- Passes parameter `pos` through a handle of one argument. -/
  | filter (target : Handle) (pos : Nat) (filter : Handle)
  /-- Passes the arguments of a collector to it, and its result as parameter `pos`. -/
  | collect (target : Handle) (pos : Nat) (collector : Handle)
  /-- Passes the result through a handle. -/
  | filterReturn (target : Handle) (filter : Handle)
  /-- Answers the zero of a type instead of the result. -/
  | zeroReturn (target : Handle) (type : Ty)
  /-- Runs a combiner over the parameters from `pos` on and passes its result as parameter `pos`. -/
  | fold (target : Handle) (pos : Nat) (combiner : Handle)
  /-- Passes argument `reorder[i]` of the new type as parameter `i`. -/
  | permute (target : Handle) (type : Signature) (reorder : List Nat)

end HandleForms
