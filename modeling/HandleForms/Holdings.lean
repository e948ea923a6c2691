import HandleForms.Retainer

/-!
# Holdings

What a client holds, by name. Caches refer to their values weakly, so whether they still find a
value depends on who holds it. A value that the client let go of keeps its name here: something else
may keep it alive, and it can come back from a cache.
-/

namespace HandleForms

/-- A value with the name that the client gave it. -/
structure Holding (ν α : Type) where
  name : ν
  value : α
  /-- Whether the client still holds the value. -/
  held : Bool

/-- What a client held so far, the latest first. -/
structure Holdings (ν α : Type) where
  entries : List (Holding ν α) := []

namespace Holdings

variable {ν α : Type}

/-- The values that are held. -/
def values (h : Holdings ν α) : List α := (h.entries.filter Holding.held).map Holding.value

/-- Whether a value is held. -/
def holds [Identified α] (h : Holdings ν α) (a : α) : Bool :=
  h.values.any fun b => identity b == identity a

/-- The name of a value, held or not. -/
def nameOf? [Identified α] (h : Holdings ν α) (a : α) : Option ν :=
  (h.entries.find? fun e => identity e.value == identity a).map Holding.name

/-- Holds a value under a name. -/
def hold (h : Holdings ν α) (name : ν) (a : α) : Holdings ν α := ⟨⟨name, a, true⟩ :: h.entries⟩

variable [BEq ν]

/-- The value that is held under a name. -/
def find? (h : Holdings ν α) (name : ν) : Option α :=
  (h.entries.find? fun e => e.held && e.name == name).map Holding.value

/-- Lets go of the value that is held under a name. -/
def drop (h : Holdings ν α) (name : ν) : Holdings ν α :=
  ⟨h.entries.map fun e => { e with held := e.held && !(e.name == name) }⟩

/-- The value that is held under a name. When there is none, one is made under a new number and held
from then on. -/
def obtain (h : Holdings ν α) (name : ν) (make : Nat → α) : α × Holdings ν α :=
  match h.find? name with
  | some a => (a, h)
  | none => (make h.entries.length, h.hold name (make h.entries.length))

end Holdings

end HandleForms
