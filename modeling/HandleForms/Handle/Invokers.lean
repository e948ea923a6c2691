import HandleForms.Value

/-!
# The table of invokers

The invokers of a type are one object, which keeps the exact and the generic invoker handle of the
type once they are made. The table holds these objects weakly: an entry whose object nobody keeps
alive any more is dead, and is replaced when its type is asked for again. Dead entries are swept out
whenever a new object leaves the table with a power of two of entries, so a sweep is paid for by the
requests before it.
-/

namespace HandleForms

/-- The invokers of one type. -/
structure Invokers where
  id : Nat
  type : Signature
  deriving DecidableEq

/-- The invokers made so far. -/
structure InvokerTable where
  /-- At most one entry per type, alive or dead. -/
  entries : List Invokers
  /-- The invoker handles, by their object and whether they are generic. -/
  handles : List ((Invokers × Bool) × Handle)

/-- Whether a number is a power of two. -/
def isPowerOfTwo (n : Nat) : Bool := n != 0 && 1 <<< n.log2 == n

namespace InvokerTable

/-- A table without entries. -/
def empty : InvokerTable := ⟨[], []⟩

/-- The number of entries, alive or dead. -/
def size (t : InvokerTable) : Nat := t.entries.length

/-- The entry of a type, alive or dead. -/
def find? (t : InvokerTable) (type : Signature) : Option Invokers :=
  t.entries.find? fun i => i.type == type

/-- Puts an object in the place of the entry of its type. -/
def put (t : InvokerTable) (i : Invokers) : InvokerTable :=
  { t with entries := i :: t.entries.filter fun e => e.type != i.type }

/-- Removes the dead entries. -/
def sweep (t : InvokerTable) (live : Invokers → Bool) : InvokerTable :=
  { t with entries := t.entries.filter live }

/-- The live invokers of a type. They are made, under the identity `id`, when there are none. -/
def request (t : InvokerTable) (live : Invokers → Bool) (type : Signature) (id : Nat) :
    Invokers × InvokerTable :=
  match (t.find? type).filter live with
  | some i => (i, t)
  | none =>
    let i : Invokers := ⟨id, type⟩
    let t := t.put i
    (i, if isPowerOfTwo t.size then t.sweep fun e => e == i || live e else t)

/-- The invoker handle that an object keeps. -/
def handle? (t : InvokerTable) (i : Invokers) (generic : Bool) : Option Handle :=
  t.handles.lookup (i, generic)

/-- Lets an object keep an invoker handle. -/
def setHandle (t : InvokerTable) (i : Invokers) (generic : Bool) (h : Handle) : InvokerTable :=
  { t with handles := ((i, generic), h) :: t.handles }

/-- The handles that an object keeps. -/
def handlesOf (t : InvokerTable) (i : Invokers) : List Handle :=
  (t.handles.filter fun e => e.1.1 == i).map Prod.snd

end InvokerTable

end HandleForms
