import HandleForms.Form.Basic
import HandleForms.Retainer
import HandleForms.TypeForm.SlotTable

/-!
# Type forms: what signatures of one erasure share

Every signature maps to the type form of its erasure, and `TypeForms.find` makes it when it is first
asked for. A type form holds the counts and the slot table; parameter lists without a double-width
type share one table per length. It also has slots for the linkage forms and the handles of each
purpose, but those of a signature with narrow primitives are kept with the type form of its basic
type. A slot holds its value weakly, and the first live value in it wins.
-/

namespace HandleForms

/-- What a cached linkage form is for. -/
inductive FormPurpose where
  | invokeVirtual
  | invokeStatic
  | invokeSpecial
  | newInvokeSpecial
  | invokeInterface
  | invokeStaticInit
  | newInvokeSpecialInit
  | exactLinker
  | exactInvoker
  | genericLinker
  | genericInvoker
  | basicInvoker
  | boundReinvoker
  | empty
  deriving DecidableEq, Repr, Inhabited

namespace FormPurpose

/-- All purposes. -/
def all : List FormPurpose :=
  [invokeVirtual, invokeStatic, invokeSpecial, newInvokeSpecial, invokeInterface, invokeStaticInit,
    newInvokeSpecialInit, exactLinker, exactInvoker, genericLinker, genericInvoker, basicInvoker,
    boundReinvoker, empty]

/-- The name of a purpose. -/
def name : FormPurpose → String
  | invokeVirtual => "InvokeVirtual"
  | invokeStatic => "InvokeStatic"
  | invokeSpecial => "InvokeSpecial"
  | newInvokeSpecial => "NewInvokeSpecial"
  | invokeInterface => "InvokeInterface"
  | invokeStaticInit => "InvokeStaticInit"
  | newInvokeSpecialInit => "NewInvokeSpecialInit"
  | exactLinker => "ExactLinker"
  | exactInvoker => "ExactInvoker"
  | genericLinker => "GenericLinker"
  | genericInvoker => "GenericInvoker"
  | basicInvoker => "BasicInvoker"
  | boundReinvoker => "BoundReinvoker"
  | empty => "Empty"

/-- The purpose with this name. -/
def ofName? (s : String) : Option FormPurpose := all.find? fun p => p.name == s

end FormPurpose

/-- What a cached handle is for. -/
inductive HandlePurpose where
  | basicInvoker
  | empty
  deriving DecidableEq, Repr, Inhabited

namespace HandlePurpose

/-- All purposes. -/
def all : List HandlePurpose := [basicInvoker, empty]

/-- The name of a purpose. -/
def name : HandlePurpose → String
  | basicInvoker => "BasicInvoker"
  | empty => "Empty"

/-- The purpose with this name. -/
def ofName? (s : String) : Option HandlePurpose := all.find? fun p => p.name == s

end HandlePurpose

/-- What signatures of one erasure share. -/
structure TypeForm where
  id : Nat
  erased : Signature
  counts : ArgCounts
  slots : SlotTable
  /-- The identity of the slot table, which several type forms may share. -/
  tableId : Nat
  /-- The type form of the basic type, when that is another one. -/
  basicId? : Option Nat

namespace TypeForm

/-- Whether the erasure is basic. -/
def isBasic (t : TypeForm) : Bool := t.basicId?.isNone

/-- The type form that keeps the slots of this one. -/
def slotOwner (t : TypeForm) : Nat := t.basicId?.getD t.id

/-- The basic type of the signatures. -/
def basic (t : TypeForm) : Signature := t.erased.basic

/-- Whether the slot table is not shared. -/
def hasPrivateTable (t : TypeForm) : Bool := 0 < t.counts.longParameters

end TypeForm

/-- The type forms made so far and what is in their slots. -/
structure TypeForms (η : Type) where
  interned : List TypeForm
  /-- The shared slot tables by parameter count, with their identities. -/
  sharedTables : List (Nat × (Nat × SlotTable))
  nextTable : Nat
  forms : List ((Nat × FormPurpose) × Form)
  handles : List ((Nat × HandlePurpose) × η)

namespace TypeForms

variable {η : Type}

/-- No type forms. -/
def empty : TypeForms η := ⟨[], [], 0, [], []⟩

/-- The number of type forms. -/
def size (r : TypeForms η) : Nat := r.interned.length

/-- The type form with this identity. -/
def get? (r : TypeForms η) (id : Nat) : Option TypeForm := r.interned[id]?

/-- The type form of an erased signature, if it was made before. -/
def lookup? (r : TypeForms η) (erased : Signature) : Option TypeForm :=
  r.interned.find? fun t => t.erased == erased

/-- The slot table for an erased signature, with its identity. -/
def tableFor (r : TypeForms η) (erased : Signature) : (Nat × SlotTable) × TypeForms η :=
  let counts := ArgCounts.of erased
  if 0 < counts.longParameters then
    ((r.nextTable, SlotTable.of erased.params), { r with nextTable := r.nextTable + 1 })
  else match r.sharedTables.lookup counts.parameters with
    | some shared => (shared, r)
    | none =>
      let shared := (r.nextTable, SlotTable.singleSlot counts.parameters)
      (shared, { r with
        sharedTables := (counts.parameters, shared) :: r.sharedTables
        nextTable := r.nextTable + 1 })

/-- Adds the type form of an erased signature that has none. -/
def add (r : TypeForms η) (erased : Signature) (basicId? : Option Nat) : TypeForm × TypeForms η :=
  let ((tableId, slots), r) := r.tableFor erased
  let t : TypeForm := ⟨r.size, erased, ArgCounts.of erased, slots, tableId, basicId?⟩
  (t, { r with interned := r.interned ++ [t] })

/-- The type form of a basic signature. -/
def findBasic (r : TypeForms η) (basic : Signature) : TypeForm × TypeForms η :=
  match r.lookup? basic with
  | some t => (t, r)
  | none => r.add basic none

/-- The type form of the erasure of a signature. -/
def find (r : TypeForms η) (s : Signature) : TypeForm × TypeForms η :=
  match r.lookup? s.erase with
  | some t => (t, r)
  | none =>
    if s.erase.isBasic then r.add s.erase none
    else
      let (b, r) := r.findBasic s.basic
      r.add s.erase (some b.id)

/-- Puts a value under a key of an association list. -/
def assign {κ ν : Type} [BEq κ] (key : κ) (value : ν) (es : List (κ × ν)) : List (κ × ν) :=
  (key, value) :: es.filter fun e => !(e.1 == key)

/-- The form in a slot, alive or not. -/
def form? (r : TypeForms η) (t : TypeForm) (p : FormPurpose) : Option Form :=
  r.forms.lookup (t.slotOwner, p)

/-- Overwrites the form in a slot. -/
def setForm (r : TypeForms η) (t : TypeForm) (p : FormPurpose) (f : Form) : TypeForms η :=
  { r with forms := assign (t.slotOwner, p) f r.forms }

/-- The handle in a slot, alive or not. -/
def handle? (r : TypeForms η) (t : TypeForm) (p : HandlePurpose) : Option η :=
  r.handles.lookup (t.slotOwner, p)

/-- Overwrites the handle in a slot. -/
def setHandle (r : TypeForms η) (t : TypeForm) (p : HandlePurpose) (h : η) : TypeForms η :=
  { r with handles := assign (t.slotOwner, p) h r.handles }

end TypeForms

end HandleForms
