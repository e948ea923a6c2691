import HandleForms.BasicType

/-!
# Species: the field layouts of carriers

A handle that binds values is a carrier, and its species is the list of the basic types of those
values. Species are interned: `SpeciesTable` hands out one species object per layout, whether a
layout is asked for by its fields or as an extension of another species by one more field. Two
species are equal when their layouts are; the identity only tells objects apart.
-/

namespace HandleForms

/-- A field layout and the identity of the object that stands for it. -/
structure Species where
  id : Nat
  fields : List BasicType
  deriving Repr

namespace Species

/-- Species are compared by their layout. -/
instance : BEq Species := ⟨fun s t => s.fields == t.fields⟩

@[simp] theorem beq_iff (s t : Species) : (s == t) = true ↔ s.fields = t.fields := by
  show (s.fields == t.fields) = true ↔ _
  simp

/-- The field letters, such as `LI`. -/
def key (s : Species) : String := BasicType.letters s.fields

/-- Whether there are no fields. -/
def isTop (s : Species) : Bool := s.fields.isEmpty

/-- A species as diagnostics show it. -/
def text (s : Species) : String := "Species[" ++ s.key ++ "]"

theorem key_inj {s t : Species} (h : s.key = t.key) : s.fields = t.fields := by
  simp only [key, BasicType.letters] at h
  have h := congrArg String.toList h
  simp only [String.toList_ofList] at h
  generalize s.fields = a at h
  generalize t.fields = b at h
  induction a generalizing b with
  | nil => cases b with
    | nil => rfl
    | cons _ _ => simp at h
  | cons x xs ih => cases b with
    | nil => simp at h
    | cons y ys =>
      simp only [List.map_cons, List.cons.injEq] at h
      rw [BasicType.letter_inj h.1, ih ys h.2]

end Species

/-- The species handed out so far, and for each the extensions asked of it. -/
structure SpeciesTable where
  /-- The interned species, the one without fields first. -/
  interned : List Species
  /-- The extension of a species by a field type, once it was asked for. -/
  extensions : List ((List BasicType × BasicType) × Species)
  deriving Repr

namespace SpeciesTable

/-- The species without fields. -/
def top : Species := ⟨0, []⟩

/-- A table that knows only the species without fields. -/
def empty : SpeciesTable := ⟨[top], []⟩

instance : Inhabited SpeciesTable := ⟨empty⟩

/-- The number of interned species. -/
def size (t : SpeciesTable) : Nat := t.interned.length

/-- The interned species with these fields, if there is one. -/
def find? (t : SpeciesTable) (fields : List BasicType) : Option Species :=
  t.interned.find? fun s => s.fields == fields

/-- The species with these fields, interned now if it was not before. -/
def intern (t : SpeciesTable) (fields : List BasicType) : Species × SpeciesTable :=
  match t.find? fields with
  | some s => (s, t)
  | none =>
    let s := ⟨t.size, fields⟩
    (s, { t with interned := t.interned ++ [s] })

/-- The species `base` with one more field at the end. -/
def extend (t : SpeciesTable) (base : Species) (field : BasicType) : Species × SpeciesTable :=
  match t.extensions.lookup (base.fields, field) with
  | some s => (s, t)
  | none =>
    let (s, t) := t.intern (base.fields ++ [field])
    (s, { t with extensions := ((base.fields, field), s) :: t.extensions })

end SpeciesTable

end HandleForms
