/-!
# Bounded retention with a second chance

Caches hold their values weakly; a retainer keeps a bounded number of recently used ones alive. It
is a clock: values sit in slots, a hand goes round, and a value that was used again since the hand
last passed it is passed over once before it is evicted. An index finds the slot of a value by its
identity.
-/

namespace HandleForms

/-- Types whose values are objects with an identity. -/
class Identified (α : Type) where
  identity : α → Nat

export Identified (identity)

/-- One slot of a retainer. -/
structure Retainer.Slot (α : Type) where
  value : α
  /-- Whether the value was retained again since it was put here or since the hand passed. -/
  used : Bool

/-- A bounded set of values that are kept alive. -/
structure Retainer (α : Type) where
  capacity : Nat
  slots : List (Retainer.Slot α)
  /-- The slot of each held value, by identity. -/
  index : List (Nat × Nat)
  hand : Nat

namespace Retainer

variable {α : Type}

/-- A retainer that holds nothing. -/
def empty (capacity : Nat) : Retainer α := ⟨capacity, [], [], 0⟩

/-- The held values. -/
def values (r : Retainer α) : List α := r.slots.map Slot.value

/-- The number of held values. -/
def size (r : Retainer α) : Nat := r.slots.length

/-- Drops every held value. -/
def clear (r : Retainer α) : Retainer α := empty r.capacity

/-- Clearing a mark leaves fewer marks. -/
theorem countP_used_clear_lt {slots : List (Slot α)} {hand : Nat} {s : Slot α}
    (hs : slots[hand]? = some s) (hused : s.used = true) :
    (slots.set hand { s with used := false }).countP Slot.used < slots.countP Slot.used := by
  obtain ⟨hlt, rfl⟩ := List.getElem?_eq_some_iff.1 hs
  have hpos := List.countP_pos_iff.2 ⟨slots[hand], List.getElem_mem hlt, hused⟩
  rw [List.countP_set hlt, hused]
  simpa using Nat.sub_lt hpos Nat.one_pos

/-- Moves the hand from slot to slot until it stands at one that was not used again, and clears the
marks on its way. Answers the slot that is to be evicted and the marks as they are then. -/
def sweep (slots : List (Slot α)) (hand : Nat) : Nat × List (Slot α) :=
  match hs : slots[hand]? with
  | some s =>
    if hused : s.used = true then
      sweep (slots.set hand { s with used := false }) ((hand + 1) % slots.length)
    else (hand, slots)
  | none => (hand, slots)
termination_by slots.countP Slot.used
decreasing_by exact countP_used_clear_lt hs hused

variable [Identified α]

/-- Keeps a value alive, or marks it as used again when it is held already. -/
def retain (r : Retainer α) (value : α) : Retainer α :=
  if r.capacity = 0 then r
  else match r.index.lookup (identity value) with
    | some slot => { r with slots := r.slots.modify slot fun s => { s with used := true } }
    | none =>
      if r.slots.length < r.capacity then
        { r with
          slots := r.slots ++ [⟨value, false⟩]
          index := (identity value, r.slots.length) :: r.index }
      else
        let (victim, slots) := sweep r.slots r.hand
        let evicted := slots[victim]?.map fun s => identity s.value
        { r with
          slots := slots.set victim ⟨value, false⟩
          index := (identity value, victim) :: r.index.filter fun e => some e.1 != evicted
          hand := (victim + 1) % slots.length }

/-- Whether a value with this identity is held. -/
def holds (r : Retainer α) (id : Nat) : Bool := r.slots.any fun s => identity s.value == id

end Retainer

end HandleForms
