import HandleForms.Retainer
import HandleForms.Proofs.Association
import Mathlib.Data.List.Rotate

/-!
# The ring of a retainer

A retainer is read from its hand on, as a ring (`Retainer.clock`). The hand takes the marks off the
slots it passes and stops at the first one without, or where it started when it went all the way
round (`Retainer.sweep_fst`, `Retainer.rotate_sweep`). The index and the slots stay inverse to each
other whatever is kept or dropped (`Retainer.Consistent`), so `Retainer.retain_cases` says
everything that keeping a value can do.
-/

namespace HandleForms

namespace Retainer

variable {α : Type}

/-- Marks a slot as used again. -/
def Slot.mark (s : Slot α) : Slot α := { s with used := true }

/-- Takes the mark off a slot. -/
def Slot.unmark (s : Slot α) : Slot α := { s with used := false }

/-- The held values as the hand meets them. -/
def clock (r : Retainer α) : List α := r.values.rotate r.hand

/-! ## One round of the hand -/

section Sweep

variable {slots : List (Slot α)} {hand : Nat} {s : Slot α}

/-- The ring from a slot on. -/
theorem rotate_of_getElem? (hs : slots[hand]? = some s) :
    slots.rotate hand = s :: (slots.drop (hand + 1) ++ slots.take hand) := by
  obtain ⟨hlt, rfl⟩ := List.getElem?_eq_some_iff.1 hs
  rw [List.rotate_eq_drop_append_take hlt.le, List.drop_eq_getElem_cons hlt, List.cons_append]

/-- What comes at a place of a ring stands at that distance from where it starts. -/
theorem getElem?_of_rotate {β : Type} {l before after : List β} {v : β} {n : Nat}
    (h : l.rotate n = before ++ v :: after) :
    l[(n + before.length) % l.length]? = some v := by
  have hlt : before.length < l.length := by
    rw [← List.length_rotate l n, h]
    simp
  rw [Nat.add_comm, ← List.getElem?_rotate hlt, h, List.getElem?_append_right le_rfl]
  simp

/-- The ring once the hand has moved past a slot, whatever it left there. -/
theorem rotate_set_succ (hlt : hand < slots.length) (t : Slot α) :
    (slots.set hand t).rotate ((hand + 1) % slots.length) =
      slots.drop (hand + 1) ++ slots.take hand ++ [t] := by
  have hsplit : slots.set hand t = (slots.take hand ++ [t]) ++ slots.drop (hand + 1) := by
    rw [List.set_eq_take_append_cons_drop, if_pos hlt, List.append_cons]
  have hpassed : (slots.take hand ++ [t]).length = hand + 1 := by
    simp [Nat.min_eq_left hlt.le]
  have hlen : slots.length = (slots.set hand t).length := List.length_set.symm
  rw [hlen, List.rotate_mod, hsplit, ← hpassed, List.rotate_append_length_eq, List.append_assoc,
    hpassed]

theorem takeWhile_concat (ring : List (Slot α)) (h : s.used = false) :
    (ring ++ [s]).takeWhile Slot.used = ring.takeWhile Slot.used := by
  induction ring with
  | nil => simp [h]
  | cons t ring ih => cases ht : t.used <;> simp [ht, ih]

theorem dropWhile_concat (ring : List (Slot α)) (h : s.used = false) :
    (ring ++ [s]).dropWhile Slot.used = ring.dropWhile Slot.used ++ [s] := by
  induction ring with
  | nil => simp [h]
  | cons t ring ih => cases ht : t.used <;> simp [ht, ih]

/-- The hand stops as far on as there are marked slots in front of it. -/
theorem sweep_fst (hlt : hand < slots.length) :
    (sweep slots hand).1 =
      (hand + ((slots.rotate hand).takeWhile Slot.used).length) % slots.length := by
  fun_induction sweep slots hand with
  | case1 slots hand s hs hused ih =>
    rw [List.length_set] at ih
    rw [ih (Nat.mod_lt _ (Nat.zero_lt_of_lt hlt)), rotate_set_succ hlt,
      takeWhile_concat _ rfl, rotate_of_getElem? hs, List.takeWhile_cons_of_pos hused,
      List.length_cons, Nat.mod_add_mod, Nat.add_assoc, Nat.add_comm 1]
  | case2 slots hand s hs hused =>
    rw [rotate_of_getElem? hs, List.takeWhile_cons_of_neg hused]
    exact (Nat.mod_eq_of_lt hlt).symm
  | case3 slots hand hs => exact absurd hs (by simp [hlt])

/-- The slots it passed come last in the ring it leaves, without their marks. -/
theorem rotate_sweep (hlt : hand < slots.length) :
    (sweep slots hand).2.rotate (sweep slots hand).1 =
      (slots.rotate hand).dropWhile Slot.used ++
        ((slots.rotate hand).takeWhile Slot.used).map Slot.unmark := by
  fun_induction sweep slots hand with
  | case1 slots hand s hs hused ih =>
    rw [List.length_set] at ih
    rw [ih (Nat.mod_lt _ (Nat.zero_lt_of_lt hlt)), rotate_set_succ hlt,
      takeWhile_concat _ rfl, dropWhile_concat _ rfl, rotate_of_getElem? hs,
      List.takeWhile_cons_of_pos hused, List.dropWhile_cons_of_pos hused, List.map_cons,
      List.append_assoc]
    rfl
  | case2 slots hand s hs hused =>
    rw [rotate_of_getElem? hs, List.takeWhile_cons_of_neg hused,
      List.dropWhile_cons_of_neg hused, List.map_nil, List.append_nil]
  | case3 slots hand hs => exact absurd hs (by simp [hlt])

/-- The marks are off the slots it passed, and all other slots are as they were. -/
theorem mem_sweep (hlt : hand < slots.length) :
    s ∈ (sweep slots hand).2 ↔
      s ∈ (slots.rotate hand).dropWhile Slot.used ∨
        ∃ t ∈ (slots.rotate hand).takeWhile Slot.used, t.unmark = s := by
  rw [← List.mem_rotate (n := (sweep slots hand).1), rotate_sweep hlt, List.mem_append, List.mem_map]

@[simp] theorem length_sweep (slots : List (Slot α)) (hand : Nat) :
    (sweep slots hand).2.length = slots.length := by
  fun_induction sweep slots hand with
  | case1 slots hand s hs hused ih => rw [ih, List.length_set]
  | case2 => rfl
  | case3 => rfl

theorem values_sweep (slots : List (Slot α)) (hand : Nat) :
    (sweep slots hand).2.map Slot.value = slots.map Slot.value := by
  fun_induction sweep slots hand with
  | case1 slots hand s hs hused ih =>
    obtain ⟨hlt, rfl⟩ := List.getElem?_eq_some_iff.1 hs
    rw [ih, List.map_set]
    refine List.ext_getElem? fun j => ?_
    rw [List.getElem?_set]
    split
    · next hj => simp [← hj, hlt]
    · rfl
  | case2 => rfl
  | case3 => rfl

theorem values_modify (slots : List (Slot α)) (i : Nat) :
    (slots.modify i fun s => { s with used := true }).map Slot.value = slots.map Slot.value := by
  refine List.ext_getElem? fun j => ?_
  rw [List.getElem?_map, List.getElem?_modify, List.getElem?_map]
  cases slots[j]? with
  | none => rfl
  | some s => by_cases hj : i = j <;> simp [hj]

end Sweep

/-! ## The slots and the index -/

/-- An index and what stands in the slots are inverse to each other. -/
def Inverse (index : List (Nat × Nat)) (ids : List Nat) : Prop :=
  ∀ id slot, index.lookup id = some slot ↔ ids[slot]? = some id

section Inverse

variable {index : List (Nat × Nat)} {ids : List Nat} {id victim evicted : Nat}

/-- What stands nowhere is not in the index. -/
theorem Inverse.lookup_eq_none (h : Inverse index ids) (hid : id ∉ ids) : index.lookup id = none :=
  Option.eq_none_iff_forall_ne_some.2 fun slot hslot =>
    hid (List.mem_of_getElem? ((h id slot).1 hslot))

/-- A new slot is put into the index. -/
theorem Inverse.append (h : Inverse index ids) (hid : id ∉ ids) :
    Inverse ((id, ids.length) :: index) (ids ++ [id]) := by
  intro other slot
  rw [List.lookup_cons]
  by_cases hother : other = id
  · subst hother
    rw [beq_self_eq_true]
    constructor
    · rintro ⟨⟩
      simp
    · intro hslot
      rcases Nat.lt_trichotomy slot ids.length with hlt | rfl | hlt
      · rw [List.getElem?_append_left hlt] at hslot
        exact absurd (List.mem_of_getElem? hslot) hid
      · rfl
      · rw [List.getElem?_eq_none (by rw [List.length_append]; exact hlt)] at hslot
        cases hslot
  · rw [beq_false_of_ne hother]
    refine (h other slot).trans ?_
    rw [List.getElem?_append]
    split
    · rfl
    · next hge =>
      rw [List.getElem?_eq_none (Nat.le_of_not_lt hge), List.getElem?_singleton]
      split <;> simp [Ne.symm hother]

/-- A slot is given to another identity, and what stood there leaves the index. -/
theorem Inverse.set (h : Inverse index ids) (hnodup : ids.Nodup) (hid : id ∉ ids)
    (hevicted : ids[victim]? = some evicted) :
    Inverse ((id, victim) :: index.filter fun e => !(e.1 == evicted)) (ids.set victim id) := by
  intro other slot
  have hvictim := (List.getElem?_eq_some_iff.1 hevicted).1
  rw [List.lookup_cons, List.getElem?_set, if_pos hvictim]
  by_cases hother : other = id
  · subst hother
    rw [beq_self_eq_true]
    by_cases hslot : victim = slot
    · simp [hslot]
    · rw [if_neg hslot]
      exact iff_of_false (fun heq => hslot (Option.some.inj heq)) fun heq =>
        hid (List.mem_of_getElem? heq)
  · rw [beq_false_of_ne hother]
    refine (congrArg (· = some slot) lookup_filter_ne).to_iff.trans ?_
    by_cases hslot : victim = slot
    · -- Its slot was the only one of the evicted identity.
      subst hslot
      rw [if_pos rfl]
      refine iff_of_false (fun heq => ?_) fun heq => hother (Option.some.inj heq).symm
      by_cases hev : other = evicted
      · simp [hev] at heq
      · rw [beq_false_of_ne hev, if_neg Bool.false_ne_true, h, hevicted] at heq
        exact hev (Option.some.inj heq).symm
    · rw [if_neg hslot]
      by_cases hev : other = evicted
      · subst hev
        rw [beq_self_eq_true, if_pos rfl]
        exact iff_of_false (by simp) fun heq =>
          hslot ((List.getElem?_inj hvictim hnodup).1 (hevicted.trans heq.symm))
      · rw [beq_false_of_ne hev, if_neg Bool.false_ne_true]
        exact h other slot

end Inverse

section Consistent

variable [Identified α] {r : Retainer α} {a value : α}

/-- What is kept alive was given now or before. -/
theorem mem_values_retain (h : a ∈ (r.retain value).values) : a = value ∨ a ∈ r.values := by
  unfold retain at h
  split at h
  · exact .inr h
  split at h
  · next slot _ =>
    rw [values, values_modify] at h
    exact .inr h
  split at h
  · obtain ⟨s, hs, rfl⟩ := List.mem_map.1 h
    rcases List.mem_append.1 hs with hs | hs
    · exact .inr (List.mem_map_of_mem hs)
    · exact .inl (congrArg Slot.value (List.mem_singleton.1 hs))
  · obtain ⟨s, hs, rfl⟩ := List.mem_map.1 h
    rcases List.mem_or_eq_of_mem_set hs with hs | rfl
    · right
      have := List.mem_map_of_mem (f := Slot.value) hs
      rwa [values_sweep] at this
    · exact .inl rfl

/-- The identities of the held values, slot by slot. -/
def identities (r : Retainer α) : List Nat := r.values.map identity

/-- No more is held than there is room for and nothing twice, the index and the slots are inverse
to each other, and the hand stands at a slot. -/
structure Consistent (r : Retainer α) : Prop where
  size_le : r.size ≤ r.capacity
  nodup : r.identities.Nodup
  inverse : Inverse r.index r.identities
  hand_lt : r.hand < r.size ∨ r.size = 0 ∧ r.hand = 0

@[simp] theorem length_identities (r : Retainer α) : r.identities.length = r.size := by
  simp [identities, values, size]

theorem consistent_empty (capacity : Nat) : (empty capacity : Retainer α).Consistent where
  size_le := Nat.zero_le _
  nodup := .nil
  inverse _ _ := by simp [empty, identities, values]
  hand_lt := .inr ⟨rfl, rfl⟩

theorem holds_iff {id : Nat} : r.holds id = true ↔ id ∈ r.identities := by
  simp [holds, identities, values]

/-- Marks the slot of an identity. -/
def mark (slots : List (Slot α)) (id : Nat) : List (Slot α) :=
  slots.map fun s => if identity s.value = id then s.mark else s

@[simp] theorem values_mark (slots : List (Slot α)) (id : Nat) :
    (mark slots id).map Slot.value = slots.map Slot.value := by
  rw [mark, List.map_map]
  refine List.map_congr_left fun s _ => ?_
  simp only [Function.comp_apply]
  split <;> rfl

/-- An identity that stands in one slot only is marked there. -/
theorem Consistent.modify_mark (h : r.Consistent) {slot id : Nat}
    (hslot : r.identities[slot]? = some id) : r.slots.modify slot Slot.mark = mark r.slots id := by
  have hlt := (List.getElem?_eq_some_iff.1 hslot).1
  refine List.ext_getElem? fun i => ?_
  rw [List.getElem?_modify, mark, List.getElem?_map]
  cases hs : r.slots[i]? with
  | none => rfl
  | some s =>
    have hi : r.identities[i]? = some (identity s.value) := by
      simp [identities, values, hs]
    have hiff : slot = i ↔ identity s.value = id := by
      rw [← List.getElem?_inj hlt h.nodup, hslot, hi, Option.some.injEq, eq_comm]
    simp only [Option.map_some, hiff]
    split <;> rfl

/-- What is held already is marked. -/
theorem Consistent.retain_of_held (h : r.Consistent) (hcap : 0 < r.capacity)
    (hheld : identity value ∈ r.identities) :
    r.retain value = { r with slots := mark r.slots (identity value) } := by
  obtain ⟨slot, hslot⟩ := List.getElem?_of_mem hheld
  rw [retain, if_neg hcap.ne', (h.inverse _ _).2 hslot, ← h.modify_mark hslot]
  rfl

/-- What is new takes a slot of its own while there is room. -/
theorem Consistent.retain_of_free (h : r.Consistent) (hnew : identity value ∉ r.identities)
    (hroom : r.size < r.capacity) :
    r.retain value =
      { r with
        slots := r.slots ++ [⟨value, false⟩]
        index := (identity value, r.size) :: r.index } := by
  rw [retain, if_neg (Nat.zero_lt_of_lt hroom).ne', h.inverse.lookup_eq_none hnew]
  exact if_pos hroom

/-- The hand of a retainer that is full stands at a slot. -/
theorem Consistent.hand_lt_of_full (h : r.Consistent) (hcap : 0 < r.capacity)
    (hfull : r.size = r.capacity) : r.hand < r.slots.length :=
  h.hand_lt.resolve_right fun h0 => hcap.ne (h0.1.symm.trans hfull)

/-- What is new takes the slot where the hand stops when there is none left. -/
theorem Consistent.retain_of_full (h : r.Consistent) (hcap : 0 < r.capacity)
    (hnew : identity value ∉ r.identities) (hfull : r.size = r.capacity) :
    ∃ evicted, r.identities[(sweep r.slots r.hand).1]? = some evicted ∧
      r.retain value =
        { r with
          slots := (sweep r.slots r.hand).2.set (sweep r.slots r.hand).1 ⟨value, false⟩
          index := (identity value, (sweep r.slots r.hand).1) ::
            r.index.filter fun e => !(e.1 == evicted)
          hand := ((sweep r.slots r.hand).1 + 1) % r.size } := by
  have hhand := h.hand_lt_of_full hcap hfull
  have hvictim : (sweep r.slots r.hand).1 < r.size := by
    rw [sweep_fst hhand]
    exact Nat.mod_lt _ (Nat.zero_lt_of_lt hhand)
  have hids : ((sweep r.slots r.hand).2.map fun s => identity s.value) = r.identities := by
    rw [identities, values, ← values_sweep r.slots r.hand, List.map_map]
    rfl
  obtain ⟨evicted, hevicted⟩ : ∃ evicted, r.identities[(sweep r.slots r.hand).1]? = some evicted :=
    ⟨_, List.getElem?_eq_getElem (by rwa [length_identities])⟩
  refine ⟨evicted, hevicted, ?_⟩
  rw [← hids, List.getElem?_map] at hevicted
  rw [retain, if_neg hcap.ne', h.inverse.lookup_eq_none hnew]
  refine (if_neg hfull.not_lt).trans ?_
  simp only [hevicted, length_sweep]
  rfl

/-- A value in a slot of its own keeps the retainer consistent. -/
theorem Consistent.append (h : r.Consistent) (hnew : identity value ∉ r.identities)
    (hroom : r.size < r.capacity) :
    Consistent
      { r with
        slots := r.slots ++ [⟨value, false⟩]
        index := (identity value, r.size) :: r.index } := by
  have hids : identities { r with
      slots := r.slots ++ [⟨value, false⟩]
      index := (identity value, r.size) :: r.index } = r.identities ++ [identity value] := by
    simp [identities, values]
  have hsize : size { r with
      slots := r.slots ++ [⟨value, false⟩]
      index := (identity value, r.size) :: r.index } = r.size + 1 := by
    simp [size]
  constructor
  case size_le => exact hsize.trans_le hroom
  case nodup =>
    rw [hids]
    exact List.nodup_append.2 ⟨h.nodup, List.nodup_singleton _, fun id hid other hother heq =>
      hnew (by rwa [← List.mem_singleton.1 hother, ← heq])⟩
  case inverse =>
    rw [hids, ← length_identities]
    exact h.inverse.append hnew
  case hand_lt =>
    refine .inl ?_
    rw [hsize]
    rcases h.hand_lt with hlt | ⟨-, h0⟩
    · exact hlt.trans (Nat.lt_succ_self _)
    · exact h0.trans_lt (Nat.succ_pos _)

/-- A value in the slot of another one keeps the retainer consistent, wherever the hand goes. -/
theorem Consistent.replace (h : r.Consistent) (hnew : identity value ∉ r.identities)
    {slots : List (Slot α)} (hslots : slots.map Slot.value = r.values) {victim evicted hand : Nat}
    (hevicted : r.identities[victim]? = some evicted) (hhand : hand < r.size) :
    Consistent
      { r with
        slots := slots.set victim ⟨value, false⟩
        index := (identity value, victim) :: r.index.filter fun e => !(e.1 == evicted)
        hand := hand } := by
  have hids : identities { r with
      slots := slots.set victim ⟨value, false⟩
      index := (identity value, victim) :: r.index.filter fun e => !(e.1 == evicted)
      hand := hand } = r.identities.set victim (identity value) := by
    simp only [identities, values, List.map_set, hslots]
  have hsize : size { r with
      slots := slots.set victim ⟨value, false⟩
      index := (identity value, victim) :: r.index.filter fun e => !(e.1 == evicted)
      hand := hand } = r.size := by
    rw [← length_identities, hids, List.length_set, length_identities]
  constructor
  case size_le => exact hsize.trans_le h.size_le
  case nodup =>
    rw [hids]
    exact h.nodup.set hnew
  case inverse =>
    rw [hids]
    exact h.inverse.set h.nodup hnew hevicted
  case hand_lt => exact .inl (hhand.trans_eq hsize.symm)

/-- Keeping a value or marking it keeps the retainer consistent. -/
theorem Consistent.retain (h : r.Consistent) (value : α) : (r.retain value).Consistent := by
  rcases Nat.eq_zero_or_pos r.capacity with hcap | hcap
  · rwa [Retainer.retain, if_pos hcap]
  by_cases hheld : identity value ∈ r.identities
  · rw [h.retain_of_held hcap hheld]
    have hids : identities { r with slots := mark r.slots (identity value) } = r.identities :=
      congrArg (List.map identity) (values_mark r.slots (identity value))
    have hsize : size { r with slots := mark r.slots (identity value) } = r.size := by
      simp [size, mark]
    exact
      { size_le := hsize.trans_le h.size_le
        nodup := hids ▸ h.nodup
        inverse := hids ▸ h.inverse
        hand_lt := hsize ▸ h.hand_lt }
  rcases h.size_le.lt_or_eq with hroom | hfull
  · rw [h.retain_of_free hheld hroom]
    exact h.append hheld hroom
  · obtain ⟨evicted, hevicted, heq⟩ := h.retain_of_full hcap hheld hfull
    rw [heq]
    exact h.replace hheld (values_sweep _ _) hevicted (Nat.mod_lt _ (hfull ▸ hcap))

theorem holds_of_mem (h : value ∈ r.values) : r.holds (identity value) = true :=
  holds_iff.2 (List.mem_map_of_mem h)

/-- What is kept is held. -/
theorem Consistent.holds_retain (h : r.Consistent) (hcap : 0 < r.capacity) (value : α) :
    (r.retain value).holds (identity value) = true := by
  by_cases hheld : identity value ∈ r.identities
  · rw [h.retain_of_held hcap hheld]
    refine holds_iff.2 ?_
    rwa [identities, values, values_mark]
  rcases h.size_le.lt_or_eq with hroom | hfull
  · rw [h.retain_of_free hheld hroom]
    exact holds_of_mem (List.mem_map.2 ⟨_, List.mem_append_right _ (.head _), rfl⟩)
  · obtain ⟨evicted, hevicted, heq⟩ := h.retain_of_full hcap hheld hfull
    have hvictim := (List.getElem?_eq_some_iff.1 hevicted).1
    rw [heq]
    refine holds_of_mem (List.mem_map.2 ⟨_, List.mem_set ?_ _, rfl⟩)
    rwa [length_sweep, ← size, ← length_identities]

theorem capacity_retain (r : Retainer α) (value : α) : (r.retain value).capacity = r.capacity := by
  unfold Retainer.retain
  split
  · rfl
  split
  · rfl
  split <;> rfl

end Consistent

end Retainer

end HandleForms
