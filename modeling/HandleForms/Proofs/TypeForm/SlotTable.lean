import HandleForms.Proofs.TypeForm.Slots

/-!
# Slot tables

A slot table takes an argument to the slot that it starts at and a slot to the argument that it
holds. `SlotTable.Lays` says so of any table, however it was made. Type forms get their table in one
of two ways, by the number of double-width parameters: one of their own, laid out parameter by
parameter, or the one that all parameter lists of that length share. Whatever was looked up and
stored before, both are the same table (`TypeForms.Reached.tabulates`).
-/

namespace HandleForms

/-! ## Slots in front of a parameter -/

namespace Ty

theorem slots_eq {t : Ty} (h : t ≠ .void) :
    t.basicType.slots = 1 + if t.isDoubleWidth then 1 else 0 := by
  cases t <;> first | rfl | exact absurd rfl h

theorem slots_pos {t : Ty} (h : t ≠ .void) : 0 < t.basicType.slots := by
  rw [slots_eq h]
  omega

/-- Every parameter takes a slot, and the double-width ones take one more. -/
theorem slotSum_eq {ts : List Ty} (h : ∀ t ∈ ts, t ≠ .void) :
    slotSum ts = ts.length + ts.countP isDoubleWidth := by
  induction ts with
  | nil => rfl
  | cons t ts ih =>
    rw [slotSum_cons, slots_eq (h t List.mem_cons_self),
      ih fun u hu => h u (List.mem_cons_of_mem t hu), List.length_cons, List.countP_cons]
    omega

theorem slotSum_take_succ {ts : List Ty} {i : Nat} {t : Ty} (h : ts[i]? = some t) :
    slotSum (ts.take (i + 1)) = slotSum (ts.take i) + t.basicType.slots := by
  rw [List.take_add_one, h, slotSum_append]
  simp

theorem slotSum_take_le {ts : List Ty} {i j : Nat} (h : i ≤ j) :
    slotSum (ts.take i) ≤ slotSum (ts.take j) :=
  Signature.slotSum_sublist (List.take_sublist_take_left h)

/-- A later parameter has more slots in front of it. -/
theorem slotSum_take_lt {ts : List Ty} (h : ∀ t ∈ ts, t ≠ .void) {i j : Nat} (hij : i < j)
    (hj : j ≤ ts.length) : slotSum (ts.take i) < slotSum (ts.take j) := by
  obtain ⟨t, ht⟩ : ∃ t, ts[i]? = some t := ⟨_, List.getElem?_eq_getElem (by omega)⟩
  have hpos : 0 < t.basicType.slots := slots_pos (h t (List.mem_of_getElem? ht))
  have hstep : slotSum (ts.take i) < slotSum (ts.take (i + 1)) := by
    rw [slotSum_take_succ ht]
    omega
  exact Nat.lt_of_lt_of_le hstep (slotSum_take_le hij)

end Ty

/-! ## The two lists of a table -/

namespace SlotTable

theorem length_starts (slot : Nat) (ts : List Ty) : (starts slot ts).length = ts.length + 1 := by
  induction ts generalizing slot with
  | nil => rfl
  | cons t ts ih => simp only [starts, List.length_cons, ih]

/-- A parameter starts behind those in front of it. -/
theorem getElem?_starts (slot : Nat) (ts : List Ty) {i : Nat} (h : i ≤ ts.length) :
    (starts slot ts)[i]? = some (slot + Ty.slotSum (ts.take i)) := by
  induction ts generalizing slot i with
  | nil =>
    obtain rfl : i = 0 := by simpa using h
    rfl
  | cons t ts ih =>
    cases i with
    | zero => rfl
    | succ i =>
      rw [starts, List.getElem?_cons_succ, ih _ (by simpa using h), List.take_succ_cons,
        Ty.slotSum_cons, Nat.add_assoc]

theorem length_holders (arg : Nat) (ts : List Ty) :
    (holders arg ts).length = Ty.slotSum ts + 1 := by
  induction ts generalizing arg with
  | nil => rfl
  | cons t ts ih =>
    rw [holders, List.length_append, List.length_replicate, ih, Ty.slotSum_cons, Nat.add_assoc]

/-- Behind the slots of the first parameter come those of the others. -/
theorem getElem?_holders_add (arg : Nat) (t : Ty) (ts : List Ty) (slot : Nat) :
    (holders arg (t :: ts))[t.basicType.slots + slot]? = (holders (arg + 1) ts)[slot]? := by
  rw [holders, List.getElem?_append_right (by simp), List.length_replicate, Nat.add_sub_cancel_left]

/-- The slots of a parameter hold it. -/
theorem getElem?_holders (arg : Nat) {ts : List Ty} {i slot : Nat} {t : Ty} (h : ts[i]? = some t)
    (hslot : slot < t.basicType.slots) :
    (holders arg ts)[Ty.slotSum (ts.take i) + slot]? = some (arg + i) := by
  induction ts generalizing arg i with
  | nil => cases h
  | cons u ts ih =>
    cases i with
    | zero =>
      -- The slots of the first parameter are the ones that its own number was repeated for.
      obtain rfl := Option.some.inj h
      rw [List.take_zero, Ty.slotSum_nil, Nat.zero_add, holders,
        List.getElem?_append_left (by simpa using hslot), List.getElem?_replicate_of_lt hslot]
      rfl
    | succ i =>
      rw [List.take_succ_cons, Ty.slotSum_cons, Nat.add_assoc, getElem?_holders_add, ih _ h]
      congr 1
      omega

/-- The list of holders ends in the number of parameters. -/
theorem getElem?_holders_end (arg : Nat) (ts : List Ty) :
    (holders arg ts)[Ty.slotSum ts]? = some (arg + ts.length) := by
  induction ts generalizing arg with
  | nil => rfl
  | cons t ts ih =>
    rw [Ty.slotSum_cons, getElem?_holders_add, ih, List.length_cons]
    congr 1
    omega

/-! ## What a table is -/

/-- A table of these parameters. -/
structure Lays (table : SlotTable) (params : List Ty) : Prop where
  /-- There is an entry for each parameter and one for the end, -/
  arguments : table.argToSlot.length = params.length + 1
  /-- and one for each slot and one for the end. -/
  slots : table.slotToArg.length = Ty.slotSum params + 1
  first : table.argToSlot[0]? = some 0
  /-- Every parameter is as wide as its type. -/
  width : ∀ i t start, params[i]? = some t → table.argToSlot[i]? = some start →
    table.argToSlot[i + 1]? = some (start + t.basicType.slots)
  increasing : table.argToSlot.Pairwise (· < ·)
  last : table.argToSlot[params.length]? = some (Ty.slotSum params)
  /-- A slot from the start of a parameter to that of the next one holds the parameter. -/
  holder : ∀ i start stop slot, table.argToSlot[i]? = some start →
    table.argToSlot[i + 1]? = some stop → start ≤ slot → slot < stop →
    table.slotToArg[slot]? = some i
  lastHolder : table.slotToArg[Ty.slotSum params]? = some params.length
  /-- A parameter is held by the slot that it starts at. -/
  inverse : ∀ i ≤ params.length, ∃ slot, table.argToSlot[i]? = some slot ∧
    table.slotToArg[slot]? = some i

section Of

variable {params : List Ty} {i start : Nat}

theorem argToSlot_of (h : i ≤ params.length) :
    (of params).argToSlot[i]? = some (Ty.slotSum (params.take i)) := by
  rw [of, getElem?_starts 0 params h, Nat.zero_add]

theorem le_of_argToSlot_of (h : (of params).argToSlot[i]? = some start) : i ≤ params.length := by
  have hlt : i < (of params).argToSlot.length := (List.getElem?_eq_some_iff.1 h).1
  rw [of, length_starts] at hlt
  omega

theorem eq_of_argToSlot_of (h : (of params).argToSlot[i]? = some start) :
    start = Ty.slotSum (params.take i) :=
  Option.some.inj (h.symm.trans (argToSlot_of (le_of_argToSlot_of h)))

theorem holder_of {stop slot : Nat} (hstart : (of params).argToSlot[i]? = some start)
    (hstop : (of params).argToSlot[i + 1]? = some stop) (hle : start ≤ slot) (hlt : slot < stop) :
    (of params).slotToArg[slot]? = some i := by
  have hi : i < params.length := le_of_argToSlot_of hstop
  have hparam : params[i]? = some params[i] := List.getElem?_eq_getElem hi
  obtain rfl := eq_of_argToSlot_of hstart
  obtain rfl := eq_of_argToSlot_of hstop
  rw [Ty.slotSum_take_succ hparam] at hlt
  obtain ⟨d, rfl⟩ := Nat.exists_eq_add_of_le hle
  rw [of, getElem?_holders 0 hparam (by omega), Nat.zero_add]

/-- The table that is laid out parameter by parameter. -/
theorem lays_of (h : ∀ t ∈ params, t ≠ .void) : (of params).Lays params where
  arguments := length_starts 0 params
  slots := length_holders 0 params
  first := argToSlot_of (Nat.zero_le _)
  width i t start ht hstart := by
    rw [eq_of_argToSlot_of hstart, argToSlot_of (List.getElem?_eq_some_iff.1 ht).1,
      Ty.slotSum_take_succ ht]
  increasing := by
    rw [List.pairwise_iff_getElem]
    intro i j hi hj hij
    have hstart := eq_of_argToSlot_of (List.getElem?_eq_getElem hi)
    have hstop := eq_of_argToSlot_of (List.getElem?_eq_getElem hj)
    rw [hstart, hstop]
    exact Ty.slotSum_take_lt h hij (le_of_argToSlot_of (List.getElem?_eq_getElem hj))
  last := by rw [argToSlot_of (Nat.le_refl _), List.take_length]
  holder i start stop slot := holder_of
  lastHolder := by rw [of, getElem?_holders_end, Nat.zero_add]
  inverse i hi := by
    refine ⟨_, argToSlot_of hi, ?_⟩
    rcases Nat.lt_or_eq_of_le hi with hlt | rfl
    · -- The slot that a parameter starts at is one of its own, since it has one at least.
      refine holder_of (argToSlot_of hi) (argToSlot_of hlt) (Nat.le_refl _) ?_
      exact Ty.slotSum_take_lt h (Nat.lt_succ_self i) hlt
    · rw [List.take_length, of, getElem?_holders_end, Nat.zero_add]

end Of

/-! ## There is one table only -/

/-- Every slot in front of the end belongs to a parameter. -/
theorem exists_param (params : List Ty) {slot : Nat} (h : slot < Ty.slotSum params) :
    ∃ i t, params[i]? = some t ∧ Ty.slotSum (params.take i) ≤ slot ∧
      slot < Ty.slotSum (params.take i) + t.basicType.slots := by
  induction params generalizing slot with
  | nil => exact absurd h (Nat.not_lt_zero slot)
  | cons t ts ih =>
    rw [Ty.slotSum_cons] at h
    rcases Nat.lt_or_ge slot t.basicType.slots with hlt | hge
    · exact ⟨0, t, rfl, Nat.zero_le _, by simpa using hlt⟩
    · obtain ⟨d, rfl⟩ := Nat.exists_eq_add_of_le hge
      obtain ⟨i, u, hu, hle, hlt⟩ := ih (show d < Ty.slotSum ts by omega)
      refine ⟨i + 1, u, hu, ?_, ?_⟩ <;> rw [List.take_succ_cons, Ty.slotSum_cons] <;> omega

namespace Lays

variable {table : SlotTable} {params : List Ty}

theorem argToSlot_eq (h : table.Lays params) {i : Nat} (hi : i ≤ params.length) :
    table.argToSlot[i]? = some (Ty.slotSum (params.take i)) := by
  induction i with
  | zero => exact h.first
  | succ i ih =>
    have hparam : params[i]? = some params[i] := List.getElem?_eq_getElem hi
    rw [h.width i _ _ hparam (ih (by omega)), Ty.slotSum_take_succ hparam]

theorem slotToArg_eq (h : table.Lays params) {slot i : Nat} {t : Ty} (ht : params[i]? = some t)
    (hle : Ty.slotSum (params.take i) ≤ slot)
    (hlt : slot < Ty.slotSum (params.take i) + t.basicType.slots) :
    table.slotToArg[slot]? = some i := by
  have hi : i < params.length := (List.getElem?_eq_some_iff.1 ht).1
  have hstart := h.argToSlot_eq (Nat.le_of_lt hi)
  exact h.holder i _ _ slot hstart (h.width i t _ ht hstart) hle hlt

/-- Two tables of the same parameters are one. -/
theorem unique (h : table.Lays params) {other : SlotTable} (hother : other.Lays params) :
    table = other := by
  have hargs : table.argToSlot = other.argToSlot := by
    refine List.ext_getElem? fun i => ?_
    rcases Nat.lt_or_ge params.length i with hi | hi
    · rw [List.getElem?_eq_none (by rw [h.arguments]; exact hi),
        List.getElem?_eq_none (by rw [hother.arguments]; exact hi)]
    · rw [h.argToSlot_eq hi, hother.argToSlot_eq hi]
  have hslots : table.slotToArg = other.slotToArg := by
    refine List.ext_getElem? fun slot => ?_
    -- A slot belongs to a parameter, or it is the end, or there is no such slot.
    rcases Nat.lt_trichotomy slot (Ty.slotSum params) with hlt | rfl | hgt
    · obtain ⟨i, t, ht, hle, hlt⟩ := exists_param params hlt
      rw [h.slotToArg_eq ht hle hlt, hother.slotToArg_eq ht hle hlt]
    · rw [h.lastHolder, hother.lastHolder]
    · rw [List.getElem?_eq_none (by rw [h.slots]; exact hgt),
        List.getElem?_eq_none (by rw [hother.slots]; exact hgt)]
  cases table
  cases other
  exact congr (congrArg SlotTable.mk hargs) hslots

end Lays

end SlotTable

/-! ## The tables of type forms -/

namespace TypeForms

variable {η : Type} {r : TypeForms η}

/-- The registries that lookups and what is stored in slots lead to. -/
inductive Reached : TypeForms η → Prop
  | empty : Reached .empty
  | find {r : TypeForms η} (h : Reached r) (s : Signature) : Reached (r.find s).2
  | setForm {r : TypeForms η} (h : Reached r) {t : TypeForm} (ht : t ∈ r.interned)
      (p : FormPurpose) (f : Form) : Reached (r.setForm t p f)
  | setHandle {r : TypeForms η} (h : Reached r) {t : TypeForm} (ht : t ∈ r.interned)
      (p : HandlePurpose) (a : η) : Reached (r.setHandle t p a)

theorem Reached.registered (h : r.Reached) : r.Registered := by
  induction h with
  | empty => exact .empty
  | find _ s ih => exact (ih.find s).registered
  | setForm _ ht p f ih => exact (ih.holds_setForm ht p f).registered
  | setHandle _ ht p a ih => exact (ih.holds_setHandle ht p a).registered

/-- The table of a type form without double-width parameters is the one that is shared by parameter
lists of its length. -/
def KeepsShared (r : TypeForms η) : Prop :=
  ∀ t ∈ r.interned, t.hasPrivateTable = false →
    r.sharedTables.lookup t.counts.parameters = some (t.tableId, t.slots)

/-- Shared tables stay what they are. -/
theorem sharedTables_tableFor (r : TypeForms η) (erased : Signature) {n : Nat}
    {shared : Nat × SlotTable} (h : r.sharedTables.lookup n = some shared) :
    (r.tableFor erased).2.sharedTables.lookup n = some shared := by
  unfold tableFor
  dsimp only
  split
  · exact h
  split
  · exact h
  · next hnone =>
    have hne : n ≠ (ArgCounts.of erased).parameters := by
      rintro rfl
      rw [hnone] at h
      cases h
    rw [List.lookup_cons, beq_false_of_ne hne]
    exact h

/-- The table of a signature without double-width parameters is shared from then on. -/
theorem lookup_tableFor (r : TypeForms η) {erased : Signature}
    (h : (ArgCounts.of erased).longParameters = 0) :
    (r.tableFor erased).2.sharedTables.lookup (ArgCounts.of erased).parameters =
      some (r.tableFor erased).1 := by
  unfold tableFor
  dsimp only
  rw [if_neg (by omega)]
  split
  · next shared hshared => exact hshared
  · exact List.lookup_cons_self

theorem KeepsShared.add (h : r.KeepsShared) (erased : Signature) (basicId? : Option Nat) :
    (r.add erased basicId?).2.KeepsShared := by
  intro t ht hshared
  rw [(add_eq r erased basicId?).2.1] at ht
  rcases List.mem_append.1 ht with ht | ht
  · exact sharedTables_tableFor r erased (h t ht hshared)
  · obtain rfl := List.mem_singleton.1 ht
    exact lookup_tableFor r (Nat.eq_zero_of_not_pos (of_decide_eq_false hshared))

/-- Nothing that a registry is used for moves a type form to another table. -/
theorem Reached.keepsShared (h : r.Reached) : r.KeepsShared := by
  induction h with
  | empty =>
    intro t ht
    exact absurd ht List.not_mem_nil
  | find _ s ih => exact find_of_add (fun r erased basicId? h => h.add erased basicId?) ih s
  | setForm _ _ _ _ ih => exact ih
  | setHandle _ _ _ _ ih => exact ih

end TypeForms

/-- A type form counts and tabulates the parameters of a signature. -/
structure TypeForm.Tabulates (t : TypeForm) (s : Signature) : Prop where
  counts : t.counts.parameters = s.arity
  longs : t.counts.longParameters = s.params.countP Ty.isDoubleWidth
  /-- Double-width parameters count twice. -/
  slotCount : t.counts.parameterSlots = t.counts.parameters + t.counts.longParameters
  slotSum : t.counts.parameterSlots = Ty.slotSum s.params
  /-- The table is the one that is laid out for the parameters, -/
  computed : t.slots = SlotTable.of s.params
  lays : t.slots.Lays s.params
  /-- and no other one would do. -/
  unique : ∀ table : SlotTable, table.Lays s.params → table = t.slots
  /-- Without double-width parameters it takes each argument to the slot of its own number. -/
  single : t.hasPrivateTable = false → t.slots = SlotTable.singleSlot s.arity

/-- Whatever was looked up and stored before: the type form of a signature counts its parameters and
has the slot table of its parameter types, and unless a parameter is double-width it shares the table
that the registry has for parameter lists of this length. -/
theorem TypeForms.Reached.tabulates {η : Type} {r : TypeForms η} (h : r.Reached) (s : Signature) :
    (r.find s).1.Tabulates s ∧
      ((r.find s).1.hasPrivateTable = false →
        (r.find s).2.sharedTables.lookup s.arity =
          some ((r.find s).1.tableId, (r.find s).1.slots)) := by
  have hfinds := h.registered.find s
  have hcounts : (r.find s).1.counts = ArgCounts.of s := by
    rw [hfinds.registered.counts _ hfinds.mem, hfinds.erased, ArgCounts.of_erase]
  have hslots : (r.find s).1.slots = SlotTable.of s.params := by
    rw [hfinds.registered.slots _ hfinds.mem, hfinds.erased, SlotTable.of_erase]
  have hlays : (r.find s).1.slots.Lays s.params := by
    rw [hslots]
    exact SlotTable.lays_of s.params_ne_void
  refine ⟨⟨?_, ?_, ?_, ?_, hslots, hlays, fun table htable => htable.unique hlays,
    fun hshared => ?_⟩, fun hshared => ?_⟩
  · rw [hcounts]
    rfl
  · rw [hcounts]
    rfl
  · rw [hcounts]
    exact Ty.slotSum_eq s.params_ne_void
  · rw [hcounts]
    rfl
  · rw [TypeForm.hasPrivateTable, hcounts] at hshared
    rw [hslots]
    exact SlotTable.of_eq_singleSlot (Nat.eq_zero_of_not_pos (of_decide_eq_false hshared))
  · have hkeeps := (h.find s).keepsShared _ hfinds.mem hshared
    rwa [hcounts] at hkeeps

/-- After `(int,Object)void`: `(long,int,Object,double)void` has a table of its own, and
`(Object,float)int` shares the one that is there. -/
theorem TypeForms.Reached.tabulates_doubles :
    ∃ (r : TypeForms Form) (s u : Signature), r.Reached ∧ (r.find s).1.Tabulates s ∧
      (r.find u).1.Tabulates u ∧
      (r.find s).1.slots = ⟨[0, 2, 3, 4, 6], [0, 0, 1, 2, 3, 3, 4]⟩ ∧
      (r.find u).2.sharedTables = [(2, (r.find u).1.tableId, (r.find u).1.slots)] := by
  have hreached : ((TypeForms.empty : TypeForms Form).find
      ⟨[.int, Ty.object], .void, by decide, by decide⟩).2.Reached := .find .empty _
  exact ⟨_, ⟨[.long, .int, Ty.object, .double], .void, by decide, by decide⟩,
    ⟨[Ty.object, .float], .int, by decide, by decide⟩, hreached, (hreached.tabulates _).1,
    (hreached.tabulates _).1, rfl, rfl⟩

end HandleForms
