import HandleForms.Proofs.Retainer.Ring

/-!
# Second chances

What happens at a retainer is written down beside it (`Retainer.History`): which value was put into
a slot, which was kept again, which the hand passed. A slot bears a mark exactly if its value was
kept again after both (`Retainer.Renewed`, `Retainer.History.Faithful`), so the one that leaves is
chosen by what happened and not by the marks (`Retainer.History.retain_second_chance`).
-/

namespace HandleForms

namespace Retainer

/-- What happens to a value at a retainer, by identity. -/
inductive Event
  /-- It was put into a slot. -/
  | inserted (id : Nat)
  /-- It was kept again while it was held. -/
  | renewed (id : Nat)
  /-- The hand passed it. -/
  | passed (id : Nat)
  deriving DecidableEq, Repr

/-- Whether a value was kept again since it was inserted and since the hand last passed it, the
latest event first. -/
def Renewed (log : List Event) (id : Nat) : Prop :=
  ∃ later earlier, log = later ++ .renewed id :: earlier ∧
    .inserted id ∉ later ∧ .passed id ∉ later

section Renewed

variable {log : List Event} {id : Nat} {ids : List Nat}

theorem renewed_cons {e : Event} :
    Renewed (e :: log) id ↔
      e = .renewed id ∨ e ≠ .inserted id ∧ e ≠ .passed id ∧ Renewed log id := by
  constructor
  · rintro ⟨later, earlier, heq, hinserted, hpassed⟩
    cases later with
    | nil => exact .inl (List.cons.inj heq).1
    | cons d later =>
      obtain ⟨rfl, rfl⟩ := List.cons.inj heq
      exact .inr ⟨fun he => hinserted (he ▸ .head _), fun he => hpassed (he ▸ .head _), later,
        earlier, rfl, fun he => hinserted (.tail _ he), fun he => hpassed (.tail _ he)⟩
  · rintro (rfl | ⟨hins, hpass, later, earlier, rfl, hinserted, hpassed⟩)
    · exact ⟨[], log, rfl, List.not_mem_nil, List.not_mem_nil⟩
    · exact ⟨e :: later, earlier, rfl, fun he => (List.mem_cons.1 he).elim (Ne.symm hins) hinserted,
        fun he => (List.mem_cons.1 he).elim (Ne.symm hpass) hpassed⟩

/-- The hand takes away what it passes, and nothing else. -/
theorem renewed_passed : Renewed (ids.map .passed ++ log) id ↔ id ∉ ids ∧ Renewed log id := by
  induction ids with
  | nil => simp
  | cons i ids ih =>
    rw [List.map_cons, List.cons_append, renewed_cons, ih]
    simp [eq_comm, and_assoc]

end Renewed

/-! ## What is written down -/

variable {α : Type} [Identified α]

/-- The values that the hand passes before it stops. -/
def passes (slots : List (Slot α)) (hand : Nat) : List Nat :=
  match hs : slots[hand]? with
  | some s =>
    if hused : s.used = true then
      identity s.value ::
        passes (slots.set hand { s with used := false }) ((hand + 1) % slots.length)
    else []
  | none => []
termination_by slots.countP Slot.used
decreasing_by exact countP_used_clear_lt hs hused

/-- They are those of the marked slots in front of it. -/
theorem passes_eq {slots : List (Slot α)} {hand : Nat} (hlt : hand < slots.length) :
    passes slots hand =
      ((slots.rotate hand).takeWhile Slot.used).map fun s => identity s.value := by
  fun_induction passes slots hand with
  | case1 slots hand s hs hused ih =>
    rw [List.length_set] at ih
    rw [ih (Nat.mod_lt _ (Nat.zero_lt_of_lt hlt)), rotate_set_succ hlt, takeWhile_concat _ rfl,
      rotate_of_getElem? hs, List.takeWhile_cons_of_pos hused, List.map_cons]
  | case2 slots hand s hs hused =>
    rw [rotate_of_getElem? hs, List.takeWhile_cons_of_neg hused, List.map_nil]
  | case3 slots hand hs => exact absurd hs (by simp [hlt])

/-- What happens when a value is kept, the latest first. -/
def events (r : Retainer α) (value : α) : List Event :=
  if r.capacity = 0 then []
  else if r.holds (identity value) then [.renewed (identity value)]
  else if r.size < r.capacity then [.inserted (identity value)]
  else .inserted (identity value) :: (passes r.slots r.hand).reverse.map .passed

/-- What a retainer is asked for. -/
inductive Request (α : Type)
  | retain (value : α)
  | clear

/-- A request is answered. -/
def answer (r : Retainer α) : Request α → Retainer α
  | .retain value => r.retain value
  | .clear => r.clear

/-- A retainer and what happened at it so far, the latest first. -/
structure History (α : Type) where
  retainer : Retainer α
  log : List Event

namespace History

/-- Nothing has happened yet. -/
def start (capacity : Nat) : History α := ⟨.empty capacity, []⟩

/-- A request is answered and written down. -/
def answer (h : History α) (request : Request α) : History α where
  retainer := h.retainer.answer request
  log := match request with
    | .retain value => h.retainer.events value ++ h.log
    | .clear => h.log

/-- Requests are answered in turn. -/
def run (h : History α) (requests : List (Request α)) : History α := requests.foldl answer h

/-- Writing down what happens changes nothing. -/
theorem retainer_run (h : History α) (requests : List (Request α)) :
    (h.run requests).retainer = requests.foldl Retainer.answer h.retainer :=
  (List.foldl_hom History.retainer fun _ _ => rfl).symm

/-- The retainer is consistent, and the marks say what happened. -/
structure Faithful (h : History α) : Prop where
  consistent : h.retainer.Consistent
  used_iff : ∀ s ∈ h.retainer.slots, s.used = true ↔ Renewed h.log (identity s.value)

variable {h : History α}

/-- The value of a slot has its identity there. -/
theorem mem_identities {r : Retainer α} {s : Slot α} (hs : s ∈ r.slots) :
    identity s.value ∈ r.identities :=
  List.mem_map_of_mem (List.mem_map_of_mem hs)

theorem faithful_start (capacity : Nat) : (start capacity : History α).Faithful :=
  ⟨consistent_empty capacity, fun _ hs => absurd hs List.not_mem_nil⟩

theorem faithful_clear (h : History α) : (h.answer .clear).Faithful :=
  ⟨consistent_empty h.retainer.capacity, fun _ hs => absurd hs List.not_mem_nil⟩

/-- What a value that is put in anew does to the log concerns no other value. -/
theorem renewed_inserted {log : List Event} {ids : List Nat} {id new : Nat} (hne : id ≠ new) :
    Renewed (.inserted new :: ids.map .passed ++ log) id ↔ id ∉ ids ∧ Renewed log id := by
  rw [List.cons_append, renewed_cons, renewed_passed]
  simp [Ne.symm hne]

/-- The marks that the hand leaves say what happened once it is written down what it passed. -/
theorem Faithful.used_sweep (hf : h.Faithful) (hhand : h.retainer.hand < h.retainer.slots.length)
    {s : Slot α} (hs : s ∈ (sweep h.retainer.slots h.retainer.hand).2) :
    s.used = true ↔
      identity s.value ∉ (passes h.retainer.slots h.retainer.hand).reverse ∧
        Renewed h.log (identity s.value) := by
  have hring : (h.retainer.slots.rotate h.retainer.hand).map (fun s => identity s.value) |>.Nodup := by
    rw [List.map_rotate, List.nodup_rotate]
    simpa [identities, values, Function.comp_def] using hf.consistent.nodup
  rw [List.mem_reverse, passes_eq hhand]
  rcases (mem_sweep hhand).1 hs with hs | ⟨t, ht, rfl⟩
  · -- It stands behind the slots that were passed, and each identity stands in one slot.
    rw [← List.takeWhile_append_dropWhile (p := Slot.used)
      (l := h.retainer.slots.rotate h.retainer.hand), List.map_append, List.nodup_append] at hring
    have hmem := List.mem_rotate.1 ((List.dropWhile_suffix _).mem hs)
    rw [hf.used_iff s hmem, and_iff_right]
    exact fun hpassed => hring.2.2 _ hpassed _ (List.mem_map_of_mem hs) rfl
  · exact iff_of_false Bool.false_ne_true fun hnot => hnot.1 (List.mem_map.2 ⟨t, ht, rfl⟩)

/-- Keeping a value and writing down what happened keeps the marks faithful. -/
theorem Faithful.retain (hf : h.Faithful) (value : α) : (h.answer (.retain value)).Faithful := by
  refine ⟨hf.consistent.retain value, ?_⟩
  show ∀ s ∈ (h.retainer.retain value).slots, s.used = true ↔
    Renewed (h.retainer.events value ++ h.log) (identity s.value)
  rcases Nat.eq_zero_or_pos h.retainer.capacity with hcap | hcap
  · rw [Retainer.retain, if_pos hcap, events, if_pos hcap]
    exact hf.used_iff
  by_cases hheld : identity value ∈ h.retainer.identities
  · rw [hf.consistent.retain_of_held hcap hheld, events, if_neg hcap.ne', if_pos (holds_iff.2 hheld)]
    intro s hs
    obtain ⟨t, ht, rfl⟩ := List.mem_map.1 hs
    have hid : identity (if identity t.value = identity value then t.mark else t).value =
        identity t.value := by
      split <;> rfl
    rw [hid, List.singleton_append, renewed_cons, ← hf.used_iff t ht]
    split
    · next heq => simp [Slot.mark, heq]
    · next hne => simp [Ne.symm hne]
  have hnot : h.retainer.holds (identity value) ≠ true := fun hh => hheld (holds_iff.1 hh)
  rw [events, if_neg hcap.ne', if_neg hnot]
  rcases hf.consistent.size_le.lt_or_eq with hroom | hfull
  · rw [hf.consistent.retain_of_free hheld hroom, if_pos hroom]
    intro s hs
    rcases List.mem_append.1 hs with hs | hs
    · have hne : identity s.value ≠ identity value := fun heq => hheld (heq ▸ mem_identities hs)
      rw [List.singleton_append, renewed_cons, ← hf.used_iff s hs]
      simp [Ne.symm hne]
    · obtain rfl := List.mem_singleton.1 hs
      rw [List.singleton_append, renewed_cons]
      simp
  · have hhand := hf.consistent.hand_lt_of_full hcap hfull
    obtain ⟨evicted, -, heq⟩ := hf.consistent.retain_of_full hcap hheld hfull
    rw [heq, if_neg hfull.not_lt]
    intro s hs
    rcases List.mem_or_eq_of_mem_set hs with hs | rfl
    · have hid : identity s.value ∈ h.retainer.identities := by
        have := List.mem_map_of_mem (f := identity) (List.mem_map_of_mem (f := Slot.value) hs)
        rwa [values_sweep] at this
      have hne : identity s.value ≠ identity value := fun heq => hheld (heq ▸ hid)
      exact (hf.used_sweep hhand hs).trans (renewed_inserted hne).symm
    · rw [List.cons_append, renewed_cons]
      simp

theorem Faithful.run (hf : h.Faithful) (requests : List (Request α)) : (h.run requests).Faithful := by
  induction requests generalizing h with
  | nil => exact hf
  | cons request requests ih =>
    refine ih ?_
    cases request with
    | retain value => exact hf.retain value
    | clear => exact faithful_clear h

/-! ## The choice -/

/-- What the hand meets first was all kept again, and then comes what leaves, which was not; or
everything was kept again, and what is under the hand leaves. -/
def Chosen (h : History α) (before : List α) (victim : α) : Prop :=
  (∀ v ∈ before, Renewed h.log (identity v)) ∧ ¬ Renewed h.log (identity victim) ∨
    before = [] ∧ ∀ v ∈ h.retainer.values, Renewed h.log (identity v)

/-- The hand stops at the one that is chosen by what happened. -/
theorem Faithful.chosen (hf : h.Faithful) (hhand : h.retainer.hand < h.retainer.slots.length) :
    ∃ before victim after, h.retainer.clock = before ++ victim :: after ∧ h.Chosen before victim ∧
      (sweep h.retainer.slots h.retainer.hand).1 =
        (h.retainer.hand + before.length) % h.retainer.size := by
  have hclock : h.retainer.clock = (h.retainer.slots.rotate h.retainer.hand).map Slot.value :=
    (List.map_rotate _ _ _).symm
  have hused : ∀ s ∈ h.retainer.slots.rotate h.retainer.hand,
      s.used = true ↔ Renewed h.log (identity s.value) := fun s hs =>
    hf.used_iff s (List.mem_rotate.1 hs)
  rw [hclock, sweep_fst hhand]
  generalize hring : h.retainer.slots.rotate h.retainer.hand = ring at hused
  have hmarked : ∀ s ∈ ring.takeWhile Slot.used, s.used = true :=
    List.all_eq_true.1 List.all_takeWhile
  cases hrest : ring.dropWhile Slot.used with
  | cons t rest =>
    have hsplit : ring = ring.takeWhile Slot.used ++ t :: rest := by
      rw [← hrest, List.takeWhile_append_dropWhile]
    have ht : t.used = false := by
      have := List.head?_dropWhile_not Slot.used ring
      rwa [hrest] at this
    refine ⟨(ring.takeWhile Slot.used).map Slot.value, t.value, rest.map Slot.value, ?_,
      .inl ⟨?_, ?_⟩, by rw [List.length_map]; rfl⟩
    · rw [← List.map_cons, ← List.map_append, ← hsplit]
    · intro v hv
      obtain ⟨s, hs, rfl⟩ := List.mem_map.1 hv
      exact (hused s ((List.takeWhile_prefix _).mem hs)).1 (hmarked s hs)
    · rw [← hused t (hsplit ▸ List.mem_append_right _ (.head _)), ht]
      exact Bool.false_ne_true
  | nil =>
    -- Every slot is marked: the hand goes all the way round.
    have hall : ring.takeWhile Slot.used = ring := by
      have := List.takeWhile_append_dropWhile (p := Slot.used) (l := ring)
      rwa [hrest, List.append_nil] at this
    have hlen : ring.length = h.retainer.slots.length := by rw [← hring, List.length_rotate]
    rw [hall] at hmarked
    rw [hall, hlen, Nat.add_mod_right, Nat.mod_eq_of_lt hhand]
    obtain ⟨t, rest, rfl⟩ := List.exists_cons_of_length_pos (hlen ▸ Nat.zero_lt_of_lt hhand)
    refine ⟨[], t.value, rest.map Slot.value, rfl, .inr ⟨rfl, fun v hv => ?_⟩,
      (Nat.mod_eq_of_lt hhand).symm⟩
    obtain ⟨s, hs, rfl⟩ := List.mem_map.1 hv
    have hs : s ∈ t :: rest := hring ▸ List.mem_rotate.2 hs
    exact (hused s hs).1 (hmarked s hs)

/-- What keeping a value does, told by what happened before. -/
structure SecondChance (h : History α) (value : α) (r : Retainer α) : Prop where
  holds : r.holds (identity value) = true
  of_held : h.retainer.holds (identity value) = true →
    r = { h.retainer with slots := mark h.retainer.slots (identity value) }
  of_room : h.retainer.holds (identity value) = false → h.retainer.size < h.retainer.capacity →
    r.values = h.retainer.values ++ [value] ∧ r.hand = h.retainer.hand
  of_full : h.retainer.holds (identity value) = false →
    h.retainer.size = h.retainer.capacity →
    ∃ before victim after slot, h.retainer.clock = before ++ victim :: after ∧
      h.Chosen before victim ∧ h.retainer.values[slot]? = some victim ∧
      r.values = h.retainer.values.set slot value ∧ r.hand = (slot + 1) % h.retainer.size

theorem Faithful.secondChance (hf : h.Faithful) (hcap : 0 < h.retainer.capacity) (value : α) :
    h.SecondChance value (h.retainer.retain value) := by
  have hnot : h.retainer.holds (identity value) = false → identity value ∉ h.retainer.identities :=
    fun hh hmem => Bool.false_ne_true (hh.symm.trans (holds_iff.2 hmem))
  constructor
  case of_held => exact fun hheld => hf.consistent.retain_of_held hcap (holds_iff.1 hheld)
  case of_room =>
    intro hnew hroom
    rw [hf.consistent.retain_of_free (hnot hnew) hroom]
    exact ⟨List.map_append, rfl⟩
  case of_full =>
    intro hnew hfull
    have hhand := hf.consistent.hand_lt_of_full hcap hfull
    obtain ⟨before, victim, after, hclock, hchosen, hslot⟩ := hf.chosen hhand
    obtain ⟨evicted, -, heq⟩ := hf.consistent.retain_of_full hcap (hnot hnew) hfull
    refine ⟨before, victim, after, _, hclock, hchosen, ?_, ?_, by rw [heq]⟩
    · have hsize : h.retainer.size = h.retainer.values.length := (List.length_map _).symm
      rw [hslot, hsize]
      exact getElem?_of_rotate hclock
    · rw [heq]
      simp only [values, List.map_set, values_sweep]
  case holds => exact hf.consistent.holds_retain hcap value

theorem capacity_run (h : History α) (requests : List (Request α)) :
    (h.run requests).retainer.capacity = h.retainer.capacity := by
  induction requests generalizing h with
  | nil => rfl
  | cons request requests ih =>
    refine (ih _).trans ?_
    cases request with
    | retain value => exact capacity_retain h.retainer value
    | clear => rfl

/-- **Bounded second chance.** Whatever a retainer was asked for, it is consistent, and what a value
displaces when it is kept is told by what happened before. -/
theorem run_secondChance (capacity : Nat) (requests : List (Request α)) :
    ((start capacity).run requests).retainer = requests.foldl Retainer.answer (.empty capacity) ∧
      ((start capacity).run requests).retainer.capacity = capacity ∧
      ((start capacity).run requests).retainer.Consistent ∧
      (0 < capacity → ∀ value,
        ((start capacity).run requests).SecondChance value
          (((start capacity).run requests).retainer.retain value)) := by
  have hf := (faithful_start (α := α) capacity).run requests
  have hcapacity : ((start capacity : History α).run requests).retainer.capacity = capacity :=
    capacity_run _ _
  exact ⟨retainer_run _ _, hcapacity, hf.consistent, fun hcap value =>
    hf.secondChance (hcap.trans_eq hcapacity.symm) value⟩

section Numbers

/-- Numbers are their own identity. -/
local instance : Identified Nat := ⟨id⟩

/-- Of two values the one that was not kept again leaves, and the hand stands past its slot. -/
theorem run_secondChance_two :
    (0 < 2 ∧ ∀ value : Nat, ((start 2).run [.retain 1, .retain 2, .retain 1]).SecondChance value
      (((start 2).run [.retain 1, .retain 2, .retain 1]).retainer.retain value)) ∧
    (((start 2).run [.retain 1, .retain 2, .retain 1]).retainer.retain 3).values = [1, 3] := by
  refine ⟨⟨by decide, (run_secondChance 2 _).2.2.2 (by decide)⟩, ?_⟩
  have hstop : (sweep [⟨1, true⟩, ⟨2, false⟩] 0).1 = 1 := sweep_fst (by decide)
  show ((sweep [⟨1, true⟩, ⟨2, false⟩] 0).2.set (sweep [⟨1, true⟩, ⟨2, false⟩] 0).1
    ⟨3, false⟩).map Slot.value = [1, 3]
  rw [List.map_set, values_sweep, hstop]
  rfl

end Numbers

end History

end Retainer

end HandleForms
