import HandleForms.Proofs.Draft.Finished

/-!
# Operands of an edited form denote what they were given

Finishing an edit may refuse to answer, but what it answers is right for every edit that places only
names of its own: `Edited.publishes` says that the operands of the answered form, and its result,
denote the names that replacements lead to from the names that they were given, that no name stands
twice, and that the parameters and then the expressions stand in the order of the edit.

By the count of strays, the slots that are left when copies are removed hold every name once, and
exactly the names that were not replaced (`Leaves.mem_iff`). So a redirected operand that is found in
the end was followed to the end of its replacements (`Cleared.found`).
-/

namespace HandleForms

open Relation (ReflTransGen)
open Transaction

namespace Draft

/-! ## What a name denotes -/

/-- A place that held `a` at the start of the edit holds another name, `b`. -/
def Replaces (d : Draft) (a b : Nat) : Prop :=
  ∃ pos : Nat, d.initial[pos]? = some (some a) ∧ d.names[pos]? = some (some b) ∧ a ≠ b

/-- Following replacements from `a` ends at `c`. -/
structure Denotes (d : Draft) (a c : Nat) : Prop where
  reached : ReflTransGen d.Replaces a c
  final : ∀ b, ¬ d.Replaces c b

/-- What a form that comes out of an edit has to do with the draft: `order` are its names, and
`place` says at which position a name of the edit is found. -/
structure Publishes (d : Draft) (given : Option Nat) (order : List Nat) (place : Nat → Nat)
    (g : Form) : Prop where
  /-- No name stands twice. -/
  nodup : order.Nodup
  /-- Exactly the placed names that were not replaced are left. -/
  mem_iff : ∀ a, a ∈ order ↔ some a ∈ d.names ∧ ∀ b, ¬ d.Replaces a b
  /-- Parameters come first, and both sorts of names are in the order of the edit. -/
  sorted : ∃ kept : List Nat, (kept.map some).Sublist d.names ∧
    order = kept.filter (fun a => d.holdsParam (some a)) ++
      kept.filter fun a => !d.holdsParam (some a)
  arity : g.arity = (order.filter fun a => d.holdsParam (some a)).length
  /-- The names of the form are those of the edit with operands turned into positions. -/
  names : List.Forall₂ (fun a n => ∃ m, d.name a = .ok m ∧ n = m.mapArgs place) order g.names
  /-- An operand is found where the name that it denotes stands. -/
  operands : ∀ a ∈ order, ∀ m, d.name a = .ok m → ∀ b ∈ m.operands,
    ∃ c, d.Denotes b c ∧ order[place b]? = some c
  /-- An operand that was never replaced denotes itself. -/
  steady : ∀ a ∈ order, ∀ m, d.name a = .ok m → ∀ b ∈ m.operands, (∀ c, ¬ d.Replaces b c) →
    order[place b]? = some b
  result : g.result = Form.keptResult g.names (given.map place)
  /-- So is the result. -/
  answer : ∀ r, given = some r → ∃ c, d.Denotes r c ∧ order[place r]? = some c

variable {d d' : Draft} {t : Transaction} {size id : Nat} {given : Option Nat} {a b c : Nat}

theorem Shows.replaces_iff (hd : d.Shows t) :
    d.Replaces a b ↔ HandleForms.Replaced t.slots a b := by
  constructor
  · rintro ⟨pos, hinitial, hnames, hne⟩
    rw [hd.initial, List.getElem?_map, Option.map_eq_some_iff] at hinitial
    obtain ⟨s, hs, hwas⟩ := hinitial
    rw [hd.names, List.getElem?_map, hs, Option.map_some] at hnames
    exact ⟨s, List.mem_of_getElem? hs, hwas, Option.some.inj (Option.some.inj hnames), hne⟩
  · rintro ⟨s, hs, hwas, rfl, hne⟩
    obtain ⟨pos, hpos⟩ := List.getElem?_of_mem hs
    exact ⟨pos, by simp [hd.initial, hpos, hwas], by simp [hd.names, hpos], hne⟩

theorem Shows.replaces_eq (hd : d.Shows t) : d.Replaces = HandleForms.Replaced t.slots := by
  funext a b
  exact propext hd.replaces_iff

/-- A name that is not replaced denotes itself and nothing else. -/
theorem Denotes.eq_self (h : d.Denotes a c) (ha : ∀ b, ¬ d.Replaces a b) : c = a := by
  rcases ReflTransGen.cases_head h.reached with heq | ⟨b, hab, -⟩
  · exact heq.symm
  · exact absurd hab (ha b)

/-- Every name denotes one name at most. -/
theorem Denotes.unique (hd : d.Shows t) (ht : t.Tidy size given) (hb : d.Denotes a b)
    (hc : d.Denotes a c) : b = c := by
  have hright : Relator.RightUnique d.Replaces := by
    intro x y z hy hz
    obtain ⟨s, hs, hsx, rfl, -⟩ := hd.replaces_iff.1 hy
    obtain ⟨r, hr, hrx, rfl, -⟩ := hd.replaces_iff.1 hz
    rw [ht.counted.was_unique hs hr hsx hrx]
  rcases ReflTransGen.total_of_right_unique hright hb.reached hc.reached with h | h
  · rcases ReflTransGen.cases_head h with heq | ⟨x, hx, -⟩
    · exact heq
    · exact absurd hx (hb.final x)
  · rcases ReflTransGen.cases_head h with heq | ⟨x, hx, -⟩
    · exact heq.symm
    · exact absurd hx (hc.final x)

/-! ## The slots that are left -/

/-- The slots of an edit after the repair. -/
def entries (t : Transaction) (copy : Nat → Nat) : Entries :=
  t.front.map (fun s => (s, s.now)) ++ t.back.map fun s => (s, copy s.now)

variable {copy : Nat → Nat} {left : Entries}

variable (t copy) in
@[simp] theorem map_fst_entries : (entries t copy).map Prod.fst = t.slots := by
  simp [entries, slots, Function.comp_def]

variable (copy) in
theorem mem_entries_of_mem {s : Slot} (hs : s ∈ t.slots) :
    ∃ e ∈ entries t copy, e.1 = s := by
  have : s ∈ (entries t copy).map Prod.fst := by simpa using hs
  obtain ⟨e, he, rfl⟩ := List.mem_map.1 this
  exact ⟨e, he, rfl⟩

theorem Leaves.mem_slots (h : Leaves t.arena.length t.dups (entries t copy) left) {e : Slot × Nat}
    (he : e ∈ left) : e.1 ∈ t.slots := by
  rw [← map_fst_entries t copy]
  exact List.mem_map_of_mem (h.sublist.subset he)

/-- Once the listed copies are removed, a name of the form has no stray, and a name of the edit has
one if it is placed. -/
theorem Leaves.strays_eq (h : Leaves t.arena.length t.dups (entries t copy) left)
    (ht : t.Tidy size given) (x : Nat) :
    HandleForms.strays (left.map Prod.fst) x =
      if size ≤ x ∧ ∃ s ∈ t.slots, s.now = x then 1 else 0 := by
  have hcount := h.strays x
  rw [map_fst_entries] at hcount
  by_cases hx : size ≤ x
  · by_cases hplaced : ∃ s ∈ t.slots, s.now = x
    · have := ht.counted.strays_eq x hx hplaced
      rw [if_pos ⟨hx, hplaced⟩]
      omega
    · have : HandleForms.strays t.slots x = 0 :=
        strays_eq_zero fun r hr e => hplaced ⟨r, hr, e⟩
      rw [if_neg fun e => hplaced e.2]
      omega
  · have := ht.counted.strays_le x (Nat.not_le.1 hx)
    rw [if_neg fun e => hx e.1]
    omega

/-- No name is left twice. -/
theorem Leaves.nodup (h : Leaves t.arena.length t.dups (entries t copy) left)
    (ht : t.Tidy size given) : (left.map fun e => e.1.now).Nodup := by
  rw [List.nodup_iff_count_le_one]
  intro x
  have hmap : (left.map fun e => e.1.now) = (left.map Prod.fst).map Slot.now := by simp
  have hsub : (left.map Prod.fst).Sublist t.slots := by
    rw [← map_fst_entries t copy]
    exact h.sublist.map _
  have hown := hsub.countP_le (p := fun s => decide (s.now = x ∧ s.was = some x))
  have hone := ht.counted.own_le x
  rw [hmap, count_now, h.strays_eq ht x]
  by_cases hx : size ≤ x
  · rw [if_neg (Nat.not_lt.2 hx)] at hone
    split <;> omega
  · rw [if_neg fun e => hx e.1]
    split at hone <;> omega

/-- Exactly the placed names that were not replaced are left. -/
theorem Leaves.mem_iff (h : Leaves t.arena.length t.dups (entries t copy) left)
    (ht : t.Tidy size given) (x : Nat) :
    x ∈ (left.map fun e => e.1.now) ↔
      (∃ s ∈ t.slots, s.now = x) ∧ ∀ b, ¬ HandleForms.Replaced t.slots x b := by
  constructor
  · intro hx
    obtain ⟨e, he, rfl⟩ := List.mem_map.1 hx
    refine ⟨⟨e.1, h.mem_slots he, rfl⟩, ?_⟩
    rintro b ⟨s, hs, hwas, rfl, hne⟩
    have hlt := ht.counted.was_lt hs hwas
    have hzero := h.strays_eq ht e.1.now
    rw [if_neg fun hle => Nat.not_lt.2 hle.1 hlt, HandleForms.strays, List.countP_eq_zero] at hzero
    have hself := hzero e.1 (List.mem_map_of_mem he)
    have hsame : e.1.was = some e.1.now := by simpa [Slot.Copies] using hself
    -- The slot is the one where the name stood at the start, so nothing took its place.
    obtain rfl := ht.counted.was_unique (h.mem_slots he) hs hsame hwas
    exact hne rfl
  · rintro ⟨⟨s, hs, rfl⟩, hkept⟩
    by_cases hlt : s.now < size
    · obtain ⟨q, hq, hqwas⟩ := ht.counted.exists_was hlt
      have hqnow : q.now = s.now := by
        by_contra hne
        exact hkept q.now ⟨q, hq, hqwas, rfl, fun e => hne e.symm⟩
      obtain ⟨e, he, rfl⟩ := mem_entries_of_mem copy hq
      refine List.mem_map.2 ⟨e, h.own e he ?_, hqnow⟩
      rw [hqwas, hqnow]
    · have hone := h.strays_eq ht s.now
      rw [if_pos ⟨Nat.not_lt.1 hlt, s, hs, rfl⟩] at hone
      have hpos : 0 < HandleForms.strays (left.map Prod.fst) s.now := by omega
      obtain ⟨r, hr, hcopies⟩ := List.countP_pos_iff.1 hpos
      obtain ⟨e, he, rfl⟩ := List.mem_map.1 hr
      exact List.mem_map.2 ⟨e, he, (of_decide_eq_true hcopies).1⟩

variable {d₁ : Draft} {r : Redirects} {pos : Nat}

/-- A name that is left is found under the number of its copy, if it was copied. -/
theorem Leaves.snd_eq (h : Leaves t.arena.length t.dups (entries t copy) left)
    (ht : t.Tidy size given) (hd₁ : Rewrites t pos d₁ r copy) {e : Slot × Nat} (he : e ∈ left) :
    e.2 = copy e.1.now := by
  obtain hfront | hback := List.mem_append.1 (h.sublist.subset he)
  · obtain ⟨s, -, rfl⟩ := List.mem_map.1 hfront
    by_contra hne
    have hmoved : copy s.now ≠ s.now := fun e => hne e.symm
    -- The copied expression is left as well, so its name would stand twice.
    obtain ⟨j, q, -, hq, hqs⟩ := hd₁.moved _ hmoved
    have hq' : (q, copy q.now) ∈ entries t copy :=
      List.mem_append_right _ (List.mem_map_of_mem (List.mem_of_getElem? hq))
    have hleft := h.new _ hq' (hqs ▸ (hd₁.copied _ hmoved).1)
    have heq := List.inj_on_of_nodup_map (h.nodup ht) hleft he hqs
    exact hmoved (hqs ▸ congrArg Prod.snd heq)
  · obtain ⟨s, -, rfl⟩ := List.mem_map.1 hback
    rfl

/-- Replacements lead to names of the edit. -/
theorem lt_of_reaches (ht : t.Tidy size given) {z : Nat} (hb : b < t.arena.length)
    (hbz : ReflTransGen (HandleForms.Replaced t.slots) b z) : z < t.arena.length := by
  rcases ReflTransGen.cases_tail hbz with heq | ⟨x, -, s, hs, -, rfl, -⟩
  · exact heq ▸ hb
  · exact ht.now_lt s hs

/-! ## The edit without copies -/

/-- The edit after its repair and the removal of copies: `kept` are the names that are left, and `copy`
says under which number each of them is found. -/
structure Cleared (t : Transaction) (d : Draft) (copy : Nat → Nat) (kept : List Nat) : Prop where
  nodup : kept.Nodup
  sublist : kept.Sublist (t.slots.map Slot.now)
  mem_iff : ∀ x, x ∈ kept ↔
    (∃ s ∈ t.slots, s.now = x) ∧ ∀ b, ¬ HandleForms.Replaced t.slots x b
  names : d.names = (kept.map copy).map some
  result : d.result = t.result.map copy
  moved : ∀ x, copy x ≠ x → t.arena.length ≤ copy x
  injective : ∀ x y, copy x ≠ x → copy y ≠ y → copy x = copy y → x = y
  /-- Operands were followed along replacements. -/
  content : ∀ x ∈ kept, ∃ n, t.arena[x]? = some n ∧ ∃ F : Nat → Nat,
    d.arena[copy x]? = some (n.mapArgs F) ∧ ∀ b ∈ n.operands,
      ∃ z, Stands copy (F b) z ∧ ReflTransGen (HandleForms.Replaced t.slots) b z

variable {d₂ : Draft} {kept : List Nat}

/-- Copied expressions have new numbers. -/
theorem Rewrites.snd_of_mem_entries (h : Rewrites t pos d₁ r copy) {e : Slot × Nat}
    (he : e ∈ entries t copy) : e.2 = e.1.now ∨ t.arena.length ≤ e.2 := by
  obtain he | he := List.mem_append.1 he <;> obtain ⟨s, -, rfl⟩ := List.mem_map.1 he
  · exact .inl rfl
  · by_cases hmoved : copy s.now = s.now
    · exact .inl hmoved
    · exact .inr (h.copied _ hmoved).1

/-- Only names of the edit are copied over others. -/
theorem dups_lt (ht : t.Tidy size given) {x : Nat} (hx : x ∈ t.dups) : x < t.arena.length := by
  by_cases hlt : x < size
  · exact Nat.lt_of_lt_of_le hlt ht.size_le
  · obtain ⟨s, hs, rfl⟩ := ht.counted.placed x hx (Nat.not_lt.1 hlt)
    exact ht.now_lt s hs

/-- Removing copies after a repair. -/
theorem Rewrites.cleared (h : Rewrites t pos d₁ r copy) (ht : t.Tidy size given)
    (hclear : { d₁ with editing := false }.clearDuplicates = .ok d₂) :
    ∃ kept, Cleared t d₂ copy kept := by
  have hholding : Holding { d₁ with editing := false } ((entries t copy).map some) := by
    constructor
    · simp [h.names, entries, Function.comp_def]
    · simp [h.initial, entries, slots, Function.comp_def]
  have hentries : ∀ e, some e ∈ (entries t copy).map some →
      e.2 = e.1.now ∨ t.arena.length ≤ e.2 := by
    intro e he
    obtain ⟨e', he', heq⟩ := List.mem_map.1 he
    exact Option.some.inj heq ▸ h.snd_of_mem_entries he'
  obtain ⟨left, hleaves, hnames, harena, hresult⟩ := hholding.of_clearDuplicates
    (fun x hx => dups_lt ht (h.dups ▸ hx)) hentries hclear
  rw [h.dups, List.filterMap_map, Function.comp_def, List.filterMap_some] at hleaves
  refine ⟨left.map fun e => e.1.now, ?_⟩
  constructor
  case nodup => exact hleaves.nodup ht
  case sublist =>
    have hsub := hleaves.sublist.map fun e => e.1.now
    have hall : (entries t copy).map (fun e => e.1.now) = t.slots.map Slot.now := by
      simp [entries, slots, Function.comp_def]
    rwa [hall] at hsub
  case mem_iff => exact hleaves.mem_iff ht
  case names =>
    rw [hnames, List.map_map, List.map_map]
    exact List.map_congr_left fun e he => congrArg some (hleaves.snd_eq ht h he)
  case result => exact hresult.trans h.result
  case moved => exact fun x hx => (h.copied x hx).1
  case injective => exact h.injective
  case content =>
    intro x hx
    obtain ⟨e, he, rfl⟩ := List.mem_map.1 hx
    have hn := List.getElem?_eq_getElem (ht.now_lt _ (hleaves.mem_slots he))
    refine ⟨_, hn, ?_⟩
    rw [harena]
    by_cases hmoved : copy e.1.now = e.1.now
    · refine ⟨fun b => b, ?_, fun b _ => ⟨b, .inl rfl, .refl⟩⟩
      rw [hmoved, Name.mapArgs_id, ← Array.getElem?_toList]
      exact getElem?_of_isPrefix h.arena hn
    · obtain ⟨-, r', hr', hget⟩ := h.copied _ hmoved
      rw [nameOf_eq hn] at hget
      rw [← Array.getElem?_toList]
      exact ⟨_, hget, fun b _ => hr'.follow (fun a ha => (h.copied a ha).1) _ b⟩

namespace Cleared

theorem lt (h : Cleared t d₂ copy kept) {x : Nat} (hx : x ∈ kept) : x < t.arena.length := by
  obtain ⟨n, hn, -⟩ := h.content x hx
  exact (List.getElem?_eq_some_iff.1 hn).1

/-- A number below the old ones is that of one name only. -/
theorem eq_of_copy_eq (h : Cleared t d₂ copy kept) {x y : Nat} (hx : x < t.arena.length)
    (hy : y < t.arena.length) (heq : copy x = copy y) : x = y := by
  by_cases hxm : copy x = x <;> by_cases hym : copy y = y
  · exact hxm.symm.trans (heq.trans hym)
  · have := h.moved y hym
    omega
  · have := h.moved x hxm
    omega
  · exact h.injective x y hxm hym heq

/-- A number that stands for what a name was replaced by, and is found in the end, is that of the name
that is denoted. -/
theorem found (h : Cleared t d₂ copy kept) (hd : d.Shows t) {y z : Nat} (hz : z < t.arena.length)
    (hyz : Stands copy y z) (hbz : ReflTransGen (HandleForms.Replaced t.slots) b z)
    (hy : y ∈ kept.map copy) : d.Denotes b z ∧ z ∈ kept ∧ y = copy z := by
  obtain ⟨x, hx, rfl⟩ := List.mem_map.1 hy
  have hlt := h.lt hx
  have hxz : x = z := by
    rcases hyz with hyz | hyz
    · by_cases hmoved : copy x = x
      · exact hmoved.symm.trans hyz
      · have := h.moved x hmoved
        omega
    · exact h.eq_of_copy_eq hlt hz hyz
  subst hxz
  refine ⟨⟨hd.replaces_eq ▸ hbz, fun c hc => ?_⟩, hx, rfl⟩
  exact ((h.mem_iff x).1 hx).2 c (hd.replaces_iff.1 hc)

theorem mem_iff_names (h : Cleared t d₂ copy kept) (hd : d.Shows t) (x : Nat) :
    x ∈ kept ↔ some x ∈ d.names ∧ ∀ b, ¬ d.Replaces x b := by
  rw [h.mem_iff, hd.replaces_eq, hd.names, List.mem_map]
  simp

/-- Copying an expression leaves a parameter a parameter. -/
theorem holdsParam_copy (h : Cleared t d₂ copy kept) (hd : d.Shows t) {x : Nat} (hx : x ∈ kept) :
    d₂.holdsParam (some (copy x)) = d.holdsParam (some x) := by
  obtain ⟨n, hn, F, hget, -⟩ := h.content x hx
  have hget' : d.arena[x]? = some n := by rw [← Array.getElem?_toList, hd.arena, hn]
  simp [Draft.holdsParam, hget, hget']

/-- The names in their final order, under the numbers of the edit. -/
theorem sorted (h : Cleared t d₂ copy kept) (hd : d.Shows t)
    (hcheck : d₂.partitionParameters.checkArity = .ok ()) :
    ∃ order : List Nat, order = (kept.filter fun x => d.holdsParam (some x)) ++
        (kept.filter fun x => !d.holdsParam (some x)) ∧
      d₂.partitionParameters.names = (order.map copy).map some ∧
      d₂.partitionParameters.arena = d₂.arena ∧ d₂.partitionParameters.result = d₂.result ∧
      (order.filter fun x => d.holdsParam (some x)).length =
        min d₂.partitionParameters.arity order.length := by
  obtain ⟨names, hnames, harena, hresult, hsorted, harity⟩ := sorted_of_checkArity h.names hcheck
  have hfilter : ∀ p q : Nat → Bool, (∀ x ∈ kept, p (copy x) = q x) →
      (kept.map copy).filter p = (kept.filter q).map copy := by
    intro p q hpq
    rw [List.filter_map]
    exact congrArg _ (List.filter_congr hpq)
  rw [hfilter _ (fun x => d.holdsParam (some x)) fun x hx => h.holdsParam_copy hd hx]
    at hsorted harity
  rw [hfilter _ (fun x => !d.holdsParam (some x)) fun x hx => by rw [h.holdsParam_copy hd hx],
    ← List.map_append] at hsorted
  subst hsorted
  refine ⟨_, rfl, hnames, harena, hresult, ?_⟩
  rw [List.length_map, List.length_map] at harity
  rw [List.filter_append, List.filter_filter, List.filter_filter, ← harity]
  simp

end Cleared

/-! ## The form -/

/-- Where a name of an order is found under its number after the repair. -/
theorem getElem?_idxOf_copy {order : List Nat} (hnodup : (order.map copy).Nodup) {x : Nat}
    (hx : x ∈ order) : order[(order.map copy).idxOf (copy x)]? = some x := by
  obtain ⟨i, hi⟩ := List.getElem?_of_mem hx
  obtain ⟨hlt, hget⟩ := List.getElem?_eq_some_iff.1 hi
  have hidx := hnodup.idxOf_getElem i (by simpa using hlt)
  rw [List.getElem_map, hget] at hidx
  rw [hidx, hi]

/-- Names have one place each: the one where the name that they denote is found. -/
theorem exists_place (hd : d.Shows t) (ht : t.Tidy size given) (order : List Nat)
    (f : Nat → Nat) :
    ∃ place : Nat → Nat, ∀ b, ∀ z ∈ order, d.Denotes b z → place b = f z := by
  have hchoice : ∀ b, ∃ pos : Nat, ∀ z ∈ order, d.Denotes b z → pos = f z := by
    intro b
    by_cases hb : ∃ z ∈ order, d.Denotes b z
    · obtain ⟨z, -, hz⟩ := hb
      exact ⟨_, fun z' _ hz' => by rw [Denotes.unique hd ht hz' hz]⟩
    · exact ⟨0, fun z hz hbz => absurd ⟨z, hz, hbz⟩ hb⟩
  exact ⟨fun b => (hchoice b).choose, fun b => (hchoice b).choose_spec⟩

/-- Operands that were published are those that the operands of the edit denote. -/
theorem Cleared.operands (h : Cleared t d₂ copy kept) (hd : d.Shows t) (ht : t.Tidy size given)
    {ids : List Nat} (hsub : ids ⊆ kept.map copy)
    (hknown : ∀ (i : Nat) a, ids[i]? = some a →
      ∃ m, d₂.arena[a]? = some m ∧ ∀ b ∈ m.operands, b ∈ ids.take i)
    {x : Nat} (hx : x ∈ kept) (hids : copy x ∈ ids) :
    ∃ n, d.name x = .ok n ∧ ∃ F : Nat → Nat, d₂.arena[copy x]? = some (n.mapArgs F) ∧
      ∀ b ∈ n.operands, ∃ z ∈ kept, d.Denotes b z ∧ F b = copy z := by
  obtain ⟨n, hn, F, hget, hF⟩ := h.content x hx
  refine ⟨n, hd.name hn, F, hget, fun b hb => ?_⟩
  obtain ⟨z, hz, hbz⟩ := hF b hb
  obtain ⟨i, hi⟩ := List.getElem?_of_mem hids
  obtain ⟨m, hm, hbefore⟩ := hknown i _ hi
  obtain rfl : n.mapArgs F = m := Option.some.inj (hget.symm.trans hm)
  have hFb : F b ∈ ids := List.mem_of_mem_take (hbefore _ (by simpa using ⟨b, hb, rfl⟩))
  have hblt := ht.operand_lt n (List.mem_of_getElem? hn) b hb
  obtain ⟨hdenotes, hzkept, heq⟩ := h.found hd (lt_of_reaches ht hblt hbz) hz hbz (hsub hFb)
  exact ⟨z, hzkept, hdenotes, heq⟩

/-- What an edit that places only names of its own is answered with denotes what it was given. -/
theorem Edited.publishes {f g : Form} {i : Nat} (hf : f.WellFormed) (h : Edited f given d)
    (hfinish : d.finish i = .ok g) : ∃ order place, d.Publishes given order place g := by
  obtain ⟨t, ht, hd⟩ := h.tidy hf
  unfold Draft.finish at hfinish
  rw [if_neg (by simp [hd.editing])] at hfinish
  obtain ⟨d₁, hrepair, hfinish⟩ := bind_eq_ok_iff.1 hfinish
  obtain ⟨d₂, hclear, hfinish⟩ := bind_eq_ok_iff.1 hfinish
  obtain ⟨hcheck, hpublish⟩ := bind_unit_eq_ok_iff.1 hfinish
  obtain ⟨-, r, copy, hd₁⟩ := hd.rewrites ht hrepair
  obtain ⟨kept, hkept⟩ := hd₁.cleared ht hclear
  obtain ⟨order, horder, hnames, harena, hresult, harity⟩ := hkept.sorted hd hcheck
  have hperm : order.Perm kept := horder ▸ List.filter_append_perm _ _
  have hnodup : (order.map copy).Nodup := by
    refine (hperm.nodup_iff.2 hkept.nodup).map_on fun x hx y hy => ?_
    exact hkept.eq_of_copy_eq (hkept.lt (hperm.subset hx)) (hkept.lt (hperm.subset hy))
  obtain ⟨hknown, hplaced, hassemble⟩ := of_publish hnames hnodup hpublish
  obtain ⟨hg, rfl⟩ := Form.assemble_eq_ok_iff.1 hassemble
  -- The position of a name is that of the name that it denotes.
  have hindex : ∀ x ∈ order, order[(order.map copy).idxOf (copy x)]? = some x := fun x hx =>
    getElem?_idxOf_copy hnodup hx
  obtain ⟨place, hplace⟩ :=
    exists_place hd ht order fun z => (order.map copy).idxOf (copy z)
  have hknown₂ : ∀ (i : Nat) a, (order.map copy)[i]? = some a →
      ∃ m, d₂.arena[a]? = some m ∧ ∀ b ∈ m.operands, b ∈ (order.map copy).take i := by
    intro i a hi
    obtain ⟨m, hm, hbefore⟩ := hknown i a hi
    have hget := name_eq_ok_iff.1 hm
    rw [Array.getElem?_toList, harena] at hget
    exact ⟨m, hget, hbefore⟩
  have hoperands : ∀ x ∈ order, ∃ n, d.name x = .ok n ∧ ∃ F : Nat → Nat,
      d₂.arena[copy x]? = some (n.mapArgs F) ∧ ∀ b ∈ n.operands,
        ∃ z ∈ order, d.Denotes b z ∧ F b = copy z := by
    intro x hx
    obtain ⟨n, hn, F, hget, hF⟩ := hkept.operands hd ht (hperm.map copy).subset hknown₂
      (hperm.subset hx) (List.mem_map_of_mem hx)
    refine ⟨n, hn, F, hget, fun b hb => ?_⟩
    obtain ⟨z, hz, hbz⟩ := hF b hb
    exact ⟨z, hperm.symm.subset hz, hbz⟩
  have hdenoted : ∀ x ∈ order, ∀ m, d.name x = .ok m → ∀ b ∈ m.operands,
      ∃ c, d.Denotes b c ∧ order[place b]? = some c := by
    intro x hx m hm b hb
    obtain ⟨n, hn, F, -, hF⟩ := hoperands x hx
    obtain rfl : n = m := Except.ok.inj (hn.symm.trans hm)
    obtain ⟨z, hz, hbz, -⟩ := hF b hb
    exact ⟨z, hbz, by rw [hplace b z hz hbz, hindex z hz]⟩
  have hanswer : (d₂.partitionParameters.result.map fun b => (order.map copy).idxOf b) =
      given.map place ∧ ∀ ρ, given = some ρ → ∃ c, d.Denotes ρ c ∧ order[place ρ]? = some c := by
    have hanswered := ht.answered
    rw [hresult, hkept.result] at hplaced ⊢
    cases hρ : t.result with
    | none =>
      rw [hρ] at hanswered
      cases hanswered
      exact ⟨rfl, nofun⟩
    | some ρ =>
      rw [hρ] at hanswered hplaced
      cases hanswered with
      | @some asked _ hreach =>
        obtain ⟨hdenotes, hρkept, -⟩ := hkept.found hd (ht.result_lt ρ hρ) (.inr rfl) hreach
          ((hperm.map copy).subset (hplaced _ rfl))
        have hρorder := hperm.symm.subset hρkept
        have hpos := hplace asked ρ hρorder hdenotes
        refine ⟨by simp [hpos], fun x hx => ?_⟩
        obtain rfl := Option.some.inj hx
        exact ⟨ρ, hdenotes, by rw [hpos, hindex ρ hρorder]⟩
  refine ⟨order, place, ?_⟩
  constructor
  case nodup => exact hperm.nodup_iff.2 hkept.nodup
  case mem_iff => exact fun a => hperm.mem_iff.trans (hkept.mem_iff_names hd a)
  case sorted =>
    refine ⟨kept, ?_, horder⟩
    rw [hd.names]
    simpa [Function.comp_def] using hkept.sublist.map some
  case arity =>
    have hle := hg.arity_le
    simp only [Form.size, List.length_map] at hle
    rw [harity, Nat.min_eq_left hle]
  case names =>
    show List.Forall₂ _ order ((order.map copy).map _)
    rw [List.map_map, List.forall₂_map_right_iff, List.forall₂_same]
    intro x hx
    obtain ⟨n, hn, F, hget, hF⟩ := hoperands x hx
    refine ⟨n, hn, ?_⟩
    rw [Function.comp_apply, harena, hget, Option.getD_some, Name.mapArgs_mapArgs]
    refine Name.mapArgs_congr fun b hb => ?_
    obtain ⟨z, hz, hbz, heq⟩ := hF b hb
    rw [heq, hplace b z hz hbz]
  case operands => exact hdenoted
  case steady =>
    intro x hx m hm b hb hkeep
    obtain ⟨c, hc, hpos⟩ := hdenoted x hx m hm b hb
    rw [hpos, hc.eq_self hkeep]
  case result => exact congrArg (Form.keptResult _) hanswer.1
  case answer => exact hanswer.2

/-- A form that adds its arguments. -/
def addition : Form :=
  ⟨0, 3, [.param .ref, .param .long, .param .long,
    .apply (.external "add" ⟨[.long, .long], .long, by decide, by decide⟩) [.name 1, .name 2]],
    some 3, .generic⟩

/-- The first argument of an addition is computed from a parameter that is inserted. -/
theorem Edited.publishes_addition : ∃ d g order place, Edited addition (some 3) d ∧
    d.finish 1 = .ok g ∧ g.arity = 3 ∧ d.Publishes (some 3) order place g := by
  have hf : addition.WellFormed := Form.defect?_eq_none_iff.1 (by decide +kernel)
  have hstart : Edited addition (some 3) _ := .start rfl
  have halloc := hstart.step (.alloc (.param .long)) (by decide +kernel) rfl
  have hinsert := halloc.step (.insertParameter 1 4) (by decide +kernel) rfl
  have hcall := hinsert.step
    (.alloc (.apply (.external "twice" ⟨[.long], .long, by decide, by decide⟩) [.name 4]))
    (by decide +kernel) rfl
  have hreplace := hcall.step (.replaceByExpression 2 5) (by decide +kernel) rfl
  obtain ⟨order, place, h⟩ := Edited.publishes (i := 1) hf hreplace rfl
  exact ⟨_, _, order, place, hreplace, rfl, rfl, h⟩

end Draft

end HandleForms
