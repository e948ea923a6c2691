import HandleForms.Proofs.Draft.Tidy
import HandleForms.Proofs.Association

/-!
# What a repair does to any edit

`Shows.repair` computes the repair of an edit whose operands are known to stand in front of the names
that refer to them. This module looks at the repair of any edit that is tidy, and says less of it: an
expression keeps its number or is copied under a new one, and the operands of a copy were followed
through redirects all of which lead from a name to its replacement, or to the copy of its replacement
(`Rewrites`, `Redirects.Sound`). That is enough once the edit is published, since only names that were
not replaced any more can then be found.
-/

namespace HandleForms

open Relation (ReflTransGen)
open Transaction

namespace Draft

/-- `y` is the name `z`, or the copy that was made of it. -/
def Stands (copy : Nat → Nat) (y z : Nat) : Prop := y = z ∨ y = copy z

/-- Every redirect leads from a name to one that stands for it or for its replacement. -/
def Redirects.Sound (t : Transaction) (copy : Nat → Nat) (r : Redirects) : Prop :=
  ∀ p ∈ r, p.1 < t.arena.length ∧
    ∃ z, Stands copy p.2 z ∧ (p.1 = z ∨ HandleForms.Replaced t.slots p.1 z)

/-- The repair has looked at the slots below `pos`, and `copy` says under which number each
expression is found. -/
structure Rewrites (t : Transaction) (pos : Nat) (d : Draft) (r : Redirects) (copy : Nat → Nat) :
    Prop where
  names : d.names = t.front.map (fun s => some s.now) ++ t.back.map fun s => some (copy s.now)
  initial : d.initial = t.slots.map Slot.was
  arity : d.arity = t.front.length
  arena : t.arena <+: d.arena.toList
  result : d.result = t.result.map copy
  dups : d.dups = t.dups
  sound : r.Sound t copy
  /-- Only expressions that were looked at are copied. -/
  moved : ∀ a, copy a ≠ a → ∃ (j : Nat) (s : Slot),
    t.front.length + j < pos ∧ t.back[j]? = some s ∧ s.now = a
  /-- A copy is new, and its operands were redirected. -/
  copied : ∀ a, copy a ≠ a → t.arena.length ≤ copy a ∧ ∃ r' : Redirects, r'.Sound t copy ∧
    d.arena.toList[copy a]? = some ((t.nameOf a).mapArgs r'.resolve)
  injective : ∀ a b, copy a ≠ a → copy b ≠ b → copy a = copy b → a = b

variable {t : Transaction} {d d' : Draft} {r r' : Redirects} {copy copy' : Nat → Nat}
  {pos size : Nat} {given : Option Nat} {s : Slot}

/-! ## Sound redirects -/

theorem Redirects.Sound.mono (h : r.Sound t copy) (hcopy : ∀ z, copy z ≠ z → copy' z = copy z) :
    r.Sound t copy' := by
  intro p hp
  obtain ⟨hlt, z, hz, hpz⟩ := h p hp
  refine ⟨hlt, z, ?_, hpz⟩
  rcases hz with hz | hz
  · exact .inl hz
  · by_cases hmoved : copy z = z
    · exact .inl (hz.trans hmoved)
    · exact .inr (hz.trans (hcopy z hmoved).symm)

theorem Redirects.Sound.cons {p : Nat × Nat} (h : r.Sound t copy) (hlt : p.1 < t.arena.length)
    {z : Nat} (hz : Stands copy p.2 z) (hpz : p.1 = z ∨ HandleForms.Replaced t.slots p.1 z) :
    Redirects.Sound t copy (p :: r) := by
  intro q hq
  rcases List.mem_cons.1 hq with rfl | hq
  · exact ⟨hlt, z, hz, hpz⟩
  · exact h q hq

/-- Sound redirects lead along replacements. -/
theorem Redirects.Sound.follow (h : r.Sound t copy)
    (hcopy : ∀ a, copy a ≠ a → t.arena.length ≤ copy a) (fuel b : Nat) :
    ∃ z, Stands copy (r.follow fuel b) z ∧ ReflTransGen (HandleForms.Replaced t.slots) b z := by
  induction fuel generalizing b with
  | zero => exact ⟨b, .inl rfl, .refl⟩
  | succ fuel ih =>
    cases hb : r.lookup b with
    | none => exact ⟨b, .inl (Redirects.follow_of_lookup_none hb _), .refl⟩
    | some y =>
      have hstep : r.follow (fuel + 1) b = r.follow fuel y := by simp [Redirects.follow, hb]
      obtain ⟨-, z, hyz, hbz⟩ := h _ (TypeForms.mem_of_lookup hb)
      have hreach : ReflTransGen (HandleForms.Replaced t.slots) b z := by
        rcases hbz with hbz | hbz
        · exact hbz ▸ .refl
        · exact .single hbz
      rw [hstep]
      by_cases hyz' : y = z
      · subst hyz'
        obtain ⟨w, hw, hzw⟩ := ih y
        exact ⟨w, hw, hreach.trans hzw⟩
      · -- A copy is never redirected.
        have hycopy : y = copy z := hyz.resolve_left hyz'
        have hnew : t.arena.length ≤ y := hycopy ▸ hcopy z (hycopy ▸ hyz')
        have hnone : r.lookup y = none := Redirects.lookup_eq_none_of_forall fun p hp e => by
          have := (h p hp).1
          omega
        rw [Redirects.follow_of_lookup_none hnone]
        exact ⟨z, hyz, hreach⟩

/-! ## The loop -/

theorem Rewrites.start (hd : d.Shows t) : Rewrites t d.firstChange d [] (fun a => a) := by
  constructor
  case names => simp [hd.names, slots]
  case initial => exact hd.initial
  case arity => exact hd.arity
  case arena => simp [hd.arena]
  case result => simp [hd.result]
  case dups => exact hd.dups
  case sound => exact fun p hp => by cases hp
  case moved => exact fun a ha => absurd rfl ha
  case copied => exact fun a ha => absurd rfl ha
  case injective => exact fun a b ha => absurd rfl ha

/-- Slots that are passed without a copy only add to what was looked at. -/
theorem Rewrites.pass (h : Rewrites t pos d r copy) (hr : r'.Sound t copy) :
    Rewrites t (pos + 1) d r' copy := by
  refine { h with sound := hr, moved := fun a ha => ?_ }
  obtain ⟨j, s, hj, hs⟩ := h.moved a ha
  exact ⟨j, s, by omega, hs⟩

/-- The expression at the next place was not copied yet. -/
theorem Rewrites.copy_eq (h : Rewrites t pos d r copy) (ht : t.Tidy size given) {j : Nat}
    (hj : pos = t.front.length + j) (hs : t.back[j]? = some s) : copy s.now = s.now := by
  by_contra hmoved
  obtain ⟨i, q, hi, hq, hqs⟩ := h.moved _ hmoved
  have hi' : (t.back.map Slot.now)[i]? = some s.now := by simp [hq, hqs]
  have hj' : (t.back.map Slot.now)[j]? = some s.now := by simp [hs]
  have hlt := (List.getElem?_eq_some_iff.1 hi').1
  have := (List.getElem?_inj hlt ht.back_nodup).1 (hi'.trans hj'.symm)
  omega

/-- What is noted for the name in a slot and the one that it took the place of. -/
theorem Redirects.Sound.note (h : r.Sound t copy) (ht : t.Tidy size given) (hs : s ∈ t.slots)
    {old current : Nat} (hold : s.was = some old) (hcurrent : Stands copy current s.now) :
    Redirects.Sound t copy (if old = current then r else (old, current) :: r) := by
  split
  · exact h
  · refine h.cons (Nat.lt_of_lt_of_le (ht.counted.was_lt hs hold) ht.size_le) hcurrent ?_
    by_cases heq : old = s.now
    · exact .inl heq
    · exact .inr ⟨s, hs, hold, rfl, heq⟩

/-- An expression is copied under the next number. -/
theorem Rewrites.move (h : Rewrites t pos d r copy) (ht : t.Tidy size given) {j : Nat}
    (hj : pos = t.front.length + j) (hs : t.back[j]? = some s) :
    Rewrites t (pos + 1)
      { d with
        arena := d.arena.push ((t.nameOf s.now).mapArgs r.resolve)
        names := d.names.set pos (some d.arena.size)
        result := if d.result = some s.now then some d.arena.size else d.result }
      ((s.now, d.arena.size) :: r) (Function.update copy s.now d.arena.size) := by
  have hmem : s ∈ t.slots := List.mem_append_right _ (List.mem_of_getElem? hs)
  have hnow := ht.now_lt s hmem
  have hself := h.copy_eq ht hj hs
  have hlarge : t.arena.length ≤ d.arena.size := by simpa using h.arena.length_le
  have hkeep : ∀ z, copy z ≠ z → Function.update copy s.now d.arena.size z = copy z := by
    intro z hz
    refine Function.update_of_ne ?_ _ _
    rintro rfl
    exact hz hself
  have hupdate : ∀ z, z ≠ s.now → Function.update copy s.now d.arena.size z = copy z :=
    fun z hz => Function.update_of_ne hz _ _
  have hhere : Function.update copy s.now d.arena.size s.now = d.arena.size :=
    Function.update_self _ _ _
  have hfound : ∀ a, copy a ≠ a → copy a < d.arena.size := by
    intro a ha
    obtain ⟨-, r', -, hget⟩ := h.copied a ha
    simpa using (List.getElem?_eq_some_iff.1 hget).1
  constructor
  case names =>
    have hfront : (t.front.map fun s => some s.now).length = t.front.length := List.length_map _
    show d.names.set pos (some d.arena.size) = _
    rw [h.names, hj, List.set_append_right _ _ (by simp)]
    congr 1
    refine List.ext_getElem? fun i => ?_
    rw [List.getElem?_set, hfront, Nat.add_sub_cancel_left, List.length_map, List.getElem?_map,
      List.getElem?_map]
    split
    · next hij =>
      subst hij
      rw [if_pos (List.getElem?_eq_some_iff.1 hs).1, hs, Option.map_some, hhere]
    · next hij =>
      cases hq : t.back[i]? with
      | none => rfl
      | some q =>
        -- The names of expressions differ, so only this one is copied now.
        have hne : q.now ≠ s.now := by
          intro e
          refine hij ?_
          have hi' : (t.back.map Slot.now)[i]? = some s.now := by simp [hq, e]
          have hj' : (t.back.map Slot.now)[j]? = some s.now := by simp [hs]
          exact (List.getElem?_inj (List.getElem?_eq_some_iff.1 hj').1 ht.back_nodup).1
            (hj'.trans hi'.symm)
        simp [hupdate _ hne]
  case initial => exact h.initial
  case arity => exact h.arity
  case arena => exact h.arena.trans (by simp)
  case result =>
    show (if d.result = some s.now then some d.arena.size else d.result) = _
    rw [h.result]
    cases hρ : t.result with
    | none => rfl
    | some ρ =>
      by_cases heq : ρ = s.now
      · simp [heq, hself]
      · have hne : copy ρ ≠ s.now := by
          intro e
          by_cases hmoved : copy ρ = ρ
          · exact heq (hmoved.symm.trans e)
          · have := (h.copied ρ hmoved).1
            omega
        simp [hne, hupdate _ heq]
  case dups => exact h.dups
  case sound => exact (h.sound.mono hkeep).cons hnow (.inr hhere.symm) (.inl rfl)
  case moved =>
    intro a ha
    by_cases has : a = s.now
    · exact ⟨j, s, by omega, hs, has.symm⟩
    · rw [hupdate a has] at ha
      obtain ⟨i, q, hi, hq⟩ := h.moved a ha
      exact ⟨i, q, by omega, hq⟩
  case copied =>
    intro a ha
    by_cases has : a = s.now
    · subst has
      rw [hhere]
      exact ⟨hlarge, r, h.sound.mono hkeep, by simp⟩
    · rw [hupdate a has] at ha ⊢
      obtain ⟨hle, r', hr', hget⟩ := h.copied a ha
      refine ⟨hle, r', hr'.mono hkeep, ?_⟩
      have hlt := (List.getElem?_eq_some_iff.1 hget).1
      show (d.arena.push _).toList[copy a]? = _
      rw [Array.toList_push, List.getElem?_append_left hlt, hget]
  case injective =>
    intro a b ha hb hab
    by_cases has : a = s.now <;> by_cases hbs : b = s.now
    · exact has.trans hbs.symm
    · rw [has, hhere, hupdate b hbs] at hab
      rw [hupdate b hbs] at hb
      have := hfound b hb
      omega
    · rw [hbs, hhere, hupdate a has] at hab
      rw [hupdate a has] at ha
      have := hfound a ha
      omega
    · rw [hupdate a has] at ha hab
      rw [hupdate b hbs] at hb hab
      exact h.injective a b ha hb hab

/-- One step of the repair. -/
theorem Rewrites.repairAt (h : Rewrites t pos d r copy) (ht : t.Tidy size given)
    (hrun : d.repairAt r pos = .ok (d', r')) :
    d'.firstChange = d.firstChange ∧ ∃ copy', Rewrites t (pos + 1) d' r' copy' := by
  cases hplace : t.slots[pos]? with
  | none =>
    have hnames : d.names[pos]? = none := by
      rw [List.getElem?_eq_none_iff] at hplace ⊢
      simpa [h.names, slots] using hplace
    simp only [Draft.repairAt, hnames] at hrun
    obtain ⟨rfl, rfl⟩ := Prod.mk.inj (Except.ok.inj hrun)
    exact ⟨rfl, copy, h.pass h.sound⟩
  | some s =>
    have hmem := List.mem_of_getElem? hplace
    have hwas : d.initial[pos]? = some s.was := by simp [h.initial, hplace]
    -- Parameters are in front; the name of an expression was not copied before.
    have hnames : d.names[pos]? = some (some s.now) := by
      rw [h.names]
      by_cases hlt : pos < t.front.length
      · rw [slots, List.getElem?_append_left hlt] at hplace
        rw [List.getElem?_append_left (by simpa using hlt), List.getElem?_map, hplace]
        rfl
      · have hle := Nat.not_lt.1 hlt
        rw [slots, List.getElem?_append_right hle] at hplace
        have hcopy := h.copy_eq ht (by omega) hplace
        rw [List.getElem?_append_right (by simpa using hle)]
        simp [hplace, hcopy]
    obtain ⟨n, hn⟩ : ∃ n, t.arena[s.now]? = some n :=
      ⟨_, List.getElem?_eq_getElem (ht.now_lt s hmem)⟩
    have hname : d.name s.now = .ok n := name_eq_ok_iff.2 (getElem?_of_isPrefix h.arena hn)
    simp only [Draft.repairAt, hnames, hname, ok_bind] at hrun
    split at hrun
    · cases hrun
    by_cases hmove : d.arity ≤ pos ∧ (!r.isEmpty) = true ∧ n.movedBy r.resolve = true
    · simp only [if_pos hmove, Draft.alloc, hwas] at hrun
      have hle : t.front.length ≤ pos := h.arity ▸ hmove.1
      rw [slots, List.getElem?_append_right hle] at hplace
      have hnext := h.move ht (by omega : pos = t.front.length + (pos - t.front.length)) hplace
      rw [nameOf_eq hn] at hnext
      cases hs : s.was with
      | none =>
        rw [hs] at hrun
        obtain ⟨rfl, rfl⟩ := Prod.mk.inj (Except.ok.inj hrun)
        exact ⟨rfl, _, hnext⟩
      | some old =>
        rw [hs] at hrun
        obtain ⟨rfl, rfl⟩ := Prod.mk.inj (Except.ok.inj hrun)
        exact ⟨rfl, _, { hnext with
          sound := hnext.sound.note ht hmem hs (.inr (by simp)) }⟩
    · simp only [if_neg hmove, hwas] at hrun
      cases hs : s.was with
      | none =>
        rw [hs] at hrun
        obtain ⟨rfl, rfl⟩ := Prod.mk.inj (Except.ok.inj hrun)
        exact ⟨rfl, copy, h.pass h.sound⟩
      | some old =>
        rw [hs] at hrun
        obtain ⟨rfl, rfl⟩ := Prod.mk.inj (Except.ok.inj hrun)
        exact ⟨rfl, copy, h.pass (h.sound.note ht hmem hs (.inl rfl))⟩

/-- The loop of the repair. -/
theorem Rewrites.repairFrom (ht : t.Tidy size given) {count : Nat} :
    ∀ {pos : Nat} {d : Draft} {r : Redirects} {copy : Nat → Nat}, Rewrites t pos d r copy →
      (List.range' pos count).foldlM
        (fun (state : Draft × Redirects) pos => state.1.repairAt state.2 pos) (d, r) =
          .ok (d', r') →
      d'.firstChange = d.firstChange ∧ ∃ copy', Rewrites t (pos + count) d' r' copy' := by
  induction count with
  | zero =>
    intro pos d r copy h hrun
    obtain ⟨rfl, rfl⟩ := Prod.mk.inj (Except.ok.inj hrun)
    exact ⟨rfl, copy, h⟩
  | succ count ih =>
    intro pos d r copy h hrun
    rw [List.range'_succ, List.foldlM_cons] at hrun
    obtain ⟨⟨d₁, r₁⟩, h₁, hrun⟩ := bind_eq_ok_iff.1 hrun
    obtain ⟨hfirst, copy₁, hnext⟩ := h.repairAt ht h₁
    obtain ⟨hfirst', copy', hd'⟩ := ih hnext hrun
    refine ⟨hfirst'.trans hfirst, copy', ?_⟩
    rwa [Nat.add_right_comm, Nat.add_assoc] at hd'

/-- A repair that went through copied some expressions and redirected their operands. -/
theorem Shows.rewrites (hd : d.Shows t) (ht : t.Tidy size given) (hrun : d.repair = .ok d') :
    d'.firstChange = d.firstChange ∧
      ∃ r copy, Rewrites t (d.firstChange + (d.names.length - d.firstChange)) d' r copy := by
  obtain ⟨⟨d₁, r⟩, h₁, hrun⟩ := bind_eq_ok_iff.1 hrun
  obtain rfl := Except.ok.inj hrun
  obtain ⟨hfirst, copy, h⟩ := (Rewrites.start hd).repairFrom ht h₁
  exact ⟨hfirst, r, copy, h⟩

end Draft

end HandleForms
