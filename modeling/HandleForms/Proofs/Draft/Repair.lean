import HandleForms.Proofs.Draft.Transaction
import HandleForms.Proofs.Form.Operands

/-!
# Repairing operands

`Draft.repair` goes through the slots in order and redirects operands as it learns of replacements.
What it has learned so far is one map from arena numbers to arena numbers, and learning of one more
slot bends it at two points (`bend`). `Repairing` is the invariant of the loop: the map sends a name,
and the name that it took the place of, to where it stands now, and every name that was looked at
has operands that went through the map. It carries over because operands refer to earlier slots, so
later slots bend the map nowhere that matters (`Repairing.bend_eq`).

Names that no replacement concerns, not even through their operands, keep their numbers; they are
called steady. The names of which second copies are removed have to be steady, since the copies are
recognised by their numbers.
-/

namespace HandleForms

namespace Transaction

/-- No replacement concerns a name, nor its operands. -/
inductive Steady (t : Transaction) : Nat → Prop where
  | intro (a : Nat) (kept : ∀ s ∈ t.slots, s.was = some a → s.now = a)
      (operands : ∀ n, t.arena[a]? = some n → ∀ b ∈ n.operands, Steady t b) : Steady t a

/-- What an edit has to keep to, for its operands to be repaired. -/
structure Coherent (t : Transaction) : Prop where
  now_lt : ∀ s ∈ t.slots, s.now < t.arena.length
  was_lt : ∀ s ∈ t.slots, ∀ o, s.was = some o → o < t.arena.length
  was_nodup : (t.slots.filterMap Slot.was).Nodup
  /-- A name that was replaced stands nowhere else. -/
  replaced : ∀ s ∈ t.slots, ∀ r ∈ t.slots, s.was = some r.now → s.now = r.now
  back_nodup : (t.back.map Slot.now).Nodup
  front_steady : ∀ s ∈ t.front, t.Steady s.now
  /-- Expressions refer to earlier slots. -/
  back_known : ∀ i s n, t.back[i]? = some s → t.arena[s.now]? = some n → ∀ a ∈ n.operands,
    ∃ r ∈ t.front ++ t.back.take i, r.now = a ∨ r.was = some a
  result_placed : ∀ r, t.result = some r → ∃ s ∈ t.slots, s.now = r

variable {t : Transaction} {xs ys : List Slot} {r s : Slot}

/-- A name that stands in two slots is steady: it stands in one of the parameters. -/
theorem Coherent.steady_of_twice (h : t.Coherent) (hslots : t.slots = xs ++ s :: ys) (hr : r ∈ xs)
    (heq : r.now = s.now) : t.Steady s.now := by
  rw [slots, List.append_eq_append_iff] at hslots
  obtain ⟨as, rfl, has⟩ | ⟨as, has, hback⟩ := hslots
  · -- The slot is one of the expressions.
    obtain hr | hr := List.mem_append.1 hr
    · exact heq ▸ h.front_steady r hr
    · have hnodup := h.back_nodup
      rw [has, List.map_append, List.map_cons] at hnodup
      have := (List.nodup_append.1 hnodup).2.2 _ (List.mem_map_of_mem hr) s.now (by simp)
      exact absurd heq this
  · cases as with
    | nil =>
      rw [List.append_nil] at has
      exact heq ▸ h.front_steady r (has ▸ hr)
    | cons b bs =>
      obtain rfl : s = b := by
        have := congrArg List.head? hback
        simpa using this
      exact h.front_steady s (by simp [has])

/-- A slot in which the name was replaced is the only one where the replaced name stood. -/
theorem Coherent.was_unique (h : t.Coherent) (hslots : t.slots = xs ++ s :: ys) (hr : r ∈ xs)
    {o : Nat} (hs : s.was = some o) : r.was ≠ some o := by
  intro hro
  have hnodup := h.was_nodup
  rw [hslots, List.filterMap_append, List.filterMap_cons, hs] at hnodup
  have := (List.nodup_append.1 hnodup).2.2 o (List.mem_filterMap.2 ⟨r, hr, hro⟩) o (by simp)
  exact this rfl

/-- An operand of the name in a slot is steady or stands in an earlier slot. -/
theorem Coherent.operand_known (h : t.Coherent) (hslots : t.slots = xs ++ s :: ys) {n : Name Form}
    (hn : t.arena[s.now]? = some n) {a : Nat} (ha : a ∈ n.operands) :
    t.Steady a ∨ ∃ q ∈ xs, q.now = a ∨ q.was = some a := by
  have hplace : t.slots[xs.length]? = some s := by simp [hslots]
  by_cases hlt : xs.length < t.front.length
  · rw [slots, List.getElem?_append_left hlt] at hplace
    have hsteady := h.front_steady s (List.mem_of_getElem? hplace)
    cases hsteady with
    | intro _ _ hoperands => exact .inl (hoperands n hn a ha)
  · have hle := Nat.not_lt.1 hlt
    rw [slots, List.getElem?_append_right hle] at hplace
    obtain ⟨q, hq, hqa⟩ := h.back_known _ s n hplace hn a ha
    refine .inr ⟨q, ?_, hqa⟩
    have htake : t.front ++ t.back.take (xs.length - t.front.length) = xs := by
      have := congrArg (List.take xs.length) hslots
      rw [slots, List.take_append, List.take_of_length_le hle] at this
      simpa using this
    rwa [htake] at hq

end Transaction

namespace Draft

/-- Where names are sent after one more slot: the name in the slot and the one that it took the
place of are sent to `c`. -/
def bend (F : Nat → Nat) (s : Slot) (c a : Nat) : Nat :=
  if F a = s.now ∨ s.was = some (F a) then c else F a

variable {t : Transaction} {d : Draft} {r : Redirects} {F : Nat → Nat} {done rest : List Slot}
  {s : Slot} {a c : Nat}

/-- The repair has looked at the slots `done`, and sends names where `F` says. -/
structure Repairing (t : Transaction) (d : Draft) (r : Redirects) (F : Nat → Nat)
    (done rest : List Slot) : Prop where
  slots : t.slots = done ++ rest
  names : d.names = (done.map fun s => some (F s.now)) ++ rest.map fun s => some s.now
  initial : d.initial = t.slots.map Slot.was
  arity : d.arity = t.front.length
  arena : t.arena <+: d.arena.toList
  result : d.result = t.result.map F
  dups : d.dups = t.dups
  editing : d.editing = true
  leads : r.Leads F
  /-- A replaced name is sent where its replacement is. -/
  was : ∀ s ∈ done, ∀ o, s.was = some o → F o = F s.now
  other : ∀ a, (∀ s ∈ done, s.now ≠ a ∧ s.was ≠ some a) → F a = a
  /-- Operands of the names that were looked at went through the map. -/
  content : ∀ s ∈ done, ∀ n, t.arena[s.now]? = some n →
    d.arena.toList[F s.now]? = some (n.mapArgs F)
  kept_or_new : ∀ s ∈ done, F s.now = s.now ∨ t.arena.length ≤ F s.now
  injective : ∀ s ∈ done, ∀ q ∈ done, F s.now = F q.now → s.now = q.now
  steady : ∀ a, t.Steady a → F a = a

namespace Repairing

/-- The name of the next slot was not moved yet. -/
theorem now_eq (h : Repairing t d r F done (s :: rest)) (ht : t.Coherent) : F s.now = s.now := by
  by_cases hk : ∃ q ∈ done, q.now = s.now ∨ q.was = some s.now
  · obtain ⟨q, hq, hqs⟩ := hk
    have hnow : q.now = s.now := by
      rcases hqs with hqs | hqs
      · exact hqs
      · exact ht.replaced q (by simp [h.slots, hq]) s (by simp [h.slots]) hqs
    exact h.steady _ (ht.steady_of_twice h.slots hq hnow)
  · refine h.other _ fun q hq => ⟨fun e => hk ⟨q, hq, .inl e⟩, fun e => hk ⟨q, hq, .inr e⟩⟩

/-- Nor was the name that it took the place of. -/
theorem was_eq (h : Repairing t d r F done (s :: rest)) (ht : t.Coherent) {o : Nat}
    (hs : s.was = some o) : F o = o := by
  by_cases ho : o = s.now
  · rw [ho, h.now_eq ht]
  · refine h.other _ fun q hq => ⟨?_, ht.was_unique h.slots hq hs⟩
    rintro rfl
    exact ho (ht.replaced s (by simp [h.slots]) q (by simp [h.slots, hq]) hs).symm

/-- What is sent to a slot that was looked at stays there. -/
theorem bend_eq (h : Repairing t d r F done (s :: rest)) (ht : t.Coherent)
    (hc : t.Steady s.now → c = s.now) {q : Slot} (hq : q ∈ done) (ha : F a = F q.now) :
    bend F s c a = F a := by
  unfold bend
  split
  · next hbend =>
    -- Both ways the name of `q` is that of the next slot, so it stands twice.
    have hnow : F q.now = s.now := by
      rcases hbend with hbend | hbend
      · rw [← ha, hbend]
      · have hlt := ht.was_lt s (by simp [h.slots]) _ hbend
        have hqq : F q.now = q.now := by
          rcases h.kept_or_new q hq with hk | hk
          · exact hk
          · omega
        rw [ha, hqq] at hbend
        rw [hqq]
        exact (ht.replaced s (by simp [h.slots]) q (by simp [h.slots, hq]) hbend).symm
    have hlt := ht.now_lt s (by simp [h.slots])
    have hqq : q.now = s.now := by
      rcases h.kept_or_new q hq with hk | hk <;> omega
    rw [ha, hnow]
    exact hc (ht.steady_of_twice h.slots hq hqq)
  · rfl

/-- A steady name stays where it is. -/
theorem bend_steady (h : Repairing t d r F done (s :: rest)) (hc : t.Steady s.now → c = s.now)
    (ha : t.Steady a) : bend F s c a = a := by
  unfold bend
  rw [h.steady a ha]
  split
  · next hbend =>
    have hnow : a = s.now := by
      rcases hbend with hbend | hbend
      · exact hbend
      · cases ha with
        | intro _ hkept _ => exact (hkept s (by simp [h.slots]) hbend).symm
    rw [hc (hnow ▸ ha), hnow]
  · rfl

/-- Operands were sent to their places before the name that they belong to is looked at. -/
theorem bend_operand (h : Repairing t d r F done (s :: rest)) (ht : t.Coherent)
    (hc : t.Steady s.now → c = s.now) {xs ys : List Slot} {q : Slot}
    (hslots : t.slots = xs ++ q :: ys) (hsub : xs ⊆ done) {n : Name Form}
    (hn : t.arena[q.now]? = some n) (ha : a ∈ n.operands) : bend F s c a = F a := by
  rcases ht.operand_known hslots hn ha with ha | ⟨p, hp, rfl | hpa⟩
  · rw [h.bend_steady hc ha, h.steady a ha]
  · exact h.bend_eq ht hc (hsub hp) rfl
  · exact h.bend_eq ht hc (hsub hp) (h.was p (hsub hp) a hpa)

/-- One slot is looked at: its name keeps its number or gets the next one. -/
theorem next {d' : Draft} {r' : Redirects} (h : Repairing t d r F done (s :: rest))
    (ht : t.Coherent) (hc : t.Steady s.now → c = s.now)
    (hnew : c = s.now ∨ c = d.arena.toList.length)
    (hnames : d'.names = (done.map fun q => some (F q.now)) ++
      some c :: rest.map fun q => some q.now)
    (hinitial : d'.initial = d.initial) (harity : d'.arity = d.arity)
    (harena : d.arena.toList <+: d'.arena.toList)
    (hresult : d'.result = if d.result = some s.now then some c else d.result)
    (hdups : d'.dups = d.dups) (hopen : d'.editing = d.editing)
    (hleads : r'.Leads (bend F s c))
    (hcontent : ∀ n, t.arena[s.now]? = some n → d'.arena.toList[c]? = some (n.mapArgs F)) :
    Repairing t d' r' (bend F s c) (done ++ [s]) rest := by
  have hdone : ∀ q ∈ done, bend F s c q.now = F q.now := fun q hq => h.bend_eq ht hc hq rfl
  have hnow : bend F s c s.now = c := by simp [bend, h.now_eq ht]
  have hlarge : t.arena.length ≤ d.arena.toList.length := h.arena.length_le
  have hplaced : ∀ q ∈ done, F q.now < d.arena.toList.length := by
    intro q hq
    have hlt := ht.now_lt q (by simp [h.slots, hq])
    exact (List.getElem?_eq_some_iff.1 (h.content q hq _ (List.getElem?_eq_getElem hlt))).1
  constructor
  case slots => simp [h.slots]
  case names =>
    have : (done.map fun q => some (bend F s c q.now)) = done.map fun q => some (F q.now) :=
      List.map_congr_left fun q hq => by rw [hdone q hq]
    simp [hnames, this, hnow]
  case initial => rw [hinitial, h.initial]
  case arity => rw [harity, h.arity]
  case arena => exact h.arena.trans harena
  case dups => rw [hdups, h.dups]
  case editing => rw [hopen, h.editing]
  case leads => exact hleads
  case result =>
    rw [hresult, h.result]
    cases hr : t.result with
    | none => rfl
    | some ρ =>
      by_cases hρ : F ρ = s.now
      · simp [hρ, bend]
      · have hkeep : bend F s c ρ = F ρ := by
          obtain ⟨q, hq, rfl⟩ := ht.result_placed ρ hr
          by_cases hqd : ∃ p ∈ done, p.now = q.now ∨ p.was = some q.now
          · obtain ⟨p, hp, hpq⟩ := hqd
            refine h.bend_eq ht hc hp ?_
            rcases hpq with hpq | hpq
            · rw [hpq]
            · exact h.was p hp _ hpq
          · have hq' : F q.now = q.now :=
              h.other _ fun p hp => ⟨fun e => hqd ⟨p, hp, .inl e⟩, fun e => hqd ⟨p, hp, .inr e⟩⟩
            rw [bend, if_neg]
            rintro (e | e)
            · exact hρ e
            · rw [hq'] at e hρ
              exact hρ (ht.replaced s (by simp [h.slots]) q hq e).symm
        simp [hρ, hkeep]
  case was =>
    intro q hq o ho
    obtain hq | hq := List.mem_append.1 hq
    · rw [hdone q hq, ← h.was q hq o ho]
      exact h.bend_eq ht hc hq (h.was q hq o ho)
    · obtain rfl : q = s := by simpa using hq
      rw [hnow, bend, h.was_eq ht ho, if_pos (.inr ho)]
  case other =>
    intro a ha
    have hFa : F a = a := h.other a fun q hq => ha q (by simp [hq])
    have := ha s (by simp)
    rw [bend, hFa, if_neg]
    rintro (e | e)
    · exact this.1 e.symm
    · exact this.2 e
  case content =>
    intro q hq n hn
    obtain hq | hq := List.mem_append.1 hq
    · obtain ⟨xs, ys, hxs⟩ := List.append_of_mem hq
      have hmap : n.mapArgs (bend F s c) = n.mapArgs F := by
        refine Name.mapArgs_congr fun a ha => ?_
        have hslots : t.slots = xs ++ q :: (ys ++ s :: rest) := by simp [h.slots, hxs]
        exact h.bend_operand ht hc hslots (by simp [hxs]) hn ha
      rw [hdone q hq, hmap]
      exact getElem?_of_isPrefix harena (h.content q hq n hn)
    · obtain rfl : q = s := by simpa using hq
      have hmap : n.mapArgs (bend F q c) = n.mapArgs F :=
        Name.mapArgs_congr fun a ha => h.bend_operand ht hc h.slots (fun _ hp => hp) hn ha
      rw [hnow, hmap]
      exact hcontent n hn
  case kept_or_new =>
    intro q hq
    obtain hq | hq := List.mem_append.1 hq
    · rw [hdone q hq]
      exact h.kept_or_new q hq
    · obtain rfl : q = s := by simpa using hq
      rw [hnow]
      omega
  case injective =>
    -- A new number is greater than all before, and an old one was not handed out twice.
    have hnew' : ∀ q ∈ done, F q.now = c → q.now = s.now := by
      intro q hq e
      have := hplaced q hq
      have := h.kept_or_new q hq
      have := ht.now_lt s (by simp [h.slots])
      omega
    intro p hp q hq e
    obtain hpd | hpd := List.mem_append.1 hp <;> obtain hqd | hqd := List.mem_append.1 hq
    · rw [hdone p hpd, hdone q hqd] at e
      exact h.injective p hpd q hqd e
    · obtain rfl : q = s := by simpa using hqd
      rw [hdone p hpd, hnow] at e
      exact hnew' p hpd e
    · obtain rfl : p = s := by simpa using hpd
      rw [hdone q hqd, hnow] at e
      exact (hnew' q hqd e.symm).symm
    · obtain rfl : p = s := by simpa using hpd
      obtain rfl : q = p := by simpa using hqd
      rfl
  case steady => exact fun a ha => h.bend_steady hc ha

/-- The replacements that are noted for a slot whose name keeps its number. -/
theorem leads_kept (h : Repairing t d r F done (s :: rest)) (ht : t.Coherent) {o : Nat}
    (hs : s.was = some o) :
    Redirects.Leads (if o = s.now then r else (o, s.now) :: r) (bend F s s.now) := by
  have hnow := h.now_eq ht
  have hwas := h.was_eq ht hs
  split
  · next ho =>
    have hbend : bend F s s.now = F := by
      funext a
      unfold bend
      split
      · next e =>
        rw [hs, ho] at e
        rcases e with e | e
        · exact e.symm
        · exact Option.some.inj e
      · rfl
    rw [hbend]
    exact h.leads
  · next ho =>
    have hbend : bend F s s.now = fun a => if F a = o then s.now else F a := by
      funext a
      simp only [bend, hs, Option.some.injEq]
      by_cases h1 : F a = s.now
      · by_cases h2 : F a = o <;> simp [h1]
      · simp [h1, eq_comm]
    rw [hbend]
    refine h.leads.cons ?_ ?_ (Ne.symm ho)
    · rw [← hwas]
      exact h.leads.lookup_end o
    · rw [← hnow]
      exact h.leads.lookup_end s.now

/-- The replacements that are noted for a slot whose name gets a new number. -/
theorem leads_moved (h : Repairing t d r F done (s :: rest)) (ht : t.Coherent)
    (hc : t.arena.length ≤ c) (hcF : F c = c) :
    Redirects.Leads (match s.was with
      | some o => (o, c) :: (s.now, c) :: r
      | none => (s.now, c) :: r) (bend F s c) := by
  have hnow := h.now_eq ht
  have hlt := ht.now_lt s (by simp [h.slots])
  have hlookup : ∀ a, F a = a → r.lookup a = none := fun a ha => by
    rw [← ha]
    exact h.leads.lookup_end a
  have hfirst : Redirects.Leads ((s.now, c) :: r) fun a => if F a = s.now then c else F a :=
    h.leads.cons (hlookup _ hnow) (hlookup _ hcF) (by omega)
  cases hs : s.was with
  | none =>
    have hbend : bend F s c = fun a => if F a = s.now then c else F a := by
      funext a
      simp [bend, hs]
    rw [hbend]
    exact hfirst
  | some o =>
    have holt := ht.was_lt s (by simp [h.slots]) o hs
    have hbend : bend F s c = fun a =>
        if (if F a = s.now then c else F a) = o then c else (if F a = s.now then c else F a) := by
      funext a
      simp only [bend, hs, Option.some.injEq]
      by_cases h1 : F a = s.now
      · simp [h1]
      · simp [h1, eq_comm]
    rw [hbend]
    by_cases ho : o = s.now
    · have hagain : Redirects.Leads ((o, c) :: (s.now, c) :: r)
          fun a => if F a = s.now then c else F a :=
        hfirst.again (by rw [ho, Redirects.lookup_cons, if_pos rfl])
      refine cast (congrArg _ ?_) hagain
      funext a
      by_cases h1 : F a = s.now
      · simp [h1]
      · simp [h1, ho]
    · refine hfirst.cons ?_ ?_ (by omega)
      · rw [Redirects.lookup_cons, if_neg ho]
        exact hlookup o (h.was_eq ht hs)
      · rw [Redirects.lookup_cons, if_neg (by omega)]
        exact hlookup c hcF

/-- One step of the repair. -/
theorem repairAt (h : Repairing t d r F done (s :: rest)) (ht : t.Coherent) :
    ∃ d' r' c, d.repairAt r done.length = .ok (d', r') ∧ d'.firstChange = d.firstChange ∧
      Repairing t d' r' (bend F s c) (done ++ [s]) rest := by
  have hplace : d.names[done.length]? = some (some s.now) := by simp [h.names]
  have hwas : d.initial[done.length]? = some s.was := by simp [h.initial, h.slots]
  obtain ⟨n, hn⟩ : ∃ n, t.arena[s.now]? = some n :=
    ⟨_, List.getElem?_eq_getElem (ht.now_lt s (by simp [h.slots]))⟩
  have hname : d.name s.now = .ok n := name_eq_ok_iff.2 (getElem?_of_isPrefix h.arena hn)
  have hends : ¬ (d.arity ≤ done.length ∧ n.operands.any r.circles = true) := by
    simp [h.leads.circles_eq]
  by_cases hmove : d.arity ≤ done.length ∧ (!r.isEmpty) = true ∧ n.movedBy r.resolve = true
  · -- The name gets a new number, and its operands go through the map.
    have hresolve : r.resolve = F := funext h.leads.resolve_eq
    rw [hresolve] at hmove
    have hnotSteady : ¬ t.Steady s.now := by
      rintro ⟨_, -, hoperands⟩
      have : n.movedBy F = false :=
        Name.movedBy_eq_false_iff.2 fun a ha => h.steady a (hoperands n hn a ha)
      simp [this] at hmove
    have hlarge : t.arena.length ≤ d.arena.size := by simpa using h.arena.length_le
    have hF : F d.arena.size = d.arena.size := by
      refine h.other _ fun q hq => ⟨?_, fun e => ?_⟩
      · have := ht.now_lt q (by simp [h.slots, hq])
        omega
      · have := ht.was_lt q (by simp [h.slots, hq]) _ e
        omega
    have hold : ∀ o, s.was = some o → o ≠ d.arena.size := by
      intro o ho
      have := ht.was_lt s (by simp [h.slots]) o ho
      omega
    refine ⟨{ d with
        arena := d.arena.push (n.mapArgs F)
        names := d.names.set done.length (some d.arena.size)
        result := if d.result = some s.now then some d.arena.size else d.result },
      _, d.arena.size, ?_, rfl, h.next ht (fun hs => absurd hs hnotSteady) (.inr (by simp)) ?_ rfl
        rfl ?_ rfl rfl rfl (h.leads_moved ht hlarge hF) ?_⟩
    · rw [Draft.repairAt, hplace]
      simp only [hname, ok_bind, if_neg hends, hresolve, if_pos hmove, Draft.alloc, hwas]
      cases hs : s.was with
      | none => rfl
      | some o => simp [hold o hs, pure, Except.pure]
    · simp [h.names]
    · simp
    · intro m hm
      obtain rfl : n = m := by simpa [hn] using hm
      simp
  · -- The name keeps its number, and none of its operands is moved.
    have hself : n.mapArgs F = n := by
      by_cases hfront : d.arity ≤ done.length
      · have hF : n.movedBy F = false := by
          by_cases hr : r = []
          · subst hr
            have hid : F = fun a => a := by
              funext a
              exact h.leads.eq_self rfl
            rw [Name.movedBy_eq_false_iff, hid]
            exact fun _ _ => rfl
          · have hresolve : r.resolve = F := funext h.leads.resolve_eq
            have hne : (!r.isEmpty) = true := by simpa using hr
            rw [hresolve] at hmove
            simpa [hfront, hne] using hmove
        exact Name.mapArgs_eq_self (Name.movedBy_eq_false_iff.1 hF)
      · have hs : s ∈ t.front := by
          have hplace : t.slots[done.length]? = some s := by simp [h.slots]
          rw [Transaction.slots,
            List.getElem?_append_left (by rw [← h.arity]; exact Nat.not_le.1 hfront)] at hplace
          exact List.mem_of_getElem? hplace
        obtain ⟨_, -, hoperands⟩ := ht.front_steady s hs
        exact Name.mapArgs_eq_self fun a ha => h.steady a (hoperands n hn a ha)
    have hkeep : ∀ r', Redirects.Leads r' (bend F s s.now) →
        Repairing t d r' (bend F s s.now) (done ++ [s]) rest := by
      intro r' hr'
      refine h.next ht (fun _ => rfl) (.inl rfl) ?_ rfl rfl (List.prefix_refl _) ?_ rfl rfl hr' ?_
      · simp [h.names]
      · split <;> simp_all
      · intro m hm
        obtain rfl : n = m := by simpa [hn] using hm
        rw [hself]
        exact getElem?_of_isPrefix h.arena hn
    cases hs : s.was with
    | none =>
      have hbend : bend F s s.now = F := by
        funext a
        unfold bend
        split
        · next e => simpa [hs, eq_comm] using e
        · rfl
      refine ⟨d, r, s.now, ?_, rfl, hkeep r (by rw [hbend]; exact h.leads)⟩
      rw [Draft.repairAt, hplace]
      simp only [hname, ok_bind, if_neg hends, if_neg hmove, hwas, hs]
      rfl
    | some o =>
      refine ⟨d, _, s.now, ?_, rfl, hkeep _ (h.leads_kept ht hs)⟩
      rw [Draft.repairAt, hplace]
      simp only [hname, ok_bind, if_neg hends, if_neg hmove, hwas, hs]
      rfl

/-- The loop of the repair. -/
theorem repairFrom (ht : t.Coherent) {rest : List Slot} :
    ∀ {d : Draft} {r : Redirects} {F : Nat → Nat} {done : List Slot},
      Repairing t d r F done rest →
      ∃ d' r' F', (List.range' done.length rest.length).foldlM
          (fun (state : Draft × Redirects) pos => state.1.repairAt state.2 pos) (d, r) =
            .ok (d', r') ∧
        d'.firstChange = d.firstChange ∧ Repairing t d' r' F' (done ++ rest) [] := by
  induction rest with
  | nil =>
    intro d r F done h
    exact ⟨d, r, F, rfl, rfl, by simpa using h⟩
  | cons s rest ih =>
    intro d r F done h
    obtain ⟨d1, r1, c, heq, hfirst, h1⟩ := h.repairAt ht
    obtain ⟨d2, r2, F2, heq2, hfirst2, h2⟩ := ih h1
    refine ⟨d2, r2, F2, ?_, hfirst2.trans hfirst, by simpa using h2⟩
    rw [List.length_cons, List.range'_succ, List.foldlM_cons, heq, ok_bind]
    simpa using heq2

end Repairing

/-- A repair sends every name to its place, and the operands with it. -/
theorem Shows.repair (h : d.Shows t) (ht : t.Coherent) :
    ∃ d' r F, d.repair = .ok d' ∧ d'.firstChange = d.firstChange ∧
      Repairing t d' r F t.slots [] := by
  have hsplit := List.take_append_drop d.firstChange t.slots
  have hunchanged := h.unchanged
  have hlen : (t.slots.take d.firstChange).length = d.firstChange := by
    rw [List.length_take, Nat.min_eq_left h.firstChange_le]
  have hstart : Repairing t d [] (fun a => a) (t.slots.take d.firstChange)
      (t.slots.drop d.firstChange) := by
    constructor
    case slots => exact hsplit.symm
    case names => rw [← List.map_append, hsplit, h.names]
    case initial => exact h.initial
    case arity => exact h.arity
    case arena => simp [h.arena]
    case result => simp [h.result]
    case dups => exact h.dups
    case editing => exact h.editing
    case leads => exact Redirects.leads_nil
    case was =>
      intro s hs o ho
      simpa [ho] using hunchanged s hs
    case other => exact fun a _ => rfl
    case content =>
      intro s _ n hn
      simpa [h.arena] using hn
    case kept_or_new => exact fun s _ => .inl rfl
    case injective => exact fun _ _ _ _ e => e
    case steady => exact fun a _ => rfl
  obtain ⟨d', r, F, heq, hfirst, hd'⟩ := hstart.repairFrom ht
  refine ⟨d', r, F, ?_, hfirst, by rwa [hsplit] at hd'⟩
  have hrest : (t.slots.drop d.firstChange).length = d.names.length - d.firstChange := by
    simp [h.names]
  rw [hlen, hrest] at heq
  simp [Draft.repair, heq, pure, Except.pure]

end Draft

end HandleForms
