import HandleForms.Draft

/-!
# Where chains of replacements end

`Redirects.follow` counts its steps with fuel. `Redirects.Leads r F` says that the fuel is enough:
the chain from `a` ends at `F a`, and nothing replaces `F a` any more. A repair only ever adds
replacements by names that are not replaced themselves, and such additions keep the property
(`Leads.cons`, `Leads.again`).
-/

namespace HandleForms.Draft.Redirects

variable {r : Redirects} {F : Nat → Nat} {a k v : Nat}

/-- Every chain of replacements ends, where `F` says. -/
structure Leads (r : Redirects) (F : Nat → Nat) : Prop where
  follow_eq : ∀ a fuel, r.length ≤ fuel → r.follow fuel a = F a
  lookup_end : ∀ a, r.lookup (F a) = none

theorem Leads.resolve_eq (h : Leads r F) (a : Nat) : r.resolve a = F a :=
  h.follow_eq a _ (Nat.le_succ _)

/-- Where every chain ends, none circles. -/
theorem Leads.circles_eq (h : Leads r F) (a : Nat) : r.circles a = false := by
  rw [circles, h.resolve_eq, h.lookup_end]
  rfl

theorem Leads.eq_self (h : Leads r F) (ha : r.lookup a = none) : F a = a := by
  rw [← h.resolve_eq a]
  simp [resolve, follow, ha]

theorem leads_nil : Leads [] id := by
  refine ⟨fun a fuel _ => ?_, fun a => rfl⟩
  cases fuel <;> rfl

theorem follow_of_lookup_none (ha : r.lookup a = none) (fuel : Nat) : r.follow fuel a = a := by
  cases fuel with
  | zero => rfl
  | succ fuel => simp [follow, ha]

theorem lookup_cons (a : Nat) :
    List.lookup a ((k, v) :: r) = if a = k then some v else List.lookup a r := by
  by_cases h : a = k
  · simp [h]
  · have hb : (a == k) = false := beq_false_of_ne h
    rw [List.lookup_cons, hb, if_neg h]

/-- A chain passes a new replacement at its end or not at all. -/
theorem follow_cons (hk : r.lookup k = none) (hv : r.lookup v = none) (hkv : v ≠ k) (fuel : Nat)
    (hend : r.lookup (r.follow fuel a) = none) :
    follow ((k, v) :: r) (fuel + 1) a =
      if r.follow fuel a = k then v else r.follow fuel a := by
  have hv' : List.lookup v ((k, v) :: r) = none := by rw [lookup_cons, if_neg hkv, hv]
  have hstop : ∀ fuel b, r.lookup b = none →
      follow ((k, v) :: r) (fuel + 1) b = if b = k then v else b := by
    intro fuel b hb
    by_cases h : b = k
    · simp [follow, h, follow_of_lookup_none hv']
    · simp [follow, lookup_cons, h, hb]
  induction fuel generalizing a with
  | zero => exact hstop 0 a hend
  | succ fuel ih =>
    cases ha : r.lookup a with
    | none =>
      rw [follow_of_lookup_none ha]
      exact hstop _ a ha
    | some b =>
      have hne : a ≠ k := fun h => by simp [h, hk] at ha
      have hf : r.follow (fuel + 1) a = r.follow fuel b := by simp [follow, ha]
      rw [hf] at hend ⊢
      rw [← ih hend]
      rw [follow, lookup_cons, if_neg hne, ha]

/-- A name that was not replaced yet is replaced by one that is not replaced either. -/
theorem Leads.cons (h : Leads r F) (hk : r.lookup k = none) (hv : r.lookup v = none)
    (hkv : v ≠ k) : Leads ((k, v) :: r) fun a => if F a = k then v else F a := by
  constructor
  · intro a fuel hfuel
    obtain ⟨fuel, rfl⟩ : ∃ n, fuel = n + 1 := ⟨fuel - 1, by simp at hfuel; omega⟩
    have hf := h.follow_eq a fuel (by simpa using hfuel)
    rw [follow_cons hk hv hkv fuel (by rw [hf]; exact h.lookup_end a), hf]
  · intro a
    by_cases ha : F a = k
    · simp only [if_pos ha]
      rw [lookup_cons, if_neg hkv, hv]
    · simp only [if_neg ha]
      rw [lookup_cons, if_neg ha, h.lookup_end a]

/-- To note a replacement once more changes nothing. -/
theorem Leads.again (h : Leads r F) (hk : r.lookup k = some v) : Leads ((k, v) :: r) F := by
  have hl : ∀ a, List.lookup a ((k, v) :: r) = List.lookup a r := by
    intro a
    rw [lookup_cons]
    by_cases ha : a = k
    · simp [ha, hk]
    · simp [ha]
  have hf : ∀ fuel a, follow ((k, v) :: r) fuel a = r.follow fuel a := by
    intro fuel
    induction fuel with
    | zero => intro a; rfl
    | succ fuel ih =>
      intro a
      simp only [follow, hl]
      cases List.lookup a r with
      | none => rfl
      | some b => exact ih b
  exact ⟨fun a fuel hfuel => by rw [hf, h.follow_eq a fuel (by simp at hfuel; omega)],
    fun a => by rw [hl, h.lookup_end]⟩

theorem lookup_eq_none_of_forall (h : ∀ p ∈ r, p.1 ≠ a) : r.lookup a = none := by
  rw [List.lookup_eq_none_iff]
  intro p hp
  simpa using fun e => h p hp e.symm

end HandleForms.Draft.Redirects
