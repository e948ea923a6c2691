import HandleForms.Signature

/-!
# Signatures over types
-/

namespace HandleForms.Signature

/-- A signature is made exactly of its types. -/
theorem ofTypes_eq_ok_iff {ret : Ty} {params : List Ty} {s : Signature} :
    ofTypes ret params = .ok s ↔ s.params = params ∧ s.ret = ret := by
  constructor
  · intro h
    unfold ofTypes at h
    split at h
    · cases h
    · split at h
      · obtain rfl := Except.ok.inj h
        exact ⟨rfl, rfl⟩
      · cases h
  · rintro ⟨rfl, rfl⟩
    exact ofTypes_params_ret s

/-- Types that are no `void` and fit in the slots make a signature. -/
theorem exists_ofTypes (ret : Ty) {params : List Ty} (h : ∀ t ∈ params, t ≠ .void)
    (hslots : Ty.slotSum params ≤ maxSlots) : ∃ s, ofTypes ret params = .ok s :=
  ⟨⟨params, ret, h, hslots⟩, ofTypes_eq_ok_iff.2 ⟨rfl, rfl⟩⟩

/-- A type with room for its handle and an invoker has an invoker type. -/
theorem exists_invoker {s : Signature} (h : s.slots ≤ maxInvokerSlots) :
    ∃ t, s.invoker = .ok t := by
  rw [invoker, if_pos h]
  refine exists_ofTypes _ (List.forall_mem_cons.2 ⟨nofun, s.params_ne_void⟩) ?_
  rw [Ty.slotSum_cons]
  have hone : handleClass.basicType.slots = 1 := rfl
  have hmax : maxInvokerSlots + 2 = maxSlots := rfl
  have hslots : s.slots = Ty.slotSum s.params := rfl
  omega

theorem invoker_of_lt {s : Signature} (h : maxInvokerSlots < s.slots) :
    s.invoker = .error (.tooManySlots s.slots maxInvokerSlots) := by
  rw [invoker, if_neg (Nat.not_le.2 h)]

end HandleForms.Signature
