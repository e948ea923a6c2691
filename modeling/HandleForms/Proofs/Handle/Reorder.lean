import HandleForms.Handle.Reorder
import Mathlib.Data.List.InsertIdx
import Mathlib.Data.List.Nodup

/-!
# Reorders become permutations

Merging takes out of a reorder every entry that stands in it before, and adding puts in every missing
one: what is left is a permutation of the arguments (`Reorder.perm_range`). Both are carried out one
entry at a time, and after each step the list is the one that the next step expects
(`Reorder.foldl_merges`, `Reorder.foldl_additions`).
-/

namespace HandleForms

namespace Reorder

variable {old new : Signature} {reorder : List Nat} {n : Nat}

/-! ## Merging -/

/-- Where an entry is found, it is. -/
theorem of_idxOf? {kept : List Nat} {r src : Nat} (h : kept.idxOf? r = some src) :
    src < kept.length ∧ kept[src]? = some r := by
  obtain ⟨hlt, hget, -⟩ := List.findIdx?_eq_some_iff_getElem.1 h
  exact ⟨hlt, by rw [List.getElem?_eq_getElem hlt, beq_iff_eq.1 hget]⟩

theorem merges_snd (kept rest : List Nat) (hkept : kept.Nodup) :
    (merges kept rest).2.Nodup ∧ ∀ r, r ∈ (merges kept rest).2 ↔ r ∈ kept ∨ r ∈ rest := by
  induction rest generalizing kept with
  | nil => exact ⟨hkept, by simp [merges]⟩
  | cons r rest ih =>
    unfold merges
    split
    · next src hsrc =>
      obtain ⟨hnodup, hmem⟩ := ih kept hkept
      have hr : r ∈ kept := (List.isSome_idxOf?.1 (by rw [hsrc]; rfl))
      refine ⟨hnodup, fun q => (hmem q).trans ⟨.imp_right (List.mem_cons_of_mem _), ?_⟩⟩
      rintro (hq | hq)
      · exact .inl hq
      · rcases List.mem_cons.1 hq with rfl | hq
        · exact .inl hr
        · exact .inr hq
    · next hnone =>
      have hr : r ∉ kept := List.idxOf?_eq_none_iff.1 hnone
      obtain ⟨hnodup, hmem⟩ := ih (kept ++ [r])
        (List.concat_eq_append ▸ hkept.concat hr)
      refine ⟨hnodup, fun q => (hmem q).trans ?_⟩
      simp [or_assoc]

/-- Each merge takes the later of two equal entries out. -/
theorem foldl_merges (kept rest : List Nat) :
    (merges kept rest).1.foldl (fun entries step => entries.eraseIdx step.2) (kept ++ rest) =
      (merges kept rest).2 := by
  induction rest generalizing kept with
  | nil => simp [merges]
  | cons r rest ih =>
    unfold merges
    split
    · rw [List.foldl_cons, List.eraseIdx_append_of_length_le (Nat.le_refl _), Nat.sub_self,
        List.eraseIdx_cons_zero]
      exact ih kept
    · have hassoc : kept ++ r :: rest = (kept ++ [r]) ++ rest := by simp
      rw [hassoc]
      exact ih (kept ++ [r])

/-! ## Adding -/

theorem insertPos_le (l : List Nat) (value : Nat) : insertPos l value ≤ l.length :=
  List.findIdx_le_length

theorem additions_snd (l values : List Nat) (hl : l.Nodup) :
    (additions l values).2.Nodup ∧ ∀ r, r ∈ (additions l values).2 ↔ r ∈ l ∨ r ∈ values := by
  induction values generalizing l with
  | nil => exact ⟨hl, by simp [additions]⟩
  | cons value values ih =>
    unfold additions
    split
    · next hmem =>
      have hvalue : value ∈ l := by simpa using hmem
      obtain ⟨hnodup, hiff⟩ := ih l hl
      refine ⟨hnodup, fun q => (hiff q).trans ⟨.imp_right (List.mem_cons_of_mem _), ?_⟩⟩
      rintro (hq | hq)
      · exact .inl hq
      · rcases List.mem_cons.1 hq with rfl | hq
        · exact .inl hvalue
        · exact .inr hq
    · next hmem =>
      have hvalue : value ∉ l := by simpa using hmem
      have hle := insertPos_le l value
      have hperm := List.perm_insertIdx value l hle
      obtain ⟨hnodup, hiff⟩ := ih (l.insertIdx (insertPos l value) value)
        (hperm.nodup_iff.2 (List.nodup_cons.2 ⟨hvalue, hl⟩))
      refine ⟨hnodup, fun q => (hiff q).trans ?_⟩
      rw [hperm.mem_iff, List.mem_cons, List.mem_cons]
      tauto

/-- Each addition puts its entry in. -/
theorem foldl_additions (l values : List Nat) :
    (additions l values).1.foldl (fun entries step => entries.insertIdx step.1 step.2) l =
      (additions l values).2 := by
  induction values generalizing l with
  | nil => rfl
  | cons value values ih =>
    unfold additions
    split
    · exact ih l
    · exact ih _

/-! ## Reorders without a defect -/

/-- A reorder has no defect when it says for each parameter of the old type which argument of the new
one it gets, and that is of its type. -/
theorem defect?_eq_none_iff : defect? old new reorder = none ↔
    reorder.length = old.arity ∧ old.ret = new.ret ∧
      ∀ (i r : Nat), reorder[i]? = some r → r < new.arity ∧ new.params[r]? = old.params[i]? := by
  unfold defect?
  split
  · next hlen => exact ⟨nofun, fun h => absurd h.1 hlen⟩
  next hlen =>
  split
  · next hret => exact ⟨nofun, fun h => absurd h.2.1 hret⟩
  next hret =>
  rw [not_not] at hlen hret
  rw [List.findSome?_eq_none_iff]
  refine ⟨fun h => ⟨hlen, hret, fun i r hr => ?_⟩, fun h e he => ?_⟩
  · have hnone := h (r, i) (List.mem_zipIdx_iff_getElem?.2 hr)
    dsimp only at hnone
    split at hnone
    · cases hnone
    next hlt =>
    split at hnone
    · cases hnone
    next htype => exact ⟨Nat.not_le.1 hlt, not_not.1 htype⟩
  · obtain ⟨hlt, htype⟩ := h.2.2 e.2 e.1 (List.mem_zipIdx_iff_getElem?.1 he)
    dsimp only
    rw [if_neg (Nat.not_le.2 hlt), if_neg (not_not.2 htype)]

/-- Merged and completed, a reorder is a permutation of the arguments. -/
theorem perm_range (h : ∀ r ∈ reorder, r < n) :
    (additions (merges [] reorder).2 (List.range n)).2.Perm (List.range n) := by
  obtain ⟨hnodup, hmem⟩ := merges_snd [] reorder List.nodup_nil
  obtain ⟨hnodup', hmem'⟩ := additions_snd (merges [] reorder).2 (List.range n) hnodup
  refine (List.perm_ext_iff_of_nodup hnodup' List.nodup_range).2 fun r => ?_
  rw [hmem', hmem, List.mem_range]
  constructor
  · rintro ((hr | hr) | hr)
    · cases hr
    · exact h r hr
    · exact hr
  · exact .inr

end Reorder

end HandleForms
