import HandleForms.Edit.Cache
import HandleForms.Proofs.Association
import Mathlib.Data.Finset.Card
import Mathlib.Data.List.Nodup
import Mathlib.Logic.Function.Basic

/-!
# The cache as a map of live entries

A cache of derived forms holds its values weakly. An entry whose value is alive is never displaced,
in whichever shape the cache is (`EditCache.lookup_accept_of_live`), and no key has two entries
(`EditCache.Unique`). So a cache answers what the last accepted values answer, less the dead ones
(`LiveMap`), whatever is put, asked for and dropped (`EditCache.Weak.run_refines`).
-/

namespace HandleForms

namespace EditCache

/-! ## What is found after a value was accepted -/

variable {φ : Type} {live : φ → Bool} {capacity : Nat} {key k : EditKey} {value v : φ}
  {c : EditCache φ} {es fs : List (EditKey × φ)}

theorem lookup_replace_self (h : (es.lookup key).isSome) :
    (replace key value es).lookup key = some value := by
  induction es with
  | nil => cases h
  | cons e es ih =>
    obtain ⟨k', v'⟩ := e
    unfold replace
    by_cases heq : k' = key
    · rw [if_pos heq, List.lookup_cons_self]
    · rw [if_neg heq, List.lookup_cons, beq_eq_false_iff_ne.2 (Ne.symm heq)]
      exact ih (by simpa [List.lookup_cons, beq_eq_false_iff_ne.2 (Ne.symm heq)] using h)

theorem lookup_replace_of_ne (hne : k ≠ key) : (replace key value es).lookup k = es.lookup k := by
  induction es with
  | nil => rfl
  | cons e es ih =>
    obtain ⟨k', v'⟩ := e
    unfold replace
    by_cases heq : k' = key
    · subst heq
      simp [List.lookup_cons, beq_eq_false_iff_ne.2 hne]
    · rw [if_neg heq, List.lookup_cons, List.lookup_cons, ih]

theorem lookup_replaceStale?_self (h : es.lookup key = none)
    (hfs : replaceStale? live key value es = some fs) : fs.lookup key = some value := by
  induction es generalizing fs with
  | nil => cases hfs
  | cons e es ih =>
    obtain ⟨k', v'⟩ := e
    have hne : (key == k') = false := by
      by_contra hkey
      simp [List.lookup_cons, eq_true_of_ne_false hkey] at h
    have hrest : es.lookup key = none := by simpa [List.lookup_cons, hne] using h
    unfold replaceStale? at hfs
    split at hfs
    · obtain ⟨gs, hgs, rfl⟩ := Option.map_eq_some_iff.1 hfs
      rw [List.lookup_cons, hne]
      exact ih hrest hgs
    · obtain rfl := Option.some.inj hfs
      rw [List.lookup_cons_self]

theorem lookup_replaceStale?_of_live (hne : k ≠ key) (hlive : live v = true)
    (h : es.lookup k = some v) (hfs : replaceStale? live key value es = some fs) :
    fs.lookup k = some v := by
  induction es generalizing fs with
  | nil => cases h
  | cons e es ih =>
    obtain ⟨k', v'⟩ := e
    unfold replaceStale? at hfs
    split at hfs
    · obtain ⟨gs, hgs, rfl⟩ := Option.map_eq_some_iff.1 hfs
      by_cases heq : k = k'
      · subst heq
        simpa [List.lookup_cons] using h
      · rw [List.lookup_cons, beq_eq_false_iff_ne.2 heq] at h ⊢
        exact ih h hgs
    · next hstale =>
      obtain rfl := Option.some.inj hfs
      have hkey : k ≠ k' := by
        rintro rfl
        obtain rfl := Option.some.inj ((List.lookup_cons_self ..).symm.trans h)
        exact hstale hlive
      rw [List.lookup_cons, beq_eq_false_iff_ne.2 hkey] at h
      rw [List.lookup_cons, beq_eq_false_iff_ne.2 hne]
      exact h

theorem lookup_append_of_some (h : es.lookup k = some v) (fs : List (EditKey × φ)) :
    (es ++ fs).lookup k = some v := by
  rw [List.lookup_append, h, Option.some_or]

theorem lookup_append_self (h : es.lookup key = none) :
    (es ++ [(key, value)]).lookup key = some value := by
  rw [List.lookup_append, h, Option.none_or, List.lookup_cons_self]

/-- What is accepted is found. -/
theorem lookup_accept_self (c : EditCache φ) :
    (accept live capacity key value c).entries.lookup key = some value := by
  cases c with
  | empty => exact List.lookup_cons_self
  | single k' v' =>
    rw [accept]
    split
    · exact List.lookup_cons_self
    · next hcond =>
      have hne : key ≠ k' := fun heq => hcond (.inl heq.symm)
      simp [entries, List.lookup_cons, beq_eq_false_iff_ne.2 hne]
  | array es =>
    rw [accept]
    split
    · next hsome => exact lookup_replace_self hsome
    next hnone =>
    have hnone : es.lookup key = none := Option.not_isSome_iff_eq_none.1 hnone
    split
    · next hfs => exact lookup_replaceStale?_self hnone hfs
    · split <;> exact lookup_append_self hnone
  | map es =>
    rw [accept]
    split
    · next hsome => exact lookup_replace_self hsome
    · next hnone => exact lookup_append_self (Option.not_isSome_iff_eq_none.1 hnone)

/-- A live value stays under its key, whatever is accepted under another one. -/
theorem lookup_accept_of_live (hne : k ≠ key) (hlive : live v = true)
    (h : c.entries.lookup k = some v) :
    (accept live capacity key value c).entries.lookup k = some v := by
  cases c with
  | empty => cases h
  | single k' v' =>
    have hkey : k = k' := by
      by_contra hkey
      simp [entries, List.lookup_cons, beq_eq_false_iff_ne.2 hkey] at h
    subst hkey
    obtain rfl := Option.some.inj ((List.lookup_cons_self ..).symm.trans h)
    rw [accept, if_neg (not_or.2 ⟨hne, by simp [hlive]⟩)]
    exact List.lookup_cons_self
  | array es =>
    rw [accept]
    split
    · exact (lookup_replace_of_ne hne).trans h
    split
    · next hfs => exact lookup_replaceStale?_of_live hne hlive h hfs
    · split <;> exact lookup_append_of_some h _
  | map es =>
    rw [accept]
    split
    · exact (lookup_replace_of_ne hne).trans h
    · exact lookup_append_of_some h _

/-! ## What is there -/

theorem mem_of_get? (h : c.get? live key = some value) : (key, value) ∈ c.entries := by
  obtain ⟨hlookup, -⟩ := Option.filter_eq_some_iff.1 h
  exact TypeForms.mem_of_lookup hlookup

theorem mem_replace (h : (k, v) ∈ replace key value es) : (k, v) = (key, value) ∨ (k, v) ∈ es := by
  induction es with
  | nil => cases h
  | cons e es ih =>
    unfold replace at h
    split at h
    · exact (List.mem_cons.1 h).imp_right (List.mem_cons_of_mem _)
    · rcases List.mem_cons.1 h with rfl | h
      · exact .inr (.head _)
      · exact (ih h).imp_right (List.mem_cons_of_mem _)

theorem mem_replaceStale? {fs : List (EditKey × φ)} (hes : replaceStale? live key value es = some fs)
    (h : (k, v) ∈ fs) : (k, v) = (key, value) ∨ (k, v) ∈ es := by
  induction es generalizing fs with
  | nil => cases hes
  | cons e es ih =>
    unfold replaceStale? at hes
    split at hes
    · obtain ⟨gs, hgs, rfl⟩ := Option.map_eq_some_iff.1 hes
      rcases List.mem_cons.1 h with rfl | h
      · exact .inr (.head _)
      · exact (ih hgs h).imp_right (List.mem_cons_of_mem _)
    · obtain rfl := Option.some.inj hes
      exact (List.mem_cons.1 h).imp_right (List.mem_cons_of_mem _)

/-- What is accepted is the only new entry. -/
theorem mem_accept (h : (k, v) ∈ (accept live capacity key value c).entries) :
    (k, v) = (key, value) ∨ (k, v) ∈ c.entries := by
  cases c with
  | empty => exact .inl (List.mem_singleton.1 h)
  | single k' v' =>
    rw [accept] at h
    split at h
    · exact .inl (List.mem_singleton.1 h)
    · rcases List.mem_cons.1 h with h | h
      · exact .inr (h ▸ .head _)
      · exact .inl (List.mem_singleton.1 h)
  | array es =>
    rw [accept] at h
    split at h
    · exact mem_replace h
    · split at h
      · next hes => exact mem_replaceStale? hes h
      · split at h <;>
          exact ((List.mem_append.1 h).imp_right List.mem_singleton.1).symm
  | map es =>
    rw [accept] at h
    split at h
    · exact mem_replace h
    · exact ((List.mem_append.1 h).imp_right List.mem_singleton.1).symm

/-- What is there after a value was put was there before or is the value. -/
theorem mem_put (h : (k, v) ∈ (c.put live capacity key value).2.entries) :
    (k, v) = (key, value) ∨ (k, v) ∈ c.entries := by
  unfold put at h
  split at h
  · exact .inr h
  · exact mem_accept h

theorem put_fst (c : EditCache φ) : (c.put live capacity key value).1 = value ∨
    (key, (c.put live capacity key value).1) ∈ c.entries := by
  unfold put
  split
  · next found h => exact .inr (mem_of_get? h)
  · exact .inl rfl

/-! ## One entry for each key -/

theorem keys_replace (key : EditKey) (value : φ) (es : List (EditKey × φ)) :
    (replace key value es).map Prod.fst = es.map Prod.fst := by
  induction es with
  | nil => rfl
  | cons e es ih =>
    unfold replace
    split
    · next heq => rw [List.map_cons, List.map_cons, heq]
    · rw [List.map_cons, List.map_cons, ih]

/-- A stale entry gives its place to the new one, and everything else stays. -/
theorem replaceStale?_eq (h : replaceStale? live key value es = some fs) :
    ∃ before stale after, es = before ++ stale :: after ∧ fs = before ++ (key, value) :: after := by
  induction es generalizing fs with
  | nil => cases h
  | cons e es ih =>
    unfold replaceStale? at h
    split at h
    · obtain ⟨gs, hgs, rfl⟩ := Option.map_eq_some_iff.1 h
      obtain ⟨before, stale, after, rfl, rfl⟩ := ih hgs
      exact ⟨e :: before, stale, after, rfl, rfl⟩
    · obtain rfl := Option.some.inj h
      exact ⟨[], e, es, rfl, rfl⟩

/-- No key has two entries. -/
def Distinct (c : EditCache φ) : Prop := (c.entries.map Prod.fst).Nodup

theorem nodup_append_new (hnodup : (es.map Prod.fst).Nodup) (h : es.lookup key = none) :
    ((es ++ [(key, value)]).map Prod.fst).Nodup := by
  rw [List.map_append]
  exact hnodup.append (List.nodup_singleton _)
    (List.disjoint_singleton.2 (not_mem_of_lookup h))

theorem nodup_replaceStale? (hnodup : (es.map Prod.fst).Nodup) (h : es.lookup key = none)
    (hfs : replaceStale? live key value es = some fs) : (fs.map Prod.fst).Nodup := by
  obtain ⟨before, stale, after, rfl, rfl⟩ := replaceStale?_eq hfs
  have hnew := not_mem_of_lookup h
  simp only [List.map_append, List.map_cons, List.nodup_middle, List.nodup_cons,
    List.mem_append, List.mem_cons, not_or] at hnodup hnew ⊢
  exact ⟨⟨hnew.1, hnew.2.2⟩, hnodup.2⟩

/-- Accepting a value under a key gives no key a second entry. -/
theorem Distinct.accept (h : c.Distinct) (live : φ → Bool) (capacity : Nat) (key : EditKey)
    (value : φ) : (EditCache.accept live capacity key value c).Distinct := by
  have hreplace {es : List (EditKey × φ)} (h : (es.map Prod.fst).Nodup) :
      ((replace key value es).map Prod.fst).Nodup := by rwa [keys_replace]
  cases c with
  | empty => exact List.nodup_singleton _
  | single k v =>
    rw [EditCache.accept]
    split
    · exact List.nodup_singleton _
    · next hcond =>
      have hne : k ≠ key := fun heq => hcond (.inl heq)
      simpa [Distinct, entries] using hne
  | array es =>
    rw [EditCache.accept]
    split
    · exact hreplace h
    next hnone =>
    have hnone : es.lookup key = none := Option.not_isSome_iff_eq_none.1 hnone
    split
    · next hfs => exact nodup_replaceStale? h hnone hfs
    · split <;> exact nodup_append_new h hnone
  | map es =>
    rw [EditCache.accept]
    split
    · exact hreplace h
    · next hnone => exact nodup_append_new h (Option.not_isSome_iff_eq_none.1 hnone)

/-- What is found under the other keys is what was found there before. -/
theorem Distinct.get?_accept_of_ne (h : c.Distinct) (hne : k ≠ key) :
    (EditCache.accept live capacity key value c).get? live k = c.get? live k := by
  refine Option.ext fun v => ?_
  simp only [get?, Option.filter_eq_some_iff]
  refine and_congr_left fun hlive => ⟨fun hfound => ?_, lookup_accept_of_live hne hlive⟩
  rcases mem_accept (TypeForms.mem_of_lookup hfound) with heq | hmem
  · exact absurd (Prod.mk.inj heq).1 hne
  · exact lookup_of_mem h hmem

theorem get?_accept_self (c : EditCache φ) :
    (accept live capacity key value c).get? live key = (some value).filter live := by
  rw [get?, lookup_accept_self]

/-- The size counts the keys under which something is found. -/
theorem Distinct.exists_size_eq_card (h : c.Distinct) (live : φ → Bool) :
    ∃ found : Finset EditKey,
      (∀ k, k ∈ found ↔ (c.get? live k).isSome = true) ∧ c.size live = found.card := by
  have hnodup : ((c.entries.filter fun e => live e.2).map Prod.fst).Nodup :=
    h.sublist (List.filter_sublist.map _)
  refine ⟨((c.entries.filter fun e => live e.2).map Prod.fst).toFinset, fun k => ?_, ?_⟩
  · simp only [List.mem_toFinset, List.mem_map, List.mem_filter, Option.isSome_iff_exists, get?,
      Option.filter_eq_some_iff]
    constructor
    · rintro ⟨⟨k, v⟩, ⟨hmem, hlive⟩, rfl⟩
      exact ⟨v, lookup_of_mem h hmem, hlive⟩
    · rintro ⟨v, hfound, hlive⟩
      exact ⟨(k, v), ⟨TypeForms.mem_of_lookup hfound, hlive⟩, rfl⟩
  · rw [List.toFinset_card_of_nodup hnodup, List.length_map, size, List.countP_eq_length_filter]

/-! ## The cache and the map -/

/-- What happens to a cache: a value is put under a key, a key is asked for, values die. -/
inductive Request (φ : Type)
  | put (key : EditKey) (value : φ) (capacity : Nat)
  | get (key : EditKey)
  | drop (gone : φ → Bool)

/-- A cache and the values that are alive. -/
structure Store (φ : Type) where
  cache : EditCache φ
  live : φ → Bool

/-- The value that was last accepted under each key, and the values that are alive. -/
structure LiveMap (φ : Type) where
  accepted : EditKey → Option φ
  live : φ → Bool

/-- A cache answers. -/
def Store.answer (s : Store φ) : Request φ → Option φ × Store φ
  | .put key value capacity =>
    (some (s.cache.put s.live capacity key value).1,
      { s with cache := (s.cache.put s.live capacity key value).2 })
  | .get key => (s.cache.get? s.live key, s)
  | .drop gone => (none, { s with live := fun v => s.live v && !gone v })

namespace LiveMap

/-- What was last accepted under a key, if it is alive. -/
def get (m : LiveMap φ) (key : EditKey) : Option φ := (m.accepted key).filter m.live

/-- A map of live values answers: a value is accepted exactly if none is found. -/
def answer (m : LiveMap φ) : Request φ → Option φ × LiveMap φ
  | .put key value _ =>
    match m.get key with
    | some found => (some found, m)
    | none => (some value, { m with accepted := Function.update m.accepted key (some value) })
  | .get key => (m.get key, m)
  | .drop gone => (none, { m with live := fun v => m.live v && !gone v })

end LiveMap

/-- Answers to requests in turn. -/
def answers {σ : Type} (answer : σ → Request φ → Option φ × σ) :
    σ → List (Request φ) → List (Option φ) × σ
  | s, [] => ([], s)
  | s, request :: requests =>
    let rest := answers answer (answer s request).2 requests
    ((answer s request).1 :: rest.1, rest.2)

/-- A cache stands for a map: the same values are alive, and under each key the same is found. -/
structure Store.Refines (s : Store φ) (m : LiveMap φ) : Prop where
  live : s.live = m.live
  distinct : s.cache.Distinct
  get? (k : EditKey) : s.cache.get? s.live k = m.get k

variable {s : Store φ} {m : LiveMap φ}

/-- What dies is no longer found. -/
theorem filter_and (o : Option φ) (live other : φ → Bool) :
    (o.filter fun v => live v && other v) = (o.filter live).filter other := by
  cases o with
  | none => rfl
  | some v => cases hlive : live v <;> simp [Option.filter, hlive]

/-- What a cache answers to a value, and what is found in it afterwards. -/
theorem Store.Refines.put (h : s.Refines m) (key : EditKey) (value : φ) (capacity : Nat) :
    (s.answer (.put key value capacity)).1 = (m.answer (.put key value capacity)).1 ∧
      (s.answer (.put key value capacity)).2.Refines (m.answer (.put key value capacity)).2 := by
  have hget := h.get? key
  simp only [Store.answer, LiveMap.answer, EditCache.put, hget]
  cases hfound : m.get key with
  | some found => exact ⟨rfl, h⟩
  | none =>
    refine ⟨rfl, h.live, h.distinct.accept _ _ _ _, fun k => ?_⟩
    show (s.cache.accept s.live capacity key value).get? s.live k =
      (Function.update m.accepted key (some value) k).filter m.live
    by_cases hk : k = key
    · subst hk
      rw [get?_accept_self, Function.update_self, h.live]
    · rw [h.distinct.get?_accept_of_ne hk, h.get?, LiveMap.get, Function.update_of_ne hk]

/-- One request keeps the cache and the map together. -/
theorem Store.Refines.answer (h : s.Refines m) (request : Request φ) :
    (s.answer request).1 = (m.answer request).1 ∧
      (s.answer request).2.Refines (m.answer request).2 := by
  cases request with
  | put key value capacity => exact h.put key value capacity
  | get key => exact ⟨h.get? key, h⟩
  | drop gone =>
    refine ⟨rfl, ?_, h.distinct, fun k => ?_⟩
    · show (fun v => s.live v && !gone v) = fun v => m.live v && !gone v
      rw [h.live]
    · show (s.cache.entries.lookup k).filter (fun v => s.live v && !gone v) =
        (m.accepted k).filter fun v => m.live v && !gone v
      rw [filter_and, filter_and]
      exact congrArg (Option.filter _) (h.get? k)

/-- Requests in turn keep them together. -/
theorem Store.Refines.answers (h : s.Refines m) (requests : List (Request φ)) :
    (answers Store.answer s requests).1 = (answers LiveMap.answer m requests).1 ∧
      (answers Store.answer s requests).2.Refines (answers LiveMap.answer m requests).2 := by
  induction requests generalizing s m with
  | nil => exact ⟨rfl, h⟩
  | cons request requests ih =>
    obtain ⟨hanswer, hnext⟩ := h.answer request
    obtain ⟨hrest, hlast⟩ := ih hnext
    exact ⟨congrArg₂ List.cons hanswer hrest, hlast⟩

theorem refines_empty (live : φ → Bool) :
    Store.Refines ⟨.empty, live⟩ ⟨fun _ => none, live⟩ :=
  ⟨rfl, List.nodup_nil, fun _ => rfl⟩

/-- What a map of live entries promises of a cache. -/
structure Store.Recalls (s : Store φ) (m : LiveMap φ) : Prop where
  /-- A key answers the value that was last accepted under it, if it is alive. -/
  get? (k : EditKey) : s.cache.get? s.live k = (m.accepted k).filter s.live
  /-- A live value is answered and stays in its place. -/
  put_found (key : EditKey) (value : φ) (capacity : Nat) (found : φ)
    (h : (m.accepted key).filter s.live = some found) :
    s.cache.put s.live capacity key value = (found, s.cache)
  /-- Otherwise the new value is accepted. -/
  put_accepted (key : EditKey) (value : φ) (capacity : Nat)
    (h : (m.accepted key).filter s.live = none) :
    (s.cache.put s.live capacity key value).1 = value ∧
      (s.cache.put s.live capacity key value).2.entries.lookup key = some value
  /-- Nothing that is alive under another key becomes unreachable. -/
  put_other (key : EditKey) (value : φ) (capacity : Nat) (k : EditKey) (h : k ≠ key) :
    (s.cache.put s.live capacity key value).2.get? s.live k = s.cache.get? s.live k
  distinct : (s.cache.entries.map Prod.fst).Nodup
  /-- The size counts the keys under which a live value is found. -/
  size : ∃ found : Finset EditKey,
    (∀ k, k ∈ found ↔ ((m.accepted k).filter s.live).isSome = true) ∧
      s.cache.size s.live = found.card

theorem Store.Refines.recalls (h : s.Refines m) : s.Recalls m := by
  have hget (k : EditKey) : s.cache.get? s.live k = (m.accepted k).filter s.live := by
    rw [h.get?, LiveMap.get, h.live]
  constructor
  case get? => exact hget
  case put_found =>
    intro key value capacity found hfound
    rw [EditCache.put, hget, hfound]
  case put_accepted =>
    intro key value capacity hnone
    rw [EditCache.put, hget, hnone]
    exact ⟨rfl, lookup_accept_self s.cache⟩
  case put_other =>
    intro key value capacity k hne
    rw [EditCache.put]
    split
    · rfl
    · exact h.distinct.get?_accept_of_ne hne
  case distinct => exact h.distinct
  case size =>
    obtain ⟨found, hmem, hcard⟩ := h.distinct.exists_size_eq_card s.live
    exact ⟨found, fun k => by rw [hmem, hget], hcard⟩

/-- **A cache is a map of live entries.** Whatever is put, asked for and dropped, a cache answers as
the map of the values that were last accepted and are alive, and it stays such a map. -/
theorem answers_refine_liveMap (live : φ → Bool) (requests : List (Request φ)) :
    (answers Store.answer ⟨.empty, live⟩ requests).1 =
        (answers LiveMap.answer ⟨fun _ => none, live⟩ requests).1 ∧
      (answers Store.answer ⟨.empty, live⟩ requests).2.Recalls
        (answers LiveMap.answer ⟨fun _ => none, live⟩ requests).2 :=
  ((refines_empty live).answers requests).imp_right Store.Refines.recalls

/-- A dead entry gives its place to another key, and what was there is not found again. -/
example :
    (answers Store.answer ⟨.empty, fun _ => true⟩
      [.put (.packed 1) 10 2, .put (.packed 2) 20 2, .drop (· == 10), .put (.packed 3) 30 2,
        .get (.packed 1), .put (.packed 2) 21 2, .get (.packed 3)]).1 =
      [some 10, some 20, none, some 30, none, some 20, some 30] := by
  decide

end EditCache

end HandleForms
