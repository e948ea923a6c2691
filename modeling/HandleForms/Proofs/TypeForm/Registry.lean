import HandleForms.Proofs.Association
import Mathlib.Data.List.Nodup

/-!
# Registries of type forms

A registry has one type form for each erasure it was asked for and for the basic type of each.
`TypeForms.Registered` says so, together with what a type form consists of, and
`TypeForms.Registered.find` is all that a lookup does: it keeps what is there, adds the erasure and
the basic type of the signature when they are missing, and touches no slot.
-/

namespace HandleForms

/-! ## What an erasure keeps -/

namespace Ty

theorem isPrimitive_basic (t : Ty) : t.basic.isPrimitive = t.isPrimitive := by
  cases t <;> rfl

theorem isDoubleWidth_basic (t : Ty) : t.basic.isDoubleWidth = t.isDoubleWidth := by
  cases t <;> rfl

theorem isVoid_basic (t : Ty) : t.basic.isVoid = t.isVoid := by
  cases t <;> rfl

/-- Only the narrow primitives tell the two ways to fold a type apart. -/
theorem erase_eq_basic_iff (t : Ty) : t.erase = t.basic ↔ t.erase.isSubword = false := by
  cases t <;> simp [erase, basic, isReference, basicType, BasicType.ty, isSubword, object]

theorem slots_eq_one {t : Ty} (hvoid : t ≠ .void) (hwidth : t.isDoubleWidth = false) :
    t.basicType.slots = 1 := by
  cases t <;> first | rfl | exact absurd rfl hvoid | exact absurd hwidth (by decide)

end Ty

namespace ArgCounts

theorem of_basic (s : Signature) : of s.basic = of s := by
  have hcount : ∀ p : Ty → Bool, (∀ t, p t.basic = p t) →
      (s.params.map Ty.basic).countP p = s.params.countP p := by
    intro p hp
    rw [List.countP_map]
    exact congrArg (List.countP · s.params) (funext hp)
  simp only [of, Signature.slots_basic]
  simp only [Signature.basic, Signature.arity, List.length_map, hcount _ Ty.isPrimitive_basic,
    hcount _ Ty.isDoubleWidth_basic, Ty.isVoid_basic, Ty.isPrimitive_basic,
    Ty.isDoubleWidth_basic, Ty.basicType_basic]

theorem of_erase (s : Signature) : of s.erase = of s := by
  rw [← of_basic s.erase, Signature.basic_erase, of_basic]

end ArgCounts

namespace SlotTable

theorem starts_basic (ts : List Ty) (slot : Nat) :
    starts slot (ts.map Ty.basic) = starts slot ts := by
  induction ts generalizing slot with
  | nil => rfl
  | cons t ts ih => simp only [List.map_cons, starts, Ty.basicType_basic, ih]

theorem holders_basic (ts : List Ty) (arg : Nat) :
    holders arg (ts.map Ty.basic) = holders arg ts := by
  induction ts generalizing arg with
  | nil => rfl
  | cons t ts ih => simp only [List.map_cons, holders, Ty.basicType_basic, ih]

theorem of_basic (s : Signature) : of s.basic.params = of s.params := by
  simp only [of, Signature.basic, starts_basic, holders_basic]

theorem of_erase (s : Signature) : of s.erase.params = of s.params := by
  rw [← of_basic s.erase, Signature.basic_erase, of_basic]

theorem starts_of_single {ts : List Ty} (h : ∀ t ∈ ts, t.basicType.slots = 1) (slot : Nat) :
    starts slot ts = List.range' slot (ts.length + 1) := by
  induction ts generalizing slot with
  | nil => rfl
  | cons t ts ih =>
    rw [starts, h t List.mem_cons_self, ih fun u hu => h u (List.mem_cons_of_mem t hu)]
    rfl

theorem holders_of_single {ts : List Ty} (h : ∀ t ∈ ts, t.basicType.slots = 1) (arg : Nat) :
    holders arg ts = List.range' arg (ts.length + 1) := by
  induction ts generalizing arg with
  | nil => rfl
  | cons t ts ih =>
    rw [holders, h t List.mem_cons_self, ih fun u hu => h u (List.mem_cons_of_mem t hu)]
    rfl

/-- Signatures without double-width parameters can share one table per length. -/
theorem of_eq_singleSlot {s : Signature} (h : (ArgCounts.of s).longParameters = 0) :
    of s.params = singleSlot s.arity := by
  have hslots : ∀ t ∈ s.params, t.basicType.slots = 1 := by
    intro t ht
    refine Ty.slots_eq_one (s.params_ne_void t ht) ?_
    simpa using List.countP_eq_zero.1 h t ht
  rw [of, starts_of_single hslots, holders_of_single hslots, singleSlot, List.range_eq_range']
  rfl

end SlotTable

namespace Signature

/-- The erasure of a signature is basic exactly if it is its basic type. -/
theorem isBasic_erase_iff (s : Signature) : s.erase.isBasic = true ↔ s.erase = s.basic := by
  have htypes : s.erase.types = s.types.map Ty.erase := by simp [types, erase]
  have herased : s.erase.isErased = true := by
    rw [isErased, htypes, List.all_map, List.all_eq_true]
    intro t _
    cases t <;> simp [Ty.erase, Ty.isReference, Ty.object, Ty.isObject]
  have hsubword : s.erase.isBasic = true ↔ ∀ t ∈ s.types, t.erase.isSubword = false := by
    simp [isBasic, herased, htypes]
  rw [hsubword]
  constructor
  · intro h
    have heq : ∀ t ∈ s.types, t.erase = t.basic := fun t ht => (Ty.erase_eq_basic_iff t).2 (h t ht)
    refine ext' (List.map_inj_left.2 fun t ht => heq t ?_) (heq s.ret ?_)
    · exact List.mem_append_left _ ht
    · exact List.mem_append_right _ List.mem_cons_self
  · intro h t ht
    rw [← Ty.erase_eq_basic_iff]
    rcases List.mem_append.1 ht with ht | ht
    · exact List.map_inj_left.1 (congrArg params h) t ht
    · rw [List.mem_singleton.1 ht]
      exact congrArg ret h

end Signature

namespace TypeForms

variable {η : Type} {r r' : TypeForms η} {t : TypeForm} {s : Signature}

/-! ## Adding a type form -/

/-- What a new type form consists of. -/
theorem add_eq (r : TypeForms η) (erased : Signature) (basicId? : Option Nat) :
    ((r.add erased basicId?).1.id = r.interned.length ∧ (r.add erased basicId?).1.erased = erased ∧
      (r.add erased basicId?).1.basicId? = basicId?) ∧
    (r.add erased basicId?).2.interned = r.interned ++ [(r.add erased basicId?).1] ∧
    (r.add erased basicId?).2.forms = r.forms ∧ (r.add erased basicId?).2.handles = r.handles := by
  have htable : (r.tableFor erased).2.interned = r.interned ∧
      (r.tableFor erased).2.forms = r.forms ∧ (r.tableFor erased).2.handles = r.handles := by
    unfold tableFor
    dsimp only
    split
    · exact ⟨rfl, rfl, rfl⟩
    · split <;> exact ⟨rfl, rfl, rfl⟩
  obtain ⟨hinterned, hforms, hhandles⟩ := htable
  exact ⟨⟨congrArg List.length hinterned, rfl, rfl⟩, congrArg (· ++ _) hinterned, hforms, hhandles⟩

theorem of_lookup? (h : r.lookup? s = some t) : t ∈ r.interned ∧ t.erased = s :=
  ⟨List.mem_of_find?_eq_some h, by simpa using List.find?_some h⟩

/-- What adding a type form keeps is kept by lookups. -/
theorem find_of_add {p : TypeForms η → Prop}
    (hadd : ∀ (r : TypeForms η) erased basicId?, p r → p (r.add erased basicId?).2) (h : p r)
    (s : Signature) : p (r.find s).2 := by
  have hbasic : p (r.findBasic s.basic).2 := by
    unfold TypeForms.findBasic
    split
    · exact h
    · exact hadd r _ _ h
  unfold TypeForms.find
  split
  · exact h
  · split
    · exact hadd r _ _ h
    · exact hadd _ _ _ hbasic

/-- Type forms stay. -/
theorem isPrefix_find (r : TypeForms η) (s : Signature) :
    r.interned <+: (r.find s).2.interned := by
  refine find_of_add (p := fun r' => r.interned <+: r'.interned) ?_ (List.prefix_refl _) s
  intro r' erased basicId? h
  rw [(add_eq r' erased basicId?).2.1]
  exact h.trans (List.prefix_append _ _)

/-! ## Well-made registries -/

/-- The erasures that have type forms. -/
def erasures (r : TypeForms η) : List Signature := r.interned.map TypeForm.erased

/-- The type form that keeps the slots of another one: its own basic form, or itself. -/
def basicForm (r : TypeForms η) (t : TypeForm) : TypeForm := (t.basicId?.bind r.get?).getD t

/-- The tables that parameter lists of one length share are the ones that they need. -/
def SharesTables (r : TypeForms η) : Prop :=
  ∀ e ∈ r.sharedTables, e.2.2 = SlotTable.singleSlot e.1

/-- A registry has one type form for each erasure, every type form is made for its erasure, and its
slots are those of its basic type. -/
structure Registered (r : TypeForms η) : Prop where
  /-- A type form is the object that its number says. -/
  ids : ∀ (i : Nat) (t : TypeForm), r.interned[i]? = some t → t.id = i
  nodup : r.erasures.Nodup
  counts : ∀ t ∈ r.interned, t.counts = ArgCounts.of t.erased
  slots : ∀ t ∈ r.interned, t.slots = SlotTable.of t.erased.params
  owners : ∀ t ∈ r.interned, ∃ o, r.interned[t.slotOwner]? = some o ∧ o.erased = t.basic
  tables : r.SharesTables
  /-- Only slots of type forms hold anything. -/
  forms : ∀ e ∈ r.forms, e.1.1 < r.interned.length
  handles : ∀ e ∈ r.handles, e.1.1 < r.interned.length

namespace Registered

theorem empty : Registered (TypeForms.empty : TypeForms η) where
  ids i t h := by simp [TypeForms.empty] at h
  nodup := List.nodup_nil
  counts t h := by simp [TypeForms.empty] at h
  slots t h := by simp [TypeForms.empty] at h
  owners t h := by simp [TypeForms.empty] at h
  tables e h := by simp [TypeForms.empty] at h
  forms e h := by simp [TypeForms.empty] at h
  handles e h := by simp [TypeForms.empty] at h

theorem getElem?_id (h : r.Registered) (ht : t ∈ r.interned) : r.interned[t.id]? = some t := by
  obtain ⟨i, hi⟩ := List.getElem?_of_mem ht
  rwa [h.ids i t hi]

/-- A type form is known by its erasure. -/
theorem eq_of_erased (h : r.Registered) {u : TypeForm} (ht : t ∈ r.interned) (hu : u ∈ r.interned)
    (heq : t.erased = u.erased) : t = u :=
  List.inj_on_of_nodup_map h.nodup ht hu heq

/-- A type form is known by its number. -/
theorem eq_of_id (h : r.Registered) {u : TypeForm} (ht : t ∈ r.interned) (hu : u ∈ r.interned)
    (heq : t.id = u.id) : t = u := by
  have hget := h.getElem?_id ht
  rw [heq, h.getElem?_id hu] at hget
  exact (Option.some.inj hget).symm

theorem lookup?_erased (h : r.Registered) (ht : t ∈ r.interned) :
    r.lookup? t.erased = some t := by
  cases hfound : r.lookup? t.erased with
  | none => exact absurd (List.find?_eq_none.1 hfound t ht) (by simp)
  | some u =>
    obtain ⟨hu, heq⟩ := of_lookup? hfound
    rw [h.eq_of_erased hu ht heq]

theorem basicForm_eq (h : r.Registered) (ht : t ∈ r.interned) :
    r.basicForm t ∈ r.interned ∧ (r.basicForm t).id = t.slotOwner ∧
      (r.basicForm t).erased = t.basic := by
  obtain ⟨o, howner, herased⟩ := h.owners t ht
  have hform : r.basicForm t = o := by
    unfold basicForm
    unfold TypeForm.slotOwner at howner
    cases hbasic : t.basicId? with
    | none =>
      rw [hbasic, Option.getD_none, h.getElem?_id ht] at howner
      exact Option.some.inj howner
    | some i =>
      rw [hbasic] at howner
      show (r.interned[i]?).getD t = o
      rw [show r.interned[i]? = some o from howner]
      rfl
  rw [hform]
  exact ⟨List.mem_of_getElem? howner, h.ids _ _ howner, herased⟩

/-- The slots of a type form are those of its basic type. -/
theorem lookup?_basic (h : r.Registered) (ht : t ∈ r.interned) :
    ∃ o, r.lookup? t.basic = some o ∧ o.id = t.slotOwner := by
  obtain ⟨hmem, hid, herased⟩ := h.basicForm_eq ht
  exact ⟨r.basicForm t, herased ▸ h.lookup?_erased hmem, hid⟩

theorem slotOwner_lt (h : r.Registered) (ht : t ∈ r.interned) :
    t.slotOwner < r.interned.length := by
  obtain ⟨o, howner, -⟩ := h.owners t ht
  exact (List.getElem?_eq_some_iff.1 howner).1

/-- The table of a new type form. -/
theorem tableFor (h : r.SharesTables) (erased : Signature) :
    (r.tableFor erased).1.2 = SlotTable.of erased.params ∧ (r.tableFor erased).2.SharesTables := by
  unfold TypeForms.tableFor
  dsimp only
  split
  · exact ⟨rfl, h⟩
  next hlong =>
    have hsingle := SlotTable.of_eq_singleSlot (Nat.eq_zero_of_not_pos hlong)
    split
    · next shared hshared =>
      exact ⟨(h _ (mem_of_lookup hshared)).trans hsingle.symm, h⟩
    · refine ⟨hsingle.symm, ?_⟩
      intro e he
      rcases List.mem_cons.1 he with rfl | he
      · rfl
      · exact h e he

/-- A type form for a new erasure can be added when its slots have an owner. -/
theorem add (h : r.Registered) {erased : Signature} {basicId? : Option Nat}
    (hnew : erased ∉ r.erasures)
    (howner : ∃ o, (r.add erased basicId?).2.interned[(r.add erased basicId?).1.slotOwner]? = some o ∧
      o.erased = (r.add erased basicId?).1.basic) :
    (r.add erased basicId?).2.Registered := by
  obtain ⟨⟨hid, herased, -⟩, hinterned, hforms, hhandles⟩ := add_eq r erased basicId?
  have hlength : (r.add erased basicId?).2.interned.length = r.interned.length + 1 := by
    rw [hinterned, List.length_append, List.length_singleton]
  have hmem : ∀ {p : TypeForm → Prop}, (∀ t ∈ r.interned, p t) → p (r.add erased basicId?).1 →
      ∀ t ∈ (r.add erased basicId?).2.interned, p t := by
    intro p hold hadded t ht
    rw [hinterned] at ht
    rcases List.mem_append.1 ht with ht | ht
    · exact hold t ht
    · rw [List.mem_singleton.1 ht]
      exact hadded
  have htable := tableFor h.tables erased
  refine ⟨?_, ?_, hmem h.counts rfl, hmem h.slots htable.1, hmem ?_ howner, htable.2, ?_, ?_⟩
  · intro i t ht
    rw [hinterned] at ht
    rcases Nat.lt_or_ge i r.interned.length with hi | hi
    · exact h.ids i t (by rwa [List.getElem?_append_left hi] at ht)
    · rw [List.getElem?_append_right hi, List.getElem?_singleton] at ht
      obtain ⟨hzero, ht⟩ := Option.ite_none_right_eq_some.1 ht
      obtain rfl := Option.some.inj ht
      omega
  · rw [erasures, hinterned, List.map_append, List.map_singleton, herased]
    rw [← List.concat_eq_append]
    exact List.Nodup.concat hnew h.nodup
  · intro t ht
    obtain ⟨o, ho, hbasic⟩ := h.owners t ht
    refine ⟨o, ?_, hbasic⟩
    rw [hinterned, List.getElem?_append_left (List.getElem?_eq_some_iff.1 ho).1]
    exact ho
  · intro e he
    have := h.forms e (hforms ▸ he)
    omega
  · intro e he
    have := h.handles e (hhandles ▸ he)
    omega

end Registered

/-! ## Looking up a signature -/

/-- What a lookup comes to: the type form of the erasure in a registry that has grown by the erasure
and the basic type at most, with the slots as they were. -/
structure Finds (r : TypeForms η) (s : Signature) (t : TypeForm) (r' : TypeForms η) : Prop where
  registered : r'.Registered
  mem : t ∈ r'.interned
  erased : t.erased = s.erase
  isPrefix : r.interned <+: r'.interned
  erasures : ∀ u, u ∈ r'.erasures ↔ u ∈ r.erasures ∨ u = s.erase ∨ u = s.basic
  forms : r'.forms = r.forms
  handles : r'.handles = r.handles

theorem mem_erasures (ht : t ∈ r.interned) : t.erased ∈ r.erasures :=
  List.mem_map_of_mem ht

theorem not_mem_erasures (h : r.lookup? s = none) : s ∉ r.erasures := by
  intro hmem
  obtain ⟨t, ht, rfl⟩ := List.mem_map.1 hmem
  exact absurd (List.find?_eq_none.1 h t ht) (by simp)

theorem erasures_add (r : TypeForms η) (erased : Signature) (basicId? : Option Nat)
    (u : Signature) :
    u ∈ (r.add erased basicId?).2.erasures ↔ u ∈ r.erasures ∨ u = erased := by
  obtain ⟨⟨-, herased, -⟩, hinterned, -, -⟩ := add_eq r erased basicId?
  rw [erasures, hinterned, List.map_append, List.mem_append, List.map_singleton, herased,
    List.mem_singleton]
  rfl

/-- The basic type of a registered erasure is registered. -/
theorem Registered.basic_mem (h : r.Registered) (ht : t ∈ r.interned) : t.basic ∈ r.erasures := by
  obtain ⟨hmem, -, herased⟩ := h.basicForm_eq ht
  exact herased ▸ mem_erasures hmem

/-- A signature that has a type form is found as it is. -/
theorem Registered.finds_self (h : r.Registered) (ht : t ∈ r.interned) (herased : t.erased = s.erase) :
    r.Finds s t r := by
  refine ⟨h, ht, herased, List.prefix_refl _, fun u => ?_, rfl, rfl⟩
  have hbasic : t.basic = s.basic := by
    rw [TypeForm.basic, herased, Signature.basic_erase]
  constructor
  · exact Or.inl
  · intro hu
    rcases hu with hu | rfl | rfl
    · exact hu
    · exact herased ▸ mem_erasures ht
    · exact hbasic ▸ h.basic_mem ht

/-- A type form that keeps its own slots can be added for a basic type. -/
theorem Registered.finds_add_basic (h : r.Registered) (heq : s.erase = s.basic)
    (hnone : r.lookup? s.erase = none) : r.Finds s (r.add s.erase none).1 (r.add s.erase none).2 := by
  obtain ⟨⟨hid, herased, hbasic⟩, hinterned, hforms, hhandles⟩ := add_eq r s.erase none
  have hself : (r.add s.erase none).2.interned[(r.add s.erase none).1.slotOwner]? =
      some (r.add s.erase none).1 := by
    rw [TypeForm.slotOwner, hbasic, Option.getD_none, hid, hinterned, List.getElem?_concat_length]
  refine ⟨h.add (not_mem_erasures hnone) ⟨_, hself, ?_⟩, List.mem_of_getElem? hself, herased,
    hinterned ▸ List.prefix_append _ _, fun u => ?_, hforms, hhandles⟩
  · rw [TypeForm.basic, herased, Signature.basic_erase, heq]
  · rw [erasures_add, ← heq, or_self]

theorem Registered.findBasic (h : r.Registered) (s : Signature) :
    r.Finds s.basic (r.findBasic s.basic).1 (r.findBasic s.basic).2 := by
  unfold TypeForms.findBasic
  split
  · next t ht =>
    obtain ⟨hmem, herased⟩ := of_lookup? ht
    exact h.finds_self hmem (herased.trans s.erase_basic.symm)
  · next hnone =>
    have hfinds := h.finds_add_basic (s := s.basic) (by simp) (by rwa [s.erase_basic])
    rwa [s.erase_basic] at hfinds

/-- The type form of an erasure with narrow primitives goes with that of the basic type. -/
theorem Finds.add_narrow {b : TypeForm} (h : r.Finds s.basic b r') (hne : s.erase ≠ s.basic)
    (hnone : r.lookup? s.erase = none) :
    r.Finds s (r'.add s.erase (some b.id)).1 (r'.add s.erase (some b.id)).2 := by
  obtain ⟨⟨-, herased, hbasic⟩, hinterned, hforms, hhandles⟩ := add_eq r' s.erase (some b.id)
  have hnew : s.erase ∉ r'.erasures := by
    intro hmem
    rcases (h.erasures _).1 hmem with hmem | heq | heq
    · exact not_mem_erasures hnone hmem
    · exact hne (heq.trans s.erase_basic)
    · exact hne (heq.trans s.basic_basic)
  refine ⟨h.registered.add hnew ⟨b, ?_, ?_⟩, ?_, herased, ?_, fun u => ?_, hforms.trans h.forms,
    hhandles.trans h.handles⟩
  · have hself := h.registered.getElem?_id h.mem
    rw [TypeForm.slotOwner, hbasic, Option.getD_some, hinterned,
      List.getElem?_append_left (List.getElem?_eq_some_iff.1 hself).1]
    exact hself
  · rw [TypeForm.basic, herased, Signature.basic_erase, h.erased, s.erase_basic]
  · rw [hinterned]
    exact List.mem_append_right _ List.mem_cons_self
  · exact h.isPrefix.trans (hinterned ▸ List.prefix_append _ _)
  · rw [erasures_add, h.erasures, s.erase_basic, s.basic_basic, or_self, or_assoc,
      or_comm (a := u = s.basic)]

theorem Registered.find (h : r.Registered) (s : Signature) :
    r.Finds s (r.find s).1 (r.find s).2 := by
  unfold TypeForms.find
  split
  · next t ht =>
    obtain ⟨hmem, herased⟩ := of_lookup? ht
    exact h.finds_self hmem herased
  next hnone =>
  split
  · next hbasic => exact h.finds_add_basic (s.isBasic_erase_iff.1 hbasic) hnone
  · next hbasic =>
    exact (h.findBasic s).add_narrow (fun heq => hbasic (s.isBasic_erase_iff.2 heq)) hnone

end TypeForms

end HandleForms
