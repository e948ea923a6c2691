import HandleForms.Context
import HandleForms.Proofs.TypeForm.Registry
import Mathlib.Logic.Function.Basic

/-!
# Slots as a map of basic types

The slots of a registry are one map from basic types and purposes to what they hold
(`TypeForms.slotAt`): type forms of one basic type share them, a lookup leaves them as they are, and
what a context stores through a type form is stored under the basic type of that form. The map is
weak. An entry counts while it is alive, and the first live one wins (`WeakMap.keep`).
-/

namespace HandleForms

/-! ## Weak maps -/

/-- A map whose entries can die. -/
@[ext]
structure WeakMap (κ α : Type) where
  /-- The entry of a key, alive or not. -/
  entry : κ → Option α

namespace WeakMap

variable {κ α : Type}

/-- A map without entries. -/
def empty : WeakMap κ α := ⟨fun _ => none⟩

/-- The live entry of a key. -/
def peek (m : WeakMap κ α) (alive : α → Bool) (key : κ) : Option α := (m.entry key).filter alive

variable [DecidableEq κ]

/-- Puts an entry under a key. -/
def put (m : WeakMap κ α) (key : κ) (a : α) : WeakMap κ α :=
  ⟨Function.update m.entry key (some a)⟩

/-- Puts an entry under a key unless a live one is there. Answers the one that is there afterwards.
-/
def keep (m : WeakMap κ α) (alive : α → Bool) (key : κ) (a : α) : α × WeakMap κ α :=
  match m.peek alive key with
  | some found => (found, m)
  | none => (a, m.put key a)

variable {m : WeakMap κ α} {alive : α → Bool} {key other : κ} {a b : α}

theorem put_self : (m.put key a).entry key = some a := Function.update_self key _ _

theorem put_of_ne (h : other ≠ key) : (m.put key a).entry other = m.entry other :=
  Function.update_of_ne h _ _

omit [DecidableEq κ] in
theorem peek_eq_some_iff : m.peek alive key = some a ↔ m.entry key = some a ∧ alive a = true :=
  Option.filter_eq_some_iff

theorem keep_of_some (h : m.peek alive key = some b) : m.keep alive key a = (b, m) := by
  unfold keep
  rw [h]

theorem keep_of_none (h : m.peek alive key = none) : m.keep alive key a = (a, m.put key a) := by
  unfold keep
  rw [h]

/-- What is answered is what the key has from then on. -/
theorem keep_self : (m.keep alive key a).2.entry key = some (m.keep alive key a).1 := by
  cases h : m.peek alive key with
  | some b =>
    rw [keep_of_some h]
    exact (peek_eq_some_iff.1 h).1
  | none =>
    rw [keep_of_none h]
    exact put_self

/-- A live entry is never replaced. -/
theorem keep_of_alive (h : m.entry other = some b) (halive : alive b = true) :
    (m.keep alive key a).2.entry other = some b := by
  cases hpeek : m.peek alive key with
  | some c => rwa [keep_of_some hpeek]
  | none =>
    rw [keep_of_none hpeek]
    have hne : other ≠ key := by
      rintro rfl
      rw [peek_eq_some_iff.2 ⟨h, halive⟩] at hpeek
      exact absurd hpeek (by simp)
    exact (put_of_ne hne).trans h

/-- An entry was there or is the new one. -/
theorem of_keep (h : (m.keep alive key a).2.entry other = some b) :
    m.entry other = some b ∨ other = key ∧ b = a ∧ (m.keep alive key a).1 = a := by
  cases hpeek : m.peek alive key with
  | some c =>
    rw [keep_of_some hpeek] at h
    exact .inl h
  | none =>
    rw [keep_of_none hpeek] at h ⊢
    by_cases hkey : other = key
    · subst hkey
      exact .inr ⟨rfl, Option.some.inj (h.symm.trans put_self), rfl⟩
    · exact .inl ((put_of_ne hkey).symm.trans h)

end WeakMap

/-! ## The slots of a registry -/

namespace TypeForms

variable {η κ α : Type} [DecidableEq κ] {r r' : TypeForms η} {t : TypeForm} {s : Signature}
  {es : List ((Nat × κ) × α)} {p : κ} {a : α}

/-- What the slots of basic types hold, out of a list of what the slots of type forms hold. -/
def slotAt (r : TypeForms η) (es : List ((Nat × κ) × α)) : WeakMap (Signature × κ) α where
  entry key := (r.lookup? key.1).bind fun o => es.lookup (o.id, key.2)

theorem entry_slotAt (r : TypeForms η) (es : List ((Nat × κ) × α)) (key : Signature × κ) :
    (r.slotAt es).entry key = (r.lookup? key.1).bind fun o => es.lookup (o.id, key.2) := rfl

/-- The slot of a type form is the slot of its basic type. -/
theorem Registered.slotAt_basic (h : r.Registered) (ht : t ∈ r.interned) :
    (r.slotAt es).entry (t.basic, p) = es.lookup (t.slotOwner, p) := by
  obtain ⟨o, ho, hid⟩ := h.lookup?_basic ht
  rw [entry_slotAt, ho, ← hid]
  rfl

/-- What is stored through a type form is stored under its basic type. -/
theorem Registered.slotAt_assign (h : r.Registered) (ht : t ∈ r.interned) :
    r.slotAt (assign (t.slotOwner, p) a es) = (r.slotAt es).put (t.basic, p) a := by
  obtain ⟨o, ho, hid⟩ := h.lookup?_basic ht
  ext1
  funext key
  by_cases hkey : key = (t.basic, p)
  · subst hkey
    rw [h.slotAt_basic ht, lookup_assign_self, WeakMap.put_self]
  · -- Another basic type has another owner, and another purpose another slot.
    rw [WeakMap.put_of_ne hkey, entry_slotAt, entry_slotAt]
    cases hfound : r.lookup? key.1 with
    | none => rfl
    | some u =>
      refine lookup_assign_of_ne fun heq => hkey ?_
      obtain ⟨hu, herased⟩ := of_lookup? hfound
      obtain ⟨hmem, hobasic⟩ := of_lookup? ho
      have hsame : u = o := h.eq_of_id hu hmem ((Prod.mk.inj heq).1.trans hid.symm)
      exact Prod.ext (by rw [← herased, hsame, hobasic]) (Prod.mk.inj heq).2

/-- A lookup leaves the slots as they are. -/
theorem Finds.slotAt_eq (h : r.Finds s t r')
    (hes : ∀ e ∈ es, e.1.1 < r.interned.length) : r'.slotAt es = r.slotAt es := by
  ext1
  funext key
  rw [entry_slotAt, entry_slotAt]
  cases hfound : r.lookup? key.1 with
  | some o =>
    obtain ⟨ho, herased⟩ := of_lookup? hfound
    rw [← herased, h.registered.lookup?_erased (h.isPrefix.subset ho)]
  | none =>
    cases hnew : r'.lookup? key.1 with
    | none => rfl
    | some o =>
      -- A type form that was not there before has a number that no slot goes by.
      obtain ⟨ho, herased⟩ := of_lookup? hnew
      cases hlookup : es.lookup (o.id, key.2) with
      | none => exact hlookup
      | some b =>
        have hlt : o.id < r.interned.length := hes _ (mem_of_lookup hlookup)
        have hself := h.registered.getElem?_id ho
        rw [List.prefix_iff_getElem?.1 h.isPrefix o.id hlt] at hself
        have hmem : o ∈ r.interned := Option.some.inj hself ▸ List.getElem_mem hlt
        exact absurd (herased ▸ mem_erasures hmem) (not_mem_erasures hfound)

end TypeForms

/-! ## The slots that contexts work on -/

/-- What slots hold, by basic type and purpose. -/
@[ext]
structure SlotMaps (η : Type) where
  forms : WeakMap (Signature × FormPurpose) Form
  handles : WeakMap (Signature × HandlePurpose) η

variable {η : Type}

/-- What the slots of a registry hold. -/
def TypeForms.slotMaps (r : TypeForms η) : SlotMaps η := ⟨r.slotAt r.forms, r.slotAt r.handles⟩

namespace TypeForms

variable {r r' : TypeForms η} {t : TypeForm} {s : Signature}

theorem Finds.slotMaps_eq (h : r.Finds s t r') (hr : r.Registered) : r'.slotMaps = r.slotMaps := by
  unfold slotMaps
  rw [h.forms, h.handles, h.slotAt_eq hr.forms, h.slotAt_eq hr.handles]

/-- One registry has the type forms of another one, and its slots hold this. -/
structure Holds (r r' : TypeForms η) (m : SlotMaps η) : Prop where
  registered : r'.Registered
  interned : r'.interned = r.interned
  slots : r'.slotMaps = m

theorem Registered.holds_self (h : r.Registered) : r.Holds r r.slotMaps := ⟨h, rfl, rfl⟩

theorem Registered.holds_setForm (h : r.Registered) (ht : t ∈ r.interned) (p : FormPurpose)
    (f : Form) : r.Holds (r.setForm t p f)
      { r.slotMaps with forms := r.slotMaps.forms.put (t.basic, p) f } := by
  refine ⟨⟨h.ids, h.nodup, h.counts, h.slots, h.owners, h.tables, fun e he => ?_, h.handles⟩, rfl,
    SlotMaps.ext (h.slotAt_assign ht) rfl⟩
  rcases mem_assign he with rfl | he
  · exact h.slotOwner_lt ht
  · exact h.forms e he

theorem Registered.holds_setHandle (h : r.Registered) (ht : t ∈ r.interned) (p : HandlePurpose)
    (a : η) : r.Holds (r.setHandle t p a)
      { r.slotMaps with handles := r.slotMaps.handles.put (t.basic, p) a } := by
  refine ⟨⟨h.ids, h.nodup, h.counts, h.slots, h.owners, h.tables, h.forms, fun e he => ?_⟩, rfl,
    SlotMaps.ext rfl (h.slotAt_assign ht)⟩
  rcases mem_assign he with rfl | he
  · exact h.slotOwner_lt ht
  · exact h.handles e he

theorem Registered.form?_eq (h : r.Registered) (ht : t ∈ r.interned) (p : FormPurpose) :
    r.form? t p = r.slotMaps.forms.entry (t.basic, p) :=
  (h.slotAt_basic ht).symm

theorem Registered.handle?_eq (h : r.Registered) (ht : t ∈ r.interned) (p : HandlePurpose) :
    r.handle? t p = r.slotMaps.handles.entry (t.basic, p) :=
  (h.slotAt_basic ht).symm

/-- The live form in a slot. -/
theorem Registered.peek_form (h : r.Registered) (ht : t ∈ r.interned) (alive : Form → Bool)
    (p : FormPurpose) :
    (r.form? t p).filter alive = r.slotMaps.forms.peek alive (t.basic, p) :=
  congrArg (Option.filter alive) (h.form?_eq ht p)

/-- The live handle in a slot. -/
theorem Registered.peek_handle (h : r.Registered) (ht : t ∈ r.interned) (alive : η → Bool)
    (p : HandlePurpose) :
    (r.handle? t p).filter alive = r.slotMaps.handles.peek alive (t.basic, p) :=
  congrArg (Option.filter alive) (h.handle?_eq ht p)

end TypeForms

namespace Context

variable {c : Context η} {t : TypeForm} (live : Live η)

/-- Reading a slot changes none. -/
theorem cachedForm_eq (h : c.types.Registered) (ht : t ∈ c.types.interned) (p : FormPurpose) :
    (c.cachedForm live t p).1 = c.types.slotMaps.forms.peek live.form (t.basic, p) ∧
      (c.cachedForm live t p).2.types = c.types := by
  unfold cachedForm
  rw [h.peek_form ht]
  cases c.types.slotMaps.forms.peek live.form (t.basic, p) <;> exact ⟨rfl, rfl⟩

theorem setCachedForm_eq (h : c.types.Registered) (ht : t ∈ c.types.interned) (p : FormPurpose)
    (f : Form) :
    (c.setCachedForm live t p f).1 =
        (c.types.slotMaps.forms.keep live.form (t.basic, p) f).1 ∧
      c.types.Holds (c.setCachedForm live t p f).2.types { c.types.slotMaps with
        forms := (c.types.slotMaps.forms.keep live.form (t.basic, p) f).2 } := by
  unfold setCachedForm
  rw [h.peek_form ht]
  cases hpeek : c.types.slotMaps.forms.peek live.form (t.basic, p) with
  | some found =>
    rw [WeakMap.keep_of_some hpeek]
    exact ⟨rfl, h.holds_self⟩
  | none =>
    rw [WeakMap.keep_of_none hpeek]
    exact ⟨rfl, h.holds_setForm ht p f⟩

section Build

variable {ε : Type} {build : Context η → Except ε Form × Context η}

variable (build) in
theorem cachedFormOrBuild_of_some (h : c.types.Registered) (ht : t ∈ c.types.interned)
    {p : FormPurpose} {f : Form}
    (hpeek : c.types.slotMaps.forms.peek live.form (t.basic, p) = some f) :
    (c.cachedFormOrBuild live t p build).1 = .ok f ∧
      (c.cachedFormOrBuild live t p build).2.types = c.types := by
  have hread : c.cachedForm live t p = (some f, c.retainForm f) := by
    unfold cachedForm
    rw [h.peek_form ht, hpeek]
  unfold cachedFormOrBuild
  rw [hread]
  exact ⟨rfl, rfl⟩

theorem cachedForm_of_none (h : c.types.Registered) (ht : t ∈ c.types.interned)
    {p : FormPurpose} (hpeek : c.types.slotMaps.forms.peek live.form (t.basic, p) = none) :
    c.cachedForm live t p = (none, c) := by
  unfold cachedForm
  rw [h.peek_form ht, hpeek]

/-- A build that fails stores nothing. -/
theorem cachedFormOrBuild_of_error (h : c.types.Registered) (ht : t ∈ c.types.interned)
    {p : FormPurpose} (hpeek : c.types.slotMaps.forms.peek live.form (t.basic, p) = none)
    {e : ε} {c' : Context η} (hbuild : build c = (.error e, c')) :
    c.cachedFormOrBuild live t p build = (.error e, c') := by
  unfold cachedFormOrBuild
  simp only [cachedForm_of_none live h ht hpeek, hbuild]

/-- A form that is built is stored, since nothing was there and the build stores nothing itself. -/
theorem cachedFormOrBuild_of_ok (h : c.types.Registered) (ht : t ∈ c.types.interned)
    {p : FormPurpose} (hpeek : c.types.slotMaps.forms.peek live.form (t.basic, p) = none)
    {f : Form} {c' : Context η} (hbuild : build c = (.ok f, c')) (htypes : c'.types = c.types) :
    (c.cachedFormOrBuild live t p build).1 = .ok f ∧
      c.types.Holds (c.cachedFormOrBuild live t p build).2.types
        { c.types.slotMaps with forms := c.types.slotMaps.forms.put (t.basic, p) f } := by
  obtain ⟨hanswer, hholds⟩ := setCachedForm_eq (c := c') live (htypes ▸ h) (htypes ▸ ht) p f
  rw [htypes, WeakMap.keep_of_none hpeek] at hanswer hholds
  unfold cachedFormOrBuild
  simp only [cachedForm_of_none live h ht hpeek, hbuild]
  exact ⟨congrArg Except.ok hanswer, hholds⟩

end Build

variable [Identified η] {τ : Type} (select : η → Option τ)

theorem cachedHandle_eq (h : c.types.Registered) (ht : t ∈ c.types.interned)
    (p : HandlePurpose) :
    (c.cachedHandle live select t p).1 =
        (c.types.slotMaps.handles.peek live.handle (t.basic, p)).bind select ∧
      (c.cachedHandle live select t p).2.types = c.types := by
  unfold cachedHandle
  rw [h.peek_handle ht]
  cases c.types.slotMaps.handles.peek live.handle (t.basic, p) <;> exact ⟨rfl, rfl⟩

/-- Storing a handle answers the one that is there afterwards, if it is of the sort that is asked
for. -/
theorem setCachedHandle_eq (h : c.types.Registered) (ht : t ∈ c.types.interned)
    (p : HandlePurpose) (wrap : τ → η) {a : τ} (hselect : select (wrap a) = some a) :
    (c.setCachedHandle live select wrap t p a).1 =
        ((select (c.types.slotMaps.handles.keep live.handle (t.basic, p) (wrap a)).1).elim
          (.error (.handleSlotConflict p)) .ok) ∧
      c.types.Holds (c.setCachedHandle live select wrap t p a).2.types { c.types.slotMaps with
        handles := (c.types.slotMaps.handles.keep live.handle (t.basic, p) (wrap a)).2 } := by
  unfold setCachedHandle
  rw [h.peek_handle ht]
  cases hpeek : c.types.slotMaps.handles.peek live.handle (t.basic, p) with
  | some found =>
    rw [WeakMap.keep_of_some hpeek]
    cases hfound : select found with
    | some b =>
      simp only [hfound]
      exact ⟨rfl, h.holds_self⟩
    | none =>
      simp only [hfound]
      exact ⟨rfl, h.holds_self⟩
  | none =>
    rw [WeakMap.keep_of_none hpeek]
    refine ⟨?_, h.holds_setHandle ht p (wrap a)⟩
    simp only [hselect]
    rfl

end Context

end HandleForms
