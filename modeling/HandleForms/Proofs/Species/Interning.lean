import HandleForms.Proofs.Association
import HandleForms.Proofs.Species
import Mathlib.Data.List.Dedup

/-!
# One species for each layout

A species is asked for by its fields, or as the extension of a species that was handed out before.
The first goes by the table of keys; the second first by what the extended object remembers itself
(`SpeciesTable.cell`), which is filled when the extension is first asked for. In whatever order
species are asked for, the two agree: one object stands for each layout that was asked for, one way or
the other, and there is no other object (`SpeciesTable.Ran.interning`).
-/

namespace HandleForms

/-! ## Getters -/

namespace Species

variable {s t : Species} {i j k : Nat}

theorem getter_of_lt (h : k < s.fields.length) : s.getter k = .ok (Function.getter s k) := if_pos h

theorem same_getter_iff :
    (Function.getter s i : Function Form).same (Function.getter t j) = true ↔
      s.fields = t.fields ∧ i = j := by
  simp [Function.getter, Function.same, Intrinsic.same]

theorem ret_getter (h : k < s.fields.length) :
    (Function.getter s k : Function Form).ret = s.fields[k] := by
  simp [Function.getter, Function.ret, Intrinsic.ret, List.getElem?_eq_getElem h]

/-- A species and a longer one read a field that both have at the same type, by two functions. -/
theorem getter_longer {more : List BasicType} (hmore : more ≠ [])
    (hfields : t.fields = s.fields ++ more) (hk : k < s.fields.length) :
    ∃ f g : Function Form, s.getter k = .ok f ∧ t.getter k = .ok g ∧
      f.params = g.params ∧ f.ret = g.ret ∧ f.same g = false := by
  have hlt : k < t.fields.length := by
    rw [hfields, List.length_append]
    omega
  refine ⟨_, _, getter_of_lt hk, getter_of_lt hlt, rfl, ?_, ?_⟩
  · rw [ret_getter hk, ret_getter hlt]
    simp only [hfields, List.getElem_append_left hk]
  · rw [← Bool.not_eq_true, same_getter_iff]
    rintro ⟨heq, -⟩
    exact hmore (List.self_eq_append_right.1 (heq.trans hfields))

end Species

namespace SpeciesTable

variable {t t' : SpeciesTable} {base s u : Species} {field : BasicType} {fields : List BasicType}

/-! ## What a table holds -/

/-- The layouts that have a species. -/
def layouts (t : SpeciesTable) : List (List BasicType) := t.interned.map Species.fields

/-- The extension that the object of this number remembers. -/
def cell (t : SpeciesTable) (id : Nat) (field : BasicType) : Option Species :=
  t.interned[id]?.bind fun base => t.extensions.lookup (base.fields, field)

/-- One object stands for each layout, and what the objects remember are such objects. -/
structure Interned (t : SpeciesTable) : Prop where
  /-- A species is the object that its number says. -/
  ids : ∀ (i : Nat) (s : Species), t.interned[i]? = some s → s.id = i
  nodup : t.layouts.Nodup
  top : SpeciesTable.top ∈ t.interned
  /-- Only objects remember anything. -/
  extended : ∀ e ∈ t.extensions, e.1.1 ∈ t.layouts
  extensions : ∀ e ∈ t.extensions, e.2 ∈ t.interned
  sound : t.Sound

/-- The table is looked up by the letters of the fields. -/
theorem find?_eq_key (t : SpeciesTable) (fields : List BasicType) :
    t.find? fields = t.interned.find? fun s => s.key == BasicType.letters fields := by
  refine congrArg (List.find? · t.interned) (funext fun s => ?_)
  rw [Bool.eq_iff_iff, beq_iff_eq, beq_iff_eq]
  constructor
  · rintro rfl
    rfl
  · exact fun h => Species.key_inj (t := ⟨0, fields⟩) h

theorem not_mem_layouts (h : t.find? fields = none) : fields ∉ t.layouts := by
  intro hmem
  obtain ⟨s, hs, rfl⟩ := List.mem_map.1 hmem
  exact absurd (List.find?_eq_none.1 h s hs) (by simp)

namespace Interned

theorem empty : Interned SpeciesTable.empty where
  ids i s h := by
    obtain ⟨rfl, heq⟩ := Option.ite_none_right_eq_some.1 (List.getElem?_singleton.symm.trans h)
    obtain rfl := Option.some.inj heq
    rfl
  nodup := List.nodup_singleton _
  top := List.mem_singleton_self _
  extended := List.forall_mem_nil _
  extensions := List.forall_mem_nil _
  sound := sound_empty

theorem getElem?_id (h : t.Interned) (hs : s ∈ t.interned) : t.interned[s.id]? = some s := by
  obtain ⟨i, hi⟩ := List.getElem?_of_mem hs
  rwa [h.ids i s hi]

/-- A species is known by its layout, -/
theorem eq_of_fields (h : t.Interned) (hs : s ∈ t.interned) (hu : u ∈ t.interned)
    (heq : s.fields = u.fields) : s = u :=
  List.inj_on_of_nodup_map h.nodup hs hu heq

/-- and by its number. -/
theorem eq_of_id (h : t.Interned) (hs : s ∈ t.interned) (hu : u ∈ t.interned)
    (heq : s.id = u.id) : s = u := by
  have hget := h.getElem?_id hs
  rw [heq, h.getElem?_id hu] at hget
  exact (Option.some.inj hget).symm

theorem find?_fields (h : t.Interned) (hs : s ∈ t.interned) : t.find? s.fields = some s := by
  cases hfound : t.find? s.fields with
  | none => exact absurd (List.mem_map_of_mem hs) (not_mem_layouts hfound)
  | some u =>
    have hu : u ∈ t.interned := List.mem_of_find?_eq_some hfound
    rw [h.eq_of_fields hu hs (fields_find? hfound)]

theorem cell_eq (h : t.Interned) (hbase : base ∈ t.interned) :
    t.cell base.id field = t.extensions.lookup (base.fields, field) := by
  rw [cell, h.getElem?_id hbase]
  rfl

end Interned

/-! ## Asking for a species -/

/-- What a request for a layout comes to: the object of the layout, in a table that has grown by it
at most. -/
structure Obtains (t : SpeciesTable) (fields : List BasicType) (s : Species) (t' : SpeciesTable) :
    Prop where
  interned : t'.Interned
  mem : s ∈ t'.interned
  fields : s.fields = fields
  isPrefix : t.interned <+: t'.interned
  members : ∀ u, u ∈ t'.interned ↔ u ∈ t.interned ∨ u = s

namespace Interned

/-- A layout without a species gets a new object. -/
theorem concat (h : t.Interned) (hnew : fields ∉ t.layouts) :
    Interned { t with interned := t.interned ++ [⟨t.size, fields⟩] } where
  ids i s hs := by
    rcases Nat.lt_or_ge i t.interned.length with hi | hi
    · exact h.ids i s (by rwa [List.getElem?_append_left hi] at hs)
    · rw [List.getElem?_append_right hi, List.getElem?_singleton] at hs
      obtain ⟨hzero, heq⟩ := Option.ite_none_right_eq_some.1 hs
      obtain rfl := Option.some.inj heq
      exact Nat.le_antisymm hi (Nat.le_of_sub_eq_zero hzero)
  nodup := by
    rw [layouts, List.map_append, List.map_singleton, ← List.concat_eq_append]
    exact List.Nodup.concat hnew h.nodup
  top := List.mem_append_left _ h.top
  extended e he := by
    rw [layouts, List.map_append]
    exact List.mem_append_left _ (h.extended e he)
  extensions e he := List.mem_append_left _ (h.extensions e he)
  sound := h.sound

theorem intern (h : t.Interned) (fields : List BasicType) :
    t.Obtains fields (t.intern fields).1 (t.intern fields).2 := by
  unfold SpeciesTable.intern
  split
  · next s hs =>
    have hmem : s ∈ t.interned := List.mem_of_find?_eq_some hs
    refine ⟨h, hmem, fields_find? hs, List.prefix_refl _, fun u => ?_⟩
    exact ⟨Or.inl, fun hu => hu.elim id fun heq => heq ▸ hmem⟩
  · next hnone =>
    refine ⟨h.concat (not_mem_layouts hnone), List.mem_append_right _ List.mem_cons_self, rfl,
      List.prefix_append _ _, fun u => ?_⟩
    rw [List.mem_append, List.mem_singleton]

/-- The object of a layout is found again. -/
theorem intern_fields (h : t.Interned) (hs : s ∈ t.interned) : t.intern s.fields = (s, t) := by
  unfold SpeciesTable.intern
  rw [h.find?_fields hs]

end Interned

theorem extend_of_lookup (h : t.extensions.lookup (base.fields, field) = some s) :
    t.extend base field = (s, t) := by
  unfold SpeciesTable.extend
  rw [h]

theorem extend_of_none (h : t.extensions.lookup (base.fields, field) = none) :
    t.extend base field = ((t.intern (base.fields ++ [field])).1,
      { (t.intern (base.fields ++ [field])).2 with
        extensions := ((base.fields, field), (t.intern (base.fields ++ [field])).1) ::
          t.extensions }) := by
  unfold SpeciesTable.extend
  rw [h, ← extensions_intern t (base.fields ++ [field])]

namespace Interned

/-- An extension that was noted is the object of its layout. -/
theorem of_lookup (h : t.Interned) (hs : t.extensions.lookup (base.fields, field) = some s) :
    s ∈ t.interned ∧ s.fields = base.fields ++ [field] := by
  have hmem := TypeForms.mem_of_lookup hs
  exact ⟨h.extensions _ hmem, h.sound _ hmem⟩

theorem extend (h : t.Interned) (hbase : base ∈ t.interned) (field : BasicType) :
    t.Obtains (base.fields ++ [field]) (t.extend base field).1 (t.extend base field).2 := by
  cases hs : t.extensions.lookup (base.fields, field) with
  | some s =>
    obtain ⟨hmem, hfields⟩ := h.of_lookup hs
    rw [extend_of_lookup hs]
    refine ⟨h, hmem, hfields, List.prefix_refl _, fun u => ?_⟩
    exact ⟨Or.inl, fun hu => hu.elim id fun heq => heq ▸ hmem⟩
  | none =>
    have hobtains := h.intern (base.fields ++ [field])
    have hold := hobtains.interned
    have hlayout : base.fields ∈ (t.intern (base.fields ++ [field])).2.layouts :=
      List.mem_map_of_mem (hobtains.isPrefix.subset hbase)
    have hextended := hold.extended
    have hextensions := hold.extensions
    have hsound := hold.sound
    rw [Sound] at hsound
    rw [extensions_intern] at hextended hextensions hsound
    rw [extend_of_none hs]
    refine ⟨⟨hold.ids, hold.nodup, hold.top, ?_, ?_, ?_⟩, hobtains.mem, hobtains.fields,
      hobtains.isPrefix, hobtains.members⟩
    · exact List.forall_mem_cons.2 ⟨hlayout, hextended⟩
    · exact List.forall_mem_cons.2 ⟨hobtains.mem, hextensions⟩
    · exact List.forall_mem_cons.2 ⟨hobtains.fields, hsound⟩

/-! ## What the objects remember -/

/-- A new object remembers nothing, and the others what they did. -/
theorem cell_intern (h : t.Interned) (fields : List BasicType) (id : Nat) (field : BasicType) :
    (t.intern fields).2.cell id field = t.cell id field := by
  have hobtains := h.intern fields
  unfold cell
  rw [extensions_intern]
  rcases Nat.lt_or_ge id t.interned.length with hlt | hge
  · have hsame := List.prefix_iff_getElem?.1 hobtains.isPrefix id hlt
    rw [hsame, List.getElem?_eq_getElem hlt]
  · rw [List.getElem?_eq_none hge]
    cases hnew : (t.intern fields).2.interned[id]? with
    | none => rfl
    | some u =>
      -- What is noted is noted for a layout that has an object already, and this one has none.
      cases hnoted : t.extensions.lookup (u.fields, field) with
      | none => exact hnoted
      | some v =>
        obtain ⟨w, hw, heq⟩ := List.mem_map.1 (h.extended _ (TypeForms.mem_of_lookup hnoted))
        have hsame : w = u := hobtains.interned.eq_of_fields (hobtains.isPrefix.subset hw)
          (List.mem_of_getElem? hnew) heq
        have hlt := (List.getElem?_eq_some_iff.1 (h.getElem?_id hw)).1
        rw [hsame, hobtains.interned.ids id u hnew] at hlt
        omega

/-- An extension is remembered by the object that was extended, and by no other one. -/
theorem cell_extend (h : t.Interned) (hbase : base ∈ t.interned) (field : BasicType) (id : Nat)
    (other : BasicType) :
    (t.extend base field).2.cell id other =
      if id = base.id ∧ other = field then some (t.extend base field).1 else t.cell id other := by
  cases hs : t.extensions.lookup (base.fields, field) with
  | some s =>
    rw [extend_of_lookup hs]
    split
    · next heq => rw [heq.1, heq.2, h.cell_eq hbase, hs]
    · rfl
  | none =>
    have hobtains := h.intern (base.fields ++ [field])
    have hself := hobtains.interned.getElem?_id (hobtains.isPrefix.subset hbase)
    rw [← h.cell_intern (base.fields ++ [field]), extend_of_none hs]
    unfold cell
    rw [extensions_intern]
    cases hget : (t.intern (base.fields ++ [field])).2.interned[id]? with
    | none =>
      rw [if_neg]
      · rfl
      · rintro ⟨rfl, -⟩
        rw [hself] at hget
        cases hget
    | some u =>
      simp only [Option.bind_some, List.lookup_cons]
      by_cases heq : id = base.id ∧ other = field
      · obtain ⟨rfl, rfl⟩ := heq
        obtain rfl := Option.some.inj (hself.symm.trans hget)
        simp
      · -- Another object has another layout.
        have hne : (u.fields, other) ≠ (base.fields, field) := by
          intro hkey
          obtain ⟨hfields, hother⟩ := Prod.mk.inj hkey
          have hsame : u = base := hobtains.interned.eq_of_fields (List.mem_of_getElem? hget)
            (hobtains.isPrefix.subset hbase) hfields
          have hid : u.id = id := hobtains.interned.ids id u hget
          exact heq ⟨hid.symm.trans (congrArg Species.id hsame), hother⟩
        rw [beq_false_of_ne hne, if_neg heq]

end Interned

/-- What an extension comes to. -/
structure Extends (t : SpeciesTable) (base : Species) (field : BasicType) (s : Species)
    (t' : SpeciesTable) : Prop where
  fields : s.fields = base.fields ++ [field]
  /-- When the object remembers the extension, that is the answer and nothing changes. -/
  remembered : ∀ u, t.cell base.id field = some u → s = u ∧ t' = t
  /-- Whether it does or not, the table of keys answers the same and holds the same afterwards. -/
  asKey : (t.intern (base.fields ++ [field])).1 = s ∧
    (t.intern (base.fields ++ [field])).2.interned = t'.interned
  /-- From then on the object remembers it; nothing else is remembered or forgotten. -/
  cells : ∀ id other, t'.cell id other =
    if id = base.id ∧ other = field then some s else t.cell id other

theorem Interned.extends (h : t.Interned) (hbase : base ∈ t.interned) (field : BasicType) :
    t.Extends base field (t.extend base field).1 (t.extend base field).2 := by
  refine ⟨(h.extend hbase field).fields, fun u hu => ?_, ?_, h.cell_extend hbase field⟩
  · rw [h.cell_eq hbase] at hu
    rw [extend_of_lookup hu]
    exact ⟨rfl, rfl⟩
  · cases hs : t.extensions.lookup (base.fields, field) with
    | some s =>
      obtain ⟨hmem, hfields⟩ := h.of_lookup hs
      rw [extend_of_lookup hs, ← hfields, h.intern_fields hmem]
      exact ⟨rfl, rfl⟩
    | none =>
      rw [extend_of_none hs]
      exact ⟨rfl, rfl⟩

/-! ## Runs -/

/-- The species that were handed out, in order, and the table afterwards. Species are asked for by
fields that values can have, or as extensions of species that were handed out. -/
inductive Ran : List Species → SpeciesTable → Prop
  | start : Ran [] .empty
  | intern {log : List Species} {t : SpeciesTable} (h : Ran log t) {fields : List BasicType}
      (hfields : ∀ field ∈ fields, field ≠ .void) :
      Ran (log ++ [(t.intern fields).1]) (t.intern fields).2
  | extend {log : List Species} {t t' : SpeciesTable} (h : Ran log t) {base s : Species}
      (hbase : base ∈ top :: log) {field : BasicType} (hext : t.extended base field = .ok (s, t')) :
      Ran (log ++ [s]) t'

variable {log : List Species}

theorem extended_eq (h : field ≠ .void) : t.extended base field = .ok (t.extend base field) := by
  simp [extended, BasicType.isArg, h]

theorem extend_of_extended (h : t.extended base field = .ok (s, t')) :
    t.extend base field = (s, t') := by
  unfold extended at h
  split at h
  · exact Except.ok.inj h
  · cases h

/-- The table holds what was handed out, and the species without fields. -/
def Holds (t : SpeciesTable) (log : List Species) : Prop :=
  ∀ u, u ∈ t.interned ↔ u ∈ top :: log

theorem Holds.obtain (h : t.Holds log) (hs : t.Obtains fields s t') : t'.Holds (log ++ [s]) := by
  intro u
  rw [hs.members, h, ← List.cons_append, List.mem_append, List.mem_singleton]

theorem Ran.holds (h : Ran log t) : t.Interned ∧ t.Holds log := by
  induction h with
  | start => exact ⟨.empty, fun u => Iff.rfl⟩
  | @intern _ _ _ fields _ ih =>
    have hobtains := ih.1.intern fields
    exact ⟨hobtains.interned, ih.2.obtain hobtains⟩
  | @extend _ _ _ _ base _ hbase field hext ih =>
    have hobtains := ih.1.extend ((ih.2 base).2 hbase) field
    rw [extend_of_extended hext] at hobtains
    exact ⟨hobtains.interned, ih.2.obtain hobtains⟩

/-- What holds of the species that were handed out and of the table that is left. -/
structure Interning (log : List Species) (t : SpeciesTable) : Prop where
  /-- One object stands for each layout, -/
  sameObject : ∀ a ∈ top :: log, ∀ b ∈ top :: log,
    (a.id = b.id ↔ a.fields = b.fields) ∧ (a.id = b.id → a = b)
  /-- and the letters tell layouts apart, by which the table is looked up. -/
  sameKey : ∀ a ∈ top :: log, ∀ b ∈ top :: log, a.key = b.key ↔ a.fields = b.fields
  byKey : ∀ fields, t.find? fields = t.interned.find? fun s => s.key == BasicType.letters fields
  /-- The table holds each layout that was handed out once, and the one without fields. -/
  layouts : t.layouts.Perm ([] :: log.map Species.fields).dedup
  size : t.size = ([] :: log.map Species.fields).dedup.length
  /-- A request for a layout answers its object, -/
  found : ∀ a ∈ top :: log, t.intern a.fields = (a, t)
  /-- or a new one, which remembers no extension. -/
  created : ∀ fields, fields ∉ ([] :: log.map Species.fields) →
    (t.intern fields).1.fields = fields ∧
      ∀ field, (t.intern fields).2.cell (t.intern fields).1.id field = none
  /-- An extension answers the object of the longer layout, whether the extended object remembers
  it or not. -/
  extensions : ∀ base ∈ top :: log, ∀ field, field ≠ .void →
    ∃ s t', t.extended base field = .ok (s, t') ∧ t.Extends base field s t'
  /-- The fields of a species and of its extensions are read at the same types, never by the same
  function. -/
  getters : ∀ base ∈ top :: log, ∀ (s : Species) (more : List BasicType), more ≠ [] →
    s.fields = base.fields ++ more → ∀ k < base.fields.length, ∃ f g : Function Form,
      base.getter k = .ok f ∧ s.getter k = .ok g ∧ f.params = g.params ∧ f.ret = g.ret ∧
        f.same g = false

/-- A new object remembers no extension. -/
theorem Interned.cell_created (h : t.Interned) (hnew : fields ∉ t.layouts) (field : BasicType) :
    (t.intern fields).2.cell (t.intern fields).1.id field = none := by
  have hnone : t.find? fields = none := by
    rw [find?, List.find?_eq_none]
    intro s hs heq
    exact hnew (List.mem_map.2 ⟨s, hs, eq_of_beq heq⟩)
  have hid : (t.intern fields).1.id = t.interned.length := by
    unfold SpeciesTable.intern
    rw [hnone]
    rfl
  rw [h.cell_intern, hid, cell, List.getElem?_eq_none (Nat.le_refl _)]
  rfl

theorem Holds.mem_layouts (h : t.Holds log) :
    fields ∈ t.layouts ↔ fields ∈ [] :: log.map Species.fields := by
  have hmap : ([] :: log.map Species.fields) = (top :: log).map Species.fields := rfl
  rw [hmap, layouts, List.mem_map, List.mem_map]
  exact exists_congr fun s => and_congr_left' (h s)

/-- In whatever order species are asked for, by their fields or as extensions: one object stands for
each layout, the extensions that objects remember are the ones that the table of keys has, and the
table holds what was asked for and nothing else. -/
theorem Ran.interning (h : Ran log t) : Interning log t := by
  obtain ⟨hinterned, hholds⟩ := h.holds
  have hmem : ∀ a ∈ top :: log, a ∈ t.interned := fun a ha => (hholds a).2 ha
  have hlayouts : t.layouts.Perm ([] :: log.map Species.fields).dedup := by
    rw [List.perm_ext_iff_of_nodup hinterned.nodup (List.nodup_dedup _)]
    intro fields
    rw [hholds.mem_layouts, List.mem_dedup]
  refine ⟨fun a ha b hb => ?_, fun a _ b _ => ?_, find?_eq_key t, hlayouts, ?_,
    fun a ha => hinterned.intern_fields (hmem a ha), fun fields hnew => ?_,
    fun base hbase field hfield => ?_, fun base _ s more hmore hfields k hk => ?_⟩
  · have hid : a.id = b.id → a = b := hinterned.eq_of_id (hmem a ha) (hmem b hb)
    refine ⟨⟨fun heq => congrArg Species.fields (hid heq), fun heq => ?_⟩, hid⟩
    exact congrArg Species.id (hinterned.eq_of_fields (hmem a ha) (hmem b hb) heq)
  · exact ⟨Species.key_inj, congrArg BasicType.letters⟩
  · rw [← hlayouts.length_eq, layouts, List.length_map]
    rfl
  · rw [← hholds.mem_layouts] at hnew
    exact ⟨fields_intern t fields, hinterned.cell_created hnew⟩
  · exact ⟨_, _, extended_eq hfield, hinterned.extends (hmem base hbase) field⟩
  · exact Species.getter_longer hmore hfields hk

/-- `L` as an extension of the species without fields, `LI` as an extension of `L`, and `LI` by its
fields. -/
theorem Ran.interning_extended :
    ∃ (log : List Species) (t : SpeciesTable), Ran log t ∧ Interning log t ∧
      log.map Species.key = ["L", "LI", "LI"] ∧ log.map Species.id = [1, 2, 2] ∧ t.size = 3 := by
  let l : Species := ⟨1, [.ref]⟩
  let li : Species := ⟨2, [.ref, .int]⟩
  have hone : Ran [l] ⟨[top, l], [(([], .ref), l)]⟩ :=
    .extend .start (show top ∈ [top] from List.mem_cons_self)
      (show SpeciesTable.empty.extended top .ref = _ from rfl)
  have htwo : Ran [l, li] ⟨[top, l, li], [(([.ref], .int), li), (([], .ref), l)]⟩ :=
    .extend hone (show l ∈ [top, l] from List.mem_cons_of_mem _ List.mem_cons_self)
      (show SpeciesTable.extended _ l .int = _ from rfl)
  have hthree := htwo.intern (show ∀ field ∈ [BasicType.ref, .int], field ≠ .void by decide)
  exact ⟨_, _, hthree, hthree.interning, by decide, by decide, by decide⟩

end SpeciesTable

end HandleForms
