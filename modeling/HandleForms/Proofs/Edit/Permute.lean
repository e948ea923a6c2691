import HandleForms.Proofs.Edit.Operands
import HandleForms.Proofs.Edit.Transparency
import Mathlib.Data.Fintype.EquivFin
import Mathlib.Data.List.NodupEquivFin
import Mathlib.GroupTheory.Perm.ViaEmbedding
import Mathlib.Logic.Equiv.Fin.Rotate

/-!
# Permutations compose

The form that a permutation of the arguments derives is the base with its names renumbered: the
names stand in other places, and operands and result are renamed to match (`Form.Renumbers`).
Renumberings compose, and a form is renumbered in one way only. So the form that is permuted twice is
the form that is permuted once by the composition (`Context.permutations_compose`), out of whichever
caches the three forms come.

The base has to have arguments that are plain parameters and no more of them than a byte can tell
apart (`Form.Permutable`). Positions behind that have no key (`Context.edit_permute_wide`); a form
has so many arguments only when most of them are of type `void`.
-/

namespace HandleForms

/-! ## Renumbered forms -/

/-- `f` is `base` with its names in other places: name `i` is name `p i` now, for whoever refers to
it. -/
structure Form.Renumbers (p : Equiv.Perm Nat) (base f : Form) : Prop where
  arity : f.arity = base.arity
  names : ∀ i, f.names[p i]? = base.names[i]?.map (Name.mapArgs p)
  result : f.result = base.result.map p

namespace Form.Renumbers

variable {p q : Equiv.Perm Nat} {base f g : Form}

theorem refl (base : Form) : Renumbers 1 base base := by
  refine ⟨rfl, fun i => ?_, Option.map_id'.symm⟩
  show base.names[i]? = base.names[i]?.map fun n => n.mapArgs fun a => a
  simp only [Name.mapArgs_id, Option.map_id']

theorem trans (hf : Renumbers p base f) (hg : Renumbers q f g) : Renumbers (q * p) base g := by
  refine ⟨hg.arity.trans hf.arity, fun i => ?_, ?_⟩
  · show g.names[q (p i)]? = _
    rw [hg.names, hf.names, Option.map_map]
    refine congrArg (Option.map · _) (funext fun n => ?_)
    exact n.mapArgs_mapArgs p q
  · rw [hg.result, hf.result, Option.map_map]
    rfl

/-- A form is renumbered in one way. -/
theorem unique (hf : Renumbers p base f) (hg : Renumbers p base g) :
    g.names = f.names ∧ g.arity = f.arity ∧ g.result = f.result := by
  refine ⟨List.ext_getElem? fun i => ?_, hg.arity.trans hf.arity.symm,
    hg.result.trans hf.result.symm⟩
  obtain ⟨i, rfl⟩ := p.surjective i
  rw [hf.names, hg.names]

theorem size_le_iff (h : Renumbers p base f) {i : Nat} : f.size ≤ p i ↔ base.size ≤ i := by
  rw [size, size, ← List.getElem?_eq_none_iff, ← List.getElem?_eq_none_iff, h.names,
    Option.map_eq_none_iff]

/-! ### Renumbered parameters -/

section Fixed

variable (h : Renumbers p base f) (hbase : base.WellFormed)
  (hfixed : ∀ i, base.arity ≤ i → p i = i)

include hfixed in
/-- When every expression stays in its place, a parameter goes to the place of a parameter. -/
theorem lt_arity_iff {i : Nat} : p i < base.arity ↔ i < base.arity := by
  constructor
  · intro hi
    by_contra hge
    exact hge (hfixed i (Nat.not_lt.1 hge) ▸ hi)
  · intro hi
    by_contra hge
    -- The place would be taken by the expression that stays there.
    have hplace := p.injective (hfixed (p i) (Nat.not_lt.1 hge))
    exact hge (hplace.symm ▸ hi)

include h hbase hfixed

theorem size_eq : f.size = base.size := by
  obtain ⟨last, hlast⟩ := p.surjective f.size
  have hbehind : base.size ≤ last := h.size_le_iff.1 hlast.ge
  have hsame : p base.size = base.size := hfixed _ hbase.arity_le
  refine Nat.le_antisymm ?_ ?_
  · rw [← hsame]
    exact h.size_le_iff.2 le_rfl
  · rwa [← hlast, hfixed last (hbase.arity_le.trans hbehind)]

omit hbase in
theorem param?_eq {i : Nat} (hi : i < base.arity) : f.param? (p i) = base.param? i := by
  have hplace : p i < f.arity := by
    rw [h.arity]
    exact (lt_arity_iff hfixed).2 hi
  rw [param?, params, param?, params, List.getElem?_map, List.getElem?_map,
    List.getElem?_take_of_lt hplace, List.getElem?_take_of_lt hi, h.names, Option.map_map]
  rfl

/-- The parameters are the same, in another order. -/
theorem params_perm : f.params.Perm base.params := by
  have hlist : ∀ g : Form, g.arity ≤ g.size →
      g.params.map some = (List.range g.arity).map g.param? := by
    intro g hg
    refine List.ext_getElem? fun i => ?_
    by_cases hi : i < g.arity
    · have hlt : i < g.params.length := by
        simpa [params] using ⟨hi, Nat.lt_of_lt_of_le hi hg⟩
      simp [List.getElem?_range hi, param?, List.getElem?_eq_getElem hlt]
    · simp [hi, params]
  have hplaces : ((List.range base.arity).map p).Perm (List.range base.arity) := by
    refine (List.perm_ext_iff_of_nodup (List.nodup_range.map p.injective) List.nodup_range).2 ?_
    intro i
    obtain ⟨i, rfl⟩ := p.surjective i
    rw [List.mem_map_of_injective p.injective, List.mem_range, List.mem_range, lt_arity_iff hfixed]
  have hf : f.arity ≤ f.size := by
    rw [h.arity, h.size_eq hbase hfixed]
    exact hbase.arity_le
  refine (List.map_perm_map_iff (Option.some_injective _)).1 ?_
  rw [hlist f hf, hlist base hbase.arity_le, h.arity]
  refine (hplaces.symm.map f.param?).trans (List.Perm.of_eq ?_)
  rw [List.map_map]
  exact List.map_congr_left fun i hi => h.param?_eq hfixed (List.mem_range.1 hi)

omit hbase in
/-- A name in front of an expression is found in front of it. -/
theorem getElem?_typesBefore {i j : Nat} {t : BasicType} (hi : base.arity ≤ i)
    (ht : (base.typesBefore i)[j]? = some t) : (f.typesBefore i)[p j]? = some t := by
  obtain ⟨hlt, ht⟩ := Form.getElem?_typesBefore.1 ht
  refine Form.getElem?_typesBefore.2 ⟨?_, ?_⟩
  · by_cases hj : j < base.arity
    · exact ((lt_arity_iff hfixed).2 hj).trans_le hi
    · rwa [hfixed j (Nat.not_lt.1 hj)]
  · rw [h.names, Option.map_map]
    exact ht

/-- A form whose parameters change places stays well-formed. -/
theorem wellFormed : f.WellFormed := by
  obtain ⟨harity, hslots, hnames, hresult⟩ := wellFormed_iff_fits.1 hbase
  have hsize := h.size_eq hbase hfixed
  refine wellFormed_iff_fits.2 ⟨by rwa [h.arity, hsize], ?_, fun i m hm => ?_, fun r hr => ?_⟩
  · rwa [slots, BasicType.slotSum_perm (h.params_perm hbase hfixed)]
  · obtain ⟨i, rfl⟩ := p.surjective i
    rw [h.names] at hm
    obtain ⟨n, hn, rfl⟩ := Option.map_eq_some_iff.1 hm
    have hfits := hnames i n hn
    have hplace := lt_arity_iff hfixed (i := i)
    refine ⟨?_, ?_, fun e he => ?_⟩
    · rw [Name.isParam_mapArgs, h.arity, hplace]
      exact hfits.isParam_iff
    · intro hspecies
      rw [h.arity, hplace]
      exact hfits.carrier hspecies
    · obtain ⟨e, he', rfl⟩ := Option.map_eq_some_iff.1 he
      have hexpr : base.arity ≤ i := by
        refine Nat.not_lt.1 fun hi => ?_
        have hparam := hfits.isParam_iff.2 hi
        simp [Name.isParam, he'] at hparam
      rw [hfixed i hexpr]
      refine List.forall₂_map_left_iff.2 ((hfits.operands e he').imp fun a t ha => ?_)
      exact ha.map p fun j u hj => h.getElem?_typesBefore hfixed hexpr hj
  · rw [h.result] at hr
    obtain ⟨old, hold, rfl⟩ := Option.map_eq_some_iff.1 hr
    exact Nat.not_le.1 fun hle => Nat.not_le.2 (hresult old hold) (h.size_le_iff.1 hle)

end Fixed

end Form.Renumbers

/-! ## Permutations of the arguments -/

namespace Edit

variable {n : Nat} {s t : Equiv.Perm (Fin n)}

/-- Where each of the arguments goes. -/
def images (s : Equiv.Perm (Fin n)) : List Nat := List.ofFn fun i => (s i : Nat)

@[simp] theorem length_images (s : Equiv.Perm (Fin n)) : (images s).length = n := List.length_ofFn

theorem getElem?_images (s : Equiv.Perm (Fin n)) (i : Fin n) : (images s)[i.val]? = some (s i).val := by
  simp [images]

theorem mem_images {m : Nat} : m ∈ images s ↔ m < n := by
  rw [images, List.mem_ofFn]
  constructor
  · rintro ⟨i, rfl⟩
    exact (s i).isLt
  · intro hm
    exact ⟨s.symm ⟨m, hm⟩, by rw [s.apply_symm_apply]⟩

theorem nodup_images (s : Equiv.Perm (Fin n)) : (images s).Nodup :=
  List.nodup_ofFn.2 (Fin.val_injective.comp s.injective)

theorem idxOf_images (s : Equiv.Perm (Fin n)) (i : Fin n) : (images s).idxOf (s i).val = i := by
  obtain ⟨hi, hget⟩ := List.getElem?_eq_some_iff.1 (getElem?_images s i)
  rw [← hget]
  exact (nodup_images s).idxOf_getElem i hi

theorem images_perm (s : Equiv.Perm (Fin n)) : (images s).Perm (List.range n) := by
  refine (List.perm_ext_iff_of_nodup (nodup_images s) List.nodup_range).2 fun m => ?_
  rw [mem_images, List.mem_range]

theorem isPermutation_images (s : Equiv.Perm (Fin n)) : isPermutation (images s) = true := by
  refine isPermutation_of_perm ?_
  rw [length_images]
  exact images_perm s

/-- Every list that is let through lists where a permutation takes the arguments. -/
theorem exists_images {reorder : List Nat} (h : isPermutation reorder = true) :
    ∃ s : Equiv.Perm (Fin reorder.length), images s = reorder := by
  have hperm := perm_of_isPermutation h
  have hlt (i : Fin reorder.length) : reorder[i] < reorder.length :=
    List.mem_range.1 (hperm.subset (List.getElem_mem i.isLt))
  have hinj : Function.Injective fun i : Fin reorder.length =>
      (⟨reorder[i], hlt i⟩ : Fin reorder.length) := by
    intro i j hij
    have hnodup : reorder.Nodup := hperm.nodup_iff.2 List.nodup_range
    exact Fin.ext ((List.Nodup.getElem_inj_iff hnodup).1 (congrArg Fin.val hij))
  refine ⟨Equiv.ofBijective _ (Finite.injective_iff_bijective.1 hinj), ?_⟩
  exact List.ofFn_getElem

theorem eq_one_of_isIdentity (h : isIdentity (images s) = true) : s = 1 := by
  have hrange : images s = List.range n := by simpa [isIdentity] using h
  refine Equiv.ext fun i => Fin.ext ?_
  have himage := getElem?_images s i
  rw [hrange, List.getElem?_range i.isLt] at himage
  exact (Option.some.inj himage).symm

/-- The argument `i` is parameter `i + 1`, behind the handle. -/
def argument : Fin n ↪ Nat := ⟨fun i => i.val + 1, fun _ _ h => Fin.ext (Nat.succ.inj h)⟩

/-- Where the names go when the arguments are permuted. -/
noncomputable def place (s : Equiv.Perm (Fin n)) : Equiv.Perm Nat := s.viaEmbedding argument

theorem place_argument (s : Equiv.Perm (Fin n)) (i : Fin n) : place s (i.val + 1) = (s i).val + 1 :=
  s.viaEmbedding_apply argument i

theorem place_zero (s : Equiv.Perm (Fin n)) : place s 0 = 0 :=
  s.viaEmbedding_apply_of_notMem argument 0 (by rintro ⟨i, hi⟩; cases hi)

theorem place_of_le (s : Equiv.Perm (Fin n)) {i : Nat} (hi : n + 1 ≤ i) : place s i = i := by
  refine s.viaEmbedding_apply_of_notMem argument i ?_
  rintro ⟨j, rfl⟩
  exact Nat.not_le.2 (Nat.succ_lt_succ j.isLt) hi

theorem place_mul (s t : Equiv.Perm (Fin n)) : place (t * s) = place t * place s :=
  map_mul (Equiv.Perm.viaEmbeddingHom argument) t s

theorem place_one : place (1 : Equiv.Perm (Fin n)) = 1 :=
  map_one (Equiv.Perm.viaEmbeddingHom argument)

/-- A name is the handle, an argument or an expression. -/
theorem place_cases (n i : Nat) : i = 0 ∨ (∃ j : Fin n, i = j.val + 1) ∨ n + 1 ≤ i := by
  rcases Nat.eq_zero_or_pos i with h0 | hpos
  · exact .inl h0
  rcases Nat.lt_or_ge i (n + 1) with hlt | hge
  · exact .inr (.inl ⟨⟨i - 1, by omega⟩, (Nat.sub_add_cancel hpos).symm⟩)
  · exact .inr (.inr hge)

theorem permuted_images (s : Equiv.Perm (Fin n)) : permuted 1 (n + 1) (images s) = place s := by
  funext i
  rcases place_cases n i with rfl | ⟨j, rfl⟩ | hi
  · exact (place_zero s).symm
  · have hj : ¬(j.val + 1 < 1 ∨ n + 1 ≤ j.val + 1) := by omega
    rw [permuted, if_neg hj, Nat.add_sub_cancel, getElem?_images, place_argument]
    exact Nat.add_comm 1 _
  · rw [permuted, if_pos (Or.inr hi), place_of_le s hi]

end Edit

/-! ## Forms whose arguments can be permuted -/

/-- A verified form of the handle and `n` arguments. The arguments are plain parameters, and the
result, if there is one, is not of type `void`. -/
structure Form.Permutable (base : Form) (n : Nat) : Prop where
  wellFormed : base.WellFormed
  arity : base.arity = n + 1
  plain : ∀ i, 0 < i → base.species? i = none
  result : ∀ r m, base.result = some r → base.names[r]? = some m → m.type ≠ .void

namespace Form.Permutable

variable {n : Nat} {base f : Form} (h : base.Permutable n)
include h

/-- An argument is no more than its type. -/
theorem getElem?_argument (j : Fin n) :
    ∃ t, base.names[j.val + 1]? = some (.param t) ∧ base.param? (1 + j.val) = some t := by
  have hlt : j.val + 1 < base.arity := h.arity ▸ Nat.succ_lt_succ j.isLt
  obtain ⟨⟨t, species, expr⟩, hm, hparam⟩ := h.wellFormed.exists_param hlt
  have hspecies : species = none := by
    have := h.plain (j.val + 1) (Nat.succ_pos _)
    rwa [species?, hm] at this
  have hexpr : expr = none := by simpa [Name.isParam] using hparam
  subst hspecies hexpr
  exact ⟨t, hm, by rw [Nat.add_comm]; exact param?_eq hlt hm⟩

theorem mapArgs_param {i : Nat} (hi : i < n + 1) (g : Nat → Nat) :
    base.names[i]?.map (Name.mapArgs g) = base.names[i]? := by
  obtain ⟨m, hm, hparam⟩ := h.wellFormed.exists_param (h.arity ▸ hi)
  have hoperands : m.operands = [] := Name.operands_param hparam
  have hsame : m.mapArgs g = m := by
    refine Name.mapArgs_eq_self fun a ha => ?_
    rw [hoperands] at ha
    cases ha
  rw [hm, Option.map_some, hsame]

/-- A result that is not of type `void` is kept. -/
theorem keptResult_eq : keptResult base.names base.result = base.result := by
  cases hr : base.result with
  | none => rfl
  | some r =>
    have hm := List.getElem?_eq_getElem (h.wellFormed.result_lt r hr)
    have htype := h.result r _ hr hm
    rw [keptResult, Option.filter_some, hm, Option.map_some, if_pos (by simpa using htype)]

theorem renumbers {s : Equiv.Perm (Fin n)} (hf : Renumbers (Edit.place s) base f) :
    f.Permutable n := by
  have hfixed : ∀ i, base.arity ≤ i → Edit.place s i = i :=
    fun i hi => Edit.place_of_le s (h.arity ▸ hi)
  refine ⟨hf.wellFormed h.wellFormed hfixed, hf.arity.trans h.arity, fun i hi => ?_, ?_⟩
  · obtain ⟨i, rfl⟩ := (Edit.place s).surjective i
    have hpos : 0 < i := by
      refine Nat.pos_of_ne_zero ?_
      rintro rfl
      rw [Edit.place_zero] at hi
      exact Nat.lt_irrefl 0 hi
    have hplain := h.plain i hpos
    rw [species?, hf.names, Option.bind_map]
    exact hplain
  · intro r m hr hm
    rw [hf.result] at hr
    obtain ⟨old, hold, rfl⟩ := Option.map_eq_some_iff.1 hr
    rw [hf.names] at hm
    obtain ⟨m, hnamed, rfl⟩ := Option.map_eq_some_iff.1 hm
    exact h.result old m hold hnamed

end Form.Permutable

namespace Edit

open Transaction.Layout (getElem?_length_add)

variable {n : Nat} {base : Form}

/-- The names that a permutation of the arguments writes down. -/
noncomputable def permutedNames (base : Form) (s : Equiv.Perm (Fin n)) : List (Name Form) :=
  base.names.take 1 ++ ((List.range n).map fun j =>
    (base.param? (1 + (images s).idxOf j)).getD .void).map Name.param ++
    (base.names.drop base.arity).map (Name.mapArgs (place s))

theorem getElem?_permutedNames (h : base.Permutable n) (s : Equiv.Perm (Fin n)) (i : Nat) :
    (permutedNames base s)[place s i]? = base.names[i]?.map (Name.mapArgs (place s)) := by
  have hsize := h.wellFormed.arity_le
  rw [h.arity, Form.size] at hsize
  have hhandle : (base.names.take 1).length = 1 := by
    rw [List.length_take]
    omega
  rw [permutedNames, List.append_assoc]
  rcases place_cases n i with rfl | ⟨j, rfl⟩ | hi
  · rw [place_zero, List.getElem?_append_left (by omega), List.getElem?_take_of_lt Nat.one_pos]
    exact (h.mapArgs_param (Nat.succ_pos n) _).symm
  · -- The type of argument `j` was written down at the place where `j` goes.
    obtain ⟨t, hname, hparam⟩ := h.getElem?_argument j
    rw [place_argument, Nat.add_comm, getElem?_length_add hhandle,
      List.getElem?_append_left (by simp), List.getElem?_map, List.getElem?_map,
      List.getElem?_range (s j).isLt, Option.map_some, Option.map_some, idxOf_images, hparam, hname]
    rfl
  · obtain ⟨k, rfl⟩ := Nat.exists_eq_add_of_le hi
    rw [place_of_le s hi, ← List.append_assoc, getElem?_length_add (by simp; omega),
      List.getElem?_map, List.getElem?_drop, h.arity]

/-- A permutation of the arguments derives the base with its names renumbered. -/
theorem derivePermute_images (h : base.Permutable n) (s : Equiv.Perm (Fin n)) (id : Nat) :
    ∃ f, derivePermute base 1 (images s) id = .ok f ∧ base.Renumbers (place s) f := by
  let f : Form := ⟨id, base.arity, permutedNames base s, base.result.map (place s), .generic⟩
  have hrenumbers : base.Renumbers (place s) f := ⟨rfl, getElem?_permutedNames h s, rfl⟩
  have hf : f.Permutable n := h.renumbers hrenumbers
  have hmove : permuted 1 base.arity (images s) = place s := by rw [h.arity, permuted_images]
  refine ⟨f, Form.assemble_eq_ok_iff.2 ⟨hf.wellFormed, ?_⟩, hrenumbers⟩
  have hkept : Form.keptResult (permutedNames base s) (base.result.map (place s)) =
      base.result.map (place s) := hf.keptResult_eq
  rw [hmove, length_images]
  show f = ⟨id, base.arity, permutedNames base s,
    Form.keptResult (permutedNames base s) (base.result.map (place s)), .generic⟩
  rw [hkept]

end Edit

/-- An operand that does not fit in a byte is reported, the first of them. -/
theorem EditKey.exists_of_eq_error (kind : EditKind) {vs : List Nat} (h : ∃ v ∈ vs, 256 ≤ v) :
    ∃ v ∈ vs, 256 ≤ v ∧ EditKey.of kind vs = .error (.keyOperand v kind.name) := by
  suffices hoperands : ∃ v ∈ vs, 256 ≤ v ∧ operands? kind vs = .error (.keyOperand v kind.name) by
    obtain ⟨v, hv, hwide, heq⟩ := hoperands
    exact ⟨v, hv, hwide, by rw [EditKey.of, heq]; rfl⟩
  induction vs with
  | nil =>
    obtain ⟨v, hv, -⟩ := h
    cases hv
  | cons v vs ih =>
    by_cases hlt : v < 256
    · obtain ⟨w, hw, hwide⟩ := h
      have hrest : w ∈ vs := by
        refine (List.mem_cons.1 hw).resolve_left ?_
        rintro rfl
        exact Nat.not_le.2 hlt hwide
      obtain ⟨u, hu, hbyte, heq⟩ := ih ⟨w, hrest, hwide⟩
      refine ⟨u, List.mem_cons_of_mem v hu, hbyte, ?_⟩
      rw [operands?, if_pos hlt, heq]
      rfl
    · exact ⟨v, List.mem_cons_self, Nat.not_lt.1 hlt, by rw [operands?, if_neg hlt]⟩

/-! ## Permuting in a context -/

namespace Context

variable {η : Type} [Identified η] {c d e : Context η} {n : Nat} {base : Form}

theorem check_permute (h : base.Permutable n) (s : Equiv.Perm (Fin n)) :
    (Edit.permute 1 (Edit.images s)).check base = .ok () := by
  have hlength : 1 + (Edit.images s).length = base.arity := by
    rw [Edit.length_images, h.arity, Nat.add_comm]
  simp only [Edit.check, bind_unit_eq_ok_iff, Edit.require_eq_ok_iff]
  exact ⟨trivial, hlength, Edit.isPermutation_images s⟩

/-- The form that is answered for a permutation is the base with its names renumbered, whether it
was found or derived anew. -/
theorem Reachable.edit_permute (hc : c.Reachable) (live : Live η) (h : base.Permutable n)
    (hn : n ≤ 256) (s : Equiv.Perm (Fin n)) :
    ∃ f, (c.edit live base (.permute 1 (Edit.images s))).1 = .ok f ∧
      base.Renumbers (Edit.place s) f := by
  have hcheck := check_permute h s
  cases htrivial : (Edit.permute 1 (Edit.images s)).isTrivial with
  | true =>
    -- The identity answers the base itself.
    obtain rfl := Edit.eq_one_of_isIdentity htrivial
    refine ⟨base, ?_, Edit.place_one ▸ Form.Renumbers.refl base⟩
    unfold Context.edit
    rw [hcheck]
    exact congrArg Prod.fst (if_pos htrivial)
  | false =>
    obtain ⟨key, hkey⟩ : ∃ key, (Edit.permute 1 (Edit.images s)).normal.key = .ok key :=
      ⟨_, EditKey.of_eq_ok_iff.2 ⟨fun m hm => (Edit.mem_images.1 hm).trans_le hn, rfl⟩⟩
    obtain ⟨d, -, hanew⟩ := hc.edit_eq_deriveAnew live hcheck htrivial hkey
    obtain ⟨f, hderive, hf⟩ := Edit.derivePermute_images h s d.freshForm.1
    refine ⟨f, hanew.trans ?_, hf⟩
    show Stop.ofViolation (Edit.derivePermute base 1 (Edit.images s) d.freshForm.1) = .ok f
    rw [hderive]
    rfl

/-- **Permutations compose.** To permute the arguments of a form twice is to permute them once, by
the composition; so what a permutation did is undone by its inverse. All edits are answered, out of
any caches. -/
theorem permutations_compose (hc : c.Reachable) (hd : d.Reachable) (he : e.Reachable)
    (live live' live'' : Live η) (h : base.Permutable n) (hn : n ≤ 256) (s t : Equiv.Perm (Fin n)) :
    ∃ f g once,
      (c.edit live base (.permute 1 (Edit.images s))).1 = .ok f ∧
        (d.edit live' f (.permute 1 (Edit.images t))).1 = .ok g ∧
        (e.edit live'' base (.permute 1 (Edit.images (t * s)))).1 = .ok once ∧
        (g.names = once.names ∧ g.arity = once.arity ∧ g.result = once.result) ∧
        (t = s⁻¹ → g.names = base.names ∧ g.arity = base.arity ∧ g.result = base.result) := by
  obtain ⟨f, hf, hfirst⟩ := hc.edit_permute live h hn s
  obtain ⟨g, hg, hsecond⟩ := hd.edit_permute live' (h.renumbers hfirst) hn t
  obtain ⟨once, honce, hsingle⟩ := he.edit_permute live'' h hn (t * s)
  have hboth : base.Renumbers (Edit.place (t * s)) g := by
    rw [Edit.place_mul]
    exact hfirst.trans hsecond
  refine ⟨f, g, once, hf, hg, honce, hsingle.unique hboth, ?_⟩
  rintro rfl
  rw [inv_mul_cancel, Edit.place_one] at hboth
  exact (Form.Renumbers.refl base).unique hboth

/-- A form that passes its first argument twice and returns it. -/
def passesTwice : Form :=
  ⟨0, 4, [.param .ref, .param .int, .param .long, .param .ref,
    .apply (.external "f" ⟨[.int, .long, .int], .void, by decide, by decide⟩)
      [.name 1, .name 2, .name 1]], some 1, .generic⟩

theorem permutable_passesTwice : passesTwice.Permutable 3 where
  wellFormed := Form.defect?_eq_none_iff.1 (by decide +kernel)
  arity := rfl
  plain i hi := by
    match i with
    | 1 | 2 | 3 | 4 => rfl
    | _ + 5 => rfl
  result r m hr hm := by
    obtain rfl := Option.some.inj hr
    obtain rfl := Option.some.inj hm
    decide

/-- Two rotations of three arguments are one rotation the other way round, and back is where they
were. -/
theorem permutations_compose_rotations :
    let live : Live Empty := ⟨fun _ => true, nofun⟩
    ∃ f g once back : Form,
    ((new {} : Context Empty).edit live passesTwice (.permute 1 [1, 2, 0])).1 = .ok f ∧
      f.line = "(a0:L,a1:L,a2:I,a3:J)=>\x7bt4:V=f(a2,a3,a2);\x7da2" ∧
      ((new {} : Context Empty).edit live f (.permute 1 [1, 2, 0])).1 = .ok g ∧
      ((new {} : Context Empty).edit live passesTwice (.permute 1 [2, 0, 1])).1 = .ok once ∧
      g.names = once.names ∧
      ((new {} : Context Empty).edit live f (.permute 1 [2, 0, 1])).1 = .ok back ∧
      back.names = passesTwice.names := by
  intro live
  have hnew : (new {} : Context Empty).Reachable := .new {}
  obtain ⟨f, g, once, hf, hg, honce, hsame, -⟩ := permutations_compose hnew hnew hnew live live live
    permutable_passesTwice (by decide) (finRotate 3) (finRotate 3)
  obtain ⟨f', back, -, hf', hback, -, -, hrestored⟩ := permutations_compose hnew hnew hnew live live
    live permutable_passesTwice (by decide) (finRotate 3) (finRotate 3)⁻¹
  obtain rfl : f' = f := Except.ok.inj (hf'.symm.trans hf)
  have hline : ((new {} : Context Empty).edit live passesTwice
      (.permute 1 [1, 2, 0])).1.toOption.map Form.line = some f'.line := by
    exact congrArg (Option.map Form.line ∘ Except.toOption) hf
  refine ⟨f', g, once, back, hf, ?_, hg, honce, hsame.1, hback, (hrestored rfl).1⟩
  rw [← Option.some.injEq, ← hline]
  rfl

/-! ## Where permutations do not compose -/

omit [Identified η] in
/-- Positions past the last byte are an operand of every permutation of so many arguments. -/
theorem edit_permute_wide (c : Context η) (live : Live η) (h : base.Permutable n) (hn : 256 < n)
    {s : Equiv.Perm (Fin n)} (hs : s ≠ 1) :
    ∃ m, (256 ≤ m ∧ m < n) ∧ (c.edit live base (.permute 1 (Edit.images s))).1 =
      .error (.violation (.keyOperand m "PermuteArgs")) := by
  have hpast : ∃ m ∈ Edit.images s, 256 ≤ m := ⟨256, Edit.mem_images.2 hn, le_rfl⟩
  obtain ⟨m, hm, hwide, hkey⟩ := EditKey.exists_of_eq_error .permuteArgs hpast
  refine ⟨m, ⟨hwide, Edit.mem_images.1 hm⟩, ?_⟩
  have htrivial : (Edit.permute 1 (Edit.images s)).isTrivial = false :=
    Bool.eq_false_iff.2 fun hid => hs (Edit.eq_one_of_isIdentity hid)
  have hkey : (Edit.permute 1 (Edit.images s)).normal.key = .error (.keyOperand m "PermuteArgs") :=
    hkey
  unfold Context.edit
  simp only [check_permute h s, htrivial, hkey, Bool.false_eq_true, if_false]

/-- A verified form of 257 arguments of type `void`. -/
def wide : Form := ⟨0, 258, .param .ref :: List.replicate 257 (.param .void), none, .generic⟩

set_option maxRecDepth 4000 in
theorem permutable_wide : wide.Permutable 257 where
  wellFormed := Form.defect?_eq_none_iff.1 (by decide +kernel)
  arity := rfl
  plain i hi := by
    obtain ⟨i, rfl⟩ := Nat.exists_eq_succ_of_ne_zero hi.ne'
    rw [Form.species?, wide, List.getElem?_cons_succ, List.getElem?_replicate]
    split <;> rfl
  result := nofun

/-- A verified form whose result is a name of type `void`. -/
def returnsVoid : Form :=
  ⟨0, 3, [.param .ref, .param .int, .param .long,
    .apply (.external "f" ⟨[.long, .int], .void, by decide, by decide⟩) [.name 2, .name 1]], some 3,
    .generic⟩

/-- Two arguments of 257 cannot change places. And where the result is a name of type `void`, two
arguments that change places and change them back do not restore it: derived forms have no such
result. -/
theorem permutations_compose_not_all :
    (wide.Permutable 257 ∧ ∀ live : Live Empty, ((new {} : Context Empty).edit live wide
      (.permute 1 (Edit.images (Equiv.swap (0 : Fin 257) 1)))).1 =
        .error (.violation (.keyOperand 256 "PermuteArgs"))) ∧
    (returnsVoid.WellFormed ∧ ∀ live : Live Empty, ∃ f g,
      ((new {} : Context Empty).edit live returnsVoid (.permute 1 [1, 0])).1 = .ok f ∧
        ((new {} : Context Empty).edit live f (.permute 1 [1, 0])).1 = .ok g ∧
        g.result = none ∧ returnsVoid.result = some 3) := by
  refine ⟨⟨permutable_wide, fun live => ?_⟩, Form.defect?_eq_none_iff.1 (by decide +kernel),
    fun live => ⟨_, _, rfl, rfl, rfl, rfl⟩⟩
  have hswap : Equiv.swap (0 : Fin 257) 1 ≠ 1 := by
    intro heq
    have hmoved := Equiv.swap_apply_left (0 : Fin 257) 1
    rw [heq] at hmoved
    exact absurd hmoved (by decide)
  obtain ⟨m, hm, hedit⟩ := edit_permute_wide (new {}) live permutable_wide (by decide) hswap
  obtain rfl : m = 256 := by omega
  exact hedit

end Context

end HandleForms
