import HandleForms.Proofs.Form.Carrier

/-!
# Adaptations of carriers

An edit of a form over a carrier leaves the handle in parameter 0 and looks at it through getters
only (`Adaptation.Carries`), so what it derives is a form over the grown carrier
(`Edit.Adapts.carrier`).
-/

namespace HandleForms

namespace Adaptation

/-- What has nothing to do with the handle only moves. -/
theorem moved_of_plain {A : Adaptation} {base : Form} {n : Name Form} (hn : 0 ∉ n.operands) :
    A.moved base n = n.mapArgs (A.move base.arity) := by
  cases hgrowth : A.growth with
  | none => simp [moved, hgrowth]
  | some g =>
    have hplain : ∀ i < g.old.fields.length, ¬ n.ReadsField g.old.fields i := fun i _ hreads =>
      hn (Name.mem_operands_of_fieldRead? hreads.fieldRead?)
    rw [moved, hgrowth, Name.retarget_of_not_getter hplain]

/-- The handle stays where it is, and only reads of fields look at it. -/
structure Carries (A : Adaptation) (base : Form) (fields : List BasicType) : Prop where
  params_pos : 0 < A.params.length
  place_zero : A.place 0 = 0
  place_pos : ∀ i, 0 < i → i < base.arity → 0 < A.place i
  growth : ∀ g, A.growth = some g → g.old.fields = fields ∧ ∃ field, g.Appends field

namespace Carries

variable {A : Adaptation} {base : Form} {fields : List BasicType} {n : Name Form} {i : Nat}
  (h : A.Carries base fields)
include h

theorem move_zero (hpos : 0 < base.arity) : A.move base.arity 0 = 0 := by
  simp [move, hpos, h.place_zero]

theorem move_pos (hi : 0 < i) : 0 < A.move base.arity i := by
  unfold move
  split
  · next hlt => exact h.place_pos i hi hlt
  · have := h.params_pos
    omega

/-- Reads of fields remain reads of these fields. -/
theorem expr_moved_of_reads (hpos : 0 < base.arity) (hi : i < fields.length)
    (hn : n.ReadsField fields i) :
    ∃ s : Species, (A.moved base n).expr = some ⟨.getter s i, [.name 0]⟩ ∧
      (A.growth = none → s.fields = fields) ∧ ∀ g, A.growth = some g → s = g.new := by
  have hzero := h.move_zero hpos
  cases hgrowth : A.growth with
  | none =>
    obtain ⟨s, hs, he⟩ := hn
    refine ⟨s, ?_, fun _ => hs, by simp⟩
    simp [moved, hgrowth, Name.mapArgs, he, Arg.map, hzero]
  | some g =>
    obtain ⟨hold, field, happends⟩ := h.growth g hgrowth
    refine ⟨g.new, ?_, by simp, fun g' hg' => by rw [Option.some.inj hg']⟩
    rw [moved, hgrowth, Name.retarget_getter happends (by rw [hold]; exact hi) (hold ▸ hn)]
    simp [Name.apply, Name.mapArgs, Arg.map, hzero]

theorem fieldRead?_moved_of_reads (hpos : 0 < base.arity) (hi : i < fields.length)
    (hn : n.ReadsField fields i) : (A.moved base n).fieldRead? = some i := by
  obtain ⟨s, he, -, -⟩ := h.expr_moved_of_reads hpos hi hn
  exact Name.fieldRead?_of_expr he

theorem zero_notMem_operands_moved (hn : 0 ∉ n.operands) : 0 ∉ (A.moved base n).operands := by
  rw [moved_of_plain hn, Name.operands_mapArgs]
  intro hzero
  obtain ⟨o, ho, hmove⟩ := List.mem_map.1 hzero
  have hopos : 0 < o := Nat.pos_of_ne_zero fun hz => hn (hz ▸ ho)
  exact absurd hmove (Nat.ne_of_gt (h.move_pos hopos))

theorem fieldRead?_moved_of_plain (hn : 0 ∉ n.operands) : (A.moved base n).fieldRead? = none := by
  cases hread : (A.moved base n).fieldRead? with
  | none => rfl
  | some i =>
    exact absurd (Name.mem_operands_of_fieldRead? hread) (h.zero_notMem_operands_moved hn)

end Carries

end Adaptation

namespace Edit.Adapts

variable {base : Form} {g : CarrierGrowth} {e : Edit} {A : Adaptation} {fields : List BasicType}

/-- An edit that does not bind the handle itself leaves it in its place. -/
theorem carries (h : Adapts base g e A) (hbase : base.Carrier fields) (hg : Grows base e g)
    (hzero : ∀ type, e ≠ .bind 0 type) : A.Carries base fields := by
  have hold : g.old.fields = fields := hg.old.trans hbase.fields_eq
  have hparams : 0 < A.params.length := (h.editable hbase.editable hg 0).arity_pos
  have hlen := Form.length_params hbase.editable.wellFormed
  have hgrown : ∀ {field : BasicType}, e.field? = some field → ∀ g', some g = some g' →
      g'.old.fields = fields ∧ ∃ field, g'.Appends field := by
    rintro field hfield g' hg'
    obtain rfl := Option.some.inj hg'
    exact ⟨hold, field, hg.appends field hfield⟩
  have hcombining : ∀ {pos : Nat} {combiner : Signature} {keep drop : Bool}, 0 < pos →
      pos + resultArity drop ≤ base.arity → ∀ i, 0 < i → i < base.arity →
      0 < (Adaptation.combining base g pos combiner keep drop).place i := by
    intro pos combiner keep drop hpos hle i hi hlt
    simp only [Adaptation.combining]
    split
    · exact hi
    · split <;> omega
  cases h with
  | @bind pos field hpos htype =>
    have hlt := (List.getElem?_eq_some_iff.1 htype).1
    refine ⟨hparams, by simp [Adaptation.binding, hpos], fun i hi hlt' => ?_, hgrown rfl⟩
    simp only [Adaptation.binding]
    split
    · exact hi
    · split <;> omega
  | bindHandle hplain => exact absurd rfl (hzero _)
  | @add pos type hpos hle hvoid hslots =>
    refine ⟨hparams, by simp [Adaptation.adding, hpos], fun i hi _ => ?_, fun _ h => by cases h⟩
    simp only [Adaptation.adding]
    split <;> omega
  | @dup src dst hsrc hlt hdst htype =>
    have hdst0 : 0 < dst := by omega
    refine ⟨hparams, by simp [Adaptation.merging, hdst0], fun i hi _ => ?_, fun _ h => by cases h⟩
    simp only [Adaptation.merging]
    split
    · exact hi
    · split <;> omega
  | @spread pos count array element harray hpos hle htypes hslots =>
    refine ⟨hparams, by simp [Adaptation.spreading, hpos], fun i hi _ => ?_, fun _ h => by cases h⟩
    simp only [Adaptation.spreading]
    split
    · exact hi
    · split <;> omega
  | filter hpos htype hfilter hslots =>
    have hlt := (List.getElem?_eq_some_iff.1 htype).1
    exact ⟨hparams, by simp [Adaptation.combining, hpos],
      hcombining hpos (show _ + 1 ≤ base.arity by omega), hgrown rfl⟩
  | collect hpos hdrop hle hret hslots =>
    exact ⟨hparams, by simp [Adaptation.combining, hpos], hcombining hpos hle, hgrown rfl⟩
  | filterReturn hfilter => exact ⟨hparams, rfl, fun i hi _ => hi, hgrown rfl⟩
  | zeroReturn => exact ⟨hparams, rfl, fun i hi _ => hi, fun _ h => by cases h⟩
  | fold hpos hdrop hle hret hkept =>
    exact ⟨hparams, by simp [Adaptation.combining, hpos], hcombining hpos hle, hgrown rfl⟩
  | @permute reorder hlen' hperm =>
    refine ⟨hparams, by simp [Adaptation.permuting, Edit.permuted], fun i hi hlt => ?_, fun _ h => by cases h⟩
    simp only [Adaptation.permuting, Edit.permuted]
    split
    · exact hi
    · split
      · omega
      · exact hi

/-- Behind parameter 0 there are no carriers. -/
theorem params_plain (h : Adapts base g e A) (hbase : base.Carrier fields)
    (hzero : ∀ type, e ≠ .bind 0 type) : ∀ n ∈ A.params.drop 1, n.species = none := by
  obtain ⟨first, rest, hnames, hplain⟩ := hbase.names_eq
  have hdrop : ∀ pos, 0 < pos → ∀ n ∈ (base.names.take base.arity).drop pos, n.species = none := by
    rintro pos hpos n hn
    obtain ⟨k, rfl⟩ := Nat.exists_eq_add_of_lt hpos
    obtain ⟨a, ha⟩ := Nat.exists_eq_add_of_lt hbase.editable.arity_pos
    rw [hnames, ha, Nat.zero_add, Nat.zero_add, List.take_succ_cons, List.drop_succ_cons] at hn
    exact hplain n (List.mem_of_mem_take (List.mem_of_mem_drop hn))
  have hlead : ∀ pos, ∀ n ∈ (base.names.take pos).drop 1, n.species = none := by
    intro pos n hn
    cases pos with
    | zero => cases hn
    | succ k =>
      rw [hnames, List.take_succ_cons, List.drop_succ_cons, List.drop_zero] at hn
      exact hplain n (List.mem_of_mem_take hn)
  have hlater : ∀ pos, 0 < pos → ∀ (more : List (Name Form)), (∀ n ∈ more, n.species = none) →
      ∀ n ∈ (base.names.take pos ++ more).drop 1, n.species = none := by
    intro pos hpos more hmore n hn
    obtain ⟨k, rfl⟩ := Nat.exists_eq_add_of_lt hpos
    have hsplit : (base.names.take (0 + k + 1) ++ more).drop 1 =
        (base.names.take (0 + k + 1)).drop 1 ++ more := by
      rw [hnames, List.take_succ_cons]
      rfl
    rw [hsplit] at hn
    exact (List.mem_append.1 hn).elim (hlead _ n) (hmore n)
  have hcons : ∀ {m : Name Form} {ms : List (Name Form)}, m.species = none →
      (∀ n ∈ ms, n.species = none) → ∀ n ∈ m :: ms, n.species = none := fun hm hms =>
    List.forall_mem_cons.2 ⟨hm, hms⟩
  have hcombining : ∀ (pos : Nat) (combiner : Signature) (keep drop : Bool), 0 < pos →
      ∀ n ∈ (Adaptation.combining base g pos combiner keep drop).params.drop 1,
        n.species = none := by
    intro pos combiner keep drop hpos n hn
    simp only [Adaptation.combining, List.drop_one, List.tail_cons, List.mem_append,
      List.mem_map] at hn
    rcases hn with hn | ⟨t, -, rfl⟩ | hn
    · exact hlead pos n (by rwa [List.drop_one])
    · rfl
    · exact hdrop _ (by omega) n hn
  cases h with
  | @bind pos field hpos htype =>
    intro n hn
    simp only [Adaptation.binding, List.drop_one, List.tail_cons, List.mem_append] at hn
    exact hn.elim (fun hn => hlead pos n (by rwa [List.drop_one])) (hdrop _ (by omega) n)
  | bindHandle hplain => exact absurd rfl (hzero _)
  | add hpos hle hvoid hslots => exact hlater _ hpos _ (hcons rfl (hdrop _ hpos))
  | dup hpos hlt hdst htype => exact hlater _ (by omega) _ (hdrop _ (by omega))
  | spread harray hpos hle htypes hslots => exact hlater _ hpos _ (hcons rfl (hdrop _ (by omega)))
  | filter hpos htype hfilter hslots => exact hcombining _ _ _ _ hpos
  | collect hpos hdrop hle hret hslots => exact hcombining _ _ _ _ hpos
  | filterReturn hfilter => exact hdrop 1 Nat.one_pos
  | zeroReturn => exact hdrop 1 Nat.one_pos
  | fold hpos hdrop hle hret hkept => exact hcombining _ _ _ _ hpos
  | permute hlen' hperm =>
    refine hlater 1 Nat.one_pos _ fun n hn => ?_
    obtain ⟨j, -, rfl⟩ := List.mem_map.1 hn
    rfl

/-- A new name that looks at the handle reads the appended field. -/
theorem reads_new (h : Adapts base g e A) (hbase : base.Carrier fields)
    (hzero : ∀ type, e ≠ .bind 0 type) {n : Name Form} (hn : n ∈ A.early ++ A.late)
    (hread : 0 ∈ n.operands) : A.growth = some g ∧ n = g.readOf 0 := by
  have hpos := hbase.editable.arity_pos
  have hsize := hbase.editable.wellFormed.arity_le
  have hcombining : ∀ (pos : Nat) (combiner : Signature) (keep drop : Bool), 0 < pos →
      pos + resultArity drop ≤ base.arity →
      n ∈ (Adaptation.combining base g pos combiner keep drop).early ++ [] → n = g.readOf 0 := by
    intro pos combiner keep drop hpos hle hn
    simp only [Adaptation.combining, List.append_nil, List.mem_cons, List.not_mem_nil, or_false] at hn
    rcases hn with rfl | rfl
    · rfl
    · simp only [Name.operands_call, List.mem_cons, List.mem_range'_1] at hread
      omega
  cases h with
  | bind hpos htype => exact ⟨rfl, by simpa [Adaptation.binding] using hn⟩
  | bindHandle hplain => exact absurd rfl (hzero _)
  | add hpos hle hvoid hslots => cases hn
  | dup hpos hlt hdst htype => cases hn
  | spread harray hpos hle htypes hslots =>
    simp only [Adaptation.spreading, List.append_nil, List.mem_cons, List.mem_map] at hn
    rcases hn with rfl | ⟨k, -, rfl⟩
    · simp at hread
      omega
    · simp at hread
      omega
  | filter hpos htype hfilter hslots =>
    have hlt := (List.getElem?_eq_some_iff.1 htype).1
    rw [Form.length_params hbase.editable.wellFormed] at hlt
    exact ⟨rfl, hcombining _ _ _ _ hpos (show _ + 1 ≤ base.arity by omega) hn⟩
  | collect hpos hdrop hle hret hslots => exact ⟨rfl, hcombining _ _ _ _ hpos hle hn⟩
  | filterReturn hfilter =>
    simp only [Adaptation.filteringReturn, List.nil_append, List.mem_cons, List.not_mem_nil,
      or_false] at hn
    rcases hn with rfl | rfl
    · exact ⟨rfl, rfl⟩
    · simp only [Name.operands_call, List.mem_cons] at hread
      rcases hread with hread | hread
      · omega
      · have := (hbase.result 0 (by simpa using hread)).1
        omega
  | zeroReturn =>
    simp only [Adaptation.zeroingReturn, List.nil_append] at hn
    split at hn
    · cases hn
    · rw [List.mem_singleton.1 hn] at hread
      cases hread
  | fold hpos hdrop hle hret hkept => exact ⟨rfl, hcombining _ _ _ _ hpos hle hn⟩
  | permute hlen' hperm => cases hn

/-- The carrier grows exactly by the field that the edit appends. -/
theorem growth_iff (h : Adapts base g e A) (hzero : ∀ type, e ≠ .bind 0 type) :
    A.growth = e.field?.map fun _ => g := by
  cases h with
  | bindHandle hplain => exact absurd rfl (hzero _)
  | _ => rfl

/-- A result is computed behind the parameters. -/
theorem arity_le_result (h : Adapts base g e A) (hbase : base.Carrier fields) {id r : Nat}
    (hr : (A.form base id).result = some r) : (A.form base id).arity ≤ r := by
  have hsize := hbase.editable.wellFormed.arity_le
  have hpos := hbase.editable.arity_pos
  have hkept : A.result.getD (base.result.map (A.move base.arity)) = some r :=
    (Option.filter_eq_some_iff.1 hr).1
  have hmoved : A.result = none → (A.form base id).arity ≤ r := by
    intro hnone
    rw [hnone, Option.getD_none] at hkept
    obtain ⟨o, ho, rfl⟩ := Option.map_eq_some_iff.1 hkept
    have hle := (hbase.result o ho).1
    show A.params.length ≤ A.move base.arity o
    rw [Adaptation.move, if_neg (by omega)]
    omega
  cases h with
  | @filterReturn type filter hfilter =>
    obtain rfl := Option.some.inj hkept
    show (Adaptation.filteringReturn base g filter).params.length ≤ _
    simp [Adaptation.filteringReturn]
    omega
  | zeroReturn =>
    simp only [Adaptation.zeroingReturn, Option.getD_some] at hkept
    split at hkept
    · cases hkept
    · obtain rfl := Option.some.inj hkept
      show (base.names.take base.arity).length ≤ _
      simp
      omega
  | _ => exact hmoved rfl

/-- What an edit does to the fields of a carrier. -/
theorem fields_reshape (e : Edit) (hzero : ∀ type, e ≠ .bind 0 type) {s : Form.Shape}
    (hs : s.fields = some fields) :
    (e.reshape s).fields = some (fields ++ e.field?.toList) := by
  cases e with
  | bind pos type =>
    have hpos : pos ≠ 0 := fun h => hzero type (h ▸ rfl)
    simp [reshape, hpos, Form.Shape.grow, hs, field?]
  | _ => simp [reshape, Form.Shape.grow, hs, field?]

/-- What an edit derives from a form over a carrier is one over the grown carrier. -/
theorem carrier (h : Adapts base g e A) (hbase : base.Carrier fields) (hg : Grows base e g)
    (hzero : ∀ type, e ≠ .bind 0 type) (id : Nat) :
    (A.form base id).Carrier (fields ++ e.field?.toList) := by
  have heditable := h.editable hbase.editable hg id
  have hcarries := h.carries hbase hg hzero
  have hgrowth := h.growth_iff hzero
  have hnew : ∀ g', A.growth = some g' → g'.new.fields = fields ++ e.field?.toList := by
    intro g' hg'
    rw [hgrowth] at hg'
    obtain ⟨field, hfield, rfl⟩ := Option.map_eq_some_iff.1 hg'
    rw [show g.new.fields = _ from hg.appends field hfield, hg.old, hbase.fields_eq, hfield]
    rfl
  refine ⟨heditable, ?_, fun i hi => ?_, fun n hn hzero' => ?_, fun r hr => ?_⟩
  · show (A.form base id).shape.fields = _
    rw [h.shape_eq hbase.editable hg id]
    exact fields_reshape e hzero hbase.species
  · cases hn : (A.form base id).names[i]? with
    | none => simp [Form.species?, hn]
    | some n =>
      show ((A.form base id).names[i]?).bind Name.species = none
      rw [hn]
      by_cases hlt : i < (A.form base id).arity
      · have hmem : A.params[i]? = some n := by
          rcases Adaptation.names_cases hn with ⟨-, hn⟩ | ⟨k, rfl, -⟩ | ⟨k, m, rfl, -, -⟩ | ⟨k, rfl, -⟩
          · exact hn
          all_goals exact absurd hlt (by show ¬ _ < A.params.length; omega)
        refine h.params_plain hbase hzero n (List.mem_of_getElem? (i := i - 1) ?_)
        rw [List.getElem?_drop, show 1 + (i - 1) = i by omega, hmem]
      · cases hs : n.species with
        | none => exact hs
        | some s => exact absurd (heditable.wellFormed.carrier i n hn (by simp [hs])).1 hlt
  · obtain ⟨i, hi⟩ := List.getElem?_of_mem hn
    have hnewName : n ∈ A.early ++ A.late → ∃ i < (fields ++ e.field?.toList).length,
        n.ReadsField (fields ++ e.field?.toList) i := by
      intro hn
      obtain ⟨hgrown, rfl⟩ := h.reads_new hbase hzero hn hzero'
      obtain ⟨field, hfield, -⟩ := Option.map_eq_some_iff.1 (hgrowth.symm.trans hgrown)
      refine ⟨g.old.fields.length, ?_, g.new, hnew g hgrown, rfl⟩
      simp [hg.old, hbase.fields_eq, hfield]
    rcases Adaptation.names_cases hi with ⟨-, hn⟩ | ⟨k, -, hn⟩ | ⟨k, m, -, hm, rfl⟩ | ⟨k, -, hn⟩
    · have hparam := ((h.fits hbase.editable hg).params_made n (List.mem_of_getElem? hn)).2
      simp [Name.operands_param hparam] at hzero'
    · exact hnewName (List.mem_append_left _ (List.mem_of_getElem? hn))
    · rcases hbase.reads_or (List.mem_of_getElem? hm) with ⟨i, hi, -, hreads⟩ | ⟨-, hplain⟩
      · obtain ⟨s, he, hsame, hgrown⟩ := hcarries.expr_moved_of_reads hbase.editable.arity_pos hi hreads
        refine ⟨i, by simp; omega, s, ?_, he⟩
        cases hcase : A.growth with
        | none =>
          have hfield : e.field? = none := Option.map_eq_none_iff.1 (hgrowth.symm.trans hcase)
          simp [hsame hcase, hfield]
        | some g' => rw [hgrown g' hcase, hnew g' hcase]
      · exact absurd hzero' (hcarries.zero_notMem_operands_moved hplain)
    · exact hnewName (List.mem_append_right _ (List.mem_of_getElem? hn))
  · have htype := (Option.filter_eq_some_iff.1 hr).2
    exact ⟨h.arity_le_result hbase hr, by simpa [Adaptation.form] using htype⟩

end Edit.Adapts

end HandleForms
