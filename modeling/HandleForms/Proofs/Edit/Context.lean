import HandleForms.Proofs.Edit.Accept
import HandleForms.Proofs.Edit.Cache
import HandleForms.Proofs.Species

/-!
# Edits in a context

A context answers an edit out of the cache of the base or derives the form anew. `Context.Sound` says
that what the caches hold under a key is what an edit with this key derives; every operation keeps it
so. In a sound context an edit is refused with an error or answers what it derives, whatever was
derived before and whatever is alive (`Sound.edit_ok`, `Sound.edit_total`).
-/

namespace HandleForms

namespace Edit

/-- The form is what the edit derives from the base, under some identity. -/
def DerivesTo (base : Form) (e : Edit) (f : Form) : Prop :=
  ∃ g A id, Adapts base g e A ∧ Grows base e g ∧ f = A.form base id

namespace DerivesTo

variable {base f : Form} {e : Edit}

theorem editable (h : e.DerivesTo base f) (hbase : base.Editable) : f.Editable := by
  obtain ⟨g, A, id, hadapts, hg, rfl⟩ := h
  exact hadapts.editable hbase hg id

theorem shape_eq (h : e.DerivesTo base f) (hbase : base.Editable) :
    f.shape = e.reshape base.shape := by
  obtain ⟨g, A, id, hadapts, hg, rfl⟩ := h
  exact hadapts.shape_eq hbase hg id

end DerivesTo

end Edit

namespace Context

variable {η : Type} {c : Context η} {base b f : Form} {e : Edit} {key : EditKey}

theorem cacheOf_setCache (c : Context η) (base b : Form) (cache : EditCache Form) :
    (c.setCache base cache).cacheOf b = if base = b then cache else c.cacheOf b := by
  unfold cacheOf setCache
  by_cases h : base = b
  · simp [h]
  · rw [if_neg h, List.find?_cons_of_neg (by simpa using h), List.find?_filter]
    congr 3
    funext e
    by_cases he : e.1 = b
    · simp [he, Ne.symm h]
    · simp [he]

/-- What the caches hold under a key is what an edit with this key derives. -/
structure Sound (c : Context η) : Prop where
  species : c.species.Sound
  caches : ∀ base, base.Editable → ∀ key f, (key, f) ∈ (c.cacheOf base).entries →
    ∃ e : Edit, e.key = .ok key ∧ e.DerivesTo base f

theorem sound_new (config : CacheConfig) : (new config : Context η).Sound :=
  ⟨SpeciesTable.sound_empty, fun _ _ _ _ h => absurd h (by simp [new, cacheOf, EditCache.entries])⟩

/-- Only the species and the caches of derived forms matter. -/
theorem Sound.of_eq {η' : Type} {c' : Context η'} (h : c.Sound) (hspecies : c'.species = c.species)
    (hcaches : c'.caches = c.caches) : c'.Sound := by
  refine ⟨hspecies ▸ h.species, fun base hbase key f hf => h.caches base hbase key f ?_⟩
  simpa only [cacheOf, hcaches] using hf

theorem Sound.setSpecies (h : c.Sound) {t : SpeciesTable} (ht : t.Sound) :
    Sound { c with species := t } :=
  ⟨ht, h.caches⟩

theorem Sound.freshForm (h : c.Sound) : c.freshForm.2.Sound := h.of_eq rfl rfl

theorem Sound.internSpecies (h : c.Sound) (fields : List BasicType) :
    (c.internSpecies fields).2.Sound :=
  h.setSpecies (h.species.intern fields)

/-! ## Deriving anew -/

theorem growCarrier_eq (h : c.Sound) (hbase : base.Editable) {field : BasicType}
    (hfield : field ≠ .void) : ∃ g c', c.growCarrier base field = .ok (g, c') ∧
      g.old.fields = base.fields ∧ g.Appends field := by
  obtain ⟨old, hold, hfields⟩ := Form.carrier_eq hbase.ref
  obtain ⟨new, t, hnew, happends, -⟩ := h.species.extended old hfield
  exact ⟨⟨old, new⟩, { c with species := t }, by simp [growCarrier, hold, hnew, pure, Except.pure],
    hfields, happends⟩

theorem Sound.growCarrier (h : c.Sound) {field : BasicType} {g : CarrierGrowth} {c' : Context η}
    (hgrow : c.growCarrier base field = .ok (g, c')) : c'.Sound := by
  unfold Context.growCarrier at hgrow
  obtain ⟨old, -, hgrow⟩ := bind_eq_ok_iff.1 hgrow
  obtain ⟨⟨new, t⟩, hnew, hgrow⟩ := bind_eq_ok_iff.1 hgrow
  obtain ⟨-, rfl⟩ := Prod.mk.inj (Except.ok.inj hgrow)
  exact h.setSpecies (h.species.of_extended hnew)

theorem Sound.deriveAnew (h : c.Sound) (base : Form) (e : Edit) :
    (c.deriveAnew base e).2.Sound := by
  unfold Context.deriveAnew
  cases e.field? with
  | none => exact h.freshForm
  | some field =>
    cases hgrow : Context.growCarrier c.freshForm.2 base field with
    | error v => simpa [hgrow] using h.freshForm
    | ok gc => simpa [hgrow] using h.freshForm.growCarrier hgrow

/-- An accepted edit derives a form. -/
theorem deriveAnew_eq (h : c.Sound) (hbase : base.Editable)
    (hadapts : ∀ g, ∃ A, Edit.Adapts base g e A) :
    ∃ f, (c.deriveAnew base e).1 = .ok f ∧ e.DerivesTo base f := by
  unfold deriveAnew
  cases hfield : e.field? with
  | none =>
    obtain ⟨A, hA⟩ := hadapts ⟨⟨0, base.fields⟩, ⟨0, []⟩⟩
    have hg : Edit.Grows base e ⟨⟨0, base.fields⟩, ⟨0, []⟩⟩ := ⟨rfl, by simp [hfield]⟩
    have hderive := hA.derive_eq hbase hg c.freshForm.1
    rw [hfield, Option.map_none] at hderive
    exact ⟨_, hderive, _, A, _, hA, hg, rfl⟩
  | some field =>
    obtain ⟨A, hA⟩ := hadapts ⟨⟨0, []⟩, ⟨0, []⟩⟩
    obtain ⟨g, c', hgrow, hold, happends⟩ :=
      growCarrier_eq h.freshForm hbase (hA.field_ne_void hbase hfield)
    obtain ⟨A, hA⟩ := hadapts g
    have hg : Edit.Grows base e g := ⟨hold, fun field' hfield' => by
      obtain rfl := Option.some.inj (hfield.symm.trans hfield')
      exact happends⟩
    have hderive := hA.derive_eq hbase hg c.freshForm.1
    rw [hfield, Option.map_some] at hderive
    exact ⟨A.form base c.freshForm.1, by simp [hgrow, hderive], _, A, _, hA, hg, rfl⟩

/-- A filter that cannot take the result is refused with an error. -/
theorem deriveAnew_filterReturn (h : c.Sound) (hbase : base.Editable) {type : BasicType}
    {err : SignatureError}
    (hfilter : Signature.ofBasic type (base.result.toList.map fun _ => base.ret) = .error err) :
    (c.deriveAnew base (.filterReturn type)).1 = .error (.error (.signature err)) := by
  obtain ⟨g, c', hgrow, -, happends⟩ := growCarrier_eq h.freshForm hbase
    (show BasicType.ref ≠ .void by decide)
  have hderive := Edit.deriveFilterReturn_refused hbase.wellFormed hbase.arity_pos
    hbase.paramType_zero happends hfilter c.freshForm.1
  simp [deriveAnew, Edit.field?, hgrow, Edit.derive, hderive]

/-- Binding a carrier breaks a precondition. -/
theorem deriveAnew_bindCarrier (h : c.Sound) (hbase : base.Editable) (hfields : base.fields ≠ [])
    {type : BasicType} (htype : type ≠ .void) :
    (c.deriveAnew base (.bind 0 type)).1 = .error (.violation .bindCarrier) := by
  obtain ⟨g, c', hgrow, hold, happends⟩ := growCarrier_eq h.freshForm hbase htype
  have htop : g.old.isTop = false := by simpa [Species.isTop, hold] using hfields
  have hderive := Edit.deriveBind_refused hbase.wellFormed htop happends c.freshForm.1
  simp [deriveAnew, Edit.field?, hgrow, Edit.derive, hderive]

/-- What is let through and has a key derives a form or is refused with an error; only a carrier
breaks a precondition. -/
theorem deriveAnew_cases (h : c.Sound) (hbase : base.Editable) (hcheck : e.check base = .ok ())
    (hwords : e.normal.InWords) :
    (∃ f, (c.deriveAnew base e.normal).1 = .ok f ∧ e.normal.DerivesTo base f) ∨
    (∃ err, (c.deriveAnew base e.normal).1 = .error (.error err)) ∨
    (∃ type, e = .bind 0 type) ∧ base.fields ≠ [] ∧
      (c.deriveAnew base e.normal).1 = .error (.violation .bindCarrier) := by
  by_cases hrefused : e.Refused base
  · rcases hrefused with ⟨type, rfl, hfields⟩ | ⟨type, err, rfl, hfilter⟩
    · have htype : type ≠ .void := by
        simp only [Edit.check, bind_unit_eq_ok_iff, Form.expectParam_eq_ok_iff] at hcheck
        exact hbase.args _ (List.mem_of_getElem? hcheck.2)
      exact .inr (.inr ⟨⟨type, rfl⟩, hfields, deriveAnew_bindCarrier h hbase hfields htype⟩)
    · exact .inr (.inl ⟨_, deriveAnew_filterReturn h hbase hfilter⟩)
  · exact .inl (deriveAnew_eq h hbase fun g =>
      (Edit.adapts_of_check hbase hcheck hwords g).resolve_right hrefused)

/-! ## Editing -/

theorem Sound.lookupDerived (h : c.Sound) (live : Live η) (base : Form) (key : EditKey) :
    (c.lookupDerived live base key).2.Sound := by
  unfold Context.lookupDerived
  split <;> exact h.of_eq rfl rfl

theorem lookupDerived_some {live : Live η} (hf : (c.lookupDerived live base key).1 = some f) :
    (key, f) ∈ (c.cacheOf base).entries := by
  unfold lookupDerived at hf
  split at hf
  · next found hfound =>
    obtain rfl := Option.some.inj hf
    exact EditCache.mem_of_get? hfound
  · cases hf

theorem Sound.publishDerived (h : c.Sound) (live : Live η)
    (hf : base.Editable → ∃ e : Edit, e.key = .ok key ∧ e.DerivesTo base f) :
    (c.publishDerived live base key f).2.Sound := by
  refine ⟨h.species, fun b hb k g hg => ?_⟩
  have hcaches : ∀ c' : Context η, c'.caches = (c.setCache base
      ((c.cacheOf base).put live.form c.config.arraySize key f).2).caches →
        (k, g) ∈ (c'.cacheOf b).entries → ∃ e : Edit, e.key = .ok k ∧ e.DerivesTo b g := by
    intro c' hc' hmem
    have hcache : c'.cacheOf b = (c.setCache base
        ((c.cacheOf base).put live.form c.config.arraySize key f).2).cacheOf b := by
      simp only [cacheOf, hc']
    rw [hcache, cacheOf_setCache] at hmem
    split at hmem
    · next hbase =>
      subst hbase
      rcases EditCache.mem_put hmem with heq | hold
      · obtain ⟨rfl, rfl⟩ := Prod.mk.inj heq
        exact hf hb
      · exact h.caches _ hb _ _ hold
    · exact h.caches _ hb _ _ hmem
  exact hcaches _ rfl hg

/-- Every edit leaves the context sound. -/
theorem Sound.edit (h : c.Sound) (live : Live η) (base : Form) (e : Edit) :
    (c.edit live base e).2.Sound := by
  simp only [Context.edit]
  split
  · exact h
  next hcheck =>
  split
  · exact h
  split
  · exact h
  next key hkey =>
  have hlookup := h.lookupDerived live base key
  split
  · next f c' heq =>
    rw [heq] at hlookup
    exact hlookup
  next c' heq =>
  rw [heq] at hlookup
  have hderive := hlookup.deriveAnew base e.normal
  split
  · next stop c'' heq' =>
    rw [heq'] at hderive
    exact hderive
  next f c'' heq' =>
  have hok : (c'.deriveAnew base e.normal).1 = .ok f := congrArg Prod.fst heq'
  rw [heq'] at hderive
  refine hderive.publishDerived live fun hbase => ⟨_, hkey, ?_⟩
  rcases deriveAnew_cases hlookup hbase hcheck (Edit.inWords_of_key hkey) with
    ⟨f', hf', hderives⟩ | ⟨err, herr⟩ | ⟨-, -, herr⟩
  · obtain rfl := Except.ok.inj (hok.symm.trans hf')
    exact hderives
  · rw [herr] at hok
    cases hok
  · rw [herr] at hok
    cases hok

/-- What the cache of the base holds for an edit is what the edit derives. -/
theorem Sound.derivesTo_of_mem (h : c.Sound) (hbase : base.Editable)
    (hcheck : e.check base = .ok ()) (hkey : e.normal.key = .ok key)
    (hmem : (key, f) ∈ (c.cacheOf base).entries) : e.normal.DerivesTo base f := by
  obtain ⟨e', hkey', g, A', id, hA', hg, rfl⟩ := h.caches base hbase key f hmem
  have hfields := hA'.not_refused hkey' hkey
  obtain ⟨A, hA⟩ := (Edit.adapts_of_check hbase hcheck (Edit.inWords_of_key hkey) g).resolve_right
    hfields
  obtain ⟨rfl, hfield⟩ := hA.eq_of_key hA' hkey hkey'
  exact ⟨g, A, id, hA, ⟨hg.old, fun field h => hg.appends field (hfield ▸ h)⟩, rfl⟩

theorem check_of_edit_ok {live : Live η} (hok : (c.edit live base e).1 = .ok f) :
    e.check base = .ok () := by
  simp only [Context.edit] at hok
  split at hok
  · cases hok
  · assumption

/-- What an edit answers, found or derived anew. -/
theorem edit_ok (h : c.Sound) (live : Live η) (hbase : base.Editable)
    (hok : (c.edit live base e).1 = .ok f) :
    e.isTrivial = true ∧ f = base ∨ e.normal.DerivesTo base f := by
  simp only [Context.edit] at hok
  split at hok
  · cases hok
  next hcheck =>
  split at hok
  · next htrivial => exact .inl ⟨htrivial, (Except.ok.inj hok).symm⟩
  right
  split at hok
  · cases hok
  next key hkey =>
  have hlookup := h.lookupDerived live base key
  split at hok
  · next f' c' heq =>
    obtain rfl := Except.ok.inj hok
    exact h.derivesTo_of_mem hbase hcheck hkey (lookupDerived_some (congrArg Prod.fst heq))
  next c' heq =>
  rw [heq] at hlookup
  have hderive := hlookup.deriveAnew base e.normal
  have hcases := deriveAnew_cases hlookup hbase hcheck (Edit.inWords_of_key hkey)
  split at hok
  · cases hok
  next f' c'' heq' =>
  rw [heq'] at hderive hcases
  obtain rfl := Except.ok.inj hok
  rcases EditCache.put_fst (c''.cacheOf base) with hput | hput
  · rcases hcases with ⟨f, hf, hderives⟩ | ⟨err, herr⟩ | ⟨-, -, herr⟩
    · obtain rfl := Except.ok.inj hf
      exact (congrArg (Edit.DerivesTo base e.normal) hput).mpr hderives
    · cases herr
    · cases herr
  · exact hderive.derivesTo_of_mem hbase hcheck hkey hput

/-- An edit that keeps to its preconditions is refused with an error or answers a form. -/
theorem edit_total (h : c.Sound) (live : Live η) (hbase : base.Editable)
    (hcheck : Stop.Unbroken (e.check base)) (hwords : e.normal.InWords)
    (hplain : ∀ type, e = .bind 0 type → base.fields = []) :
    (∃ err, (c.edit live base e).1 = .error (.error err)) ∨
      ∃ f, (c.edit live base e).1 = .ok f := by
  simp only [Context.edit]
  split
  · next stop hstop =>
    cases stop with
    | error err => exact .inl ⟨err, rfl⟩
    | violation v => exact absurd hstop (hcheck v)
  next hcheck =>
  split
  · exact .inr ⟨_, rfl⟩
  split
  · next v hkey =>
    obtain ⟨key, hkey'⟩ := Edit.exists_key_of_check hbase hcheck hwords
    cases hkey.symm.trans hkey'
  next key hkey =>
  have hlookup := h.lookupDerived live base key
  split
  · exact .inr ⟨_, rfl⟩
  next c' heq =>
  rw [heq] at hlookup
  have hcases := deriveAnew_cases hlookup hbase hcheck hwords
  split
  · next stop c'' heq' =>
    rw [heq'] at hcases
    rcases hcases with ⟨f, hf, -⟩ | ⟨err, herr⟩ | ⟨⟨type, he⟩, hfields, -⟩
    · cases hf
    · exact .inl ⟨err, herr⟩
    · exact absurd (hplain type he) hfields
  · exact .inr ⟨_, rfl⟩

end Context

end HandleForms
