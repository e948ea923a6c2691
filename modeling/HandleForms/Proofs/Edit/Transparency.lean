import HandleForms.Client
import HandleForms.Proofs.Draft.Identity
import HandleForms.Proofs.Edit.Total

/-!
# Caches do not show

What a client gets for its edits does not depend on what the caches remember: a form that is found
is the one that would be derived anew, up to identities. Keys leave out what the base and the checks
decide (`Edit.Pinned`), so edits with the same key derive the same form (`Edit.derive_eq_of_key`).
Hence every entry of every cache is what any edit with its key derives (`Context.Faithful`), and two
clients that take the same steps get the same outcomes, whatever their contexts
(`Client.run_transparent`).
-/

namespace HandleForms

namespace Edit

variable {base : Form} {e e' : Edit}

/-! ## Edits with the same key -/

/-- What the checks of an edit find out about the operands that its key leaves out. -/
def Pinned (base : Form) : Edit → Prop
  | bind pos type => base.param? pos = some type
  | collect pos collector =>
    collector.basicRet ≠ .void → base.param? pos = some collector.basicRet
  | fold pos drop combiner =>
    drop = (combiner.basicRet == .void) ∧
      (drop = false → base.param? pos = some combiner.basicRet) ∧
      combiner.basicParams <+: base.params.drop (Text.wordAdd pos (resultArity drop))
  | permute skip _ => skip = 1
  | add _ _ | dup _ _ | spread _ _ _ | filter _ _ | filterReturn _ | zeroReturn _ => True

theorem pinned_of_check (hcheck : e.check base = .ok ()) : e.normal.Pinned base := by
  cases e with
  | bind pos type =>
    simp only [check, bind_unit_eq_ok_iff, Form.expectParam_eq_ok_iff] at hcheck
    exact hcheck.2
  | collect pos collector =>
    simp only [check, bind_unit_eq_ok_iff] at hcheck
    by_cases hvoid : collector.basicRet = .void
    · rw [normal_collect_void hvoid]
      exact fun hne => absurd hvoid hne
    · by_cases hone : ∃ t, collector.basicParams = [t]
      · obtain ⟨t, ht⟩ := hone
        rw [normal_collect_one hvoid ht]
        trivial
      · rw [normal_collect_of_ne hvoid fun t ht => hone ⟨t, ht⟩]
        simp only [beq_eq_false_iff_ne.2 hvoid, Bool.false_eq_true, if_false, bind_unit_eq_ok_iff,
          Form.expectParam_eq_ok_iff] at hcheck
        exact fun _ => hcheck.2.1
  | fold pos drop combiner =>
    simp only [check, bind_unit_eq_ok_iff] at hcheck
    obtain ⟨-, hcheck⟩ := hcheck
    split at hcheck
    · cases hs : base.signature <;>
        simp [hs, throw, throwThe, MonadExceptOf.throw] at hcheck
    · next hcond =>
      have hdrop : drop = (combiner.basicRet == .void) := by
        have := (not_or.1 hcond).1
        cases drop <;> simpa using this
      cases drop with
      | true =>
        simp only [Bool.not_true, Bool.false_eq_true, if_false,
          Form.expectParams_eq_ok_iff] at hcheck
        exact ⟨hdrop, by simp, hcheck⟩
      | false =>
        simp only [Bool.not_false, if_true, bind_unit_eq_ok_iff, Form.expectParam_eq_ok_iff,
          Form.expectParams_eq_ok_iff] at hcheck
        exact ⟨hdrop, fun _ => hcheck.1, hcheck.2⟩
  | permute skip reorder =>
    simp only [check, bind_unit_eq_ok_iff, require_eq_ok_iff] at hcheck
    exact hcheck.1
  | _ => trivial

/-- Edits with the same key derive the same form from a base that pins down what the key leaves
out. -/
theorem derive_eq_of_key {key : EditKey} (h : e.Pinned base) (h' : e'.Pinned base)
    (hkey : e.key = .ok key) (hkey' : e'.key = .ok key) :
    e.field? = e'.field? ∧ e.derive base = e'.derive base := by
  obtain ⟨hkind, hops⟩ := EditKey.of_inj hkey hkey'
  have hctor := Adapts.ctorIdx_eq_of_kind hkind
  cases e with
  | bind pos type =>
    cases e' with
    | bind pos' type' =>
      obtain rfl := List.singleton_inj.1 hops
      obtain rfl := Option.some.inj (h.symm.trans h')
      exact ⟨rfl, rfl⟩
    | _ => cases hctor
  | add pos type =>
    cases e' with
    | add pos' type' =>
      simp only [operands, List.cons.injEq, and_true] at hops
      obtain ⟨rfl, htype⟩ := hops
      obtain rfl := BasicType.ordinal_inj htype
      exact ⟨rfl, rfl⟩
    | _ => cases hctor
  | dup src dst =>
    cases e' with
    | dup src' dst' =>
      simp only [operands, List.cons.injEq, and_true] at hops
      obtain ⟨rfl, rfl⟩ := hops
      exact ⟨rfl, rfl⟩
    | _ => cases hctor
  | spread pos array count =>
    cases e' with
    | spread pos' array' count' =>
      simp only [operands, List.cons.injEq, and_true] at hops
      obtain ⟨rfl, helement, rfl⟩ := hops
      refine ⟨rfl, funext fun growth => funext fun id => ?_⟩
      rw [derive, Adapts.elementOperand_inj helement]
      rfl
    | _ => cases hctor
  | filter pos type =>
    cases e' with
    | filter pos' type' =>
      simp only [operands, List.cons.injEq, and_true] at hops
      obtain ⟨rfl, htype⟩ := hops
      obtain rfl := BasicType.ordinal_inj htype
      exact ⟨rfl, rfl⟩
    | _ => cases hctor
  | collect pos collector =>
    cases e' with
    | collect pos' collector' =>
      simp only [operands, List.cons.injEq] at hops
      obtain ⟨rfl, -, hparams⟩ := hops
      have hparams := List.map_injective_iff.2 (fun _ _ => BasicType.ordinal_inj) hparams
      have hret : collector.basicRet = collector'.basicRet := by
        have hkind : (if collector.basicRet = .void then EditKind.collectArgsToVoid
            else .collectArgs) = if collector'.basicRet = .void then .collectArgsToVoid
            else .collectArgs := hkind
        by_cases hvoid : collector.basicRet = .void <;>
          by_cases hvoid' : collector'.basicRet = .void
        · rw [hvoid, hvoid']
        · simp [hvoid, hvoid'] at hkind
        · simp [hvoid, hvoid'] at hkind
        · exact Option.some.inj ((h hvoid).symm.trans (h' hvoid'))
      refine ⟨rfl, funext fun growth => funext fun id => ?_⟩
      cases growth with
      | none => rfl
      | some g => rw [derive, derive, Adapts.basic_eq hparams hret, hret]
    | _ => cases hctor
  | filterReturn type =>
    cases e' with
    | filterReturn type' =>
      obtain rfl := BasicType.ordinal_inj (List.singleton_inj.1 hops)
      exact ⟨rfl, rfl⟩
    | _ => cases hctor
  | zeroReturn type =>
    cases e' with
    | zeroReturn type' =>
      obtain rfl := BasicType.ordinal_inj (List.singleton_inj.1 hops)
      exact ⟨rfl, rfl⟩
    | _ => cases hctor
  | fold pos drop combiner =>
    cases e' with
    | fold pos' drop' combiner' =>
      simp only [operands, List.cons.injEq, and_true] at hops
      obtain ⟨rfl, harity⟩ := hops
      have hkind : (if drop = true then EditKind.foldArgsToVoid else .foldArgs) =
          if drop' = true then .foldArgsToVoid else .foldArgs := hkind
      obtain rfl : drop = drop' := by cases drop <;> cases drop' <;> simp at hkind ⊢
      obtain ⟨hdrop, hret, hkept⟩ := h
      obtain ⟨hdrop', hret', hkept'⟩ := h'
      have hparams := (List.prefix_of_prefix_length_le hkept hkept'
        (by simp [harity])).eq_of_length (by simp [harity])
      have hbasic := Adapts.basic_eq hparams (Adapts.basicRet_eq hdrop hdrop' hret hret')
      refine ⟨rfl, funext fun growth => funext fun id => ?_⟩
      cases growth with
      | none => rfl
      | some g => rw [derive, derive, hbasic]
    | _ => cases hctor
  | permute skip reorder =>
    cases e' with
    | permute skip' reorder' =>
      obtain rfl := hops
      obtain rfl : skip = skip' := Eq.trans h (Eq.symm h')
      exact ⟨rfl, rfl⟩
    | _ => cases hctor

theorem check_eq_of_matches {base' : Form} (hbase : base.Matches base') (e : Edit) :
    e.check base = e.check base' := by
  rw [← check_plain, hbase, check_plain]

end Edit

/-! ## Deriving anew -/

namespace SpeciesTable

/-- Extensions of species with the same layout, by whichever tables, have the same layout. -/
theorem Sound.extended_plain {t t' : SpeciesTable} (h : t.Sound) (h' : t'.Sound) {s s' : Species}
    (hs : s.plain = s'.plain) (field : BasicType) :
    forget (fun r => r.1.plain) (t.extended s field) =
      forget (fun r => r.1.plain) (t'.extended s' field) := by
  have hfields : s.plain.fields = s'.plain.fields := by rw [hs]
  have hfields : s.fields = s'.fields := hfields
  unfold SpeciesTable.extended
  split
  · simp only [forget, Species.plain, h.fields_extend, h'.fields_extend, hfields]
  · simp only [forget, Species.key, hfields]

end SpeciesTable

namespace Context

variable {η η' : Type} {c : Context η} {c' : Context η'} {base base' f : Form} {e e' : Edit}
  {key : EditKey}

theorem growCarrier_plain (h : c.species.Sound) (h' : c'.species.Sound) (hbase : base.Matches base')
    (field : BasicType) :
    forget (fun r => r.1.plain) (c.growCarrier base field) =
      forget (fun r => r.1.plain) (c'.growCarrier base' field) := by
  have hcarrier : forget Species.plain base.carrier = forget Species.plain base'.carrier := by
    rw [← Edit.carrier_plain, ← Edit.carrier_plain, hbase]
  unfold growCarrier
  revert hcarrier
  cases base.carrier with
  | error v =>
    cases base'.carrier with
    | error v' => simp only [forget, error_bind, Except.error.injEq, imp_self]
    | ok old' => exact nofun
  | ok old =>
    cases base'.carrier with
    | error v' => exact nofun
    | ok old' =>
      intro hcarrier
      have hold : old.plain = old'.plain := Except.ok.inj hcarrier
      have hnew := h.extended_plain h' hold field
      revert hnew
      simp only [ok_bind]
      cases c.species.extended old field <;> cases c'.species.extended old' field <;>
        simp [forget, pure, Except.pure, CarrierGrowth.plain, hold]

/-- What is derived anew depends on the base and the edit alone, up to identities. -/
theorem deriveAnew_plain (h : c.species.Sound) (h' : c'.species.Sound) (hbase : base.Matches base')
    (e : Edit) : Edit.plainOutcome (c.deriveAnew base e).1 =
      Edit.plainOutcome (c'.deriveAnew base' e).1 := by
  unfold deriveAnew
  cases e.field? with
  | none =>
    show Edit.plainOutcome (e.derive base none _) = Edit.plainOutcome (e.derive base' none _)
    rw [Edit.plain_derive, Edit.plain_derive, hbase]
  | some field =>
    have hgrow := growCarrier_plain (show c.freshForm.2.species.Sound from h)
      (show c'.freshForm.2.species.Sound from h') hbase field
    revert hgrow
    simp only
    cases c.freshForm.2.growCarrier base field <;> cases c'.freshForm.2.growCarrier base' field
    · simp [forget, Edit.plainOutcome]
    · rintro ⟨⟩
    · rintro ⟨⟩
    · intro hgrow
      have hgrow := Except.ok.inj hgrow
      simp only at hgrow
      show Edit.plainOutcome (e.derive base (some _) _) = Edit.plainOutcome (e.derive base' (some _) _)
      rw [Edit.plain_derive, Edit.plain_derive, hbase, Option.map_some, Option.map_some, hgrow]

/-- Edits with the same key that are let through derive the same form. -/
theorem deriveAnew_eq_of_key (hcheck : e.check base = .ok ()) (hcheck' : e'.check base = .ok ())
    (hkey : e.normal.key = .ok key) (hkey' : e'.normal.key = .ok key) :
    c.deriveAnew base e.normal = c.deriveAnew base e'.normal := by
  obtain ⟨hfield, hderive⟩ := Edit.derive_eq_of_key (Edit.pinned_of_check hcheck)
    (Edit.pinned_of_check hcheck') hkey hkey'
  unfold deriveAnew
  rw [hfield, hderive]

/-! ## What the caches hold -/

/-- The form is what an edit with this key derives from the base, up to identities. -/
def Remembers (base : Form) (key : EditKey) (f : Form) : Prop :=
  ∃ e : Edit, e.check base = .ok () ∧ e.normal.key = .ok key ∧
    Edit.plainOutcome ((new {} : Context Empty).deriveAnew base e.normal).1 = .ok f.plain

/-- Every entry of every cache is what an edit with its key derives. -/
def Faithful (c : Context η) : Prop :=
  ∀ base key f, (key, f) ∈ (c.cacheOf base).entries → Remembers base key f

theorem Remembers.deriveAnew_eq (h : Remembers base key f) (hc : c.species.Sound)
    (hcheck : e.check base = .ok ()) (hkey : e.normal.key = .ok key) :
    Edit.plainOutcome (c.deriveAnew base e.normal).1 = .ok f.plain := by
  obtain ⟨e', hcheck', hkey', hderive⟩ := h
  rw [← hderive, deriveAnew_eq_of_key hcheck hcheck' hkey hkey']
  exact deriveAnew_plain hc SpeciesTable.sound_empty rfl _

theorem remembers_of_deriveAnew (hc : c.species.Sound) (hcheck : e.check base = .ok ())
    (hkey : e.normal.key = .ok key) (hderive : (c.deriveAnew base e.normal).1 = .ok f) :
    Remembers base key f := by
  refine ⟨e, hcheck, hkey, ?_⟩
  rw [deriveAnew_plain SpeciesTable.sound_empty hc rfl e.normal, hderive]
  rfl

/-- The form was derived once, in some context, by an edit with this key. -/
def Derived (η : Type) (base : Form) (key : EditKey) (f : Form) : Prop :=
  ∃ (d : Context η) (e : Edit), d.species.Sound ∧ e.check base = .ok () ∧ e.normal.key = .ok key ∧
    (d.deriveAnew base e.normal).1 = .ok f

/-- Every entry of every cache was derived once. -/
def HoldsDerived (c : Context η) : Prop :=
  ∀ base key f, (key, f) ∈ (c.cacheOf base).entries → Derived η base key f

/-- What was derived once is what any edit with the key derives, identities included. -/
theorem Derived.exists_deriveAnew (h : Derived η base key f) (hcheck : e.check base = .ok ())
    (hkey : e.normal.key = .ok key) :
    ∃ d : Context η, d.species.Sound ∧ (d.deriveAnew base e.normal).1 = .ok f := by
  obtain ⟨d, e', hd, hcheck', hkey', hderive⟩ := h
  exact ⟨d, hd, deriveAnew_eq_of_key hcheck hcheck' hkey hkey' ▸ hderive⟩

theorem Derived.remembers (h : Derived η base key f) : Remembers base key f := by
  obtain ⟨d, e, hd, hcheck, hkey, hderive⟩ := h
  exact remembers_of_deriveAnew hd hcheck hkey hderive

theorem holdsDerived_new (config : CacheConfig) : (new config : Context η).HoldsDerived :=
  fun _ _ _ h => absurd h (by simp [new, cacheOf, EditCache.entries])

/-- Only the caches of derived forms matter. -/
theorem HoldsDerived.of_eq {d : Context η} (h : c.HoldsDerived) (hcaches : d.caches = c.caches) :
    d.HoldsDerived :=
  fun base key f hf => h base key f (by simpa only [cacheOf, hcaches] using hf)

theorem caches_lookupDerived (c : Context η) (live : Live η) (base : Form) (key : EditKey) :
    (c.lookupDerived live base key).2.caches = c.caches := by
  unfold lookupDerived
  split <;> rfl

theorem species_lookupDerived (c : Context η) (live : Live η) (base : Form) (key : EditKey) :
    (c.lookupDerived live base key).2.species = c.species := by
  unfold lookupDerived
  split <;> rfl

theorem caches_growCarrier {field : BasicType} {g : CarrierGrowth} {d : Context η}
    (hgrow : c.growCarrier base field = .ok (g, d)) : d.caches = c.caches := by
  unfold growCarrier at hgrow
  obtain ⟨old, -, hgrow⟩ := bind_eq_ok_iff.1 hgrow
  obtain ⟨new, -, hgrow⟩ := bind_eq_ok_iff.1 hgrow
  obtain ⟨-, rfl⟩ := Prod.mk.inj (Except.ok.inj hgrow)
  rfl

theorem caches_deriveAnew (c : Context η) (base : Form) (e : Edit) :
    (c.deriveAnew base e).2.caches = c.caches := by
  unfold deriveAnew
  cases e.field? with
  | none => rfl
  | some field =>
    simp only
    split
    · rfl
    · next heq => exact caches_growCarrier (c := c.freshForm.2) heq

theorem HoldsDerived.publishDerived (h : c.HoldsDerived) (live : Live η)
    (hf : Derived η base key f) :
    (c.publishDerived live base key f).2.HoldsDerived ∧
      Derived η base key (c.publishDerived live base key f).1 := by
  constructor
  · intro b k g hg
    have hmem : (k, g) ∈ ((c.setCache base
        ((c.cacheOf base).put live.form c.config.arraySize key f).2).cacheOf b).entries := hg
    rw [cacheOf_setCache] at hmem
    split at hmem
    · next hb =>
      subst hb
      rcases EditCache.mem_put hmem with heq | hold
      · obtain ⟨rfl, rfl⟩ := Prod.mk.inj heq
        exact hf
      · exact h _ _ _ hold
    · exact h _ _ _ hmem
  · rcases EditCache.put_fst (c.cacheOf base) with hput | hput
    · exact (congrArg (Derived η base key) hput).mpr hf
    · exact h _ _ _ hput

/-- What an edit answers and leaves behind: it stops before anything is derived, or it answers what
is derived anew in some context, and the caches hold no more than that. -/
theorem edit_spec (hc : c.Sound) (h : c.HoldsDerived) (live : Live η) (base : Form) (e : Edit) :
    (c.edit live base e).2.HoldsDerived ∧
      match e.check base with
      | .error stop => (c.edit live base e).1 = .error stop
      | .ok () =>
        if e.isTrivial then (c.edit live base e).1 = .ok base
        else match e.normal.key with
          | .error v => (c.edit live base e).1 = .error (.violation v)
          | .ok _ => ∃ d : Context η, d.species.Sound ∧
              (c.edit live base e).1 = (d.deriveAnew base e.normal).1 := by
  unfold Context.edit
  cases hcheck : e.check base with
  | error stop => exact ⟨h, rfl⟩
  | ok u =>
    by_cases htrivial : e.isTrivial = true
    · simp only [htrivial, if_true]
      exact ⟨h, trivial⟩
    simp only [htrivial, if_false, Bool.false_eq_true]
    cases hkey : e.normal.key with
    | error v => exact ⟨h, rfl⟩
    | ok key =>
      have hspecies := c.species_lookupDerived live base key
      have hlookup := h.of_eq (c.caches_lookupDerived live base key)
      simp only
      split
      · next f c' heq =>
        rw [heq] at hlookup
        have hmem := lookupDerived_some (congrArg Prod.fst heq)
        obtain ⟨d, hd, hderive⟩ := (h _ _ _ hmem).exists_deriveAnew hcheck hkey
        exact ⟨hlookup, d, hd, hderive.symm⟩
      next c' heq =>
      rw [heq] at hlookup hspecies
      have hsound : c'.species.Sound := hspecies ▸ hc.species
      have hcaches := hlookup.of_eq (c'.caches_deriveAnew base e.normal)
      split
      · next stop c'' heq' =>
        rw [heq'] at hcaches
        exact ⟨hcaches, c', hsound, (congrArg Prod.fst heq').symm⟩
      next f c'' heq' =>
      have hf : Derived η base key f := ⟨c', e, hsound, hcheck, hkey, congrArg Prod.fst heq'⟩
      rw [heq'] at hcaches
      obtain ⟨hholds, hpublished⟩ := hcaches.publishDerived live hf
      obtain ⟨d, hd, hderive⟩ := hpublished.exists_deriveAnew hcheck hkey
      exact ⟨hholds, d, hd, hderive.symm⟩

variable [Identified η] [Identified η']

theorem Reachable.holdsDerived (h : c.Reachable) : c.HoldsDerived := by
  induction h with
  | new config => exact holdsDerived_new config
  | freshForm _ ih | internSpecies _ _ ih | retainForm _ _ ih | retainHandle _ _ ih | release _ ih
  | typeForm _ _ ih => exact ih.of_eq rfl
  | edit hc live base e ih => exact (edit_spec hc.sound ih live base e).1
  | cachedForm _ live t p ih =>
    unfold Context.cachedForm
    split <;> exact ih.of_eq rfl
  | setCachedForm _ live t p f ih =>
    unfold Context.setCachedForm
    split <;> exact ih.of_eq rfl
  | cachedHandle _ live select t p ih =>
    unfold Context.cachedHandle
    split <;> exact ih.of_eq rfl
  | setCachedHandle _ live select wrap t p k ih =>
    unfold Context.setCachedHandle
    split
    · split <;> exact ih.of_eq rfl
    · exact ih.of_eq rfl

theorem Reachable.faithful (h : c.Reachable) : c.Faithful :=
  fun base key f hf => (h.holdsDerived base key f hf).remembers

/-- An edit that is let through, changes something and has a key answers what is derived anew in some
context. -/
theorem Reachable.edit_eq_deriveAnew (h : c.Reachable) (live : Live η)
    (hcheck : e.check base = .ok ()) (htrivial : e.isTrivial = false)
    (hkey : e.normal.key = .ok key) :
    ∃ d : Context η, d.species.Sound ∧
      (c.edit live base e).1 = (d.deriveAnew base e.normal).1 := by
  have hspec := (edit_spec h.sound h.holdsDerived live base e).2
  simpa only [hcheck, htrivial, hkey, Bool.false_eq_true, if_false] using hspec

omit [Identified η] [Identified η'] in
/-- Edits of matching bases have matching outcomes, whatever the contexts remember and whatever is
alive. -/
theorem edit_alike (hc : c.Sound) (h : c.HoldsDerived) (hc' : c'.Sound) (h' : c'.HoldsDerived)
    (live : Live η) (live' : Live η') (hbase : base.Matches base') (e : Edit) :
    Edit.plainOutcome (c.edit live base e).1 = Edit.plainOutcome (c'.edit live' base' e).1 := by
  have hspec := (edit_spec hc h live base e).2
  have hspec' := (edit_spec hc' h' live' base' e).2
  rw [← Edit.check_eq_of_matches hbase] at hspec'
  revert hspec hspec'
  cases e.check base with
  | error stop =>
    intro hspec hspec'
    rw [hspec, hspec']
  | ok u =>
    by_cases htrivial : e.isTrivial = true
    · simp only [htrivial, if_true]
      intro hspec hspec'
      rw [hspec, hspec']
      exact congrArg Except.ok hbase
    simp only [htrivial, if_false, Bool.false_eq_true]
    cases e.normal.key with
    | error v =>
      intro hspec hspec'
      rw [hspec, hspec']
    | ok key =>
      rintro ⟨d, hd, hspec⟩ ⟨d', hd', hspec'⟩
      rw [hspec, hspec']
      exact deriveAnew_plain hd hd' hbase _

/-- So have edits in contexts that clients bring about. -/
theorem edit_plain (h : c.Reachable) (h' : c'.Reachable) (live : Live η) (live' : Live η')
    (hbase : base.Matches base') (e : Edit) :
    Edit.plainOutcome (c.edit live base e).1 = Edit.plainOutcome (c'.edit live' base' e).1 :=
  edit_alike h.sound h.holdsDerived h'.sound h'.holdsDerived live live' hbase e

end Context

/-! ## Clients -/

namespace Client

variable {ν η ν' η' : Type}

/-- A step of a client that derives forms. -/
inductive Step where
  /-- Edits the form that is held under `source` and holds what comes out under `target`. -/
  | edit (source target : String) (e : Edit)
  /-- Lets go of a form. -/
  | drop (name : String)
  /-- Makes the context let go of what it retains. -/
  | release

section

variable [Identified η]

/-- Holds what came out of an edit, if anything did. -/
def settle (c : Client ν η) (target : String) : Except (Stop FormError) Form → Client ν η
  | .ok f => c.holdForm target f
  | .error _ => c

/-- Takes a step. An edit has an outcome when its source is held. -/
def step (c : Client ν η) : Step → Option (Except (Stop FormError) Form) × Client ν η
  | .edit source target e =>
    match c.forms.find? source with
    | none => (none, c)
    | some base =>
      let (outcome, c) := c.inContext fun live context => context.edit live base e
      (some outcome, c.settle target outcome)
  | .drop name => (none, (c.dropForm name).2)
  | .release => (none, { c with context := c.context.release })

/-- Takes steps one after the other. Answers the outcomes. -/
def run (c : Client ν η) : List Step → List (Option (Except (Stop FormError) Form))
  | [] => []
  | s :: steps => (c.step s).1 :: (c.step s).2.run steps

end

/-- What the client holds, identities forgotten. -/
def plainForms (c : Client ν η) : Holdings String Form :=
  ⟨c.forms.entries.map fun e => { e with value := e.value.plain }⟩

theorem find?_plainForms (c : Client ν η) (name : String) :
    c.plainForms.find? name = (c.forms.find? name).map Form.plain := by
  simp [plainForms, Holdings.find?, List.find?_map, Function.comp_def]

theorem plainForms_holdForm (c : Client ν η) (name : String) (f : Form) :
    (c.holdForm name f).plainForms = c.plainForms.hold name f.plain := rfl

theorem plainForms_dropForm (c : Client ν η) (name : String) :
    (c.dropForm name).2.plainForms = c.plainForms.drop name := by
  simp [plainForms, dropForm, Holdings.drop, Function.comp_def]

variable {c : Client ν η} {c' : Client ν' η'}

theorem context_settle (c : Client ν η) (target : String)
    (outcome : Except (Stop FormError) Form) : (c.settle target outcome).context = c.context := by
  cases outcome <;> rfl

/-- What is held after matching outcomes matches. -/
theorem plainForms_settle {target : String} {outcome outcome' : Except (Stop FormError) Form}
    (hforms : c.plainForms = c'.plainForms)
    (houtcome : Edit.plainOutcome outcome = Edit.plainOutcome outcome') :
    (c.settle target outcome).plainForms = (c'.settle target outcome').plainForms := by
  match outcome, outcome' with
  | .ok f, .ok f' =>
    show (c.holdForm target f).plainForms = (c'.holdForm target f').plainForms
    rw [plainForms_holdForm, plainForms_holdForm, Except.ok.inj houtcome, hforms]
  | .error _, .error _ => exact hforms
  | .ok _, .error (.error _) | .ok _, .error (.violation _)
  | .error (.error _), .ok _ | .error (.violation _), .ok _ => cases houtcome

variable [Identified η] [Identified η']

theorem reachable_step (h : c.context.Reachable) (s : Step) : (c.step s).2.context.Reachable := by
  cases s with
  | edit source target e =>
    cases hfind : c.forms.find? source with
    | none =>
      simp only [step, hfind]
      exact h
    | some base =>
      simp only [step, hfind, context_settle]
      exact h.edit c.live base e
  | drop name => exact h
  | release => exact h.release

/-- One step of two clients that hold matching forms. -/
theorem step_plain (h : c.context.Reachable) (h' : c'.context.Reachable)
    (hforms : c.plainForms = c'.plainForms) (s : Step) :
    (c.step s).1.map Edit.plainOutcome = (c'.step s).1.map Edit.plainOutcome ∧
      (c.step s).2.plainForms = (c'.step s).2.plainForms := by
  cases s with
  | edit source target e =>
    have hmatches : (c.forms.find? source).map Form.plain =
        (c'.forms.find? source).map Form.plain := by
      rw [← find?_plainForms, ← find?_plainForms, hforms]
    cases hfind : c.forms.find? source <;> cases hfind' : c'.forms.find? source <;>
      rw [hfind, hfind'] at hmatches
    · simp only [step, hfind, hfind']
      exact ⟨trivial, hforms⟩
    · cases hmatches
    · cases hmatches
    · next base base' =>
      have hedit := Context.edit_plain h h' c.live c'.live (Option.some.inj hmatches) e
      simp only [step, hfind, hfind']
      exact ⟨congrArg some hedit, plainForms_settle hforms hedit⟩
  | drop name =>
    refine ⟨rfl, ?_⟩
    show (c.dropForm name).2.plainForms = (c'.dropForm name).2.plainForms
    rw [plainForms_dropForm, plainForms_dropForm, hforms]
  | release => exact ⟨rfl, hforms⟩

/-- Two clients that start from matching forms and take the same steps get the same outcomes. -/
theorem run_plain (h : c.context.Reachable) (h' : c'.context.Reachable)
    (hforms : c.plainForms = c'.plainForms) (steps : List Step) :
    (c.run steps).map (Option.map Edit.plainOutcome) =
      (c'.run steps).map (Option.map Edit.plainOutcome) := by
  induction steps generalizing c c' with
  | nil => rfl
  | cons s steps ih =>
    obtain ⟨houtcome, hnext⟩ := step_plain h h' hforms s
    rw [run, run, List.map_cons, List.map_cons, houtcome,
      ih (reachable_step h s) (reachable_step h' s) hnext]

/-- Caches do not show. Two clients that start from matching forms and take the same steps get the
same outcomes, whatever the sizes of the caches and whatever is in them. What is found in a cache is
what another context derives anew, and edits with the same key that are let through derive the same
form. -/
theorem run_transparent (h : c.context.Reachable) (h' : c'.context.Reachable)
    (hforms : c.plainForms = c'.plainForms) :
    (∀ steps, (c.run steps).map (Option.map Edit.plainOutcome) =
      (c'.run steps).map (Option.map Edit.plainOutcome)) ∧
    (∀ (live : Live η) (base f : Form) (e : Edit) (key : EditKey), e.check base = .ok () →
      e.normal.key = .ok key → (c.context.lookupDerived live base key).1 = some f →
        ∃ f', (c'.context.deriveAnew base e.normal).1 = .ok f' ∧ f.Matches f') ∧
    ∀ (base : Form) (e e' : Edit) (key : EditKey), e.check base = .ok () → e'.check base = .ok () →
      e.normal.key = .ok key → e'.normal.key = .ok key →
        Edit.plainOutcome (c.context.deriveAnew base e.normal).1 =
          Edit.plainOutcome (c'.context.deriveAnew base e'.normal).1 := by
  refine ⟨run_plain h h' hforms, fun live base f e key hcheck hkey hfound => ?_,
    fun base e e' key hcheck hcheck' hkey hkey' => ?_⟩
  · have hremembers := h.faithful _ _ _ (Context.lookupDerived_some hfound)
    have hderive := hremembers.deriveAnew_eq h'.sound.species hcheck hkey
    revert hderive
    cases (c'.context.deriveAnew base e.normal).1 with
    | error stop => cases stop <;> exact nofun
    | ok f' => exact fun hderive => ⟨f', rfl, (Except.ok.inj hderive).symm⟩
  · rw [Context.deriveAnew_eq_of_key hcheck hcheck' hkey hkey']
    exact Context.deriveAnew_plain h.sound.species h'.sound.species rfl _

/-- A client whose context retains nothing gets what a client gets whose context has derived the
form of the first edit before. -/
theorem run_transparent_retention : ∃ c c' : Client Unit Empty, ∃ f : Form,
    c.context.config.formRetention = 0 ∧ c'.context.stats.published = 1 ∧
      c.run [.edit "f" "g" (.add 1 .int)] = [some (.ok f)] ∧
      ∀ steps, (c.run steps).map (Option.map Edit.plainOutcome) =
        (c'.run steps).map (Option.map Edit.plainOutcome) := by
  have hedit (live : Live Empty) : ((Context.new { formRetention := 0 } : Context Empty).edit live
      ⟨0, 1, [.param .ref], none, .generic⟩ (.add 1 .int)).1 =
        .ok ⟨0, 2, [.param .ref, .param .int], none, .generic⟩ := rfl
  have hcold : (Context.new { formRetention := 0 } : Context Empty).Reachable := .new _
  obtain ⟨warm, hwarm, hpublished⟩ : ∃ warm : Context Empty,
      warm.Reachable ∧ warm.stats.published = 1 := by
    refine ⟨((Context.new {}).edit ⟨fun _ => true, fun h => h.elim⟩ ⟨0, 1, [.param .ref], none, .generic⟩
      (.add 1 .int)).2, ?_, ?_⟩
    · exact .edit (.new {}) _ _ _
    · decide +kernel
  generalize hnew : (Context.new { formRetention := 0 } : Context Empty) = cold at hedit hcold
  let forms : Holdings String Form := ⟨[⟨"f", ⟨0, 1, [.param .ref], none, .generic⟩, true⟩]⟩
  let client (context : Context Empty) : Client Unit Empty := { context, forms }
  refine ⟨client cold, client warm, ⟨0, 2, [.param .ref, .param .int], none, .generic⟩,
    by rw [← hnew]; rfl, hpublished, ?_, ?_⟩
  · exact congrArg (fun outcome => [some outcome]) (hedit (client cold).live)
  · have hcold' : (client cold).context.Reachable := hcold
    have hwarm' : (client warm).context.Reachable := hwarm
    exact (run_transparent hcold' hwarm' rfl).1

end Client

end HandleForms
