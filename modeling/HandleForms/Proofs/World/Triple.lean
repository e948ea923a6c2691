import HandleForms.Proofs.World.Script
import HandleForms.Proofs.World.Sound

/-!
# Computations in sound worlds

`Act.Triple owned x Q` says that from a sound world `x` leads to a sound world, whether it answers or
stops, that it changes nothing but what is shared, that it keeps the slots of the type forms `owned`
with them, and that its answer is `Q`. There is one rule for each way to compose computations and one
specification for each operation on what a world shares.
-/

namespace HandleForms

variable {σ α β : Type}

/-- Nothing differs but what is shared: the context, the invokers and the next identity. -/
def World.OnlyShares (w w' : World σ) : Prop :=
  w' = { w with context := w'.context, invokers := w'.invokers, nextId := w'.nextId }

namespace World.OnlyShares

variable {w w' w'' : World σ}

theorem refl (w : World σ) : w.OnlyShares w := rfl

theorem trans (h : w.OnlyShares w') (h' : w'.OnlyShares w'') : w.OnlyShares w'' := by
  rw [OnlyShares, h', h]

end World.OnlyShares

namespace Act

/-- The computation keeps the world sound, changes nothing but what is shared, and its answer is
`Q`. -/
def Triple (owned : List TypeForm) (x : Act σ α) (Q : α → Prop) : Prop :=
  ∀ w : World σ, w.Sound → (∀ t ∈ owned, w.context.types.Owned t) →
    ((x w).2.Sound ∧ w.OnlyShares (x w).2) ∧ (∀ t ∈ owned, (x w).2.context.types.Owned t) ∧
      ∀ a, (x w).1 = .ok a → Q a

namespace Triple

variable {owned : List TypeForm} {Q : α → Prop} {R : β → Prop} {x : Act σ α} {k : α → Act σ β}

theorem imp {Q' : α → Prop} (h : Triple owned x Q) (himp : ∀ a, Q a → Q' a) : Triple owned x Q' :=
  fun w hw howned => (h w hw howned).imp_right (.imp_right fun hQ a ha => himp a (hQ a ha))

theorem pure {a : α} (h : Q a) : Triple owned (Pure.pure a : Act σ α) Q :=
  fun w hw howned => ⟨⟨hw, .refl w⟩, howned, fun _ ha => Except.ok.inj ha ▸ h⟩

theorem throw (stop : Stop RuntimeError) : Triple owned (MonadExcept.throw stop : Act σ α) Q :=
  fun w hw howned => ⟨⟨hw, .refl w⟩, howned, nofun⟩

theorem bind (hx : Triple owned x Q) (hk : ∀ a, Q a → Triple owned (k a) R) :
    Triple owned (x >>= k) R := by
  intro w hw howned
  obtain ⟨⟨hsound, hshares⟩, howned', hQ⟩ := hx w hw howned
  rw [bind_apply]
  cases hr : (x w).1 with
  | error stop => exact ⟨⟨hsound, hshares⟩, howned', nofun⟩
  | ok a => exact (hk a (hQ a hr) _ hsound howned').imp_left (.imp_right hshares.trans)

/-- A look at the world. -/
theorem look {k : World σ → Act σ β} (hk : ∀ w : World σ, w.Sound → Triple owned (k w) R) :
    Triple owned (get >>= k) R :=
  fun w hw howned => hk w hw w hw howned

theorem ofStop (r : Except (Stop RuntimeError) α) :
    Triple (σ := σ) owned (Act.ofStop r) fun a => r = .ok a := by
  cases r with
  | ok a => exact pure rfl
  | error stop => exact throw stop

theorem ofViolation (r : Except Violation α) :
    Triple (σ := σ) owned (Act.ofViolation r) fun a => r = .ok a :=
  (ofStop _).imp fun a ha => by
    cases r with
    | ok a' => exact congrArg _ (Except.ok.inj ha)
    | error v => cases ha

theorem ofError (r : Except RuntimeError α) :
    Triple (σ := σ) owned (Act.ofError r) fun a => r = .ok a :=
  (ofStop _).imp fun a ha => by
    cases r with
    | ok a' => exact congrArg _ (Except.ok.inj ha)
    | error v => cases ha

theorem ofSignature (r : Except SignatureError α) :
    Triple (σ := σ) owned (Act.ofSignature r) fun a => r = .ok a :=
  (ofError _).imp fun a ha => by
    cases r with
    | ok a' => exact congrArg _ (Except.ok.inj ha)
    | error v => cases ha

/-- A check that stops in front of a computation. -/
theorem guarded {p : Prop} {_ : Decidable p} {y : Act σ PUnit} {k : PUnit → Act σ β}
    (hy : p → Triple owned y fun _ => False) (hk : ¬ p → Triple owned (k ⟨⟩) R) :
    Triple owned (if p then y >>= k else k ⟨⟩) R := by
  split
  · next h => exact (hy h).bind fun _ hfalse => hfalse.elim
  · next h => exact hk h

/-- A computation in the context that keeps it sound. -/
theorem context {f : Live Kept → Context Kept → α × Context Kept}
    (h : ∀ live c, c.Sound → c.types.Sound → (∀ t ∈ owned, c.types.Owned t) →
      (f live c).2.Sound ∧ (f live c).2.types.Sound ∧ (∀ t ∈ owned, (f live c).2.types.Owned t) ∧
        Q (f live c).1) :
    Triple (σ := σ) owned (Act.context f) Q := by
  intro w hw howned
  obtain ⟨hcontext, htypes, howned', hQ⟩ := h w.live w.context hw.context hw.types howned
  exact ⟨⟨⟨hcontext, htypes, hw.swapped, hw.invokers⟩, rfl⟩, howned',
    fun a ha => Except.ok.inj ha ▸ hQ⟩

/-- A computation in the context that leaves the type forms alone. -/
theorem contextSame {f : Live Kept → Context Kept → α × Context Kept}
    (h : ∀ live c, c.Sound → (f live c).2.Sound ∧ Q (f live c).1)
    (htypes : ∀ live c, (f live c).2.types = c.types) :
    Triple (σ := σ) owned (Act.context f) Q :=
  context fun live c hc ht howned => by
    rw [htypes]
    exact ⟨(h live c hc).1, ht, howned, (h live c hc).2⟩

end Triple

/-! ## What a world shares -/

variable {owned : List TypeForm}

theorem triple_freshId : Triple (σ := σ) owned freshId fun _ => True :=
  fun _ hw howned => ⟨⟨hw.of_eq rfl rfl rfl, rfl⟩, howned, fun _ _ => trivial⟩

theorem triple_newHandle (type : Signature) (form : Form) (data : HandleData Value) :
    Triple (σ := σ) owned (newHandle type form data) fun h =>
      h.type = type ∧ h.form = form ∧ h.data = data :=
  triple_freshId.bind fun _ _ => .pure ⟨rfl, rfl, rfl⟩

theorem triple_newForm (build : Nat → Except Violation Form) :
    Triple (σ := σ) owned (newForm build) fun f => ∃ id, build id = .ok f :=
  (Triple.contextSame (Q := fun _ => True) (fun _ _ hc => ⟨hc.freshForm, trivial⟩)
    fun _ _ => rfl).bind fun id _ => (Triple.ofViolation _).imp fun _ hf => ⟨id, hf⟩

theorem triple_species (fields : List BasicType) :
    Triple (σ := σ) owned (species fields) fun s => s.fields = fields :=
  .contextSame (fun _ _ hc => ⟨hc.internSpecies fields, SpeciesTable.fields_intern _ _⟩)
    fun _ _ => rfl

/-- The type form of a signature owns its slots from then on. -/
theorem typeForm_bind {w : World σ} (hw : w.Sound) (howned : ∀ t ∈ owned, w.context.types.Owned t)
    (s : Signature) (k : TypeForm → Act σ α) : ∃ t w', t.basic = s.basic ∧ w'.Sound ∧
      w.OnlyShares w' ∧ (∀ u ∈ t :: owned, w'.context.types.Owned u) ∧
        (typeForm s >>= k) w = k t w' := by
  obtain ⟨hsound, hself, hbasic⟩ := hw.types.find s
  have hprefix : w.context.types.interned <+: (w.context.types.find s).2.interned :=
    TypeForms.isPrefix_find _ _
  exact ⟨_, { w with context := { w.context with types := (w.context.types.find s).2 } }, hbasic,
    ⟨hw.context.of_eq rfl rfl, hsound, hw.swapped, hw.invokers⟩, rfl,
    List.forall_mem_cons.2 ⟨hself, fun t ht => (howned t ht).mono hprefix⟩, rfl⟩

theorem triple_typeForm {s : Signature} {k : TypeForm → Act σ α} {Q : α → Prop}
    (hk : ∀ t, t.basic = s.basic → Triple (t :: owned) (k t) Q) :
    Triple owned (typeForm s >>= k) Q := by
  intro w hw howned
  obtain ⟨t, w', hbasic, hw', hfound, howned', heq⟩ := typeForm_bind hw howned s k
  obtain ⟨⟨hsound, hshares⟩, howned'', hQ⟩ := hk t hbasic w' hw' howned'
  rw [heq]
  exact ⟨⟨hsound, hfound.trans hshares⟩, fun u hu => howned'' u (List.mem_cons_of_mem _ hu), hQ⟩

/-- The form that is found in a slot. -/
theorem triple_cachedForm {t : TypeForm} (ht : t ∈ owned) (p : FormPurpose) :
    Triple (σ := σ) owned (Act.context fun live c => c.cachedForm live t p)
      fun f? => ∀ f, f? = some f → f.Links t.basic p := by
  refine .context fun live c hc hr howned => ?_
  unfold Context.cachedForm
  split
  · next f hf =>
    obtain ⟨hfound, -⟩ := Option.filter_eq_some_iff.1 hf
    exact ⟨hc.of_eq rfl rfl, hr, howned, fun f' hf' =>
      Option.some.inj hf' ▸ hr.links_form? (howned t ht) hfound⟩
  · exact ⟨hc, hr, howned, nofun⟩

/-- The form in a slot, found or built. -/
theorem triple_sharedForm {t : TypeForm} (ht : t ∈ owned) {p : FormPurpose} {build : Act σ Form}
    (hbuild : Triple owned build fun f => f.Links t.basic p) :
    Triple owned (sharedForm t p build) fun f => f.Links t.basic p := by
  refine (triple_cachedForm ht p).bind fun f? hf? => ?_
  cases f? with
  | some f => exact .pure (hf? f rfl)
  | none =>
    refine hbuild.bind fun f hf => .context fun live c hc hr howned => ?_
    unfold Context.setCachedForm
    split
    · next found hfound =>
      obtain ⟨hfound, -⟩ := Option.filter_eq_some_iff.1 hfound
      exact ⟨hc, hr, howned, hr.links_form? (howned t ht) hfound⟩
    · exact ⟨hc.of_eq rfl rfl, hr.setForm (howned t ht) hf, howned, hf⟩

/-- The handle in a slot. -/
theorem triple_sharedHandle? {t : TypeForm} (ht : t ∈ owned) (p : HandlePurpose) :
    Triple (σ := σ) owned (sharedHandle? t p) fun h? => ∀ h, h? = some h → h.Links t.basic p := by
  refine .context fun live c hc hr howned => ?_
  unfold Context.cachedHandle
  split
  · next k hk =>
    obtain ⟨hfound, -⟩ := Option.filter_eq_some_iff.1 hk
    obtain ⟨g, rfl, hlinks⟩ := hr.links_handle? (howned t ht) hfound
    exact ⟨hc.of_eq rfl rfl, hr, howned, fun h hh => Option.some.inj hh ▸ hlinks⟩
  · exact ⟨hc, hr, howned, nofun⟩

/-- No slot holds anything but a handle of its purpose, so there is never a conflict. -/
theorem triple_setCachedHandle {t : TypeForm} (ht : t ∈ owned) {p : HandlePurpose} {h : Handle}
    (hh : h.Links t.basic p) :
    Triple (σ := σ) owned
      (Act.context fun live c => c.setCachedHandle live Kept.handle? .handle t p h)
      fun r => ∃ g, r = .ok g ∧ g.Links t.basic p := by
  refine .context fun live c hc hr howned => ?_
  unfold Context.setCachedHandle
  split
  · next k hk =>
    obtain ⟨hfound, -⟩ := Option.filter_eq_some_iff.1 hk
    obtain ⟨g, rfl, hlinks⟩ := hr.links_handle? (howned t ht) hfound
    exact ⟨hc, hr, howned, g, rfl, hlinks⟩
  · exact ⟨hc.of_eq rfl rfl, hr.setHandle (howned t ht) hh, howned, h, rfl, hh⟩

theorem triple_shareHandle {t : TypeForm} (ht : t ∈ owned) {p : HandlePurpose} {h : Handle}
    (hh : h.Links t.basic p) :
    Triple (σ := σ) owned (shareHandle t p h) fun h => h.Links t.basic p := by
  refine (triple_setCachedHandle ht hh).bind fun r hr => ?_
  obtain ⟨g, rfl, hg⟩ := hr
  exact .pure hg

/-- What an edit of a form answers. Whatever is edited, the world remains sound. -/
theorem triple_edit (base : Form) (e : Edit) :
    Triple (σ := σ) owned (edit base e) fun f => base.Editable → e.Answers base f := by
  refine Triple.bind (Q := fun r => ∀ f, r = .ok f → base.Editable → e.Answers base f)
    (.contextSame (fun live c hc => ⟨hc.edit live base e, fun f hf hbase =>
      hc.answers live hbase hf⟩) fun _ _ => Context.types_edit ..)
    fun r hr => (Triple.ofStop _).imp fun f hf => ?_
  cases r with
  | ok f' => exact hr f (congrArg _ (Except.ok.inj hf))
  | error stop => cases hf

end Act

end HandleForms
