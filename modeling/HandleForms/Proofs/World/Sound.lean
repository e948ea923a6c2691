import HandleForms.Invoke
import HandleForms.Proofs.Edit.Members
import HandleForms.Proofs.TypeForm.Registry

/-!
# Sound worlds

What a world shares is what it is shared as: the slot of a type form holds the form of its purpose
for the basic type, the form that a direct handle got later is the direct form of its type without a
barrier, and what the caches hold under a key is what an edit with this key derives. In a sound world
the form that a handle has now fits the handle whenever the one that it was made with does
(`World.Sound.fits_currentForm`).
-/

namespace HandleForms

/-! ## What handles need of their forms -/

/-- A form that a handle can have: it takes the handle and its arguments, reads from the handle what
the handle holds, and reaches no member unless the handle is a direct one. -/
structure HandleOf.Fits (h : Handle) (f : Form) : Prop where
  serves : f.Serves h.type
  /-- There is one value for each field. -/
  bound : ∀ s values, h.data = .bound s values →
    f.Carrier s.fields ∧ values.map Value.basicType = s.fields
  direct : ∀ id m, h.data = .direct id m →
    ∃ barrier form, Form.direct h.type.basic m.kind (barrier && m.kind.needsClass) form = .ok f
  simple : h.data = .simple → f.Overlooks
  plain : h.member? = none → f.ReachesNoMember

/-- A handle over a form that it can have. -/
def HandleOf.Proper (h : Handle) : Prop := h.Fits h.form

/-- A handle that calls its first argument, checked against the type that it holds. -/
structure HandleOf.Checks (h : Handle) (generic : Bool) (type : Signature) : Prop where
  invoker : type.invoker = .ok h.type
  form : ∃ s id, s.fields = [.ref] ∧ Form.invoker generic s type.basic id = .ok h.form
  data : ∃ s, s.fields = [.ref] ∧ h.data = .bound s [.signature type]

/-! ## Slots of type forms -/

/-- What the slot of a purpose holds for a basic type. -/
def Form.Links (basic : Signature) (f : Form) : FormPurpose → Prop
  | .invokeVirtual => ∃ id, direct basic .virtual false id = .ok f
  | .invokeStatic => ∃ id, direct basic .static false id = .ok f
  | .invokeSpecial => ∃ id, direct basic .special false id = .ok f
  | .newInvokeSpecial => ∃ id, direct basic .newSpecial false id = .ok f
  | .invokeInterface => ∃ id, direct basic .interface false id = .ok f
  | .invokeStaticInit => ∃ id, direct basic .static true id = .ok f
  | .newInvokeSpecialInit => ∃ id, direct basic .newSpecial true id = .ok f
  | .exactLinker => ∃ id, linker false basic id = .ok f
  | .exactInvoker => ∃ s id, s.fields = [.ref] ∧ invoker false s basic id = .ok f
  | .genericLinker => ∃ id, linker true basic id = .ok f
  | .genericInvoker => ∃ s id, s.fields = [.ref] ∧ invoker true s basic id = .ok f
  | .basicInvoker => ∃ id, basicInvoker basic id = .ok f
  | .boundReinvoker => ∃ s id, s.fields = [.ref] ∧ reinvoker s basic id = .ok f
  | .empty => ∃ id, empty basic id = .ok f

theorem Form.links_direct {basic : Signature} {f : Form} {kind : DispatchKind} {barrier : Bool} :
    f.Links basic (kind.purpose (barrier && kind.needsClass)) ↔
      ∃ id, Form.direct basic kind (barrier && kind.needsClass) id = .ok f := by
  cases kind <;> cases barrier <;> rfl

theorem Form.links_invoker {basic : Signature} {f : Form} {generic : Bool} :
    f.Links basic (InvokerShape.purpose ⟨generic, false⟩) ↔
      ∃ s id, s.fields = [.ref] ∧ Form.invoker generic s basic id = .ok f := by
  cases generic <;> rfl

theorem Form.links_linker {basic : Signature} {f : Form} {generic : Bool} :
    f.Links basic (InvokerShape.purpose ⟨generic, true⟩) ↔
      ∃ id, Form.linker generic basic id = .ok f := by
  cases generic <;> rfl

/-- The handle that the slot of a purpose holds for a basic type. -/
def HandleOf.Links (basic : Signature) (h : Handle) : HandlePurpose → Prop
  | .empty => h.data = .simple ∧ h.type = basic ∧ ∃ id, Form.empty basic id = .ok h.form
  | .basicInvoker => h.data = .simple ∧ basic.invoker = .ok h.type ∧
      ∃ id, Form.basicInvoker basic id = .ok h.form

namespace TypeForms

/-- The owner of the slots of a type form has the same basic type. -/
def Owned (r : TypeForms Kept) (t : TypeForm) : Prop :=
  ∃ owner, r.interned[t.slotOwner]? = some owner ∧ owner.basic = t.basic

/-- The slots hold what they are for. -/
structure Sound (r : TypeForms Kept) : Prop where
  ids : ∀ (i : Nat) (t : TypeForm), r.interned[i]? = some t → t.id = i
  owners : ∀ t ∈ r.interned, r.Owned t
  forms : ∀ e ∈ r.forms, ∃ owner, r.interned[e.1.1]? = some owner ∧ e.2.Links owner.basic e.1.2
  handles : ∀ e ∈ r.handles, ∃ owner, r.interned[e.1.1]? = some owner ∧
    ∃ h, e.2 = .handle h ∧ h.Links owner.basic e.1.2

variable {r : TypeForms Kept} {t : TypeForm} {s : Signature}

theorem sound_empty : Sound empty :=
  ⟨nofun, nofun, nofun, nofun⟩

/-- More type forms take nothing away. -/
theorem Owned.mono {r' : TypeForms Kept} (h : r.Owned t) (hr : r.interned <+: r'.interned) :
    r'.Owned t := by
  obtain ⟨owner, howner, hbasic⟩ := h
  exact ⟨owner, Draft.getElem?_of_isPrefix hr howner, hbasic⟩

/-- A type form over a slot owner with its basic type can be added. -/
theorem Sound.add (h : r.Sound) {erased : Signature} {basicId? : Option Nat}
    (howner : (r.add erased basicId?).2.Owned (r.add erased basicId?).1) :
    (r.add erased basicId?).2.Sound := by
  obtain ⟨⟨hid, -, -⟩, hinterned, hforms, hhandles⟩ := add_eq r erased basicId?
  have hprefix : r.interned <+: (r.add erased basicId?).2.interned :=
    hinterned ▸ List.prefix_append _ _
  refine ⟨fun i t ht => ?_, fun t ht => ?_, fun e he => ?_, fun e he => ?_⟩
  · rw [hinterned] at ht
    by_cases hi : i < r.interned.length
    · exact h.ids i t (by rwa [List.getElem?_append_left hi] at ht)
    · rw [List.getElem?_append_right (Nat.not_lt.1 hi), List.getElem?_singleton] at ht
      obtain ⟨hzero, ht⟩ := Option.ite_none_right_eq_some.1 ht
      obtain rfl := Option.some.inj ht
      omega
  · rw [hinterned] at ht
    rcases List.mem_append.1 ht with ht | ht
    · exact (h.owners t ht).mono hprefix
    · rw [List.mem_singleton.1 ht]
      exact howner
  · obtain ⟨owner, howner, hlinks⟩ := h.forms e (hforms ▸ he)
    exact ⟨owner, Draft.getElem?_of_isPrefix hprefix howner, hlinks⟩
  · obtain ⟨owner, howner, hlinks⟩ := h.handles e (hhandles ▸ he)
    exact ⟨owner, Draft.getElem?_of_isPrefix hprefix howner, hlinks⟩

/-- The type form of a basic type owns its slots. -/
theorem Sound.findBasic (h : r.Sound) (basic : Signature) :
    (r.findBasic basic).2.Sound ∧ r.interned <+: (r.findBasic basic).2.interned ∧
      (r.findBasic basic).1.erased = basic ∧
      (r.findBasic basic).2.interned[(r.findBasic basic).1.id]? = some (r.findBasic basic).1 := by
  unfold TypeForms.findBasic
  split
  · next t ht =>
    obtain ⟨hmem, herased⟩ := of_lookup? ht
    obtain ⟨i, hi⟩ := List.getElem?_of_mem hmem
    exact ⟨h, List.prefix_refl _, herased, by rw [h.ids i t hi, hi]⟩
  · obtain ⟨⟨hid, herased, hbasic⟩, hinterned, -, -⟩ := add_eq r basic none
    have hself : (r.add basic none).2.interned[(r.add basic none).1.id]? =
        some (r.add basic none).1 := by
      rw [hid, hinterned, List.getElem?_concat_length]
    exact ⟨h.add ⟨_, by rw [TypeForm.slotOwner, hbasic]; exact hself, rfl⟩,
      hinterned ▸ List.prefix_append _ _, herased, hself⟩

/-- The type form of a signature. -/
theorem Sound.find (h : r.Sound) (s : Signature) :
    (r.find s).2.Sound ∧ (r.find s).2.Owned (r.find s).1 ∧ (r.find s).1.basic = s.basic := by
  unfold TypeForms.find
  split
  · next t ht =>
    obtain ⟨hmem, herased⟩ := of_lookup? ht
    exact ⟨h, h.owners t hmem, by rw [TypeForm.basic, herased, Signature.basic_erase]⟩
  · split
    · obtain ⟨⟨hid, herased, hbasic⟩, hinterned, -, -⟩ := add_eq r s.erase none
      have howner : (r.add s.erase none).2.Owned (r.add s.erase none).1 :=
        ⟨_, by rw [TypeForm.slotOwner, hbasic, Option.getD_none, hid, hinterned,
          List.getElem?_concat_length], rfl⟩
      exact ⟨h.add howner, howner, by rw [TypeForm.basic, herased, Signature.basic_erase]⟩
    · obtain ⟨hsound, -, hb, hself⟩ := h.findBasic s.basic
      obtain ⟨⟨hid, herased, hbasic⟩, hinterned, -, -⟩ :=
        add_eq (r.findBasic s.basic).2 s.erase (some (r.findBasic s.basic).1.id)
      have hbasic' : ((r.findBasic s.basic).2.add s.erase
          (some (r.findBasic s.basic).1.id)).1.basic = s.basic := by
        rw [TypeForm.basic, herased, Signature.basic_erase]
      have howner : ((r.findBasic s.basic).2.add s.erase
          (some (r.findBasic s.basic).1.id)).2.Owned ((r.findBasic s.basic).2.add s.erase
            (some (r.findBasic s.basic).1.id)).1 := by
        refine ⟨(r.findBasic s.basic).1, ?_, ?_⟩
        · rw [TypeForm.slotOwner, hbasic, Option.getD_some, hinterned]
          exact Draft.getElem?_of_isPrefix (List.prefix_append _ _) hself
        · rw [hbasic', TypeForm.basic, hb, Signature.basic_basic]
      exact ⟨hsound.add howner, howner, hbasic'⟩

/-- What is found in a slot. -/
theorem Sound.links_form? (h : r.Sound) (howned : r.Owned t) {p : FormPurpose} {f : Form}
    (hf : r.form? t p = some f) : f.Links t.basic p := by
  obtain ⟨owner, howner, hbasic⟩ := howned
  obtain ⟨owner', howner', hlinks⟩ := h.forms _ (mem_of_lookup hf)
  obtain rfl := Option.some.inj (howner.symm.trans howner')
  rwa [hbasic] at hlinks

theorem Sound.links_handle? (h : r.Sound) (howned : r.Owned t) {p : HandlePurpose} {k : Kept}
    (hk : r.handle? t p = some k) : ∃ g, k = .handle g ∧ g.Links t.basic p := by
  obtain ⟨owner, howner, hbasic⟩ := howned
  obtain ⟨owner', howner', hlinks⟩ := h.handles _ (mem_of_lookup hk)
  obtain rfl := Option.some.inj (howner.symm.trans howner')
  rwa [hbasic] at hlinks

theorem Sound.setForm (h : r.Sound) (howned : r.Owned t) {p : FormPurpose} {f : Form}
    (hf : f.Links t.basic p) : (r.setForm t p f).Sound := by
  refine ⟨h.ids, h.owners, fun e he => ?_, h.handles⟩
  rcases mem_assign he with rfl | he
  · obtain ⟨owner, howner, hbasic⟩ := howned
    exact ⟨owner, howner, hbasic ▸ hf⟩
  · exact h.forms e he

theorem Sound.setHandle (h : r.Sound) (howned : r.Owned t) {p : HandlePurpose} {g : Handle}
    (hg : g.Links t.basic p) : (r.setHandle t p (.handle g)).Sound := by
  refine ⟨h.ids, h.owners, h.forms, fun e he => ?_⟩
  rcases mem_assign he with rfl | he
  · obtain ⟨owner, howner, hbasic⟩ := howned
    exact ⟨owner, howner, g, rfl, hbasic ▸ hg⟩
  · exact h.handles e he

end TypeForms

/-- Edits leave the type forms alone. -/
theorem Context.types_edit (c : Context Kept) (live : Live Kept) (base : Form) (e : Edit) :
    (c.edit live base e).2.types = c.types := by
  have hlookup : ∀ (c : Context Kept) key,
      (c.lookupDerived live base key).2.types = c.types := fun c key => by
    unfold Context.lookupDerived
    split <;> rfl
  have hgrow : ∀ (c : Context Kept) field g c', c.growCarrier base field = .ok (g, c') →
      c'.types = c.types := by
    intro c field g c' hgrow
    unfold Context.growCarrier at hgrow
    obtain ⟨old, -, hgrow⟩ := bind_eq_ok_iff.1 hgrow
    obtain ⟨⟨new, t⟩, -, hgrow⟩ := bind_eq_ok_iff.1 hgrow
    obtain ⟨-, rfl⟩ := Prod.mk.inj (Except.ok.inj hgrow)
    rfl
  have hderive : ∀ (c : Context Kept) (e : Edit), (c.deriveAnew base e).2.types = c.types := by
    intro c e
    unfold Context.deriveAnew
    cases e.field? with
    | none => rfl
    | some field =>
      cases hcase : Context.growCarrier c.freshForm.2 base field with
      | error v =>
        simp only [hcase]
        rfl
      | ok gc =>
        simp only [hcase]
        exact (hgrow _ _ _ _ hcase).trans rfl
  simp only [Context.edit]
  split
  · rfl
  split
  · rfl
  split
  · rfl
  next key hkey =>
  split
  · next heq => rw [← hlookup c key, heq]
  next c' heq =>
  have hc' : c'.types = c.types := by rw [← hlookup c key, heq]
  split
  · next heq' => rw [← hc', ← hderive c' e.normal, heq']
  · next heq' =>
    rw [← hc', ← hderive c' e.normal, heq']
    rfl

/-! ## Worlds -/

/-- What a world shares is what it is shared as. -/
structure World.Sound {σ : Type} (w : World σ) : Prop where
  context : w.context.Sound
  types : w.context.types.Sound
  swapped : ∀ e ∈ w.swapped, ∃ id, Form.direct e.1.2.1.basic e.1.2.2.kind false id = .ok e.2
  invokers : ∀ e ∈ w.invokers.handles, e.2.Checks e.1.2 e.1.1.type

namespace World

variable {σ : Type} {w w' : World σ} {h : Handle}

theorem sound_new (cache : CacheConfig) (limits : ExecLimits) (host : σ) :
    (World.new cache limits host).Sound :=
  ⟨Context.sound_new cache, TypeForms.sound_empty, nofun, nofun⟩

/-- Only what is shared matters. -/
theorem Sound.of_eq (h : w.Sound) (hcontext : w'.context = w.context)
    (hswapped : w'.swapped = w.swapped) (hinvokers : w'.invokers = w.invokers) : w'.Sound :=
  ⟨hcontext ▸ h.context, hcontext ▸ h.types, hswapped ▸ h.swapped, hinvokers ▸ h.invokers⟩

/-- Which direct forms pass a barrier. -/
theorem hasBarrier_direct {basic : Signature} {kind : DispatchKind} {barrier : Bool} {id : Nat}
    {f : Form} (hf : Form.direct basic kind barrier id = .ok f) :
    f.kind.hasBarrier = (barrier && kind.needsClass) := by
  obtain ⟨link, -, hf⟩ := Form.direct_eq_ok hf
  obtain ⟨-, rfl⟩ := Form.ofParts_eq_ok_iff.1 hf
  cases kind <;> cases barrier <;> rfl

/-- Only direct handles get other forms. -/
theorem currentForm_of_plain (hplain : h.member? = none) : w.currentForm h = h.form := by
  obtain ⟨id, type, form, data⟩ := h
  cases data with
  | direct id m => cases hplain
  | simple => rfl
  | bound species values => rfl

/-- The form that a handle has now fits it. -/
theorem Sound.fits_currentForm (hw : w.Sound) (hh : h.Proper) : h.Fits (w.currentForm h) := by
  unfold currentForm
  split
  · next id m hdata =>
    cases hlookup : w.swapped.lookup (h.id, h.type, m) with
    | none => exact hh
    | some f =>
      obtain ⟨form, hform⟩ := hw.swapped _ (TypeForms.mem_of_lookup hlookup)
      obtain ⟨barrier, form', hmade⟩ := hh.direct id m hdata
      refine ⟨.of_basic (Form.serves_direct hform fun hkind => ?_), fun s values hbound => ?_,
        fun id' m' hdirect => ?_, by simp [hdata], fun hplain => ?_⟩
      · -- The form that the handle was made with answers what its type does.
        rw [Signature.basicRet_basic, ← hh.serves.ret]
        exact (Form.ret_direct hmade).trans (if_pos hkind)
      · rw [hdata] at hbound
        cases hbound
      · rw [hdata] at hdirect
        cases hdirect
        exact ⟨false, form, hform⟩
      · simp [HandleOf.member?, hdata] at hplain
  · exact hh

end World

/-- A direct handle has the direct form that its kind says. -/
theorem HandleOf.Fits.direct_eq {h : Handle} {f : Form} {id : Nat} {m : Member} (hf : h.Fits f)
    (hdata : h.data = .direct id m) :
    ∃ form, Form.direct h.type.basic m.kind f.kind.hasBarrier form = .ok f := by
  obtain ⟨barrier, form, hform⟩ := hf.direct id m hdata
  refine ⟨form, ?_⟩
  rwa [World.hasBarrier_direct hform, Bool.and_assoc, Bool.and_self]

end HandleForms
