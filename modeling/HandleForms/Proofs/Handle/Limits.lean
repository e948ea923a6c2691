import HandleForms.Proofs.Handle.Built

/-!
# Which types there are handles of

The handle takes a slot besides the arguments of its type, a handle that is called takes another one,
and so does the new instance of a constructor. `Act.Limited` says that a computation for a type
answers as long as the slots of the type leave room for those, and otherwise fails with their count
and the limit: nothing in between runs out of slots, and a slot of a type form or an invoker that was
kept never answers for a type that is too wide. So whatever is built leaves a slot, and has a carrier
(`HandleOf.Built.rebound`).
-/

namespace HandleForms

variable {σ α β : Type}

namespace Act

variable {owned : List TypeForm} {type : Signature} {limit : Nat}

/-! ## Computations that fail -/

/-- The computation fails with this error in every sound world. -/
def Fails (owned : List TypeForm) (x : Act σ α) (err : RuntimeError) : Prop :=
  ∀ w : World σ, w.Sound → (∀ t ∈ owned, w.context.types.Owned t) →
    (x w).1 = .error (.error err)

namespace Fails

variable {Q : α → Prop} {x : Act σ α} {k : α → Act σ β} {err : RuntimeError}

theorem first (hx : Fails owned x err) : Fails owned (x >>= k) err := fun w hw howned => by
  rw [bind_apply, hx w hw howned]

theorem bind (hx : Triple owned x Q) (hcompletes : Completes owned x)
    (hk : ∀ a, Q a → Fails owned (k a) err) : Fails owned (x >>= k) err := by
  intro w hw howned
  obtain ⟨a, ha⟩ := hcompletes w hw howned
  obtain ⟨⟨hsound, -⟩, howned', hQ⟩ := hx w hw howned
  rw [bind_apply, ha]
  exact hk a (hQ a ha) _ hsound howned'

theorem look {k : World σ → Act σ β} (hk : ∀ w : World σ, w.Sound → Fails owned (k w) err) :
    Fails owned (get >>= k) err :=
  fun w hw howned => hk w hw w hw howned

theorem typeForm {s : Signature} {k : TypeForm → Act σ β}
    (hk : ∀ t, t.basic = s.basic → Fails (t :: owned) (k t) err) :
    Fails owned (Act.typeForm s >>= k) err := by
  intro w hw howned
  obtain ⟨t, w', hbasic, hw', -, howned', heq⟩ := typeForm_bind hw howned s k
  rw [heq]
  exact hk t hbasic w' hw' howned'

end Fails

theorem fails_checkSlots (h : limit < type.slots) :
    Fails (σ := σ) owned (checkSlots type limit) (.signature (.tooManySlots type.slots limit)) := by
  rw [checkSlots, if_pos h]
  exact fun _ _ _ => rfl

theorem completes_checkSlots (h : type.slots ≤ limit) :
    Completes (σ := σ) owned (checkSlots type limit) := by
  rw [checkSlots, if_neg (Nat.not_lt.2 h)]
  exact .pure ()

/-- A computation behind a check of the slots. -/
theorem completes_checked {k : Unit → Act σ α} (h : type.slots ≤ limit) (hk : Completes owned (k ())) :
    Completes owned (checkSlots type limit >>= k) :=
  .bind (triple_checkSlots type limit) (completes_checkSlots h) fun _ _ => hk

/-! ## Handles within the slots -/

theorem completes_asType {h : Handle} (hbasic : h.type.basic = type.basic) :
    Completes (σ := σ) owned (asType h type) := by
  unfold asType
  split
  · exact .pure h
  · rw [if_neg (not_not.2 hbasic)]
    exact .look fun w _ => completes_newHandle _ _ _

theorem completes_sharedHandle? (t : TypeForm) (p : HandlePurpose) :
    Completes (σ := σ) owned (sharedHandle? t p) := .context _

theorem completes_shareHandle {t : TypeForm} (ht : t ∈ owned) {p : HandlePurpose} {h : Handle}
    (hh : h.Links t.basic p) : Completes (σ := σ) owned (shareHandle t p h) := by
  refine .bind (triple_setCachedHandle ht hh) (.context _) fun r hr => ?_
  obtain ⟨g, rfl, -⟩ := hr
  exact .pure g

theorem completes_external (name : String) (h : type.slots ≤ Signature.maxHandleSlots) :
    Completes (σ := σ) owned (external name type) := by
  refine completes_checked h (.bind (triple_newForm _)
    (completes_newForm (Form.external_ok name h)) fun f _ => ?_)
  refine .bind (Q := fun _ => True)
    (.contextSame (fun _ _ hc => ⟨hc.of_eq rfl rfl, trivial⟩) fun _ _ => rfl) (.context _) ?_
  exact fun _ _ => completes_newHandle _ _ _

theorem completes_empty (h : type.slots ≤ Signature.maxHandleSlots) :
    Completes (σ := σ) owned (empty type) := by
  have hslots : type.basic.slots ≤ Signature.maxHandleSlots := by
    rwa [Signature.slots_basic]
  -- A handle from the slot of the type form has the basic type, like one that is made now.
  have hview : ∀ (owned : List TypeForm) (g : Handle), g.Links type.basic .empty →
      Completes (σ := σ) owned (asType g type) := by
    rintro owned g ⟨-, htype, -⟩
    exact completes_asType (by rw [htype, Signature.basic_basic])
  refine completes_checked h (completes_typeForm fun t ht => ?_)
  rw [Signature.basic_basic] at ht
  refine .bind (triple_sharedHandle? (.head _) .empty) (completes_sharedHandle? _ _)
    fun found hfound => ?_
  cases found with
  | some g => exact hview _ g (ht ▸ hfound g rfl)
  | none =>
    have hbuild : Triple (σ := σ) (t :: owned) (newForm (Form.empty type.basic))
        fun f => f.Links t.basic .empty := by
      rw [ht]
      exact triple_newForm _
    refine .bind (triple_sharedForm (.head _) hbuild)
      (completes_sharedForm (.head _) hbuild (completes_newForm (Form.empty_ok hslots)))
        fun f hf => .bind (triple_newHandle _ _ _) (completes_newHandle _ _ _) fun g hg => ?_
    obtain ⟨htype, rfl, hdata⟩ := hg
    have hlinks : g.Links t.basic .empty := ⟨hdata, ht ▸ htype, hf⟩
    exact .bind (triple_shareHandle (.head _) hlinks) (completes_shareHandle (.head _) hlinks)
      fun g' hg' => hview _ g' (ht ▸ hg')

theorem completes_directForm {kind : DispatchKind} (barrier : Bool)
    (h : type.slots ≤ Signature.maxHandleSlots - if kind = .newSpecial then 1 else 0) :
    Completes (σ := σ) owned (directForm type kind barrier) := by
  obtain ⟨link, hlink⟩ : ∃ link, Form.linkType type.basic kind = .ok link :=
    Form.exists_linkType (by rwa [Signature.slots_basic])
  refine completes_checked h (completes_typeForm fun t ht => ?_)
  refine completes_sharedForm (.head _) ?_ (completes_newForm (Form.direct_ok _ hlink))
  rw [ht]
  exact (triple_newForm _).imp fun f hf => Form.links_direct.2 hf

theorem completes_invokerForm (shape : InvokerShape) (h : type.slots ≤ Signature.maxInvokerSlots) :
    Completes (σ := σ) owned (invokerForm type shape) := by
  have hslots : type.basic.slots ≤ Signature.maxInvokerSlots := by
    rwa [Signature.slots_basic]
  obtain ⟨generic, linker⟩ := shape
  refine completes_checked h (completes_typeForm fun t ht => ?_)
  cases linker with
  | true =>
    refine completes_sharedForm (.head _) ?_ (completes_newForm (Form.linker_ok generic hslots))
    rw [ht]
    exact (triple_newForm _).imp fun f hf => Form.links_linker.2 hf
  | false =>
    refine completes_sharedForm (.head _) ?_ (.bind (triple_species _) (.context _) fun s hs =>
      completes_newForm (Form.invoker_ok generic hs hslots))
    rw [ht]
    refine (triple_species _).bind fun s hs => (triple_newForm _).imp fun f hf => ?_
    obtain ⟨id, hf⟩ := hf
    exact Form.links_invoker.2 ⟨s, id, hs, hf⟩

theorem completes_invokers (type : Signature) : Completes (σ := σ) owned (invokers type) :=
  fun _ _ _ => ⟨_, rfl⟩

theorem completes_linkerForm (generic : Bool) (h : type.slots ≤ Signature.maxInvokerSlots) :
    Completes (σ := σ) owned (linkerForm type generic) :=
  .bind (triple_invokers type) (completes_invokers type) fun _ _ => completes_invokerForm _ h

theorem completes_ofSignature {r : Except SignatureError α} (h : ∃ a, r = .ok a) :
    Completes (σ := σ) owned (ofSignature r) := by
  obtain ⟨a, rfl⟩ := h
  exact .pure a

theorem completes_invoker (generic : Bool) (h : type.slots ≤ Signature.maxInvokerSlots) :
    Completes (σ := σ) owned (invoker type generic) := by
  refine .bind (triple_invokers type) (completes_invokers type) fun i hi => .look fun w _ => ?_
  split
  · exact .pure _
  refine .bind (Triple.ofSignature _) (completes_ofSignature (Signature.exists_invoker h))
    fun invokerType _ => .bind (triple_invokerForm _ _) (completes_invokerForm _ h)
      fun form _ => .bind (triple_species _) (.context _) fun s _ => ?_
  exact fun _ _ _ => ⟨_, rfl⟩

theorem completes_basicInvoker (h : type.slots ≤ Signature.maxInvokerSlots) :
    Completes (σ := σ) owned (basicInvoker type) := by
  have hslots : type.basic.slots ≤ Signature.maxInvokerSlots := by
    rwa [Signature.slots_basic]
  refine .bind (triple_invokers type) (completes_invokers type) fun _ _ =>
    completes_typeForm fun t ht => .bind (triple_sharedHandle? (.head _) .basicInvoker)
      (completes_sharedHandle? _ _) fun found _ => ?_
  rw [Signature.basic_basic] at ht
  cases found with
  | some g => exact .pure g
  | none =>
    have hbuild : Triple (σ := σ) (t :: owned) (newForm (Form.basicInvoker type.basic))
        fun f => f.Links t.basic .basicInvoker := by
      rw [ht]
      exact triple_newForm _
    refine .bind (Triple.ofSignature _) (completes_ofSignature (Signature.exists_invoker hslots))
      fun invokerType hinvoker => .bind (triple_sharedForm (.head _) hbuild)
        (completes_sharedForm (.head _) hbuild (completes_newForm (Form.basicInvoker_ok hslots)))
          fun f hf => .bind (triple_newHandle _ _ _) (completes_newHandle _ _ _) fun g hg => ?_
    obtain ⟨rfl, rfl, hdata⟩ := hg
    exact completes_shareHandle (.head _) ⟨hdata, ht ▸ hinvoker, hf⟩

/-! ## Handles beyond the slots -/

theorem fails_ofSignature_invoker (h : Signature.maxInvokerSlots < type.slots) :
    Fails (σ := σ) owned (ofSignature type.invoker)
      (.signature (.tooManySlots type.slots Signature.maxInvokerSlots)) := by
  rw [Signature.invoker_of_lt h]
  exact fun _ _ _ => rfl

/-- No invoker was kept of a type that has none. -/
theorem fails_invoker (generic : Bool) (h : Signature.maxInvokerSlots < type.slots) :
    Fails (σ := σ) owned (invoker type generic)
      (.signature (.tooManySlots type.slots Signature.maxInvokerSlots)) := by
  refine .bind (triple_invokers type) (completes_invokers type) fun i hi => .look fun w hw => ?_
  subst hi
  split
  -- Whatever was kept for the type has the type of an invoker, and there is none.
  · next g hfound =>
    have hchecks := hw.invokers _ (TypeForms.mem_of_lookup hfound)
    exact absurd (hchecks.invoker.symm.trans (Signature.invoker_of_lt h)) nofun
  · exact .first (fails_ofSignature_invoker h)

theorem fails_basicInvoker (h : Signature.maxInvokerSlots < type.slots) :
    Fails (σ := σ) owned (basicInvoker type)
      (.signature (.tooManySlots type.slots Signature.maxInvokerSlots)) := by
  rw [← Signature.slots_basic type] at h ⊢
  refine .bind (triple_invokers type) (completes_invokers type) fun _ _ => .typeForm fun t ht =>
    .bind (triple_sharedHandle? (.head _) .basicInvoker) (completes_sharedHandle? _ _)
      fun found hfound => ?_
  rw [Signature.basic_basic] at ht
  cases found with
  | some g =>
    obtain ⟨-, hinvoker, -⟩ := ht ▸ hfound g rfl
    exact absurd (hinvoker.symm.trans (Signature.invoker_of_lt h)) nofun
  | none => exact .first (fails_ofSignature_invoker h)

/-! ## The limits -/

/-- The computation answers when the type has at most so many slots, and otherwise it fails with the
count of the slots and the limit. -/
structure Limited (type : Signature) (limit : Nat) (x : Act σ α) (w : World σ) : Prop where
  answers : type.slots ≤ limit → ∃ a, (x w).1 = .ok a
  fails : limit < type.slots → (x w).1 = .error (.error (.signature (.tooManySlots type.slots limit)))

namespace Limited

variable {w : World σ}

theorem of_sound {x : Act σ α} (hw : w.Sound)
    (hcompletes : type.slots ≤ limit → Completes [] x)
    (hfails : limit < type.slots → Fails [] x (.signature (.tooManySlots type.slots limit))) :
    Limited type limit x w :=
  ⟨fun h => (hcompletes h).answer hw, fun h => hfails h w hw nofun⟩

/-- What checks the slots first fails there. -/
theorem checked {k : Unit → Act σ α} (hw : w.Sound)
    (hcompletes : type.slots ≤ limit → Completes [] (checkSlots type limit >>= k)) :
    Limited type limit (checkSlots type limit >>= k) w :=
  of_sound hw hcompletes fun h => .first (fails_checkSlots h)

theorem linkerForm (hw : w.Sound) (type : Signature) (generic : Bool) :
    Limited type Signature.maxInvokerSlots (Act.linkerForm type generic) w :=
  of_sound hw (completes_linkerForm generic) fun h =>
    .bind (triple_invokers type) (completes_invokers type) fun _ _ => .first (fails_checkSlots h)

end Limited

end Act

/-- Whatever is built can be wrapped in a carrier, in every world that there can be. -/
theorem HandleOf.Built.rebound {host : Host σ} {allowed : HandleOp → Prop} {h : Handle}
    {w : World σ} (hh : HandleOf.Built host allowed h) (hw : w.Sound) :
    ∃ R, (Act.rebind h w).1 = .ok R ∧ R.type = h.type ∧ R.species?.isSome := by
  obtain ⟨R, hR⟩ := (Act.completes_rebind hh.proper.slots_le).answer hw
  have hrebound := (Act.triple_rebind h).answer hw hR
  refine ⟨R, hR, ?_, hrebound.isSome⟩
  cases hrebound with
  | self hbound => rfl
  | wrapped _ htype => exact htype

namespace Act

/-- Handles and forms are made of exactly the types whose slots leave room for what they take besides
the arguments: the handle, the new instance of a constructor, the target of an invoker. Each of
them otherwise fails with the count and the limit, and what is built can be wrapped. -/
theorem limited_building {host : Host σ} {w : World σ} (hw : w.Reachable host) (type : Signature) :
    (∀ name, Limited type 254 (external name type) w) ∧ Limited type 254 (empty type) w ∧
      (∀ kind barrier, Limited type (if kind = .newSpecial then 253 else 254)
        (directForm type kind barrier) w) ∧
      (∀ shape, Limited type 253 (invokerForm type shape) w) ∧
      (∀ generic, Limited type 253 (linkerForm type generic) w ∧
        Limited type 253 (invoker type generic) w) ∧
      Limited type 253 (basicInvoker type) w ∧
      ∀ h, HandleOf.Built host (fun _ => True) h →
        ∃ R, (rebind h w).1 = .ok R ∧ R.type = h.type ∧ R.species?.isSome := by
  have hsound := hw.sound
  refine ⟨fun name => .checked hsound (completes_external name), .checked hsound completes_empty,
    fun kind barrier => ?_, fun shape => .checked hsound (completes_invokerForm shape),
    fun generic => ⟨.linkerForm hsound type generic, .of_sound hsound (completes_invoker generic)
      (fails_invoker generic)⟩,
    .of_sound hsound completes_basicInvoker fails_basicInvoker, fun h hh => hh.rebound hsound⟩
  have hlimit : (if kind = .newSpecial then 253 else 254) =
      Signature.maxHandleSlots - if kind = .newSpecial then 1 else 0 := by
    split <;> rfl
  rw [hlimit]
  exact .checked hsound (completes_directForm barrier)

/-- 127 doubles of two slots leave a slot for the handle, but none for a new instance too. -/
theorem limited_doubles : ∃ type : Signature, type.params = List.replicate 127 .double ∧
    (∃ h, (external "add" type (adderWorld [])).1 = .ok h) ∧
    (directForm type .newSpecial true (adderWorld [])).1 =
      .error (.error (.signature (.tooManySlots 254 253))) ∧
    ∃ R, (rebind adder (adderWorld [])).1 = .ok R := by
  have hdoubles (n : Nat) : Ty.slotSum (List.replicate n .double) = 2 * n := by
    induction n with
    | zero => rfl
    | succ n ih =>
      rw [List.replicate_succ, Ty.slotSum_cons, ih]
      exact Nat.add_comm 2 (2 * n)
  have hslots : Ty.slotSum (List.replicate 127 .double) = 254 := hdoubles 127
  obtain ⟨type, htype⟩ : ∃ type, Signature.ofTypes .int (List.replicate 127 .double) = .ok type :=
    Signature.exists_ofTypes .int (fun t ht => List.eq_of_mem_replicate ht ▸ nofun)
      (hslots ▸ by decide)
  obtain ⟨hparams, -⟩ := Signature.ofTypes_eq_ok_iff.1 htype
  have hwide : type.slots = 254 := by
    rw [Signature.slots, hparams, hslots]
  obtain ⟨hexternal, -, hdirect, -, -, -, hrebind⟩ :=
    limited_building (reachable_adderWorld []) type
  refine ⟨type, hparams, (hexternal "add").answers (Nat.le_of_eq hwide), ?_, ?_⟩
  · rw [← hwide]
    exact (hdirect .newSpecial true).fails (by rw [hwide]; decide)
  · obtain ⟨R, hR, -⟩ := hrebind adder built_adder
    exact ⟨R, hR⟩

end Act

end HandleForms
