import HandleForms.Proofs.Handle.Limits
import HandleForms.Proofs.Mirror.World

/-!
# Handles made in worlds that mirror each other

Caches hold what was made before, and which forms and handles that is differs between worlds. It
does not show: a form of a slot, a handle of a type and a carrier around a handle are the same up to
identities whether they are found or made, and the caches of derived forms answer what an edit would
derive. So the same operation on mirrored handles makes mirrored handles (`Act.Mirrors.perform`).
-/

namespace HandleForms

variable {σ α β γ δ : Type}

/-! ## Linkage forms -/

namespace Form

variable {f f' : Form} {id id' : Nat} {basic : Signature} {s s' : Species}

theorem Matches.kind (h : f.Matches f') : f.kind = f'.kind := by
  have hkind : f.plain.kind = f'.plain.kind := congrArg Form.kind h
  exact hkind

/-- Forms of parts with the same plain names. -/
theorem matches_ofParts {params params' exprs exprs' : List (Name Form)} {result : Option Nat}
    {kind : FormKind} (h : ofParts id params exprs result kind = .ok f)
    (h' : ofParts id' params' exprs' result kind = .ok f')
    (hlength : params.length = params'.length)
    (hnames : (params ++ exprs).map Name.plain = (params' ++ exprs').map Name.plain) :
    f.Matches f' := by
  obtain ⟨-, rfl⟩ := ofParts_eq_ok_iff.1 h
  obtain ⟨-, rfl⟩ := ofParts_eq_ok_iff.1 h'
  unfold Matches plain
  dsimp only
  rw [hnames, hlength, ← keptResult_plain, hnames, keptResult_plain]

theorem matches_external {name : String} {type : Signature} (h : external name type id = .ok f)
    (h' : external name type id' = .ok f') : f.Matches f' :=
  matches_ofParts h h' rfl rfl

theorem matches_empty (h : empty basic id = .ok f) (h' : empty basic id' = .ok f') :
    f.Matches f' := by
  unfold empty at h h'
  dsimp only at h h'
  split at h
  · next hvoid =>
    rw [if_pos hvoid] at h'
    exact matches_ofParts h h' rfl rfl
  · next hvoid =>
    rw [if_neg hvoid] at h'
    exact matches_ofParts h h' rfl rfl

theorem matches_basicInvoker (h : basicInvoker basic id = .ok f)
    (h' : basicInvoker basic id' = .ok f') : f.Matches f' :=
  matches_ofParts h h' rfl rfl

theorem matches_linker {generic : Bool} (h : linker generic basic id = .ok f)
    (h' : linker generic basic id' = .ok f') : f.Matches f' :=
  matches_ofParts h h' rfl rfl

theorem matches_reinvoker (hs : s.fields = [.ref]) (hs' : s'.fields = [.ref])
    (h : reinvoker s basic id = .ok f) (h' : reinvoker s' basic id' = .ok f') : f.Matches f' := by
  rw [reinvoker_eq hs] at h
  rw [reinvoker_eq hs'] at h'
  refine matches_ofParts h h' rfl ?_
  simp [Species.plain, hs, hs']

theorem matches_invoker (hs : s.fields = [.ref]) (hs' : s'.fields = [.ref]) {generic : Bool}
    (h : invoker generic s basic id = .ok f) (h' : invoker generic s' basic id' = .ok f') :
    f.Matches f' := by
  rw [invoker_eq hs] at h
  rw [invoker_eq hs'] at h'
  refine matches_ofParts h h' rfl ?_
  simp [Species.plain, hs, hs']

theorem matches_direct {kind : DispatchKind} {barrier : Bool}
    (h : direct basic kind barrier id = .ok f) (h' : direct basic kind barrier id' = .ok f') :
    f.Matches f' := by
  obtain ⟨link, hlink, h⟩ := direct_eq_ok h
  obtain ⟨link', hlink', h'⟩ := direct_eq_ok h'
  obtain rfl := Except.ok.inj (hlink.symm.trans hlink')
  exact matches_ofParts h h' rfl rfl

end Form

/-! ## Computations that derive nothing -/

namespace Act

/-- The computation leaves the caches of derived forms alone, and takes no identity back. -/
structure KeepsCaches (x : Act σ α) : Prop where
  caches : ∀ w, (x w).2.context.caches = w.context.caches
  nextId : ∀ w, w.nextId ≤ (x w).2.nextId

namespace KeepsCaches

variable {x : Act σ α} {k : α → Act σ β}

theorem ofStop (r : Except (Stop RuntimeError) α) : KeepsCaches (σ := σ) (Act.ofStop r) :=
  ⟨fun _ => rfl, fun _ => Nat.le_refl _⟩

theorem pure (a : α) : KeepsCaches (Pure.pure a : Act σ α) := ofStop (.ok a)

theorem bind (hx : KeepsCaches x) (hk : ∀ a, KeepsCaches (k a)) : KeepsCaches (x >>= k) := by
  constructor <;> intro w <;> rw [bind_apply]
  · cases (x w).1 with
    | ok a => exact ((hk a).caches _).trans (hx.caches w)
    | error stop => exact hx.caches w
  · cases (x w).1 with
    | ok a => exact Nat.le_trans (hx.nextId w) ((hk a).nextId _)
    | error stop => exact hx.nextId w

theorem look {k : World σ → Act σ β} (hk : ∀ w, KeepsCaches (k w)) : KeepsCaches (get >>= k) :=
  ⟨fun w => (hk w).caches w, fun w => (hk w).nextId w⟩

theorem context {f : Live Kept → Context Kept → α × Context Kept}
    (hf : ∀ live c, (f live c).2.caches = c.caches) : KeepsCaches (σ := σ) (Act.context f) :=
  ⟨fun w => hf w.live w.context, fun _ => Nat.le_refl _⟩

theorem freshId : KeepsCaches (Act.freshId : Act σ Nat) := ⟨fun _ => rfl, fun _ => Nat.le_succ _⟩

theorem newHandle (type : Signature) (form : Form) (data : HandleData Value) :
    KeepsCaches (Act.newHandle type form data : Act σ Handle) :=
  freshId.bind fun _ => pure _

theorem newForm (build : Nat → Except Violation Form) :
    KeepsCaches (Act.newForm build : Act σ Form) :=
  (context fun _ _ => rfl).bind fun _ => ofStop _

theorem species (fields : List BasicType) : KeepsCaches (Act.species fields : Act σ Species) :=
  context fun _ _ => rfl

theorem typeForm (type : Signature) : KeepsCaches (Act.typeForm type : Act σ TypeForm) :=
  context fun _ _ => rfl

theorem sharedForm (t : TypeForm) (p : FormPurpose) {build : Act σ Form}
    (hbuild : KeepsCaches build) :
    KeepsCaches (Act.sharedForm t p build) := by
  refine (context fun live c => ?_).bind fun found => ?_
  · unfold Context.cachedForm
    split <;> rfl
  cases found with
  | some f => exact pure f
  | none =>
    refine hbuild.bind fun f => context fun live c => ?_
    unfold Context.setCachedForm
    split <;> rfl

theorem sharedHandle? (t : TypeForm) (p : HandlePurpose) :
    KeepsCaches (Act.sharedHandle? t p : Act σ (Option Handle)) :=
  context fun live c => by
    unfold Context.cachedHandle
    split <;> rfl

theorem shareHandle (t : TypeForm) (p : HandlePurpose) (h : Handle) :
    KeepsCaches (Act.shareHandle t p h : Act σ Handle) := by
  refine (context fun live c => ?_).bind fun _ => ofStop _
  unfold Context.setCachedHandle
  split
  · split <;> rfl
  · rfl

theorem checkSlots (type : Signature) (limit : Nat) :
    KeepsCaches (Act.checkSlots type limit : Act σ Unit) := by
  unfold Act.checkSlots
  split
  · exact ofStop _
  · exact pure _

theorem asType (h : Handle) (type : Signature) :
    KeepsCaches (Act.asType h type : Act σ Handle) := by
  unfold Act.asType
  split
  · exact pure h
  split
  · exact ofStop _
  · exact look fun _ => newHandle _ _ _

theorem external (name : String) (type : Signature) :
    KeepsCaches (Act.external name type : Act σ Handle) :=
  (checkSlots _ _).bind fun _ => (newForm _).bind fun _ => (context fun _ _ => rfl).bind fun _ =>
    newHandle _ _ _

theorem empty (type : Signature) : KeepsCaches (Act.empty type : Act σ Handle) := by
  refine (checkSlots _ _).bind fun _ => (typeForm _).bind fun t =>
    (sharedHandle? t _).bind fun found => ?_
  cases found with
  | some h => exact asType h type
  | none =>
    exact (sharedForm t _ (newForm _)).bind fun _ => (newHandle _ _ _).bind fun _ =>
      (shareHandle t _ _).bind fun h => asType h type

theorem rebind (h : Handle) : KeepsCaches (Act.rebind h : Act σ Handle) := by
  unfold Act.rebind
  split
  · exact pure h
  · exact (typeForm _).bind fun t => (sharedForm t _ ((species _).bind fun _ => newForm _)).bind
      fun _ => (species _).bind fun _ => newHandle _ _ _

theorem directForm (type : Signature) (kind : DispatchKind) (barrier : Bool) :
    KeepsCaches (Act.directForm type kind barrier : Act σ Form) :=
  (checkSlots _ _).bind fun _ => (typeForm _).bind fun t => sharedForm t _ (newForm _)

theorem invokerForm (type : Signature) (shape : InvokerShape) :
    KeepsCaches (Act.invokerForm type shape : Act σ Form) := by
  refine (checkSlots _ _).bind fun _ => (typeForm _).bind fun t => sharedForm t _ ?_
  split
  · exact newForm _
  · exact (species _).bind fun _ => newForm _

theorem invokers (type : Signature) : KeepsCaches (Act.invokers type : Act σ Invokers) :=
  freshId.bind fun _ => ⟨fun _ => rfl, fun _ => Nat.le_refl _⟩

theorem invoker (type : Signature) (generic : Bool) :
    KeepsCaches (Act.invoker type generic : Act σ Handle) := by
  refine (invokers type).bind fun i => look fun w => ?_
  split
  · exact pure _
  · exact (ofStop _).bind fun _ => (invokerForm _ _).bind fun _ => (species _).bind fun _ =>
      (newHandle _ _ _).bind fun h => ⟨fun _ => rfl, fun _ => Nat.le_refl _⟩

theorem basicInvoker (type : Signature) : KeepsCaches (Act.basicInvoker type : Act σ Handle) := by
  refine (invokers type).bind fun _ => (typeForm _).bind fun t =>
    (sharedHandle? t _).bind fun found => ?_
  cases found with
  | some h => exact pure h
  | none =>
    exact (ofStop _).bind fun _ => (sharedForm t _ (newForm _)).bind fun _ =>
      (newHandle _ _ _).bind fun _ => shareHandle t _ _

end KeepsCaches

/-- From tame worlds the computation leads to tame ones, changes nothing but what is shared, and
ends as `Q` says. -/
def Quiet (x : Act σ α) (Q : Except (Stop RuntimeError) α → Prop) : Prop :=
  ∀ w : World σ, w.Tame → Q (x w).1 ∧ w.Warms (x w).2

namespace Quiet

variable {x : Act σ α} {Q : α → Prop}

theorem of_triple (hx : Triple [] x Q) (hkeeps : KeepsCaches x) :
    Quiet x fun o => ∀ a, o = .ok a → Q a := by
  intro w hw
  have hsound := hx.sound hw.sound
  have hshares := hx.onlyShares hw.sound
  have hnext := hkeeps.nextId w
  refine ⟨fun a ha => hx.answer hw.sound ha, .of_onlyShares ?_ hshares hnext⟩
  have hbarrier := congrArg World.barrier hshares
  have hfields := congrArg World.fields hshares
  have hswapped := congrArg World.swapped hshares
  exact {
    sound := hsound
    derived := hw.derived.of_eq (hkeeps.caches w)
    barrier := hbarrier.symm ▸ hw.barrier
    fields := fun e he => Nat.lt_of_lt_of_le (hw.fields e (hfields ▸ he)) hnext
    swapped := fun e he => Nat.lt_of_lt_of_le (hw.swapped e (hswapped ▸ he)) hnext }

theorem answers (hx : Triple [] x Q) (hkeeps : KeepsCaches x) (hcompletes : Completes [] x) :
    Quiet x fun o => ∃ a, o = .ok a ∧ Q a := by
  intro w hw
  obtain ⟨hQ, hrest⟩ := of_triple hx hkeeps w hw
  obtain ⟨a, ha⟩ := hcompletes.answer hw.sound
  exact ⟨⟨a, ha, hQ a ha⟩, hrest⟩

theorem fails {e : RuntimeError} (hx : Triple [] x Q) (hkeeps : KeepsCaches x)
    (hfails : Fails [] x e) : Quiet x fun o => o = .error (.error e) :=
  fun w hw => ⟨hfails w hw.sound nofun, (of_triple hx hkeeps w hw).2⟩

end Quiet

/-! ## Found or made -/

namespace Mirrors

variable {host : Host σ} {M : host.Mirroring} {κ κ' : Pairing} {w w' : World σ} {x : Act σ α}
  {x' : Act σ β} {R : Pairing → α → β → Prop}

/-- What is shared does not show. -/
theorem of_quiet {Q : Except (Stop RuntimeError) α → Prop}
    {Q' : Except (Stop RuntimeError) β → Prop}
    (hx : Quiet x Q) (hx' : Quiet x' Q') (h : World.Mirrors M κ w w')
    (hQ : ∀ o o', Q o → Q' o' → Outcome.Mirrors (R κ) o o') : Mirrors M κ w w' x x' R := by
  obtain ⟨ho, hwarms⟩ := hx w h.tame
  obtain ⟨ho', hwarms'⟩ := hx' w' h.tame'
  exact .inr (.inr ⟨κ, .of_warms h hwarms hwarms', hQ _ _ ho ho'⟩)

/-- What answers if the slots of a type suffice, and fails otherwise. -/
theorem of_limited {x x' : Act σ α} {R : Pairing → α → α → Prop} {Q Q' : α → Prop}
    {e : RuntimeError} (slots limit : Nat) (h : World.Mirrors M κ w w')
    (hx : Triple [] x Q) (hx' : Triple [] x' Q') (hkeeps : KeepsCaches x) (hkeeps' : KeepsCaches x')
    (hcompletes : slots ≤ limit → Completes [] x ∧ Completes [] x')
    (hfails : limit < slots → Fails [] x e ∧ Fails [] x' e) (hQ : ∀ a b, Q a → Q' b → R κ a b) :
    Mirrors M κ w w' x x' R := by
  rcases Nat.lt_or_ge limit slots with hlt | hle
  · refine of_quiet (.fails hx hkeeps (hfails hlt).1) (.fails hx' hkeeps' (hfails hlt).2) h ?_
    rintro _ _ rfl rfl
    exact .stop rfl
  · refine of_quiet (.answers hx hkeeps (hcompletes hle).1)
      (.answers hx' hkeeps' (hcompletes hle).2) h ?_
    rintro _ _ ⟨a, rfl, ha⟩ ⟨b, rfl, hb⟩
    exact .ok (hQ a b ha hb)

end Mirrors

end Act

/-! ## New identities -/

variable {host : Host σ} {M : host.Mirroring} {κ κ' : Pairing} {w w' : World σ}

/-- An identity that was just given out in both worlds. -/
theorem World.Mirrors.link (h : World.Mirrors M κ w w') {lvl : Prop} (hlvl : M.lockstep → lvl) :
    World.Mirrors M (κ.link w.nextId w'.nextId lvl h.left h.right) w.freshId.2 w'.freshId.2 := by
  have hle : κ ≤ κ.link w.nextId w'.nextId lvl h.left h.right := Pairing.le_link h.left h.right
  -- In a tame world nothing is known of an identity before it is given out.
  have hnone : ∀ {w : World σ}, w.Tame → ∀ type m, w.swapped.lookup (w.nextId, type, m) = none :=
    fun {w} hw type m => by
      cases hlookup : w.swapped.lookup (w.nextId, type, m) with
      | none => rfl
      | some f => exact absurd (hw.swapped _ (TypeForms.mem_of_lookup hlookup)) (Nat.lt_irrefl _)
  have hfresh : ∀ {w : World σ}, w.Tame → w.fieldsOf w.nextId = [] := fun {w} hw => by
    unfold fieldsOf
    cases hlookup : w.fields.lookup w.nextId with
    | none => rfl
    | some fs => exact absurd (hw.fields _ (TypeForms.mem_of_lookup hlookup)) (Nat.lt_irrefl _)
  exact {
    tame := h.tame.of_eq rfl rfl rfl rfl rfl (Nat.le_succ _)
    tame' := h.tame'.of_eq rfl rfl rfl rfl rfl (Nat.le_succ _)
    left := Nat.le_refl _
    right := Nat.le_refl _
    barrier := h.barrier
    state := M.mono h.state hle
    limits := h.limits
    level_of_same := fun hstep _ _ => Or.imp (h.level_of_same hstep) fun hij => ⟨hlvl hstep, hij⟩
    ready := h.ready
    swapped := h.swapped
    swapped' := h.swapped'
    level := by
      rintro i j (hij | ⟨-, rfl, rfl⟩) type m
      · exact h.level hij type m
      · show (w.swapped.lookup _).isSome = (w'.swapped.lookup _).isSome
        rw [hnone h.tame, hnone h.tame']
    fields := by
      rintro i j (hij | ⟨rfl, rfl⟩)
      · exact (h.fields hij).imp fun _ _ hf => ⟨hf.1, hf.2.mono hle⟩
      · show MirrorFields _ (w.fieldsOf _) (w'.fieldsOf _)
        rw [hfresh h.tame, hfresh h.tame']
        exact .nil }

namespace Act.Mirrors

theorem freshId (h : World.Mirrors M κ w w') {lvl : Prop} (hlvl : M.lockstep → lvl) :
    Mirrors M κ w w' Act.freshId Act.freshId
      fun κ' i j => κ'.same i j ∧ (lvl → κ'.level i j) ∧ (¬ lvl → ¬ κ'.level i j) := by
  refine .inr (.inr ⟨_, .step (Pairing.le_link _ _) (h.link hlvl) rfl rfl rfl,
    .ok ⟨.inr ⟨rfl, rfl⟩, fun hlvl => .inr ⟨hlvl, rfl, rfl⟩, ?_⟩⟩)
  -- What is level already was given out before.
  rintro hlvl (hlevel | ⟨hyes, -, -⟩)
  · exact absurd (κ.lt (κ.same_of_level hlevel)).1 (Nat.not_lt.2 h.left)
  · exact hlvl hyes

theorem newHandle (h : World.Mirrors M κ w w') (type : Signature) {f f' : Form}
    {data data' : HandleData Value} (hf : f.Matches f') (hplain : ∀ i m, data ≠ .direct i m)
    (hdata : data.Mirrors κ (Value.Mirrors κ) data') :
    Mirrors M κ w w' (Act.newHandle type f data) (Act.newHandle type f' data')
      fun κ' B B' => B.Mirrors κ' B' := by
  refine (freshId h id).bind fun κ' v v' i j hreach _ => .pure hreach.worlds ?_
  exact .of_plain rfl hf hplain (hdata.mono hreach.le)

end Act.Mirrors

/-! ## Handles of their own -/

namespace Act.Mirrors

theorem external (h : World.Mirrors M κ w w') (name : String) (type : Signature) :
    Mirrors M κ w w' (Act.external name type) (Act.external name type)
      fun κ' B B' => B.Mirrors κ' B' := by
  refine of_limited type.slots Signature.maxHandleSlots h
    (triple_external name type) (triple_external name type) (.external _ _) (.external _ _)
    (fun hle => ⟨completes_external name hle, completes_external name hle⟩)
    (fun hlt => ⟨.first (fails_checkSlots hlt), .first (fails_checkSlots hlt)⟩) fun B B' hB hB' =>
    ?_
  cases hB with
  | adapted hop _ => cases hop
  | external htype hform hdata =>
    cases hB' with
    | adapted hop _ => cases hop
    | external htype' hform' hdata' =>
      refine .of_plain (htype.trans htype'.symm) (Form.matches_external hform hform') ?_ ?_
      · simp [hdata]
      · rw [hdata, hdata']
        exact .simple

theorem empty (h : World.Mirrors M κ w w') (type : Signature) :
    Mirrors M κ w w' (Act.empty type) (Act.empty type) fun κ' B B' => B.Mirrors κ' B' := by
  refine of_limited type.slots Signature.maxHandleSlots h
    (triple_empty type) (triple_empty type) (.empty _) (.empty _)
    (fun hle => ⟨completes_empty hle, completes_empty hle⟩)
    (fun hlt => ⟨.first (fails_checkSlots hlt), .first (fails_checkSlots hlt)⟩) fun B B' hB hB' =>
    ?_
  cases hB with
  | adapted hop _ => cases hop
  | empty htype hform hdata =>
    cases hB' with
    | adapted hop _ => cases hop
    | empty htype' hform' hdata' =>
      refine .of_plain (htype.trans htype'.symm) (Form.matches_empty hform hform') ?_ ?_
      · simp [hdata]
      · rw [hdata, hdata']
        exact .simple

theorem invoker (h : World.Mirrors M κ w w') (type : Signature) (generic : Bool) :
    Mirrors M κ w w' (Act.invoker type generic) (Act.invoker type generic)
      fun κ' B B' => B.Mirrors κ' B' := by
  refine of_limited type.slots Signature.maxInvokerSlots h
    (triple_invoker type generic) (triple_invoker type generic) (.invoker _ _) (.invoker _ _)
    (fun hle => ⟨completes_invoker generic hle, completes_invoker generic hle⟩)
    (fun hlt => ⟨fails_invoker generic hlt, fails_invoker generic hlt⟩) fun B B' hB hB' => ?_
  obtain ⟨s, id, hs, hform⟩ := hB.form
  obtain ⟨s', id', hs', hform'⟩ := hB'.form
  obtain ⟨t, ht, hdata⟩ := hB.data
  obtain ⟨t', ht', hdata'⟩ := hB'.data
  refine .of_plain (Except.ok.inj (hB.invoker.symm.trans hB'.invoker))
    (Form.matches_invoker hs hs' hform hform') (by simp [hdata]) ?_
  rw [hdata, hdata']
  exact .bound (ht.trans ht'.symm) (.cons (.literal rfl) .nil)

theorem basicInvoker (h : World.Mirrors M κ w w') (type : Signature) :
    Mirrors M κ w w' (Act.basicInvoker type) (Act.basicInvoker type)
      fun κ' B B' => B.Mirrors κ' B' := by
  refine of_limited type.slots Signature.maxInvokerSlots h
    (triple_basicInvoker type) (triple_basicInvoker type) (.basicInvoker _) (.basicInvoker _)
    (fun hle => ⟨completes_basicInvoker hle, completes_basicInvoker hle⟩)
    (fun hlt => ⟨fails_basicInvoker hlt, fails_basicInvoker hlt⟩) fun B B' hB hB' => ?_
  obtain ⟨hdata, htype, id, hform⟩ := hB
  obtain ⟨hdata', htype', id', hform'⟩ := hB'
  refine .of_plain (Except.ok.inj (htype.symm.trans htype'))
    (Form.matches_basicInvoker hform hform') (by simp [hdata]) ?_
  rw [hdata, hdata']
  exact .simple

theorem directForm (h : World.Mirrors M κ w w') (type : Signature) (kind : DispatchKind)
    (barrier : Bool) :
    Mirrors M κ w w' (Act.directForm type kind barrier) (Act.directForm type kind barrier)
      fun _ f f' => f.Matches f' := by
  refine of_limited type.slots (Signature.maxHandleSlots - if kind = .newSpecial then 1 else 0) h
    (triple_directForm type kind barrier) (triple_directForm type kind barrier) (.directForm _ _ _)
    (.directForm _ _ _)
    (fun hle => ⟨completes_directForm barrier hle, completes_directForm barrier hle⟩)
    (fun hlt => ⟨.first (fails_checkSlots hlt), .first (fails_checkSlots hlt)⟩) fun f f' hf hf' =>
    ?_
  obtain ⟨id, hf⟩ := hf
  obtain ⟨id', hf'⟩ := hf'
  exact Form.matches_direct hf hf'

/-- A direct handle that is made in both worlds at once. -/
theorem direct (h : World.Mirrors M κ w w') (m : Member) :
    Mirrors M κ w w' (Act.direct host m) (Act.direct host m)
      fun κ' B B' => B.Mirrors κ' B' ∧ κ'.level B.id B'.id := by
  refine (ofError h (m.handleType.mapError .signature)).bind
    fun κ₁ v₁ v₁' type type' hreach htype => ?_
  subst htype
  refine .look ?_
  rw [hreach.worlds.initialized]
  -- Of the two identities only the second one, that of the handle, has to be level.
  refine (directForm hreach.worlds _ _ _).bind fun κ₂ v₂ v₂' f f' hreach₂ hf =>
    (freshId hreach₂.worlds id).bind fun κ₃ v₃ v₃' i j hreach₃ hij =>
      (freshId hreach₃.worlds fun _ => trivial).bind fun κ₄ v₄ v₄' k l hreach₄ hkl =>
        .pure hreach₄.worlds ?_
  have hbarrier : f.kind.hasBarrier = f'.kind.hasBarrier := by rw [hf.kind]
  refine ⟨⟨⟨rfl, fun hplain => ?_, fun _ _ _ => hkl.1, fun _ _ _ hne => absurd hbarrier hne,
    fun _ _ _ _ => hbarrier⟩, .direct (hreach₄.le.same hij.1)⟩, hkl.2.1 trivial⟩
  cases hplain

end Act.Mirrors

end HandleForms
