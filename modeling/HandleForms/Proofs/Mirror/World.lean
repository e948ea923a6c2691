import HandleForms.Proofs.Edit.Transparency
import HandleForms.Proofs.Mirror.Value
import HandleForms.Proofs.World.Triple

/-!
# Worlds that mirror each other

Two worlds mirror each other when the same host code would find the same in both: the host is in
states that stand for each other, paired objects have the same fields, the same classes are tracked,
and handles that are level have both dropped their barrier or both kept it. Caches, retainers,
identities, frames and limits may differ. `Act.Mirrors` says of two computations in such worlds that
they end in the same way in worlds that mirror each other again, with the same calls of the host on
the way, unless one of them is cut off because host code and forms call each other too deeply.
-/

namespace HandleForms

variable {σ α β γ δ ε : Type}

/-! ## Barriers -/

namespace Barrier

/-- Each tracked class has a slot of its own: its initializer is running or has failed. -/
structure Tidy (b : Barrier) : Prop where
  slot_lt : ∀ {cls slot}, b.entries.lookup cls = some slot → slot < b.states.length
  slot_inj : ∀ {cls cls' slot}, b.entries.lookup cls = some slot →
    b.entries.lookup cls' = some slot → cls = cls'
  settled : ∀ {cls slot}, b.entries.lookup cls = some slot →
    b.state slot = .running 0 ∨ ∃ reason, b.state slot = .failed reason

/-- No class gets a slot that was there before. -/
structure Grows (b b' : Barrier) : Prop where
  length_le : b.states.length ≤ b'.states.length
  lookup_old : ∀ {cls slot}, b'.entries.lookup cls = some slot → slot < b.states.length →
    b.entries.lookup cls = some slot

theorem tidy_empty : Barrier.empty.Tidy := ⟨nofun, nofun, nofun⟩

theorem Grows.refl (b : Barrier) : b.Grows b := ⟨Nat.le_refl _, fun h _ => h⟩

theorem Grows.trans {b b' b'' : Barrier} (h : b.Grows b') (h' : b'.Grows b'') : b.Grows b'' :=
  ⟨Nat.le_trans h.length_le h'.length_le, fun hslot hlt =>
    h.lookup_old (h'.lookup_old hslot (Nat.lt_of_lt_of_le hlt h.length_le)) hlt⟩

end Barrier

/-! ## Outcomes -/

/-- The same reason to stop; the identity of a malformed form is forgotten. -/
def Stop.plain : Stop ε → Stop ε
  | .error e => .error e
  | .violation v => .violation v.plain

namespace Outcome

/-- Host code and forms called each other too deeply. -/
def Cut (o : Except (Stop ε) α) : Prop := o = .error (.violation .reentry)

/-- Related answers, or the same reason to stop. -/
inductive Mirrors (Q : α → β → Prop) : Except (Stop ε) α → Except (Stop ε) β → Prop
  | ok {a : α} {b : β} (h : Q a b) : Mirrors Q (.ok a) (.ok b)
  | stop {s s' : Stop ε} (h : s.plain = s'.plain) : Mirrors Q (.error s) (.error s')

namespace Mirrors

variable {Q : α → β → Prop} {o : Except (Stop ε) α} {o' : Except (Stop ε) β}

theorem imp {R : α → β → Prop} (h : Mirrors Q o o') (himp : ∀ a b, Q a b → R a b) :
    Mirrors R o o' := by
  cases h with
  | ok h => exact .ok (himp _ _ h)
  | stop h => exact .stop h

/-- The same for the second answer. -/
theorem and_right {P : β → Prop} (h : Mirrors Q o o') (hP : ∀ b, o' = .ok b → P b) :
    Mirrors (fun a b => Q a b ∧ P b) o o' := by
  cases h with
  | ok h => exact .ok ⟨h, hP _ rfl⟩
  | stop h => exact .stop h

theorem and_left {P : α → Prop} (h : Mirrors Q o o') (hP : ∀ a, o = .ok a → P a) :
    Mirrors (fun a b => Q a b ∧ P a) o o' := by
  cases h with
  | ok h => exact .ok ⟨h, hP _ rfl⟩
  | stop h => exact .stop h

/-- What needs no identity. -/
theorem of_eq {o : Except (Stop ε) α} : Mirrors Eq o o := by
  cases o with
  | ok a => exact .ok rfl
  | error s => exact .stop rfl

end Mirrors

end Outcome

/-- The host was called in the same way. -/
inductive HostCall.Mirrors (κ : Pairing) : HostCall → HostCall → Prop
  | primitive (name : String) {vs vs' : List Value} (hvs : Value.MirrorAll κ vs vs') :
      Mirrors κ (.primitive name vs) (.primitive name vs')
  | member (kind : DispatchKind) (m : Member) {vs vs' : List Value}
      (hvs : Value.MirrorAll κ vs vs') :
      Mirrors κ (.member kind m vs) (.member kind m vs')
  | allocate (cls : String) : Mirrors κ (.allocate cls) (.allocate cls)
  | initializer (cls : String) : Mirrors κ (.initializer cls) (.initializer cls)
  | ended (cls : String) {o o' : Except (Stop String) Unit} (ho : Outcome.Mirrors Eq o o') :
      Mirrors κ (.ended cls o) (.ended cls o')
  | looked {h h' : Handle} {f f' : Form} (hh : (Value.handle h).Mirrors κ (.handle h'))
      (hf : f.kind = f'.kind) : Mirrors κ (.looked h f) (.looked h' f')

theorem HostCall.Mirrors.mono {κ κ' : Pairing} {c c' : HostCall} (hc : c.Mirrors κ c')
    (hκ : κ ≤ κ') :
    c.Mirrors κ' c' := by
  cases hc with
  | primitive name hvs => exact .primitive name (Value.MirrorAll.mono hvs hκ)
  | member kind m hvs => exact .member kind m (Value.MirrorAll.mono hvs hκ)
  | allocate cls => exact .allocate cls
  | initializer cls => exact .initializer cls
  | ended cls ho => exact .ended cls ho
  | looked hh hf => exact .looked (hh.mono hκ) hf

/-! ## Worlds -/

/-- Which states of a host stand for each other, and whether runs go in lockstep. Then they hit
their limits together, and no direct handle drops its barrier alone. -/
structure Host.Mirroring (host : Host σ) where
  lockstep : Prop
  State : Pairing → σ → σ → Prop
  mono : ∀ {κ κ' s s'}, State κ s s' → κ ≤ κ' → State κ' s s'
  /-- What a state holds mirrors itself if the identities in it do. -/
  self : ∀ {κ κ' s}, State κ s s → (∀ i, κ.same i i → κ'.same i i) → State κ' s s
  initialized : ∀ {κ s s'}, State κ s s' →
    ∀ cls, host.isInitialized s' cls = host.isInitialized s cls

/-- Runs go in lockstep, or not. -/
def Host.Mirroring.inLockstep {host : Host σ} (M : host.Mirroring) (lockstep : Prop) :
    host.Mirroring :=
  { M with lockstep }

/-- A world that is sound, and in which nothing is known of an identity not given out yet. -/
structure World.Tame (w : World σ) : Prop where
  sound : w.Sound
  derived : w.context.HoldsDerived
  barrier : w.barrier.Tidy
  fields : ∀ e ∈ w.fields, e.1 < w.nextId
  swapped : ∀ e ∈ w.swapped, e.1.1 < w.nextId

/-- The fields have the same names and mirrored values. -/
abbrev World.MirrorFields (κ : Pairing) : List (String × Value) → List (String × Value) → Prop :=
  List.Forall₂ fun f f' => f.1 = f'.1 ∧ f.2.Mirrors κ f'.2

/-- Host code finds the same in both worlds. -/
structure World.Mirrors {host : Host σ} (M : host.Mirroring) (κ : Pairing)
    (w w' : World σ) : Prop where
  tame : w.Tame
  tame' : w'.Tame
  left : κ.left ≤ w.nextId
  right : κ.right ≤ w'.nextId
  barrier : w'.barrier = w.barrier
  state : M.State κ w.host w'.host
  limits : M.lockstep → w'.limits = w.limits
  level_of_same : M.lockstep → ∀ {i j}, κ.same i j → κ.level i j
  ready : ∀ cls, κ.ready cls ↔ host.isInitialized w.host cls = true
  swapped : ∀ e ∈ w.swapped, κ.ready e.1.2.2.cls
  swapped' : ∀ e ∈ w'.swapped, κ.ready e.1.2.2.cls
  level : ∀ {i j}, κ.level i j → ∀ type m,
    (w.swapped.lookup (i, type, m)).isSome = (w'.swapped.lookup (j, type, m)).isSome
  fields : ∀ {i j}, κ.same i j → MirrorFields κ (w.fieldsOf i) (w'.fieldsOf j)

variable {host : Host σ} {M : host.Mirroring} {κ κ' κ'' : Pairing} {w w' v v' u u' : World σ}

/-- What two computations lead to: later worlds that mirror each other, with the same calls of the
host on the way. -/
structure World.Reach (M : host.Mirroring) (κ κ' : Pairing) (w w' v v' : World σ) : Prop where
  le : κ ≤ κ'
  worlds : World.Mirrors M κ' v v'
  barrier : w.barrier.Grows v.barrier
  calls : ∃ new new', v.journal = new ++ w.journal ∧ v'.journal = new' ++ w'.journal ∧
    List.Forall₂ (fun e e' => e.1.Mirrors κ' e'.1) new new'

namespace World

/-- A world that mirrors itself does so in lockstep or not, with handles that are level or not. -/
theorem Mirrors.diagonal (h : World.Mirrors M κ w w) (lockstep : Prop) :
    World.Mirrors (M.inLockstep lockstep) (κ.diagonal lockstep) w w where
  tame := h.tame
  tame' := h.tame
  left := h.left
  right := h.right
  barrier := rfl
  state := M.self h.state fun _ hi => ⟨hi, rfl⟩
  limits _ := rfl
  level_of_same hstep _ _ hij := ⟨hstep, hij⟩
  ready := h.ready
  swapped := h.swapped
  swapped' := h.swapped'
  level := by
    rintro i _ ⟨-, -, rfl⟩ type m
    rfl
  fields := by
    rintro i _ ⟨hi, rfl⟩
    exact List.forall₂_same.2 fun f hf =>
      ⟨rfl, ((List.forall₂_same.1 (h.fields hi)) f hf).2.self fun _ hi => ⟨hi, rfl⟩⟩

/-- Identities that were given out need not be paired. -/
theorem Mirrors.upTo (h : World.Mirrors M κ w w') {left right : Nat} (hleft : κ.left ≤ left)
    (hright : κ.right ≤ right) (hle : left ≤ w.nextId) (hle' : right ≤ w'.nextId) :
    World.Mirrors M (κ.upTo left right hleft hright) w w' :=
  { h with
    left := hle
    right := hle'
    state := M.mono h.state (κ.le_upTo hleft hright)
    fields := fun hij => (h.fields hij).imp fun _ _ hf =>
      ⟨hf.1, hf.2.mono (κ.le_upTo hleft hright)⟩ }

theorem Mirrors.initialized (h : World.Mirrors M κ w w') (cls : String) :
    host.isInitialized w'.host cls = host.isInitialized w.host cls :=
  M.initialized h.state cls

/-- One of two direct handles may have dropped its barrier only if the class is initialized. -/
theorem Mirrors.ready_currentForm (hw : World.Mirrors M κ w w') {h h' : Handle} {i j : Nat}
    {m : Member} (hdata : h.data = .direct i m) (hdata' : h'.data = .direct j m)
    (hready : h.form.kind.hasBarrier ≠ h'.form.kind.hasBarrier → κ.ready m.cls)
    (hne : (w.currentForm h).kind.hasBarrier ≠ (w'.currentForm h').kind.hasBarrier) :
    κ.ready m.cls := by
  simp only [currentForm, hdata, hdata'] at hne
  -- Only direct handles of initialized classes have another form than they were made with.
  cases hlookup : w.swapped.lookup (h.id, h.type, m) with
  | some f => exact hw.swapped _ (TypeForms.mem_of_lookup hlookup)
  | none =>
    cases hlookup' : w'.swapped.lookup (h'.id, h'.type, m) with
    | some f => exact hw.swapped' _ (TypeForms.mem_of_lookup hlookup')
    | none =>
      rw [hlookup, hlookup'] at hne
      exact hready hne

/-- Level handles have dropped their barriers, or both pass them. -/
theorem Mirrors.hasBarrier_of_level (hw : World.Mirrors M κ w w') {h h' : Handle} {i j : Nat}
    {m : Member}
    (hdata : h.data = .direct i m) (hdata' : h'.data = .direct j m) (htype : h.type = h'.type)
    (hform : h.form.kind.hasBarrier = h'.form.kind.hasBarrier) (hlevel : κ.level h.id h'.id) :
    (w.currentForm h).kind.hasBarrier = (w'.currentForm h').kind.hasBarrier := by
  have hswap := hw.level hlevel h.type m
  -- A handle that got another form lost its barrier.
  have hdropped : ∀ {w : World σ} {key} {f : Form}, w.Sound → w.swapped.lookup key = some f →
      f.kind.hasBarrier = false := fun hw hlookup => by
    obtain ⟨id, hform⟩ := hw.swapped _ (TypeForms.mem_of_lookup hlookup)
    rw [World.hasBarrier_direct hform, Bool.false_and]
  simp only [currentForm, hdata, hdata', ← htype]
  cases hlookup : w.swapped.lookup (h.id, h.type, m) <;>
    cases hlookup' : w'.swapped.lookup (h'.id, h.type, m) <;>
      simp only [hlookup, hlookup', Option.isSome_none, Option.isSome_some, reduceCtorEq] at hswap
  · exact hform
  · exact (hdropped hw.tame.sound hlookup).trans (hdropped hw.tame'.sound hlookup').symm

namespace Reach

theorem refl (h : World.Mirrors M κ w w') : Reach M κ κ w w' w w' :=
  ⟨le_refl κ, h, .refl _, [], [], rfl, rfl, .nil⟩

theorem trans (h : Reach M κ κ' w w' v v') (h' : Reach M κ' κ'' v v' u u') :
    Reach M κ κ'' w w' u u' := by
  obtain ⟨new, new', hnew, hnew', hcalls⟩ := h.calls
  obtain ⟨more, more', hmore, hmore', hcalls'⟩ := h'.calls
  refine ⟨le_trans h.le h'.le, h'.worlds, h.barrier.trans h'.barrier, more ++ new, more' ++ new',
    ?_, ?_, ?_⟩
  · rw [hmore, hnew, List.append_assoc]
  · rw [hmore', hnew', List.append_assoc]
  -- The calls of the first part still mirror each other later on.
  · exact List.rel_append hcalls' (hcalls.imp fun _ _ hc => hc.mono h'.le)

/-- A step that neither calls the host nor changes the barrier. -/
theorem step (hκ : κ ≤ κ') (h : World.Mirrors M κ' v v') (hbarrier : v.barrier = w.barrier)
    (hjournal : v.journal = w.journal) (hjournal' : v'.journal = w'.journal) :
    Reach M κ κ' w w' v v' :=
  ⟨hκ, h, hbarrier ▸ .refl _, [], [], hjournal, hjournal', .nil⟩

end Reach

end World

/-! ## Computations -/

namespace Act

/-- The computations end in the same way, unless one of them is cut off. -/
def Mirrors (M : host.Mirroring) (κ : Pairing) (w w' : World σ) (x : Act σ α) (x' : Act σ β)
    (Q : Pairing → α → β → Prop) : Prop :=
  Outcome.Cut (x w).1 ∨ Outcome.Cut (x' w').1 ∨
    ∃ κ', World.Reach M κ κ' w w' (x w).2 (x' w').2 ∧ Outcome.Mirrors (Q κ') (x w).1 (x' w').1

namespace Mirrors

variable {x : Act σ α} {x' : Act σ β} {Q : Pairing → α → β → Prop} {k : α → Act σ γ}
  {k' : β → Act σ δ} {R : Pairing → γ → δ → Prop}

theorem imp {Q' : Pairing → α → β → Prop} (h : Mirrors M κ w w' x x' Q)
    (himp : ∀ κ', κ ≤ κ' → ∀ a b, Q κ' a b → Q' κ' a b) : Mirrors M κ w w' x x' Q' := by
  refine h.imp_right (.imp_right ?_)
  rintro ⟨κ', hreach, ho⟩
  exact ⟨κ', hreach, ho.imp (himp κ' hreach.le)⟩

theorem pure {a : α} {b : β} (h : World.Mirrors M κ w w') (hab : Q κ a b) :
    Mirrors M κ w w' (Pure.pure a) (Pure.pure b) Q :=
  .inr (.inr ⟨κ, .refl h, .ok hab⟩)

theorem ofStop {r : Except (Stop RuntimeError) α} {r' : Except (Stop RuntimeError) β}
    (h : World.Mirrors M κ w w') (hr : Outcome.Mirrors (Q κ) r r') :
    Mirrors M κ w w' (Act.ofStop r) (Act.ofStop r') Q :=
  .inr (.inr ⟨κ, .refl h, hr⟩)

theorem throw (h : World.Mirrors M κ w w') (stop : Stop RuntimeError) :
    Mirrors M κ w w' (MonadExcept.throw stop) (MonadExcept.throw stop) Q :=
  ofStop h (.stop rfl)

theorem ofError (h : World.Mirrors M κ w w') (r : Except RuntimeError α) :
    Mirrors M κ w w' (Act.ofError r) (Act.ofError r) fun _ => Eq :=
  ofStop h .of_eq

theorem ofViolation (h : World.Mirrors M κ w w') (r : Except Violation α) :
    Mirrors M κ w w' (Act.ofViolation r) (Act.ofViolation r) fun _ => Eq :=
  ofStop h .of_eq

/-- The second part starts where the first one ended. -/
theorem bind_at (hx : Mirrors M κ w w' x x' Q)
    (hk : ∀ κ' a b, World.Reach M κ κ' w w' (x w).2 (x' w').2 → (x w).1 = .ok a →
      (x' w').1 = .ok b → Q κ' a b → Mirrors M κ' (x w).2 (x' w').2 (k a) (k' b) R) :
    Mirrors M κ w w' (x >>= k) (x' >>= k') R := by
  unfold Mirrors
  rw [bind_apply, bind_apply]
  rcases hx with hcut | hcut | ⟨κ', hreach, ho⟩
  · rw [hcut]
    exact .inl rfl
  · rw [hcut]
    exact .inr (.inl rfl)
  · generalize hr : (x w).1 = o at ho ⊢
    generalize hr' : (x' w').1 = o' at ho ⊢
    cases ho with
    | stop hs => exact .inr (.inr ⟨κ', hreach, .stop hs⟩)
    | ok hab =>
      refine (hk κ' _ _ hreach hr hr' hab).imp_right (.imp_right ?_)
      rintro ⟨κ'', hreach', ho⟩
      exact ⟨κ'', hreach.trans hreach', ho⟩

theorem bind (hx : Mirrors M κ w w' x x' Q)
    (hk : ∀ κ' v v' a b, World.Reach M κ κ' w w' v v' → Q κ' a b →
    Mirrors M κ' v v' (k a) (k' b) R) :
    Mirrors M κ w w' (x >>= k) (x' >>= k') R :=
  hx.bind_at fun κ' a b hreach _ _ => hk κ' _ _ a b hreach

/-- A look at both worlds. -/
theorem look {k : World σ → Act σ γ} {k' : World σ → Act σ δ}
    (h : Mirrors M κ w w' (k w) (k' w') R) :
    Mirrors M κ w w' (get >>= k) (get >>= k') R := h

/-- A check that comes to the same in front of both computations. -/
theorem guarded {p p' : Prop} {_ : Decidable p} {_ : Decidable p'} {y : Act σ PUnit}
    {y' : Act σ PUnit} {k : PUnit → Act σ γ} {k' : PUnit → Act σ δ} (hp : p ↔ p')
    (hy : p → Mirrors M κ w w' y y' fun _ _ _ => False)
    (hk : ¬ p → Mirrors M κ w w' (k ⟨⟩) (k' ⟨⟩) R) :
    Mirrors M κ w w' (if p then y >>= k else k ⟨⟩) (if p' then y' >>= k' else k' ⟨⟩) R := by
  by_cases h : p
  · rw [if_pos h, if_pos (hp.1 h)]
    exact (hy h).bind fun _ _ _ _ _ _ hfalse => hfalse.elim
  · rw [if_neg h, if_neg (hp.not.1 h)]
    exact hk h

/-- What is known of the answers apart. -/
theorem and {P : α → Prop} {P' : β → Prop} (h : Mirrors M κ w w' x x' Q)
    (hP : ∀ a, (x w).1 = .ok a → P a) (hP' : ∀ b, (x' w').1 = .ok b → P' b) :
    Mirrors M κ w w' x x' fun κ' a b => Q κ' a b ∧ P a ∧ P' b := by
  refine h.imp_right (.imp_right ?_)
  rintro ⟨κ', hreach, ho⟩
  exact ⟨κ', hreach, ((ho.and_left hP).and_right hP').imp fun a b h => ⟨h.1.1, h.1.2, h.2⟩⟩

end Mirrors

end Act

/-! ## Frames -/

namespace World

theorem Tame.of_eq (h : w.Tame) (hcontext : v.context = w.context)
    (hswapped : v.swapped = w.swapped)
    (hinvokers : v.invokers = w.invokers) (hbarrier : v.barrier = w.barrier)
    (hfields : v.fields = w.fields) (hnext : w.nextId ≤ v.nextId) : v.Tame where
  sound := h.sound.of_eq hcontext hswapped hinvokers
  derived := hcontext ▸ h.derived
  barrier := hbarrier ▸ h.barrier
  fields e he := Nat.lt_of_lt_of_le (h.fields e (hfields ▸ he)) hnext
  swapped e he := Nat.lt_of_lt_of_le (h.swapped e (hswapped ▸ he)) hnext

/-- Only what host code may find matters, and what is shared as long as it is sound. -/
theorem Mirrors.of_tame (h : World.Mirrors M κ w w') (hv : v.Tame) (hv' : v'.Tame)
    (hnext : w.nextId ≤ v.nextId)
    (hnext' : w'.nextId ≤ v'.nextId) (hhost : v.host = w.host) (hhost' : v'.host = w'.host)
    (hbarrier : v.barrier = w.barrier) (hbarrier' : v'.barrier = w'.barrier)
    (hswapped : v.swapped = w.swapped) (hswapped' : v'.swapped = w'.swapped)
    (hfields : v.fields = w.fields) (hfields' : v'.fields = w'.fields)
    (hlimits : v.limits = w.limits)
    (hlimits' : v'.limits = w'.limits) : World.Mirrors M κ v v' where
  tame := hv
  tame' := hv'
  left := Nat.le_trans h.left hnext
  right := Nat.le_trans h.right hnext'
  barrier := by rw [hbarrier, hbarrier', h.barrier]
  state := by rw [hhost, hhost']; exact h.state
  limits := by rw [hlimits, hlimits']; exact h.limits
  level_of_same := h.level_of_same
  ready := by rw [hhost]; exact h.ready
  swapped := by rw [hswapped]; exact h.swapped
  swapped' := by rw [hswapped']; exact h.swapped'
  level hij := by rw [hswapped, hswapped']; exact h.level hij
  fields hij := by simp only [fieldsOf, hfields, hfields']; exact h.fields hij

/-- The second world is the first one with other things in the caches, and with other things kept
alive. -/
structure Warms (w v : World σ) : Prop where
  tame : v.Tame
  same : v = { w with
    context := v.context, invokers := v.invokers, nextId := v.nextId
    held := v.held, frames := v.frames }
  nextId : w.nextId ≤ v.nextId

theorem Tame.warms (h : w.Tame) : w.Warms w := ⟨h, rfl, Nat.le_refl _⟩

/-- Other things are kept alive. -/
theorem Tame.warms_keeping (h : w.Tame) (held : List Value) (fs : List Frame) :
    w.Warms { w with held, frames := fs } := by
  have htame : ({ w with held, frames := fs } : World σ).Tame :=
    h.of_eq rfl rfl rfl rfl rfl (Nat.le_refl _)
  exact ⟨htame, rfl, Nat.le_refl _⟩

theorem Warms.of_onlyShares (hv : v.Tame) (hshares : w.OnlyShares v) (hnext : w.nextId ≤ v.nextId) :
    w.Warms v := by
  refine ⟨hv, ?_, hnext⟩
  rw [OnlyShares] at hshares
  rw [hshares]

theorem Warms.trans (h : w.Warms v) (h' : v.Warms u) : w.Warms u := by
  refine ⟨h'.tame, ?_, Nat.le_trans h.nextId h'.nextId⟩
  rw [h'.same, h.same]

/-- What is in the caches does not show, and neither does what is kept alive. -/
theorem Reach.of_warms (h : World.Mirrors M κ w w') (hv : w.Warms v) (hv' : w'.Warms v') :
    Reach M κ κ w w' v v' := by
  have hkept : ∀ {w v : World σ}, w.Warms v → v.host = w.host ∧ v.barrier = w.barrier ∧
      v.swapped = w.swapped ∧ v.fields = w.fields ∧ v.limits = w.limits ∧ v.journal = w.journal :=
    fun {w v} hv => by
      rw [hv.same]
      exact ⟨rfl, rfl, rfl, rfl, rfl, rfl⟩
  obtain ⟨hhost, hbarrier, hswapped, hfields, hlimits, hjournal⟩ := hkept hv
  obtain ⟨hhost', hbarrier', hswapped', hfields', hlimits', hjournal'⟩ := hkept hv'
  exact .step (le_refl κ) (h.of_tame hv.tame hv'.tame hv.nextId hv'.nextId hhost hhost' hbarrier
    hbarrier' hswapped hswapped' hfields hfields' hlimits hlimits') hbarrier hjournal hjournal'

theorem Tame.withFrames (h : w.Tame) (fs : List Frame) : (w.withFrames fs).Tame :=
  h.of_eq rfl rfl rfl rfl rfl (Nat.le_refl _)

/-- Frames do not show. -/
theorem Mirrors.withFrames (h : World.Mirrors M κ w w') (fs fs' : List Frame) :
    World.Mirrors M κ (w.withFrames fs) (w'.withFrames fs') :=
  h.of_tame (h.tame.withFrames fs) (h.tame'.withFrames fs') (Nat.le_refl _)
    (Nat.le_refl _) rfl rfl rfl rfl
    rfl rfl rfl rfl rfl rfl

theorem Reach.withFrames {fs fs' gs gs' : List Frame}
    (h : Reach M κ κ' (w.withFrames fs) (w'.withFrames fs') v v') :
    Reach M κ κ' w w' (v.withFrames gs) (v'.withFrames gs') :=
  ⟨h.le, h.worlds.withFrames gs gs', h.barrier, h.calls⟩

end World

theorem Act.Mirrors.withFrame {x : Act σ α} {x' : Act σ β} {Q : Pairing → α → β → Prop}
    (F F' : Frame)
    (hx : Mirrors M κ (w.withFrames (F :: w.frames)) (w'.withFrames (F' :: w'.frames)) x x' Q) :
    Mirrors M κ w w' (Act.withFrame F x) (Act.withFrame F' x') Q := by
  refine hx.imp_right (.imp_right ?_)
  rintro ⟨κ', hreach, ho⟩
  exact ⟨κ', hreach.withFrames, ho⟩

end HandleForms
