import HandleForms.Proofs.Guard.Honest
import HandleForms.Proofs.Guard.Journal
import HandleForms.Proofs.World.Reachable

/-!
# Guarded worlds

In a guarded world no direct handle lacks a barrier that its class still needs: neither the handles in
fields and in the state of the host nor those that dropped their barrier. The classes that the barrier
tracks are those whose initializer runs or failed, as the journal tells. `Act.Keeps` says that a
computation leads from a guarded world to a later guarded world; every rule for composing computations
is stated from one world on, so that what is known of it can be used.
-/

namespace HandleForms

variable {σ α β ε : Type}

/-! ## Genuine handles -/

/-- A handle that was made by an operation. If its form passes no barrier, its class is initialized. -/
structure HandleOf.Genuine (host : Host σ) (s : σ) (h : Handle) : Prop where
  proper : h.Proper
  guarded : ∀ cls, h.needs? = some cls → h.form.kind.hasBarrier = false →
    host.isInitialized s cls = true

/-- All handles inside the values are genuine. -/
def Value.Genuine (host : Host σ) (s : σ) (values : List Value) : Prop :=
  ∀ h : Handle, .handle h ∈ parts values → h.Genuine host s

namespace Value

variable {host : Host σ} {s t : σ} {values known vs : List Value} {v : Value} {p : Part}

theorem Genuine.later (h : Genuine host s values) (hst : host.Later s t) : Genuine host t values :=
  fun g hg => ⟨(h g hg).proper, fun cls hneeds hfree => hst cls ((h g hg).guarded cls hneeds hfree)⟩

theorem Genuine.drawn (h : Genuine host s known) (hdrawn : DrawnFrom known values) :
    Genuine host s values := fun g hg => h g (hdrawn g hg)

theorem mem_parts_append : p ∈ parts (values ++ vs) ↔ p ∈ parts values ∨ p ∈ parts vs := by
  rw [mem_parts, @mem_parts p values, @mem_parts p vs]
  simp only [List.mem_append, or_and_right, exists_or]

theorem genuine_nil : Genuine host s [] := fun _ hg => by cases hg

theorem genuine_append_iff :
    Genuine host s (values ++ vs) ↔ Genuine host s values ∧ Genuine host s vs := by
  simp only [Genuine, mem_parts_append, or_imp, forall_and]

theorem genuine_cons_iff :
    Genuine host s (v :: values) ↔ Genuine host s [v] ∧ Genuine host s values :=
  @genuine_append_iff _ host s [v] values

theorem genuine_iff_forall_mem : Genuine host s values ↔ ∀ v ∈ values, Genuine host s [v] := by
  induction values with
  | nil => simp [genuine_nil]
  | cons v values ih => rw [genuine_cons_iff, ih, List.forall_mem_cons]

theorem Genuine.of_mem (h : Genuine host s values) (hv : v ∈ values) : Genuine host s [v] :=
  genuine_iff_forall_mem.1 h v hv

/-- Values without handles. -/
theorem genuine_of_parts (h : ∀ g : Handle, .handle g ∉ parts values) : Genuine host s values :=
  fun g hg => absurd hg (h g)

theorem mem_parts_handle {h : Handle} : p ∈ parts [.handle h] ↔ p = .handle h ∨ p ∈ parts h.bound := by
  obtain ⟨id, type, form, data⟩ := h
  cases data <;>
    simp [parts, addPartsOf, addParts, addPartsOfHandle, addPartsOfData, HandleOf.bound]

theorem genuine_handle_iff {h : Handle} :
    Genuine host s [.handle h] ↔ h.Genuine host s ∧ Genuine host s h.bound := by
  constructor
  · intro hh
    exact ⟨hh h (mem_parts_handle.2 (.inl rfl)), fun g hg => hh g (mem_parts_handle.2 (.inr hg))⟩
  · rintro ⟨hh, hbound⟩ g hg
    rcases mem_parts_handle.1 hg with heq | hg
    · obtain rfl := Part.handle.inj heq
      exact hh
    · exact hbound g hg

end Value

/-! ## Guarded worlds -/

/-- The barrier tracks the classes whose initializer runs or has failed, each under a slot of its
own. -/
structure Barrier.Tracks (b : Barrier) (j : Journal σ) (initialized : String → Bool) : Prop where
  slot_lt : ∀ cls slot, b.entries.lookup cls = some slot → slot < b.states.length
  slot_inj : ∀ cls cls' slot, b.entries.lookup cls = some slot → b.entries.lookup cls' = some slot →
    cls = cls'
  runs_iff : ∀ cls, j.Runs cls ↔
    ∃ slot, b.entries.lookup cls = some slot ∧ b.state slot = .running 0
  settled : ∀ cls slot, b.entries.lookup cls = some slot → b.state slot ≠ .running 0 →
    ∃ reason, b.state slot = .failed reason
  started : ∀ cls, b.entries.lookup cls = none → j.Started cls → initialized cls = true

namespace World

variable {host : Host σ} {values : σ → List Value} {w w' w'' : World σ} {h : Handle}

/-- No direct handle lacks a barrier that its class still needs. -/
structure Guarded (host : Host σ) (values : σ → List Value) (w : World σ) : Prop where
  sound : w.Sound
  swapped : ∀ e ∈ w.swapped, host.isInitialized w.host e.1.2.2.cls = true
  state : Value.Genuine host w.host (values w.host)
  fields : ∀ e ∈ w.fields, ∀ f ∈ e.2, Value.Genuine host w.host [f.2]
  tracks : w.barrier.Tracks w.journal (host.isInitialized w.host)
  lawful : w.journal.Lawful host
  /-- What was seen without a barrier has none. -/
  seen : ∀ (h : Handle) f s cls, (.looked h f, s) ∈ w.journal → h.needs? = some cls →
    f.kind.hasBarrier = false → (w.currentForm h).kind.hasBarrier = false

/-- What a computation leaves as it was: classes stay initialized, their barriers stay dropped, and
the initializers that were running or have failed are still tracked. -/
structure Later (host : Host σ) (w w' : World σ) : Prop where
  initialized : host.Later w.host w'.host
  tracked : ∀ cls slot, w.barrier.entries.lookup cls = some slot →
    w'.barrier.entries.lookup cls = some slot
  runs : ∀ cls, w.journal.Runs cls → w'.journal.Runs cls
  swapped : ∀ key, (w.swapped.lookup key).isSome → (w'.swapped.lookup key).isSome

theorem Later.refl (w : World σ) : w.Later host w :=
  ⟨fun _ h => h, fun _ _ h => h, fun _ h => h, fun _ h => h⟩

theorem Later.trans (h : w.Later host w') (h' : w'.Later host w'') : w.Later host w'' where
  initialized cls hcls := h'.initialized cls (h.initialized cls hcls)
  tracked cls slot hslot := h'.tracked cls slot (h.tracked cls slot hslot)
  runs cls hruns := h'.runs cls (h.runs cls hruns)
  swapped key hkey := h'.swapped key (h.swapped key hkey)

theorem Later.genuine {vs : List Value} (h : w.Later host w') (hvs : Value.Genuine host w.host vs) :
    Value.Genuine host w'.host vs :=
  hvs.later h.initialized

/-! ## Current forms -/

theorem currentForm_of_direct {id : Nat} {m : Member} (hdata : h.data = .direct id m) :
    w.currentForm h = (w.swapped.lookup (h.id, h.type, m)).getD h.form := by
  simp only [currentForm, hdata]

theorem Sound.hasBarrier_of_lookup (hw : w.Sound) {key : Nat × Signature × Member} {f : Form}
    (hf : w.swapped.lookup key = some f) : f.kind.hasBarrier = false := by
  obtain ⟨id, hform⟩ := hw.swapped _ (TypeForms.mem_of_lookup hf)
  rw [hasBarrier_direct hform]
  rfl

/-- A handle never returns to its barrier. -/
theorem Guarded.stays_free (hw : w'.Guarded host values) (hlater : w.Later host w') {cls : String}
    (hneeds : h.needs? = some cls) (hfree : (w.currentForm h).kind.hasBarrier = false) :
    (w'.currentForm h).kind.hasBarrier = false := by
  obtain ⟨id, m, hdata, -, -⟩ := HandleOf.needs?_eq_some_iff.1 hneeds
  rw [currentForm_of_direct hdata] at hfree ⊢
  cases hlookup : w'.swapped.lookup (h.id, h.type, m) with
  | some f => exact hw.sound.hasBarrier_of_lookup hlookup
  | none =>
    have hnone : w.swapped.lookup (h.id, h.type, m) = none := by
      rw [← Option.not_isSome_iff_eq_none]
      intro hsome
      have hsome' := hlater.swapped _ hsome
      simp [hlookup] at hsome'
    rwa [hnone] at hfree

/-- A genuine handle has a form without a barrier only if its class is initialized. -/
theorem Guarded.initialized_of_free (hw : w.Guarded host values) (hh : h.Genuine host w.host)
    {cls : String} (hneeds : h.needs? = some cls)
    (hfree : (w.currentForm h).kind.hasBarrier = false) : host.isInitialized w.host cls = true := by
  obtain ⟨id, m, hdata, -, rfl⟩ := HandleOf.needs?_eq_some_iff.1 hneeds
  rw [currentForm_of_direct hdata] at hfree
  cases hlookup : w.swapped.lookup (h.id, h.type, m) with
  | some f => exact hw.swapped _ (TypeForms.mem_of_lookup hlookup)
  | none =>
    rw [hlookup] at hfree
    exact hh.guarded _ hneeds hfree

/-! ## What has no part in it -/

/-- The worlds differ in nothing that a guarded world speaks of. -/
structure Alike (w w' : World σ) : Prop where
  host : w'.host = w.host
  barrier : w'.barrier = w.barrier
  swapped : w'.swapped = w.swapped
  fields : w'.fields = w.fields
  journal : w'.journal = w.journal

theorem OnlyShares.alike (h : w.OnlyShares w') : w.Alike w' := by
  rw [OnlyShares] at h
  constructor <;> rw [h]

theorem alike_withFrames (w : World σ) (fs : List Frame) : w.Alike (w.withFrames fs) :=
  ⟨rfl, rfl, rfl, rfl, rfl⟩

theorem Alike.currentForm (h : w.Alike w') : w'.currentForm = w.currentForm := by
  funext g
  simp only [World.currentForm, h.swapped]

theorem Alike.later (h : w.Alike w') : w.Later host w' where
  initialized cls hcls := by rwa [h.host]
  tracked cls slot hslot := by rwa [h.barrier]
  runs cls hruns := by rwa [h.journal]
  swapped key hkey := by rwa [h.swapped]

theorem Guarded.of_alike (hw : w.Guarded host values) (h : w.Alike w') (hsound : w'.Sound) :
    w'.Guarded host values where
  sound := hsound
  swapped := by rw [h.swapped, h.host]; exact hw.swapped
  state := by rw [h.host]; exact hw.state
  fields := by rw [h.fields, h.host]; exact hw.fields
  tracks := by rw [h.barrier, h.journal, h.host]; exact hw.tracks
  lawful := by rw [h.journal]; exact hw.lawful
  seen := by rw [h.journal, h.currentForm]; exact hw.seen

theorem Guarded.withFrames (hw : w.Guarded host values) (fs : List Frame) :
    (w.withFrames fs).Guarded host values :=
  hw.of_alike (w.alike_withFrames fs) (hw.sound.of_eq rfl rfl rfl)

end World

end HandleForms
