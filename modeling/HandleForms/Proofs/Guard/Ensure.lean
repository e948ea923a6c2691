import HandleForms.Proofs.Barrier.Steps
import HandleForms.Proofs.Guard.Script

/-!
# Passing the class barrier keeps worlds guarded

In a guarded world a call for a class that is not initialized finds its initializer running, finds
that it failed, or runs it. The initializer is then tracked until it ends, and is put down as started
and as ended, so at no time two of a class are under way (`Act.keeps_ensure`).
-/

namespace HandleForms

variable {σ : Type}

/-- A call at the class barrier in one thread: what the class and its slot are like decides. -/
theorem Act.ensure_apply (host : Host σ) (re : Reentry σ) (cls : String) (w : World σ) :
    Act.ensure host re cls w =
      if host.isInitialized w.host cls then (.ok .done, w) else
      let slot := (w.barrier.enter cls).1
      let looked := (w.barrier.enter cls).2.inspect slot 0 false
      let v : World σ := { w with barrier := looked.2 }
      match looked.1 with
      | .answer (.ok status) => (.ok status, v)
      | .answer (.error reason) => (.error (.error (.classInitFailed cls reason)), v)
      | .wait => (.error (.violation .neverReady), v)
      | .remove => (.ok .done, { v with barrier := v.barrier.remove cls })
      | .run =>
        let ran := runInitializer host re cls v
        let b := ran.2.barrier.settle slot ran.1
        match ran.1 with
        | .ok () => (.ok .done, { ran.2 with barrier := b.remove cls })
        | .error stop => (.error (stop.map (.classInitFailed cls)), { ran.2 with barrier := b }) := by
  have hbind : ∀ {α β : Type} (x : StateM (World σ) α) (k : α → StateM (World σ) β) (w : World σ),
      (x >>= k) w = k (x w).1 (x w).2 := fun _ _ _ => rfl
  have hlift : ∀ {α : Type} (x : StateM (World σ) α) (k : α → Act σ InitStatus) (w : World σ),
      ((liftM x : Act σ α) >>= k) w = k (x w).1 (x w).2 := fun _ _ _ => rfl
  have hpure : ∀ {α : Type} (a : α) (w : World σ), (pure a : StateM (World σ) α) w = (a, w) :=
    fun _ _ => rfl
  have hget : ∀ w : World σ, (get : StateM (World σ) _) w = (w, w) := fun _ => rfl
  have hmodify : ∀ (f : World σ → World σ) w, (modify f : StateM (World σ) PUnit) w = (⟨⟩, f w) :=
    fun _ _ => rfl
  have hite : ∀ {α : Type} {p : Prop} [Decidable p] (x y : StateM (World σ) α) w,
      (if p then x else y) w = if p then x w else y w := fun x y w => by split <;> rfl
  unfold Act.ensure Barrier.ensure
  cases hinit : host.isInitialized w.host cls with
  | true =>
    simp only [hlift, hbind, hget, hpure, hite, hinit, if_true]
    rfl
  | false =>
    -- The host is asked twice in the same state, so the slot is looked at as uninitialized.
    simp only [hlift, hbind, hget, hpure, hmodify, hite, hinit, Bool.false_eq_true, if_false, ite_self]
    rcases (w.barrier.enter cls).2.inspect (w.barrier.enter cls).1 0 false with
      ⟨(_ | _) | _ | _ | _, b⟩
    case run =>
      simp only [hbind, hget, hpure]
      rcases runInitializer host re cls { w with barrier := b } with ⟨_ | _, v⟩ <;> rfl
    all_goals rfl

namespace Barrier

variable {b : Barrier} {j : Journal σ} {initialized : String → Bool} {cls : String} {slot : Nat} {s : σ}

/-- Claims a new slot for a class. -/
def claim (b : Barrier) (cls : String) : Barrier :=
  ⟨(cls, b.states.length) :: b.entries, b.states ++ [.running 0]⟩

/-- Puts down how the initializer of a class ended. -/
def conclude (b : Barrier) (cls : String) (slot : Nat) (outcome : Except (Stop String) Unit) : Barrier :=
  match outcome with
  | .ok () => (b.settle slot outcome).remove cls
  | .error _ => b.settle slot outcome

theorem enter_inspect_of_none (h : b.entries.lookup cls = none) :
    (b.enter cls).1 = b.states.length ∧
      (b.enter cls).2.inspect (b.enter cls).1 0 false = (.run, b.claim cls) := by
  have henter : b.enter cls =
      (b.states.length, ⟨(cls, b.states.length) :: b.entries, b.states ++ [.pending]⟩) := by
    rw [enter, h]
  rw [henter]
  refine ⟨rfl, ?_⟩
  simp [inspect, state, setState, claim]

namespace Tracks

variable (h : b.Tracks j initialized)
include h

/-- A class that gets tracked. -/
theorem claim (hnone : b.entries.lookup cls = none) (hstarted : ¬ j.Started cls)
    (hended : ∀ outcome, ¬ j.Ended cls outcome) :
    (b.claim cls).Tracks ((.initializer cls, s) :: j) initialized := by
  have hlookup : ∀ other, (b.claim cls).entries.lookup other =
      if other = cls then some b.states.length else b.entries.lookup other := by
    intro other
    rw [Barrier.claim, List.lookup_cons]
    by_cases hother : other = cls
    · simp [hother]
    · simp [hother, beq_false_of_ne hother]
  have hold : ∀ {other slot}, b.entries.lookup other = some slot →
      (b.claim cls).state slot = b.state slot := fun hslot => by
    rw [state, state, Barrier.claim, List.getElem?_append_left (h.slot_lt _ _ hslot)]
  have hnew : (b.claim cls).state b.states.length = .running 0 := by
    rw [state, Barrier.claim, List.getElem?_concat_length]
    rfl
  refine ⟨fun other slot hslot => ?_, fun c c' slot hc hc' => ?_, fun other => ?_,
    fun other slot hslot hidle => ?_, fun other hslot hother => ?_⟩
  · rw [hlookup] at hslot
    simp only [Barrier.claim, List.length_append, List.length_singleton]
    split at hslot
    · obtain rfl := Option.some.inj hslot
      omega
    · exact Nat.lt_succ_of_lt (h.slot_lt other slot hslot)
  · rw [hlookup] at hc hc'
    split at hc <;> split at hc'
    · next hcls hcls' => rw [hcls, hcls']
    · next =>
      obtain rfl := Option.some.inj hc
      exact absurd (h.slot_lt c' _ hc') (Nat.lt_irrefl _)
    · next =>
      obtain rfl := Option.some.inj hc'
      exact absurd (h.slot_lt c _ hc) (Nat.lt_irrefl _)
    · exact h.slot_inj c c' slot hc hc'
  · rw [hlookup]
    by_cases hother : other = cls
    · subst hother
      refine iff_of_true ⟨Journal.started_cons.2 (.inl rfl), fun outcome hend => ?_⟩ ?_
      · exact (Journal.ended_cons.1 hend).elim (by simp) (hended outcome)
      · exact ⟨_, if_pos rfl, hnew⟩
    · rw [if_neg hother, Journal.runs_cons (by simpa [HostCall.marks?] using Ne.symm hother), h.runs_iff]
      refine exists_congr fun slot => and_congr_right fun hslot => ?_
      rw [hold hslot]
  · rw [hlookup] at hslot
    split at hslot
    · obtain rfl := Option.some.inj hslot
      exact absurd hnew hidle
    · rw [hold hslot] at hidle ⊢
      exact h.settled other slot hslot hidle
  · rw [hlookup] at hslot
    split at hslot
    · cases hslot
    · next hne =>
      refine h.started other hslot ((Journal.started_cons.1 hother).resolve_left ?_)
      rintro ⟨⟩
      exact hne rfl

/-- The initializer of a class ends. -/
theorem conclude (hslot : b.entries.lookup cls = some slot) {outcome : Except (Stop String) Unit}
    (hinit : outcome = .ok () → initialized cls = true) :
    (b.conclude cls slot outcome).Tracks ((.ended cls outcome, s) :: j) initialized := by
  have hlt := h.slot_lt cls slot hslot
  have hsettled : (b.settle slot outcome).state slot = outcomeState outcome :=
    state_setState_self hlt
  have hother : ∀ {other slot'}, b.entries.lookup other = some slot' → other ≠ cls →
      (b.settle slot outcome).state slot' = b.state slot' := fun hslot' hne =>
    state_setState_of_ne fun heq => hne (h.slot_inj _ _ slot (heq ▸ hslot') hslot)
  have hlen : (b.settle slot outcome).states.length = b.states.length := length_states_setState
  have hruns : ∀ {other}, other ≠ cls →
      (Journal.Runs ((.ended cls outcome, s) :: j) other ↔ j.Runs other) := fun hne =>
    Journal.runs_cons (by simpa [HostCall.marks?] using Ne.symm hne)
  have hended : ¬ Journal.Runs ((.ended cls outcome, s) :: j) cls := fun hruns =>
    hruns.2 outcome (Journal.ended_cons.2 (.inl rfl))
  have hstarted : ∀ {other}, Journal.Started ((.ended cls outcome, s) :: j) other → j.Started other :=
    fun hstarted => (Journal.started_cons.1 hstarted).resolve_left nofun
  cases outcome with
  | ok u =>
    have hlookup : ∀ other, ((b.settle slot (.ok u)).remove cls).entries.lookup other =
        if other = cls then none else b.entries.lookup other := fun _ => lookup_remove
    have hsome : ∀ {other slot'}, ((b.settle slot (.ok u)).remove cls).entries.lookup other =
        some slot' → other ≠ cls ∧ b.entries.lookup other = some slot' := fun hslot' => by
      rw [hlookup] at hslot'
      split at hslot'
      · cases hslot'
      · next hne => exact ⟨hne, hslot'⟩
    refine ⟨fun other slot' hslot' => ?_, fun c c' slot' hc hc' => ?_, fun other => ?_,
      fun other slot' hslot' hidle => ?_, fun other hslot' hother' => ?_⟩
    · exact hlen.symm ▸ h.slot_lt other slot' (hsome hslot').2
    · exact h.slot_inj c c' slot' (hsome hc).2 (hsome hc').2
    · by_cases hne : other = cls
      · subst hne
        refine iff_of_false hended ?_
        rintro ⟨slot', hslot', -⟩
        exact (hsome hslot').1 rfl
      · rw [hruns hne, h.runs_iff, Barrier.conclude, hlookup, if_neg hne]
        exact exists_congr fun slot' => and_congr_right fun hslot' => by rw [← hother hslot' hne]; rfl
    · obtain ⟨hne, hslot'⟩ := hsome hslot'
      have hstate := hother hslot' hne
      exact (show (b.settle slot (.ok u)).state slot' = _ from hstate) ▸
        h.settled other slot' hslot' (hstate ▸ hidle)
    · rw [Barrier.conclude, hlookup] at hslot'
      split at hslot'
      · next heq => exact heq ▸ hinit rfl
      · exact h.started other hslot' (hstarted hother')
  | error stop =>
    obtain ⟨reason, hreason⟩ : ∃ reason, outcomeState (.error stop) = .failed reason := by
      cases stop <;> exact ⟨_, rfl⟩
    refine ⟨fun other slot' hslot' => hlen.symm ▸ h.slot_lt other slot' hslot', h.slot_inj,
      fun other => ?_, fun other slot' hslot' hidle => ?_, fun other hslot' hother' =>
      h.started other hslot' (hstarted hother')⟩
    · by_cases hne : other = cls
      · subst hne
        refine iff_of_false hended ?_
        rintro ⟨slot', hslot', hstate⟩
        obtain rfl := Option.some.inj (hslot.symm.trans hslot')
        rw [Barrier.conclude, hsettled, hreason] at hstate
        cases hstate
      · rw [hruns hne, h.runs_iff]
        exact exists_congr fun slot' => and_congr_right fun hslot' => by
          rw [← hother hslot' hne]; rfl
    · by_cases hne : other = cls
      · subst hne
        obtain rfl := Option.some.inj (hslot.symm.trans hslot')
        exact ⟨reason, hsettled.trans hreason⟩
      · rw [Barrier.conclude, hother hslot' hne] at hidle ⊢
        exact h.settled other slot' hslot' hidle

end Tracks

end Barrier

/-- What ended was started. -/
theorem Journal.Lawful.started_of_ended {host : Host σ} {j : Journal σ} {cls : String}
    {outcome : Except (Stop String) Unit} (h : j.Lawful host) (hended : j.Ended cls outcome) :
    j.Started cls := by
  obtain ⟨s, hs⟩ := hended
  obtain ⟨later, earlier, rfl⟩ := List.append_of_mem hs
  obtain ⟨⟨t, ht⟩, -⟩ := h.permits.closes cls outcome rfl
  exact ⟨t, List.mem_append_right _ (List.mem_cons_of_mem _ ht)⟩

namespace World

variable {host : Host σ} {values : σ → List Value} {w v : World σ} {cls : String} {slot : Nat}
  {outcome : Except (Stop String) Unit}

/-- A class that is neither initialized nor tracked. -/
structure Unclaimed (host : Host σ) (w : World σ) (cls : String) : Prop where
  initialized : host.isInitialized w.host cls = false
  lookup : w.barrier.entries.lookup cls = none

theorem Guarded.not_started (hw : w.Guarded host values) (hcls : w.Unclaimed host cls) :
    ¬ w.journal.Started cls := fun hstarted => by
  have hinit := hw.tracks.started cls hcls.lookup hstarted
  rw [hcls.initialized] at hinit
  cases hinit

/-- The world in which the initializer of a class starts. -/
def claim (w : World σ) (cls : String) : World σ :=
  ({ w with barrier := w.barrier.claim cls } : World σ).push (.initializer cls)

theorem Guarded.claim (hw : w.Guarded host values) (hcls : w.Unclaimed host cls) :
    (w.claim cls).Guarded host values := by
  have hstarted := hw.not_started hcls
  have hended : ∀ outcome, ¬ w.journal.Ended cls outcome := fun outcome hended =>
    hstarted (hw.lawful.started_of_ended hended)
  refine ⟨hw.sound.of_eq rfl rfl rfl, hw.swapped, hw.state, hw.fields,
    hw.tracks.claim hcls.lookup hstarted hended,
    ⟨⟨fun _ h => (by cases h), ?_, by simp, by simp⟩, hw.lawful⟩, ?_⟩
  · rintro cls ⟨⟩
    exact hstarted
  · intro h f s cls' hmem
    exact hw.seen h f s cls' ((List.mem_cons.1 hmem).resolve_left (by simp))

theorem Guarded.later_claim (hw : w.Guarded host values) (hcls : w.Unclaimed host cls) :
    w.Later host (w.claim cls) where
  initialized _ h := h
  tracked other slot hslot := by
    have hne : other ≠ cls := by
      rintro rfl
      rw [hcls.lookup] at hslot
      cases hslot
    show List.lookup other ((cls, _) :: w.barrier.entries) = some slot
    rw [List.lookup_cons, beq_false_of_ne hne]
    exact hslot
  runs other hruns := by
    refine (Journal.runs_cons fun heq => ?_).2 hruns
    obtain rfl := Option.some.inj heq
    exact hw.not_started hcls hruns.1
  swapped _ h := h

/-- The class whose initializer starts is running and tracked. -/
theorem Guarded.runs_claim (hw : w.Guarded host values) (hcls : w.Unclaimed host cls) :
    (w.claim cls).journal.Runs cls ∧
      (w.claim cls).barrier.entries.lookup cls = some w.barrier.states.length := by
  refine ⟨⟨Journal.started_cons.2 (.inl rfl), fun outcome hended => ?_⟩, List.lookup_cons_self⟩
  refine hw.not_started hcls (hw.lawful.started_of_ended ((Journal.ended_cons.1 hended).resolve_left ?_))
  nofun

/-- The world after the initializer of a class ended. -/
def conclude (v : World σ) (cls : String) (slot : Nat) (outcome : Except (Stop String) Unit) : World σ :=
  { v.push (.ended cls outcome) with barrier := v.barrier.conclude cls slot outcome }

theorem Guarded.conclude (hv : v.Guarded host values) (hruns : v.journal.Runs cls)
    (hslot : v.barrier.entries.lookup cls = some slot)
    (hinit : outcome = .ok () → host.isInitialized v.host cls = true) :
    (v.conclude cls slot outcome).Guarded host values := by
  refine ⟨hv.sound.of_eq rfl rfl rfl, hv.swapped, hv.state, hv.fields,
    hv.tracks.conclude hslot hinit, ⟨⟨nofun, nofun, ?_, nofun⟩, hv.lawful⟩, ?_⟩
  · rintro cls outcome ⟨⟩
    exact hruns
  · intro h f s cls' hmem
    exact hv.seen h f s cls' ((List.mem_cons.1 hmem).resolve_left nofun)

/-- From where the class was not yet claimed, its end is later. -/
theorem later_conclude (hw : w.Guarded host values) (hcls : w.Unclaimed host cls)
    (hlater : w.Later host v) : w.Later host (v.conclude cls slot outcome) where
  initialized := hlater.initialized
  tracked other slot' hslot := by
    have hne : other ≠ cls := by
      rintro rfl
      rw [hcls.lookup] at hslot
      cases hslot
    have hold := hlater.tracked other slot' hslot
    cases outcome with
    | ok u => exact Barrier.lookup_remove.trans ((if_neg hne).trans hold)
    | error stop => exact hold
  runs other hruns := by
    refine (Journal.runs_cons fun heq => ?_).2 (hlater.runs other hruns)
    obtain rfl := Option.some.inj heq
    exact hw.not_started hcls hruns.1
  swapped := hlater.swapped

end World

namespace Act

variable {host : Host σ} {values : σ → List Value} {re : Reentry σ} {w : World σ} {cls : String}

/-- Running the initializer of a class that nobody claimed. -/
theorem keeps_initializer (hhost : host.Honest values) (hre : re.Keeps host values)
    (hw : w.Guarded host values) (hcls : w.Unclaimed host cls) :
    ∃ v outcome, runInitializer host re cls { w with barrier := w.barrier.claim cls } =
        (outcome, v.push (.ended cls outcome)) ∧
      v.Guarded host values ∧ (w.claim cls).Later host v ∧
      (outcome = .ok () → host.isInitialized v.host cls = true) := by
  have hclaim := hw.claim hcls
  have hrun := keeps_script hre [] hclaim Value.genuine_nil (hhost.initializer cls _)
  refine ⟨_, _, rfl, hrun.guarded, hrun.later, fun hok => ?_⟩
  have hanswer : ∀ r, initializerEnd r = .ok () → r = .ok (.ok ()) := by
    rintro ((_ | _) | _ | _) hr <;> cases hr
    rfl
  obtain ⟨known', -, hpost⟩ := hrun.answer _ (hanswer _ hok)
  exact hpost rfl

/-- What is tracked answers a call of the thread at once. -/
theorem ensure_of_tracked {slot : Nat} (hinit : host.isInitialized w.host cls = false)
    (hslot : w.barrier.entries.lookup cls = some slot) :
    (w.barrier.state slot = .running 0 → Act.ensure host re cls w = (.ok .reentrant, w)) ∧
      ∀ reason, w.barrier.state slot = .failed reason →
        Act.ensure host re cls w = (.error (.error (.classInitFailed cls reason)), w) := by
  have henter : w.barrier.enter cls = (slot, w.barrier) := by rw [Barrier.enter, hslot]
  rw [ensure_apply, hinit, if_neg Bool.false_ne_true, henter]
  constructor
  · intro hstate
    simp only [Barrier.inspect, hstate, if_true]
  · intro reason hstate
    simp only [Barrier.inspect, hstate]

/-- A call that passes because the initializer is running changes nothing. -/
theorem ensure_reentrant {w' : World σ} (h : Act.ensure host re cls w = (.ok .reentrant, w')) :
    w' = w := by
  rw [ensure_apply] at h
  split at h
  · cases h
  dsimp only at h
  cases hslot : w.barrier.entries.lookup cls with
  | none =>
    rw [(Barrier.enter_inspect_of_none hslot).2] at h
    dsimp only at h
    split at h <;> cases h
  | some slot =>
    have henter : w.barrier.enter cls = (slot, w.barrier) := by rw [Barrier.enter, hslot]
    rw [henter] at h
    cases hstate : w.barrier.state slot with
    | running owner =>
      simp only [Barrier.inspect, hstate] at h
      by_cases howner : owner = 0
      · rw [if_pos howner] at h
        exact (Prod.mk.inj h).2.symm
      · rw [if_neg howner] at h
        cases h
    | pending =>
      simp only [Barrier.inspect, hstate, Bool.false_eq_true, if_false] at h
      split at h <;> cases h
    | _ =>
      simp only [Barrier.inspect, hstate] at h
      cases h

/-- A class that nobody claimed gets initialized, or fails. -/
theorem ensure_of_unclaimed (hcls : w.Unclaimed host cls) {v : World σ}
    {outcome : Except (Stop String) Unit}
    (hran : runInitializer host re cls { w with barrier := w.barrier.claim cls } =
      (outcome, v.push (.ended cls outcome))) :
    Act.ensure host re cls w =
      ((outcome.map fun _ => .done).mapError fun stop => stop.map (.classInitFailed cls),
        v.conclude cls w.barrier.states.length outcome) := by
  obtain ⟨hslot, hinspect⟩ := Barrier.enter_inspect_of_none hcls.lookup
  rw [ensure_apply, hcls.initialized, if_neg Bool.false_ne_true]
  dsimp only
  rw [hinspect, hslot]
  dsimp only
  rw [hran]
  cases outcome <;> rfl

/-- While its initializer runs, a call for a class passes and changes nothing. -/
theorem ensure_of_runs (hw : w.Guarded host values) (hinit : host.isInitialized w.host cls = false)
    (hruns : w.journal.Runs cls) : Act.ensure host re cls w = (.ok .reentrant, w) := by
  obtain ⟨slot, hslot, hstate⟩ := (hw.tracks.runs_iff cls).1 hruns
  exact (ensure_of_tracked hinit hslot).1 hstate

/-- Passing the class barrier keeps a guarded world guarded. Once it is passed the class is
initialized, unless its own initializer is running. -/
theorem keeps_ensure (hhost : host.Honest values) (hre : re.Keeps host values)
    (hw : w.Guarded host values) (cls : String) :
    Keeps host values w (Act.ensure host re cls) fun status w' =>
      match status with
      | .done => host.isInitialized w'.host cls = true
      | .reentrant => w'.journal.Runs cls := by
  cases hinit : host.isInitialized w.host cls with
  | true =>
    have happly : Act.ensure host re cls w = (.ok .done, w) := by
      rw [ensure_apply, hinit, if_pos rfl]
    exact ⟨by rwa [happly], by rw [happly]; exact .refl w, fun status hstatus => by
      rw [happly] at hstatus ⊢
      obtain rfl := Except.ok.inj hstatus
      exact hinit⟩
  | false =>
    cases hslot : w.barrier.entries.lookup cls with
    | some slot =>
      obtain ⟨hreentrant, hfailed⟩ := @ensure_of_tracked _ host re w cls slot hinit hslot
      by_cases hstate : w.barrier.state slot = .running 0
      · have happly := hreentrant hstate
        refine ⟨by rwa [happly], by rw [happly]; exact .refl w, fun status hstatus => ?_⟩
        rw [happly] at hstatus ⊢
        obtain rfl := Except.ok.inj hstatus
        exact (hw.tracks.runs_iff cls).2 ⟨slot, hslot, hstate⟩
      · obtain ⟨reason, hreason⟩ := hw.tracks.settled cls slot hslot hstate
        have happly := hfailed reason hreason
        exact ⟨by rwa [happly], by rw [happly]; exact .refl w, fun status hstatus => by
          rw [happly] at hstatus
          cases hstatus⟩
    | none =>
      have hcls : w.Unclaimed host cls := ⟨hinit, hslot⟩
      obtain ⟨v, outcome, hran, hv, hlater, hok⟩ := keeps_initializer hhost hre hw hcls
      obtain ⟨hruns, htracked⟩ := hw.runs_claim hcls
      have happly := ensure_of_unclaimed hcls hran
      have hlater' := (hw.later_claim hcls).trans hlater
      refine ⟨?_, ?_, fun status hstatus => ?_⟩
      · rw [happly]
        exact hv.conclude (hlater.runs cls hruns) (hlater.tracked cls _ htracked) hok
      · rw [happly]
        exact World.later_conclude hw hcls hlater'
      · rw [happly] at hstatus ⊢
        cases outcome with
        | ok u =>
          obtain rfl := Except.ok.inj hstatus
          exact hok rfl
        | error stop => cases hstatus

end Act

end HandleForms
