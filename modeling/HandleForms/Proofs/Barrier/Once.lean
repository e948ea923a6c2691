import HandleForms.Proofs.Barrier.Stages

/-!
# From stage to stage

Whatever the threads do, a class keeps its stage or goes on to the next one (`Threads.At.next`), and
the open calls stay nested as an initializer nests them (`Threads.Sound.next`). A move of a call
matters for the stage of its own class only; for the other ones the calls and slots stay as they are.
-/

namespace HandleForms

namespace Threads

variable {t t' u : Threads} {thread th : ThreadId} {cls other : String} {p q : CallPhase}
  {c : BarrierCall} {stack outer : List BarrierCall} {e : Event} {slot : Nat} {stage : Stage}

/-- Calls of other threads than the one that runs the initializer stay allowed. -/
theorem Stage.Leads.allows {stage' : Stage} (hleads : stage.Leads stage') (h : stage.Allows th q)
    (hth : ∀ owner r, stage.runner? = some (owner, r) → th ≠ owner) : stage'.Allows th q := by
  cases q with
  | start | enter | inspect => trivial
  | running | settle =>
    obtain rfl := h
    exact absurd rfl (hth th _ rfl)
  | remove =>
    obtain ⟨owner, rfl⟩ := h
    cases hleads
    exact ⟨owner, rfl⟩
  | returned result =>
    rcases result with stop | (_ | _)
    · obtain ⟨owner, slot, reason, rfl, hstop⟩ := h
      cases hleads
      exact ⟨owner, slot, reason, rfl, hstop⟩
    · cases hleads with
      | stay => exact h
      | succeed => trivial
      | claim | finish | fail => exact h.elim
    · obtain ⟨slot, rfl⟩ := h
      exact absurd rfl (hth th _ rfl)

/-! ## The class of a call that moves -/

section

variable (hcalls : t.calls[thread]? = some (⟨cls, p⟩ :: outer)) (h : t.At cls stage)
include h hcalls

theorem At.allows : stage.Allows thread p := h.calls thread p ⟨_, hcalls, .head _⟩

theorem At.holds (hslot : p.slot? = some slot) :
    stage.Holds (t.barrier.entries.lookup cls) slot (t.barrier.state slot) :=
  h.slots slot (.inr ⟨thread, p, ⟨_, hcalls, .head _⟩, hslot⟩)

/-- A move that changes nothing but the phase of the call. -/
theorem At.same (hmove : t.Move thread cls p q t) (hp : t.Idle p) (hq : stage.Allows thread q) :
    (t.setCalls thread (⟨cls, q⟩ :: outer)).At cls stage := by
  refine h.congr (fun th r hr => ?_) (fun th r hr => ?_) rfl (fun _ _ => rfl) .rfl rfl h.results
  · rcases open_of_move hcalls hmove hr with ⟨rfl, heq⟩ | ⟨hr, -⟩
    · obtain ⟨-, rfl⟩ := BarrierCall.mk.inj heq
      refine .inr ⟨hq, fun slot hslot => ?_⟩
      refine (owns_of_move hcalls hmove (.inr ⟨th, r, hr, hslot⟩)).resolve_right fun hnew => ?_
      exact absurd hnew.2.2 (hnew.2.1 ▸ Nat.lt_irrefl _)
    · exact .inl hr
  · by_cases heq : r = p
    · exact .inr (heq ▸ hp)
    · exact .inl (open_move_of_ne hcalls hmove hr fun h => heq (BarrierCall.mk.inj h).2)

end

/-- A slot is made for a class that is not tracked. -/
theorem At.insert (hcalls : t.calls[thread]? = some (⟨cls, .enter⟩ :: outer)) (h : t.At cls stage)
    (hbounded : ∀ slot, t.Owns cls slot → slot < t.barrier.states.length)
    (hslot : t.barrier.entries.lookup cls = none) :
    (setCalls { t with barrier := (t.barrier.enter cls).2 } thread
      (⟨cls, .inspect t.barrier.states.length⟩ :: outer)).At cls stage := by
  have hmove : t.Move thread cls .enter _ _ := .insert hslot
  have hstage : stage.slot? = none := by
    cases hstage : stage.slot? with
    | none => rfl
    | some only => exact absurd ((h.entry only hstage).symm.trans hslot) (by simp)
  have hrunner : stage.runner? = none := by
    cases stage <;> first | rfl | cases hstage
  have hlookup : (t.barrier.enter cls).2.entries.lookup cls = some t.barrier.states.length := by
    rw [Barrier.enter_of_none hslot]
    exact List.lookup_cons_self
  have hnew : (t.barrier.enter cls).2.state t.barrier.states.length = .pending := by
    rw [Barrier.enter_of_none hslot, Barrier.state, List.getElem?_concat_length]
    rfl
  refine ⟨h.starts, h.initialized, fun th r hr => ?_, fun s hs => ?_,
    fun s hs => absurd (hstage.symm.trans hs) (by simp),
    fun th r hr => absurd (hrunner.symm.trans hr) (by simp), fun owner s _ hs => ?_, h.results⟩
  · rcases open_of_move hcalls hmove hr with ⟨rfl, heq⟩ | ⟨hr, -⟩
    · obtain ⟨-, rfl⟩ := BarrierCall.mk.inj heq
      trivial
    · exact h.calls th r hr
  · have hcases : t.Owns cls s ∨ s = t.barrier.states.length :=
      (owns_of_move hcalls hmove hs).imp_right fun h => h.2.1
    rcases hcases with howned | rfl
    · have hholds := h.slots s howned
      have hstate : (t.barrier.enter cls).2.state s = t.barrier.state s :=
        hmove.state_eq (hbounded s howned) fun h => by cases h
      show stage.Holds _ s ((t.barrier.enter cls).2.state s)
      rw [hstate]
      cases stage with
      | fresh => exact absurd (hslot.symm.trans hholds.1) (by simp)
      | done owner => exact hholds
      | _ => cases hstage
    · show stage.Holds ((t.barrier.enter cls).2.entries.lookup cls) _
        ((t.barrier.enter cls).2.state t.barrier.states.length)
      rw [hlookup, hnew]
      cases stage with
      | fresh => exact ⟨rfl, rfl⟩
      | done owner => exact .inl rfl
      | _ => cases hstage
  · obtain rfl : t.barrier.states.length = s := Option.some.inj (hlookup.symm.trans hs)
    exact .inr ⟨hnew, thread, open_move_self hcalls hmove⟩

/-- A call sees, in a slot that was made too late, that the class is initialized. -/
theorem At.recheck (hcalls : t.calls[thread]? = some (⟨cls, .inspect slot⟩ :: outer))
    (h : t.At cls stage) (hbounded : ∀ slot, t.Owns cls slot → slot < t.barrier.states.length)
    (hstate : t.barrier.state slot = .pending) (hi : cls ∈ t.initialized) :
    (setCalls { t with barrier := t.barrier.setState slot .initialized } thread
      (⟨cls, .remove⟩ :: outer)).At cls stage := by
  have hmove : t.Move thread cls (.inspect slot) .remove _ := .recheck hstate hi
  have hholds := h.holds hcalls (rfl : (CallPhase.inspect slot).slot? = some slot)
  rw [hstate] at hholds
  cases stage with
  | fresh => exact (h.initialized.1 hi).elim
  | running | ended | failed => cases hholds.2
  | done owner =>
    refine ⟨h.starts, h.initialized, fun th r hr => ?_, fun s hs => ?_, nofun, nofun,
      fun _ _ _ _ => .inl ⟨thread, open_move_self hcalls hmove⟩, fun _ _ => trivial⟩
    · rcases open_of_move hcalls hmove hr with ⟨-, heq⟩ | ⟨hr, -⟩
      · obtain ⟨-, rfl⟩ := BarrierCall.mk.inj heq
        exact ⟨owner, rfl⟩
      · exact h.calls th r hr
    · have howned : t.Owns cls s := (owns_of_move hcalls hmove hs).resolve_right fun hnew =>
        absurd hnew.2.2 (by simp [hnew.2.1])
      by_cases hs : s = slot
      · subst hs
        exact .inr (Barrier.state_setState_self (hbounded s howned))
      · show Stage.Holds _ _ s ((t.barrier.setState slot .initialized).state s)
        rw [Barrier.state_setState_of_ne hs]
        exact h.slots s howned

/-- The entry of an initialized class is removed. -/
theorem At.remove (hcalls : t.calls[thread]? = some (⟨cls, .remove⟩ :: outer)) (h : t.At cls stage) :
    (setCalls { t with barrier := t.barrier.remove cls } thread
      (⟨cls, .returned (.ok .done)⟩ :: outer)).At cls stage := by
  have hmove : t.Move thread cls .remove _ _ := .remove
  obtain ⟨owner, rfl⟩ := h.allows hcalls
  refine ⟨h.starts, h.initialized, fun th r hr => ?_, fun s hs => ?_, nofun, nofun,
    fun _ s _ hs => ?_, fun _ _ => trivial⟩
  · rcases open_of_move hcalls hmove hr with ⟨-, heq⟩ | ⟨hr, -⟩
    · obtain ⟨-, rfl⟩ := BarrierCall.mk.inj heq
      trivial
    · exact h.calls th r hr
  · exact h.slots s ((owns_of_move hcalls hmove hs).resolve_right fun hnew =>
      absurd hnew.2.2 (hnew.2.1 ▸ Nat.lt_irrefl _))
  · have hremoved : (t.barrier.remove cls).entries.lookup cls = none :=
      Barrier.lookup_remove.trans (if_pos rfl)
    exact absurd (hremoved.symm.trans hs) nofun

/-- The initializer is started. -/
theorem At.claim (hcalls : t.calls[thread]? = some (⟨cls, .inspect slot⟩ :: outer))
    (h : t.At cls stage) (hbounded : ∀ slot, t.Owns cls slot → slot < t.barrier.states.length)
    (hstate : t.barrier.state slot = .pending) (hi : cls ∉ t.initialized) :
    stage = .fresh ∧ (setCalls { t with
      barrier := t.barrier.setState slot (.running thread)
      started := (thread, cls) :: t.started } thread
        (⟨cls, .running slot⟩ :: outer)).At cls (.running thread slot) := by
  have hmove : t.Move thread cls (.inspect slot) (.running slot) _ := .claim hstate hi
  have hslot := hbounded slot (.inr ⟨thread, _, ⟨_, hcalls, .head _⟩, rfl⟩)
  have hholds := h.holds hcalls (rfl : (CallPhase.inspect slot).slot? = some slot)
  rw [hstate] at hholds
  cases stage with
  | running | ended | failed => cases hholds.2
  | done owner => exact absurd (h.initialized.2 trivial) hi
  | fresh =>
    refine ⟨rfl, ?_, ⟨fun hi' => absurd hi' hi, False.elim⟩, fun th r hr => ?_, fun s hs => ?_,
      fun s hs => ?_, fun th r hr => ?_, by simp, h.results⟩
    · show (((thread, cls) :: t.started).filter fun e => e.2 == cls).map Prod.fst = [thread]
      rw [List.filter_cons_of_pos (by simp), List.map_cons, h.starts]
      rfl
    · rcases open_of_move hcalls hmove hr with ⟨rfl, heq⟩ | ⟨hr, -⟩
      · obtain ⟨-, rfl⟩ := BarrierCall.mk.inj heq
        rfl
      · exact (Stage.Leads.claim thread slot).allows (h.calls th r hr) fun _ _ h => by cases h
    · have howned : t.Owns cls s := (owns_of_move hcalls hmove hs).resolve_right fun hnew =>
        absurd hnew.2.2 (by simp [hnew.2.1])
      obtain rfl : s = slot := Option.some.inj ((h.slots s howned).1.symm.trans hholds.1)
      exact ⟨rfl, Barrier.state_setState_self hslot⟩
    · obtain rfl := Option.some.inj hs
      exact hholds.1
    · obtain ⟨rfl, rfl⟩ := Prod.mk.inj (Option.some.inj hr)
      exact open_move_self hcalls hmove

/-- A call for a class whose initializer the thread runs or ends is not the one of an initializer
around it. -/
theorem Sound.ne_of_mem_outer (hsound : t.Sound)
    (hcalls : t.calls[thread]? = some (⟨cls, p⟩ :: outer)) (hp : p.IsActive) (hc : c ∈ outer) :
    c.cls ≠ cls :=
  Ne.symm (List.rel_of_pairwise_cons (hsound.distinct thread _ hcalls) hc hp)

/-- The initializer ends. -/
theorem At.finish {outcome : Except (Stop String) Unit} (hsound : t.Sound)
    (hcalls : t.calls[thread]? = some (⟨cls, .running slot⟩ :: outer)) (h : t.At cls stage)
    (hmove : t.Move thread cls (.running slot) (.settle slot outcome) u) :
    stage = .running thread slot ∧
      (u.setCalls thread (⟨cls, .settle slot outcome⟩ :: outer)).At cls (.ended thread slot outcome) := by
  obtain rfl := h.allows hcalls
  have hbarrier : u.barrier = t.barrier := by cases hmove <;> rfl
  have hstarted : u.started = t.started := by cases hmove <;> rfl
  have hinitialized : cls ∈ u.initialized ↔ (Stage.ended thread slot outcome).Initialized := by
    cases hmove with
    | succeed => simp [Stage.Initialized]
    | fail => exact h.initialized
  refine ⟨rfl, ?_, hinitialized, fun th r hr => ?_, fun s hs => ?_, ?_, fun th r hr => ?_, nofun,
    fun th hth => (h.results th (hmove.results_eq ▸ hth)).elim⟩
  · exact hstarted ▸ h.starts
  · rcases open_of_move hcalls hmove hr with ⟨rfl, heq⟩ | ⟨hr, houter⟩
    · obtain ⟨-, rfl⟩ := BarrierCall.mk.inj heq
      rfl
    · refine (Stage.Leads.finish thread slot outcome).allows (h.calls th r hr) ?_
      rintro owner q hq rfl
      obtain ⟨rfl, -⟩ := Prod.mk.inj (Option.some.inj hq)
      exact hsound.ne_of_mem_outer hcalls trivial (houter rfl) rfl
  · have howned : t.Owns cls s := (owns_of_move hcalls hmove hs).resolve_right fun hnew =>
      absurd hnew.2.2 (by simp [hnew.2.1, hbarrier])
    show Stage.Holds _ (u.barrier.entries.lookup cls) s (u.barrier.state s)
    rw [hbarrier]
    exact h.slots s howned
  · show ∀ s, _ → u.barrier.entries.lookup cls = some s
    rw [hbarrier]
    exact h.entry
  · obtain ⟨rfl, rfl⟩ := Prod.mk.inj (Option.some.inj hr)
    exact open_move_self hcalls hmove

/-- The end of the initializer is put down. -/
theorem At.settle {outcome : Except (Stop String) Unit} (hsound : t.Sound)
    (hcalls : t.calls[thread]? = some (⟨cls, .settle slot outcome⟩ :: outer)) (h : t.At cls stage)
    (hmove : t.Move thread cls (.settle slot outcome) q u) :
    ∃ stage', (u.setCalls thread (⟨cls, q⟩ :: outer)).At cls stage' ∧ stage.Leads stage' := by
  obtain rfl := h.allows hcalls
  have hslot := hsound.bounded cls slot (.inr ⟨thread, _, ⟨_, hcalls, .head _⟩, rfl⟩)
  have hother : ∀ {stage' th r}, (Stage.ended thread slot outcome).Leads stage' →
      t.Open th ⟨cls, r⟩ → (th = thread → ⟨cls, r⟩ ∈ outer) → stage'.Allows th r := by
    intro stage' th r hleads hr houter
    refine hleads.allows (h.calls th r hr) ?_
    rintro owner q hq rfl
    obtain ⟨rfl, -⟩ := Prod.mk.inj (Option.some.inj hq)
    exact hsound.ne_of_mem_outer hcalls trivial (houter rfl) rfl
  have hself : ∀ {s}, (u.setCalls thread (⟨cls, q⟩ :: outer)).Owns cls s → s = slot := by
    intro s hs
    refine (h.slots s ((owns_of_move hcalls hmove hs).resolve_right fun hnew => ?_)).1
    have hlength : u.barrier.states.length = t.barrier.states.length := by
      cases hmove <;> exact Barrier.length_states_setState
    exact absurd hnew.2.2 (by simp [hnew.2.1, hlength])
  cases hmove with
  | settleOk =>
    have hmove : t.Move thread cls (.settle slot (.ok ())) .remove _ := .settleOk
    refine ⟨.done thread, ⟨h.starts, h.initialized, fun th r hr => ?_, fun s hs => ?_, nofun, nofun,
      fun _ _ _ _ => .inl ⟨thread, open_move_self hcalls hmove⟩, fun _ _ => trivial⟩, .succeed _ _⟩
    · rcases open_of_move hcalls hmove hr with ⟨-, heq⟩ | ⟨hr, houter⟩
      · obtain ⟨-, rfl⟩ := BarrierCall.mk.inj heq
        exact ⟨thread, rfl⟩
      · exact hother (.succeed _ _) hr houter
    · obtain rfl := hself hs
      exact .inr (Barrier.state_setState_self hslot)
  | @settleError _ stop =>
    have hmove : t.Move thread cls (.settle slot (.error stop)) (.returned (.error stop)) _ :=
      .settleError
    obtain ⟨reason, hreason, hstop⟩ : ∃ reason, Barrier.outcomeState (.error stop) = .failed reason ∧
        (stop = .error reason ∨ ∃ v, stop = .violation v) := by
      cases stop with
      | error reason => exact ⟨reason, rfl, .inl rfl⟩
      | violation v => exact ⟨_, rfl, .inr ⟨v, rfl⟩⟩
    refine ⟨.failed thread slot reason, ⟨h.starts, h.initialized, fun th r hr => ?_, fun s hs => ?_,
      h.entry, nofun, nofun, fun th hth => (h.results th hth).elim⟩, .fail hreason⟩
    · rcases open_of_move hcalls hmove hr with ⟨rfl, heq⟩ | ⟨hr, houter⟩
      · obtain ⟨-, rfl⟩ := BarrierCall.mk.inj heq
        exact ⟨th, slot, reason, rfl, hstop.imp_right fun hv => ⟨rfl, hv⟩⟩
      · exact hother (.fail hreason) hr houter
    · obtain rfl := hself hs
      exact ⟨rfl, (Barrier.state_setState_self hslot).trans hreason⟩

/-- Whatever a call does, the class of the call goes on to its next stage at most. -/
theorem At.move (hsound : t.Sound) (hcalls : t.calls[thread]? = some (⟨cls, p⟩ :: outer))
    (hmove : t.Move thread cls p q u) (h : t.At cls stage) :
    ∃ stage', (u.setCalls thread (⟨cls, q⟩ :: outer)).At cls stage' ∧ stage.Leads stage' := by
  have hbounded := hsound.bounded cls
  cases hmove with
  | pass hi =>
    exact ⟨stage, h.same hcalls (.pass hi) ⟨nofun, nofun, nofun⟩ (h.initialized.1 hi), .stay _⟩
  | enter hi => exact ⟨stage, h.same hcalls (.enter hi) ⟨nofun, nofun, nofun⟩ trivial, .stay _⟩
  | find hs => exact ⟨stage, h.same hcalls (.find hs) ⟨nofun, nofun, nofun⟩ trivial, .stay _⟩
  | insert hs => exact ⟨stage, h.insert hcalls hbounded hs, .stay _⟩
  | @done slot hstate =>
    have hholds := h.holds hcalls (rfl : (CallPhase.inspect slot).slot? = some slot)
    rw [hstate] at hholds
    refine ⟨stage, h.same hcalls (.done hstate) ⟨nofun, nofun, ?_⟩ ?_, .stay _⟩
    · rintro s ⟨⟩ hpending
      cases hstate.symm.trans hpending
    · cases stage with
      | done => trivial
      | _ => cases hholds.2
  | @failed slot reason hstate =>
    have hholds := h.holds hcalls (rfl : (CallPhase.inspect slot).slot? = some slot)
    rw [hstate] at hholds
    refine ⟨stage, h.same hcalls (.failed hstate) ⟨nofun, nofun, ?_⟩ ?_, .stay _⟩
    · rintro s ⟨⟩ hpending
      cases hstate.symm.trans hpending
    · cases stage with
      | failed owner only =>
        cases hholds.2
        exact ⟨owner, only, reason, rfl, .inl rfl⟩
      | done => exact absurd hholds nofun
      | _ => cases hholds.2
  | @reenter slot hstate =>
    have hholds := h.holds hcalls (rfl : (CallPhase.inspect slot).slot? = some slot)
    rw [hstate] at hholds
    refine ⟨stage, h.same hcalls (.reenter hstate) ⟨nofun, nofun, ?_⟩ ?_, .stay _⟩
    · rintro s ⟨⟩ hpending
      cases hstate.symm.trans hpending
    · cases stage with
      | running owner only =>
        cases hholds.2
        exact ⟨only, rfl⟩
      | ended owner only outcome =>
        -- A call is made while the initializer around it runs, not after its end.
        cases hholds.2
        obtain ⟨stack, hstack, hmem⟩ := h.runner thread _ rfl
        obtain rfl := Option.some.inj (hcalls.symm.trans hstack)
        rcases List.mem_cons.1 hmem with heq | hmem
        · cases heq
        · obtain ⟨s, hs⟩ := hsound.nested thread _ hcalls _ hmem
          cases hs
      | done => exact absurd hholds nofun
      | fresh | failed => cases hholds.2
  | recheck hstate hi => exact ⟨stage, h.recheck hcalls hbounded hstate hi, .stay _⟩
  | @claim slot hstate hi =>
    obtain ⟨rfl, hnext⟩ := h.claim hcalls hbounded hstate hi
    exact ⟨_, hnext, .claim thread slot⟩
  | succeed =>
    obtain ⟨rfl, hnext⟩ := h.finish hsound hcalls .succeed
    exact ⟨_, hnext, .finish _ _ _⟩
  | fail =>
    obtain ⟨rfl, hnext⟩ := h.finish hsound hcalls .fail
    exact ⟨_, hnext, .finish _ _ _⟩
  | settleOk => exact h.settle hsound hcalls .settleOk
  | settleError => exact h.settle hsound hcalls .settleError
  | remove => exact ⟨stage, h.remove hcalls, .stay _⟩

/-- A class that no event is about keeps its stage. -/
theorem At.move_of_ne (hsound : t.Sound) (hcalls : t.calls[thread]? = some (⟨cls, p⟩ :: outer))
    (hmove : t.Move thread cls p q u) (hother : other ≠ cls) (h : t.At other stage) :
    (u.setCalls thread (⟨cls, q⟩ :: outer)).At other stage := by
  refine h.congr (fun th r hr => .inl ?_) (fun th r hr => .inl ?_) (hmove.lookup_eq hother)
    (fun s hs => hmove.state_eq (hsound.bounded other s hs) fun hp => ?_)
    (hmove.initialized_iff hother) (hmove.started_eq hother) fun th hth =>
      h.results th (hmove.results_eq ▸ hth)
  · rcases open_of_move hcalls hmove hr with ⟨-, heq⟩ | ⟨hr, -⟩
    · exact absurd (BarrierCall.mk.inj heq).1 hother
    · exact hr
  · exact open_move_of_ne hcalls hmove hr fun heq => hother (BarrierCall.mk.inj heq).1
  · exact hother (hsound.disjoint other cls s hs (.inr ⟨thread, p, ⟨_, hcalls, .head _⟩, hp⟩))

/-! ## Events -/

/-- A call is added or taken away, and nothing else happens. -/
theorem At.congr_calls (h : t.At cls stage) (hbarrier : t'.barrier = t.barrier)
    (hinitialized : t'.initialized = t.initialized) (hstarted : t'.started = t.started)
    (hopen : ∀ th q, t'.Open th ⟨cls, q⟩ → t.Open th ⟨cls, q⟩ ∨ q = .start)
    (hkept : ∀ th q, t.Open th ⟨cls, q⟩ → t'.Open th ⟨cls, q⟩ ∨ ∃ result, q = .returned result)
    (hresults : ∀ th, (th, cls, .ok .done) ∈ t'.results → stage.Initialized) : t'.At cls stage := by
  refine h.congr (fun th q hq => (hopen th q hq).imp_right ?_)
    (fun th q hq => (hkept th q hq).imp_right ?_) (by rw [hbarrier])
    (fun _ _ => by rw [hbarrier]) (by rw [hinitialized]) (by rw [hstarted]) hresults
  · rintro rfl
    exact ⟨trivial, nofun⟩
  · rintro ⟨result, rfl⟩
    exact ⟨nofun, nofun, nofun⟩

/-- Every class goes on to its next stage at most. -/
theorem At.next (hsound : t.Sound) (hnext : t.next e = some t') (h : t.At cls stage) :
    ∃ stage', t'.At cls stage' ∧ stage.Leads stage' := by
  rcases next_cases hnext with ⟨thread, other, stack, hcalls, -, rfl⟩ |
    ⟨thread, other, p, q, outer, u, hcalls, hmove, rfl⟩ | ⟨thread, other, result, outer, hcalls, rfl⟩
  · refine ⟨stage, h.congr_calls rfl rfl rfl (fun th q hq => ?_) (fun th q hq => .inl ?_) h.results,
      .stay _⟩
    · rcases (open_setCalls hcalls).1 hq with ⟨rfl, hmem⟩ | ⟨-, hold⟩
      · exact (List.mem_cons.1 hmem).symm.imp (fun hmem => ⟨stack, hcalls, hmem⟩) fun heq =>
          (BarrierCall.mk.inj heq).2
      · exact .inl hold
    · refine (open_setCalls hcalls).2 ?_
      by_cases hth : th = thread
      · obtain ⟨old, hold, hq⟩ := hq
        rw [hth, hcalls] at hold
        obtain rfl := Option.some.inj hold
        exact .inl ⟨hth, .tail _ hq⟩
      · exact .inr ⟨hth, hq⟩
  · by_cases hother : cls = other
    · subst hother
      exact h.move hsound hcalls hmove
    · exact ⟨stage, h.move_of_ne hsound hcalls hmove hother, .stay _⟩
  · refine ⟨stage, h.congr_calls rfl rfl rfl (fun th q hq => .inl ?_) (fun th q hq => ?_)
      (fun th hth => ?_), .stay _⟩
    · rcases (open_setCalls hcalls).1 hq with ⟨rfl, hmem⟩ | ⟨-, hold⟩
      · exact ⟨_, hcalls, .tail _ hmem⟩
      · exact hold
    · by_cases hth : th = thread
      · obtain ⟨old, hold, hq⟩ := hq
        rw [hth, hcalls] at hold
        obtain rfl := Option.some.inj hold
        rcases List.mem_cons.1 hq with heq | hq
        · exact .inr ⟨result, (BarrierCall.mk.inj heq).2⟩
        · exact .inl ((open_setCalls hcalls).2 (.inl ⟨hth, hq⟩))
      · exact .inl ((open_setCalls hcalls).2 (.inr ⟨hth, hq⟩))
    · rcases List.mem_cons.1 hth with heq | hth
      · simp only [Prod.mk.injEq] at heq
        obtain ⟨rfl, rfl, rfl⟩ := heq
        exact h.calls th _ ⟨_, hcalls, .head _⟩
      · exact h.results th hth

/-! ## Threads after an event -/

theorem forall_setCalls {P : List BarrierCall → Prop}
    (h : ∀ (th : ThreadId) (old : List BarrierCall), t.calls[th]? = some old → P old)
    (hnew : P stack) (th : ThreadId) (new : List BarrierCall)
    (hth : (t.setCalls thread stack).calls[th]? = some new) : P new := by
  rw [setCalls, List.getElem?_set] at hth
  split at hth
  · split at hth
    · exact Option.some.inj hth ▸ hnew
    · cases hth
  · exact h th new hth

/-- A slot that belongs to a class after an event that changes no slot belonged to it before. -/
theorem owns_of_congr (hbarrier : t'.barrier = t.barrier)
    (hopen : ∀ th c, t'.Open th c → t.Open th c ∨ c.phase = .start) (h : t'.Owns cls slot) :
    t.Owns cls slot := by
  rcases h with h | ⟨th, q, hq, hslot⟩
  · exact .inl (hbarrier ▸ h)
  · rcases hopen th _ hq with hq | rfl
    · exact .inr ⟨th, q, hq, hslot⟩
    · cases hslot

/-- The initializer of a class is claimed only where nothing was started. -/
theorem Move.isActive (h : t.Move thread cls p q u) (hq : q.IsActive) :
    p.IsActive ∨ ∃ slot, p = .inspect slot ∧ t.barrier.state slot = .pending ∧ cls ∉ t.initialized := by
  cases h with
  | claim hstate hi => exact .inr ⟨_, rfl, hstate, hi⟩
  | succeed | fail => exact .inl trivial
  | _ => exact hq.elim

/-- A thread does not start an initializer inside itself. -/
theorem Sound.ne_of_move (hsound : t.Sound) (hcalls : t.calls[thread]? = some (⟨cls, p⟩ :: outer))
    (hmove : t.Move thread cls p q u) (hq : q.IsActive) (hc : c ∈ outer) : cls ≠ c.cls := by
  rcases hmove.isActive hq with hp | ⟨slot, rfl, hstate, hi⟩
  · exact (hsound.ne_of_mem_outer hcalls hp hc).symm
  · rintro rfl
    obtain ⟨stage, h⟩ := hsound.stage c.cls
    obtain ⟨rfl, -⟩ := h.claim hcalls (hsound.bounded _) hstate hi
    obtain ⟨s, hs⟩ := hsound.nested thread _ hcalls c hc
    have hallowed := h.calls thread c.phase ⟨_, hcalls, .tail _ hc⟩
    rw [hs] at hallowed
    cases hallowed

/-- A new call is made by an initializer or by an idle thread. -/
theorem Sound.nested_call (hsound : t.Sound) (hcalls : t.calls[thread]? = some stack)
    (hstack : ∀ c ∈ stack.head?, c.phase.IsRunning) :
    ∀ (th : ThreadId) (new : List BarrierCall),
      (t.setCalls thread (⟨cls, .start⟩ :: stack)).calls[th]? = some new →
        ∀ d ∈ new.tail, d.phase.IsRunning := by
  refine forall_setCalls hsound.nested fun d hd => ?_
  cases stack with
  | nil => cases hd
  | cons c outer =>
    rcases List.mem_cons.1 hd with rfl | hd
    · exact hstack d rfl
    · exact hsound.nested thread _ hcalls d hd

theorem Sound.next (hsound : t.Sound) (hnext : t.next e = some t') : t'.Sound := by
  have hstage : ∀ cls, ∃ stage, t'.At cls stage := fun cls =>
    have ⟨_, h⟩ := hsound.stage cls
    have ⟨stage', h', _⟩ := h.next hsound hnext
    ⟨stage', h'⟩
  rcases next_cases hnext with ⟨thread, other, stack, hcalls, hstack, rfl⟩ |
    ⟨thread, other, p, q, outer, u, hcalls, hmove, rfl⟩ | ⟨thread, other, result, outer, hcalls, rfl⟩
  · have howned : ∀ {cls slot}, (t.setCalls thread (⟨other, .start⟩ :: stack)).Owns cls slot →
        t.Owns cls slot := by
      refine owns_of_congr rfl fun th c hc => ?_
      rcases (open_setCalls hcalls).1 hc with ⟨rfl, hmem⟩ | ⟨-, hold⟩
      · exact (List.mem_cons.1 hmem).symm.imp (fun hmem => ⟨stack, hcalls, hmem⟩) fun heq =>
          congrArg BarrierCall.phase heq
      · exact .inl hold
    exact ⟨hsound.nested_call hcalls hstack,
      forall_setCalls hsound.distinct (.cons nofun (hsound.distinct thread stack hcalls)),
      fun cls slot hslot => hsound.bounded cls slot (howned hslot),
      fun cls cls' slot hslot hslot' => hsound.disjoint cls cls' slot (howned hslot) (howned hslot'),
      hstage⟩
  · have hold : ∀ (th : ThreadId) (old : List BarrierCall),
        u.calls[th]? = some old → t.calls[th]? = some old := fun _ _ h => hmove.calls_eq ▸ h
    refine ⟨forall_setCalls (fun th stack h => hsound.nested th stack (hold th stack h))
        (hsound.nested thread (⟨other, p⟩ :: outer) hcalls),
      forall_setCalls (fun th stack h => hsound.distinct th stack (hold th stack h))
        (.cons (fun c hc hq => hsound.ne_of_move hcalls hmove hq hc)
          (hsound.distinct thread _ hcalls).of_cons),
      fun cls slot hslot => ?_, fun cls cls' slot hslot hslot' => ?_, hstage⟩
    · rcases owns_of_move hcalls hmove hslot with hslot | hnew
      · exact Nat.lt_of_lt_of_le (hsound.bounded cls slot hslot) hmove.length_le
      · exact hnew.2.2
    · rcases owns_of_move hcalls hmove hslot, owns_of_move hcalls hmove hslot' with
        ⟨hold | ⟨heq, hnew, -⟩, hold' | ⟨heq', hnew', -⟩⟩
      · exact hsound.disjoint cls cls' slot hold hold'
      · exact absurd (hsound.bounded cls slot hold) (hnew' ▸ Nat.lt_irrefl _)
      · exact absurd (hsound.bounded cls' slot hold') (hnew ▸ Nat.lt_irrefl _)
      · exact heq.trans heq'.symm
  · have howned : ∀ {cls slot}, Owns { t.setCalls thread outer with
        results := (thread, other, result) :: t.results } cls slot → t.Owns cls slot := by
      refine owns_of_congr rfl fun th c hc => .inl ?_
      rcases (open_setCalls hcalls).1 hc with ⟨rfl, hmem⟩ | ⟨-, hold⟩
      · exact ⟨_, hcalls, .tail _ hmem⟩
      · exact hold
    exact ⟨forall_setCalls hsound.nested fun d hd =>
        hsound.nested thread _ hcalls d (List.mem_of_mem_tail hd),
      forall_setCalls hsound.distinct (hsound.distinct thread _ hcalls).of_cons,
      fun cls slot hslot => hsound.bounded cls slot (howned hslot),
      fun cls cls' slot hslot hslot' => hsound.disjoint cls cls' slot (howned hslot) (howned hslot'),
      hstage⟩

end Threads

end HandleForms
