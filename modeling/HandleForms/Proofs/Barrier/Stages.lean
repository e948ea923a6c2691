import HandleForms.Proofs.Barrier.Steps

/-!
# The stages of a class

Over a whole run the initialization of a class goes through stages: nothing was started, the
initializer is running on a thread, it has ended, and the failure or the success is put down.
`Threads.At` says for each stage what the slots of the class hold and what its open calls are up to.
Slots that were made for a class and dropped again matter as long as a call still knows them
(`Threads.Owns`): a caller may have been told that the class is not initialized long before it asks
for a slot.

Every event keeps the stage or leads to the next one (`Threads.At.next`).
-/

namespace HandleForms

namespace Threads

/-- How far the initialization of a class is. -/
inductive Stage where
  /-- No initializer was started. -/
  | fresh
  /-- The initializer is running. -/
  | running (owner : ThreadId) (slot : Nat)
  /-- The initializer has ended, and its slot still says that it is running. -/
  | ended (owner : ThreadId) (slot : Nat) (outcome : Except (Stop String) Unit)
  /-- The slot says that the initializer failed. -/
  | failed (owner : ThreadId) (slot : Nat) (reason : String)
  /-- The initializer succeeded. -/
  | done (owner : ThreadId)

namespace Stage

/-- The threads on which the initializer was started. -/
def starts : Stage → List ThreadId
  | .fresh => []
  | .running owner _ | .ended owner _ _ | .failed owner _ _ | .done owner => [owner]

/-- The host reports the class initialized. -/
def Initialized : Stage → Prop
  | .ended _ _ (.ok ()) | .done _ => True
  | _ => False

/-- The only slot of the class. -/
def slot? : Stage → Option Nat
  | .running _ slot | .ended _ slot _ | .failed _ slot _ => some slot
  | _ => none

/-- The call that runs the initializer. -/
def runner? : Stage → Option (ThreadId × CallPhase)
  | .running owner slot => some (owner, .running slot)
  | .ended owner slot outcome => some (owner, .settle slot outcome)
  | _ => none

/-- What the calls of a thread for the class may be up to. -/
def Allows (stage : Stage) (thread : ThreadId) : CallPhase → Prop
  | .start | .enter | .inspect _ => True
  | .running slot => stage = .running thread slot
  | .settle slot outcome => stage = .ended thread slot outcome
  | .remove => ∃ owner, stage = .done owner
  | .returned (.ok .done) => stage.Initialized
  | .returned (.ok .reentrant) => ∃ slot, stage = .running thread slot
  | .returned (.error stop) => ∃ owner slot reason, stage = .failed owner slot reason ∧
      (stop = .error reason ∨ owner = thread ∧ ∃ v, stop = .violation v)

/-- What a slot of the class may hold. -/
def Holds (stage : Stage) (entry : Option Nat) (slot : Nat) (state : InitState) : Prop :=
  match stage with
  | .fresh => entry = some slot ∧ state = .pending
  | .running owner only | .ended owner only _ => slot = only ∧ state = .running owner
  | .failed _ only reason => slot = only ∧ state = .failed reason
  | .done _ => state = .pending ∨ state = .initialized

/-- The next stages. -/
inductive Leads : Stage → Stage → Prop
  | stay (stage : Stage) : Leads stage stage
  | claim (owner : ThreadId) (slot : Nat) : Leads .fresh (.running owner slot)
  | finish (owner : ThreadId) (slot : Nat) (outcome : Except (Stop String) Unit) :
      Leads (.running owner slot) (.ended owner slot outcome)
  | succeed (owner : ThreadId) (slot : Nat) : Leads (.ended owner slot (.ok ())) (.done owner)
  | fail {owner : ThreadId} {slot : Nat} {stop : Stop String} {reason : String}
      (h : Barrier.outcomeState (.error stop) = .failed reason) :
      Leads (.ended owner slot (.error stop)) (.failed owner slot reason)

end Stage

/-- The slot belongs to the class: it is tracked, or an open call knows it. -/
def Owns (t : Threads) (cls : String) (slot : Nat) : Prop :=
  t.barrier.entries.lookup cls = some slot ∨
    ∃ thread q, t.Open thread ⟨cls, q⟩ ∧ q.slot? = some slot

/-- The class is at this stage. -/
structure At (t : Threads) (cls : String) (stage : Stage) : Prop where
  starts : (t.started.filter fun e => e.2 == cls).map Prod.fst = stage.starts
  initialized : cls ∈ t.initialized ↔ stage.Initialized
  calls : ∀ thread q, t.Open thread ⟨cls, q⟩ → stage.Allows thread q
  slots : ∀ slot, t.Owns cls slot →
    stage.Holds (t.barrier.entries.lookup cls) slot (t.barrier.state slot)
  entry : ∀ slot, stage.slot? = some slot → t.barrier.entries.lookup cls = some slot
  runner : ∀ thread q, stage.runner? = some (thread, q) → t.Open thread ⟨cls, q⟩
  /-- What is tracked after a success is going to be removed. -/
  removed : ∀ owner slot, stage = .done owner → t.barrier.entries.lookup cls = some slot →
    (∃ thread, t.Open thread ⟨cls, .remove⟩) ∨
      t.barrier.state slot = .pending ∧ ∃ thread, t.Open thread ⟨cls, .inspect slot⟩
  results : ∀ thread, (thread, cls, .ok .done) ∈ t.results → stage.Initialized

/-- What holds of threads at a barrier. -/
structure Sound (t : Threads) : Prop where
  /-- Only an initializer calls the barrier again. -/
  nested : ∀ (thread : ThreadId) (stack : List BarrierCall), t.calls[thread]? = some stack →
    ∀ d ∈ stack.tail, d.phase.IsRunning
  /-- A thread runs no initializer inside itself. -/
  distinct : ∀ (thread : ThreadId) (stack : List BarrierCall), t.calls[thread]? = some stack →
    stack.Pairwise fun c d => c.phase.IsActive → c.cls ≠ d.cls
  bounded : ∀ cls slot, t.Owns cls slot → slot < t.barrier.states.length
  disjoint : ∀ cls other slot, t.Owns cls slot → t.Owns other slot → cls = other
  stage : ∀ cls, ∃ stage, t.At cls stage

variable {t t' u : Threads} {thread th : ThreadId} {cls other : String} {p q : CallPhase}
  {c : BarrierCall} {stack outer : List BarrierCall} {e : Event} {slot : Nat} {stage : Stage}

/-! ## Open calls -/

theorem open_setCalls {old : List BarrierCall} (hold : t.calls[thread]? = some old) :
    (t.setCalls thread stack).Open th c ↔
      th = thread ∧ c ∈ stack ∨ th ≠ thread ∧ t.Open th c := by
  have hlt := (List.getElem?_eq_some_iff.1 hold).1
  by_cases hth : th = thread
  · subst hth
    simp [Open, setCalls, List.getElem?_set_self hlt]
  · simp [Open, setCalls, List.getElem?_set_ne (Ne.symm hth), hth]

/-- A call at this phase neither runs the initializer nor is going to remove an entry. -/
def Idle (t : Threads) (q : CallPhase) : Prop :=
  ¬ q.IsActive ∧ q ≠ .remove ∧ ∀ slot, q = .inspect slot → t.barrier.state slot ≠ .pending

/-- The stage of a class stays when nothing of it changes but calls that are allowed or idle. -/
theorem At.congr (h : t.At cls stage)
    (hopen : ∀ th q, t'.Open th ⟨cls, q⟩ → t.Open th ⟨cls, q⟩ ∨
      stage.Allows th q ∧ ∀ slot, q.slot? = some slot → t.Owns cls slot)
    (hkept : ∀ th q, t.Open th ⟨cls, q⟩ → t'.Open th ⟨cls, q⟩ ∨ t.Idle q)
    (hlookup : t'.barrier.entries.lookup cls = t.barrier.entries.lookup cls)
    (hstate : ∀ slot, t.Owns cls slot → t'.barrier.state slot = t.barrier.state slot)
    (hinitialized : cls ∈ t'.initialized ↔ cls ∈ t.initialized)
    (hstarted : (t'.started.filter fun e => e.2 == cls) = t.started.filter fun e => e.2 == cls)
    (hresults : ∀ th, (th, cls, .ok .done) ∈ t'.results → stage.Initialized) : t'.At cls stage := by
  refine ⟨hstarted ▸ h.starts, hinitialized.trans h.initialized, fun th q hq => ?_,
    fun slot hslot => ?_, fun slot hslot => hlookup ▸ h.entry slot hslot, fun th q hq => ?_,
    fun owner slot hdone hslot => ?_, hresults⟩
  · exact (hopen th q hq).elim (h.calls th q) And.left
  · have howned : t.Owns cls slot := by
      rcases hslot with hslot | ⟨th, q, hq, hslot⟩
      · exact .inl (hlookup ▸ hslot)
      · exact (hopen th q hq).elim (fun hq => .inr ⟨th, q, hq, hslot⟩) fun hq => hq.2 slot hslot
    rw [hlookup, hstate slot howned]
    exact h.slots slot howned
  · refine (hkept th q (h.runner th q hq)).resolve_right fun hidle => hidle.1 ?_
    cases stage with
    | running | ended =>
      obtain ⟨-, rfl⟩ := Prod.mk.inj (Option.some.inj hq)
      trivial
    | _ => cases hq
  · rw [hlookup] at hslot
    rw [hstate slot (.inl hslot)]
    rcases h.removed owner slot hdone hslot with ⟨th, hth⟩ | ⟨hpending, th, hth⟩
    · exact .inl ⟨th, (hkept th _ hth).resolve_right fun hidle => hidle.2.1 rfl⟩
    · exact .inr ⟨hpending, th,
        (hkept th _ hth).resolve_right fun hidle => hidle.2.2 slot rfl hpending⟩

/-! ## Moves -/

namespace Move

variable (h : t.Move thread cls p q u)
include h

theorem calls_eq : u.calls = t.calls := by cases h <;> rfl

theorem results_eq : u.results = t.results := by cases h <;> rfl

/-- Nothing changes for other classes. -/
theorem lookup_eq (hother : other ≠ cls) :
    u.barrier.entries.lookup other = t.barrier.entries.lookup other := by
  cases h with
  | insert h =>
    rw [Barrier.enter_of_none h]
    simp [List.lookup_cons, beq_false_of_ne hother]
  | remove => exact Barrier.lookup_remove.trans (if_neg hother)
  | _ => rfl

theorem initialized_iff (hother : other ≠ cls) : other ∈ u.initialized ↔ other ∈ t.initialized := by
  cases h with
  | succeed => simp [hother]
  | _ => rfl

theorem started_eq (hother : other ≠ cls) :
    (u.started.filter fun e => e.2 == other) = t.started.filter fun e => e.2 == other := by
  cases h with
  | claim => exact List.filter_cons_of_neg (by simpa using Ne.symm hother)
  | _ => rfl

/-- A move changes the slot that the call knows, and no other one. -/
theorem state_eq (hslot : slot < t.barrier.states.length) (hne : p.slot? ≠ some slot) :
    u.barrier.state slot = t.barrier.state slot := by
  cases h with
  | insert h =>
    rw [Barrier.enter_of_none h]
    exact Barrier.state_append hslot _
  | recheck | claim | settleOk | settleError =>
    exact Barrier.state_setState_of_ne fun heq => hne (by rw [heq]; rfl)
  | _ => rfl

theorem length_le : t.barrier.states.length ≤ u.barrier.states.length := by
  cases h with
  | insert h =>
    rw [Barrier.enter_of_none h]
    simp
  | recheck | claim | settleOk | settleError => exact Nat.le_of_eq Barrier.length_states_setState.symm
  | _ => exact Nat.le_refl _

/-- What is tracked was tracked before or is new. -/
theorem lookup_cases (hslot : u.barrier.entries.lookup cls = some slot) :
    t.barrier.entries.lookup cls = some slot ∨
      slot = t.barrier.states.length ∧ slot < u.barrier.states.length := by
  cases h with
  | insert h =>
    rw [Barrier.enter_of_none h] at hslot ⊢
    obtain rfl : t.barrier.states.length = slot := by simpa using hslot
    exact .inr ⟨rfl, by simp⟩
  | remove =>
    rw [Barrier.lookup_remove, if_pos rfl] at hslot
    cases hslot
  | _ => exact .inl hslot

/-- What the call knows it knew before or is tracked now. -/
theorem slot_cases (hslot : q.slot? = some slot) :
    p.slot? = some slot ∨ u.barrier.entries.lookup cls = some slot := by
  cases h with
  | find h => exact .inr (h.trans hslot)
  | insert h =>
    obtain rfl := Option.some.inj hslot
    rw [Barrier.enter_of_none h]
    exact .inr (by simp)
  | claim | succeed | fail => exact .inl hslot
  | _ => cases hslot

end Move

/-! ## After a move -/

section

variable (hcalls : t.calls[thread]? = some (⟨cls, p⟩ :: outer)) (hmove : t.Move thread cls p q u)
include hcalls hmove

theorem open_move_iff : (u.setCalls thread (⟨cls, q⟩ :: outer)).Open th c ↔
    th = thread ∧ (c = ⟨cls, q⟩ ∨ c ∈ outer) ∨ th ≠ thread ∧ t.Open th c := by
  have hsame : u.Open th c ↔ t.Open th c := by simp only [Open, hmove.calls_eq]
  rw [open_setCalls (hmove.calls_eq ▸ hcalls), List.mem_cons, hsame]

/-- What is open is the call that moved, or was open elsewhere. -/
theorem open_of_move (h : (u.setCalls thread (⟨cls, q⟩ :: outer)).Open th c) :
    th = thread ∧ c = ⟨cls, q⟩ ∨ t.Open th c ∧ (th = thread → c ∈ outer) := by
  rcases (open_move_iff hcalls hmove).1 h with ⟨rfl, rfl | hc⟩ | ⟨hth, hc⟩
  · exact .inl ⟨rfl, rfl⟩
  · exact .inr ⟨⟨_, hcalls, List.mem_cons_of_mem _ hc⟩, fun _ => hc⟩
  · exact .inr ⟨hc, fun heq => absurd heq hth⟩

theorem open_move_self : (u.setCalls thread (⟨cls, q⟩ :: outer)).Open thread ⟨cls, q⟩ :=
  (open_move_iff hcalls hmove).2 (.inl ⟨rfl, .inl rfl⟩)

/-- The other calls stay open. -/
theorem open_move_of_ne (h : t.Open th c) (hne : c ≠ ⟨cls, p⟩) :
    (u.setCalls thread (⟨cls, q⟩ :: outer)).Open th c := by
  refine (open_move_iff hcalls hmove).2 ?_
  by_cases hth : th = thread
  · obtain ⟨stack, hstack, hc⟩ := h
    rw [hth, hcalls] at hstack
    obtain rfl := Option.some.inj hstack
    exact .inl ⟨hth, .inr ((List.mem_cons.1 hc).resolve_left hne)⟩
  · exact .inr ⟨hth, h⟩

/-- The slot of a class was one before, or was just made for it. -/
theorem owns_of_move (h : (u.setCalls thread (⟨cls, q⟩ :: outer)).Owns other slot) :
    t.Owns other slot ∨
      other = cls ∧ slot = t.barrier.states.length ∧ slot < u.barrier.states.length := by
  have htracked : u.barrier.entries.lookup other = some slot → t.Owns other slot ∨
      other = cls ∧ slot = t.barrier.states.length ∧ slot < u.barrier.states.length := by
    intro hslot
    by_cases hother : other = cls
    · subst hother
      exact (hmove.lookup_cases hslot).imp .inl fun h => ⟨rfl, h⟩
    · exact .inl (.inl ((hmove.lookup_eq hother).symm.trans hslot))
  rcases h with hslot | ⟨th, r, hr, hslot⟩
  · exact htracked hslot
  · rcases open_of_move hcalls hmove hr with ⟨-, heq⟩ | ⟨hr, -⟩
    · obtain ⟨rfl, rfl⟩ := BarrierCall.mk.inj heq
      rcases hmove.slot_cases hslot with hslot | hslot
      · exact .inl (.inr ⟨thread, p, ⟨_, hcalls, .head _⟩, hslot⟩)
      · exact htracked hslot
    · exact .inl (.inr ⟨th, r, hr, hslot⟩)

end

end Threads

end HandleForms
