import HandleForms.Barrier.Threads
import HandleForms.Proofs.Association

/-!
# Steps at the class barrier

Every event starts a call, moves the innermost call of a thread from one phase to the next, or takes
a call away that is over (`Threads.next_cases`). `Threads.Move` says what the phases are between which
a call moves, under which condition, and what this does to what the threads share.
-/

namespace HandleForms

namespace CallPhase

/-- The slot that the call knows. -/
def slot? : CallPhase → Option Nat
  | .inspect slot | .running slot | .settle slot _ => some slot
  | _ => none

/-- Between the start of the initializer and the moment when its end is put down. -/
def IsActive : CallPhase → Prop
  | .running _ | .settle _ _ => True
  | _ => False

/-- The initializer is running. -/
def IsRunning (p : CallPhase) : Prop := ∃ slot, p = .running slot

end CallPhase

namespace Barrier

variable {b : Barrier} {cls other : String} {slot s : Nat} {state : InitState}

@[simp] theorem entries_setState : (b.setState slot state).entries = b.entries := rfl

@[simp] theorem length_states_setState : (b.setState slot state).states.length = b.states.length :=
  List.length_set

theorem state_setState_self (h : slot < b.states.length) : (b.setState slot state).state slot = state := by
  rw [Barrier.state, setState, List.getElem?_set_self h]
  rfl

theorem state_setState_of_ne (h : s ≠ slot) : (b.setState slot state).state s = b.state s := by
  rw [Barrier.state, setState, List.getElem?_set_ne h.symm]
  rfl

/-- The entry of the class is gone, the others stay. -/
theorem lookup_remove :
    (b.remove cls).entries.lookup other = if other = cls then none else b.entries.lookup other := by
  show (b.entries.filter fun e => !(e.1 == cls)).lookup other = _
  rw [lookup_filter_ne]
  simp only [beq_iff_eq]

/-- A class that is tracked keeps its slot. -/
theorem enter_of_some (h : b.entries.lookup cls = some slot) : b.enter cls = (slot, b) := by
  rw [enter, h]

/-- A class that is not tracked gets a new slot. -/
theorem enter_of_none (h : b.entries.lookup cls = none) :
    b.enter cls =
      (b.states.length, ⟨(cls, b.states.length) :: b.entries, b.states ++ [.pending]⟩) := by
  rw [enter, h]

theorem state_append (h : s < b.states.length) (entries : List (String × Nat)) :
    Barrier.state ⟨entries, b.states ++ [.pending]⟩ s = b.state s := by
  rw [Barrier.state, Barrier.state, List.getElem?_append_left h]

end Barrier

namespace Threads

/-- The thread has this call open. -/
def Open (t : Threads) (thread : ThreadId) (c : BarrierCall) : Prop :=
  ∃ stack, t.calls[thread]? = some stack ∧ c ∈ stack

/-- The call of the thread for the class goes from one phase to another, and what is shared becomes
that of `u`. -/
inductive Move (t : Threads) (thread : ThreadId) (cls : String) :
    CallPhase → CallPhase → Threads → Prop
  | pass (h : cls ∈ t.initialized) : Move t thread cls .start (.returned (.ok .done)) t
  | enter (h : cls ∉ t.initialized) : Move t thread cls .start .enter t
  | find {slot : Nat} (h : t.barrier.entries.lookup cls = some slot) :
      Move t thread cls .enter (.inspect slot) t
  | insert (h : t.barrier.entries.lookup cls = none) :
      Move t thread cls .enter (.inspect t.barrier.states.length)
        { t with barrier := (t.barrier.enter cls).2 }
  | done {slot : Nat} (h : t.barrier.state slot = .initialized) :
      Move t thread cls (.inspect slot) (.returned (.ok .done)) t
  | failed {slot : Nat} {reason : String} (h : t.barrier.state slot = .failed reason) :
      Move t thread cls (.inspect slot) (.returned (.error (.error reason))) t
  | reenter {slot : Nat} (h : t.barrier.state slot = .running thread) :
      Move t thread cls (.inspect slot) (.returned (.ok .reentrant)) t
  | recheck {slot : Nat} (h : t.barrier.state slot = .pending) (hi : cls ∈ t.initialized) :
      Move t thread cls (.inspect slot) .remove
        { t with barrier := t.barrier.setState slot .initialized }
  | claim {slot : Nat} (h : t.barrier.state slot = .pending) (hi : cls ∉ t.initialized) :
      Move t thread cls (.inspect slot) (.running slot)
        { t with
          barrier := t.barrier.setState slot (.running thread)
          started := (thread, cls) :: t.started }
  | succeed {slot : Nat} :
      Move t thread cls (.running slot) (.settle slot (.ok ()))
        { t with initialized := cls :: t.initialized }
  | fail {slot : Nat} {stop : Stop String} :
      Move t thread cls (.running slot) (.settle slot (.error stop)) t
  | settleOk {slot : Nat} :
      Move t thread cls (.settle slot (.ok ())) .remove
        { t with barrier := t.barrier.setState slot .initialized }
  | settleError {slot : Nat} {stop : Stop String} :
      Move t thread cls (.settle slot (.error stop)) (.returned (.error stop))
        { t with barrier := t.barrier.setState slot (Barrier.outcomeState (.error stop)) }
  | remove : Move t thread cls .remove (.returned (.ok .done))
      { t with barrier := t.barrier.remove cls }

variable {t t' u : Threads} {thread : ThreadId} {cls : String} {p q : CallPhase}
  {outer : List BarrierCall} {e : Event}

/-- The innermost call of a thread makes one move. -/
theorem advance_cases (h : t.advance thread ⟨cls, p⟩ outer = some t') :
    (∃ q u, t.Move thread cls p q u ∧ t' = u.setCalls thread (⟨cls, q⟩ :: outer)) ∨
      ∃ result, p = .returned result ∧
        t' = { t.setCalls thread outer with results := (thread, cls, result) :: t.results } := by
  cases p with
  | start =>
    obtain rfl := Option.some.inj h
    by_cases hi : cls ∈ t.initialized
    · exact .inl ⟨_, t, .pass hi, by simp [hi]⟩
    · exact .inl ⟨_, t, .enter hi, by simp [hi]⟩
  | enter =>
    simp only [advance] at h
    cases hslot : t.barrier.entries.lookup cls with
    | some slot =>
      rw [Barrier.enter_of_some hslot] at h
      exact .inl ⟨_, t, .find hslot, (Option.some.inj h).symm⟩
    | none =>
      have hmove : t.Move thread cls .enter _ _ := .insert hslot
      rw [Barrier.enter_of_none hslot] at h hmove
      exact .inl ⟨_, _, hmove, (Option.some.inj h).symm⟩
  | inspect slot =>
    simp only [advance, Barrier.inspect] at h
    cases hstate : t.barrier.state slot with
    | initialized =>
      rw [hstate] at h
      obtain rfl := Option.some.inj h
      exact .inl ⟨_, t, .done hstate, rfl⟩
    | failed reason =>
      rw [hstate] at h
      obtain rfl := Option.some.inj h
      exact .inl ⟨_, t, .failed hstate, rfl⟩
    | running owner =>
      rw [hstate] at h
      by_cases howner : owner = thread
      · simp only [howner, if_true] at h
        obtain rfl := Option.some.inj h
        exact .inl ⟨_, t, .reenter (howner ▸ hstate), rfl⟩
      · simp [howner] at h
    | pending =>
      rw [hstate] at h
      by_cases hi : cls ∈ t.initialized
      · simp only [List.contains_eq_mem, hi, decide_true, if_true] at h
        obtain rfl := Option.some.inj h
        exact .inl ⟨_, _, .recheck hstate hi, rfl⟩
      · simp only [List.contains_eq_mem, hi, decide_false, Bool.false_eq_true, if_false] at h
        obtain rfl := Option.some.inj h
        exact .inl ⟨_, _, .claim hstate hi, rfl⟩
  | running slot => cases h
  | settle slot outcome =>
    obtain rfl := Option.some.inj h
    cases outcome with
    | ok => exact .inl ⟨_, _, .settleOk, rfl⟩
    | error stop => exact .inl ⟨_, _, .settleError, rfl⟩
  | remove =>
    obtain rfl := Option.some.inj h
    exact .inl ⟨_, _, .remove, rfl⟩
  | returned result =>
    obtain rfl := Option.some.inj h
    exact .inr ⟨result, rfl, rfl⟩

/-- What an event does. -/
theorem next_cases (h : t.next e = some t') :
    (∃ thread cls stack, t.calls[thread]? = some stack ∧ (∀ c ∈ stack.head?, c.phase.IsRunning) ∧
      t' = t.setCalls thread (⟨cls, .start⟩ :: stack)) ∨
    (∃ thread cls p q outer u, t.calls[thread]? = some (⟨cls, p⟩ :: outer) ∧
      t.Move thread cls p q u ∧ t' = u.setCalls thread (⟨cls, q⟩ :: outer)) ∨
    ∃ thread cls result outer, t.calls[thread]? = some (⟨cls, .returned result⟩ :: outer) ∧
      t' = { t.setCalls thread outer with results := (thread, cls, result) :: t.results } := by
  cases e with
  | call thread cls =>
    simp only [next] at h
    split at h
    · next hcalls =>
      obtain rfl := Option.some.inj h
      exact .inl ⟨thread, cls, [], hcalls, by simp, rfl⟩
    · next owner slot outer hcalls =>
      obtain rfl := Option.some.inj h
      exact .inl ⟨thread, cls, _, hcalls, by simp [CallPhase.IsRunning], rfl⟩
    · cases h
  | step thread =>
    simp only [next] at h
    split at h
    · next c outer hcalls =>
      obtain ⟨cls, p⟩ := c
      rcases advance_cases h with ⟨q, u, hmove, rfl⟩ | ⟨result, rfl, rfl⟩
      · exact .inr (.inl ⟨thread, cls, p, q, outer, u, hcalls, hmove, rfl⟩)
      · exact .inr (.inr ⟨thread, cls, result, outer, hcalls, rfl⟩)
    · cases h
  | finish thread outcome =>
    simp only [next] at h
    split at h
    · next cls slot outer hcalls =>
      obtain rfl := Option.some.inj h
      cases outcome with
      | ok => exact .inr (.inl ⟨thread, cls, _, _, outer, _, hcalls, .succeed, rfl⟩)
      | error stop => exact .inr (.inl ⟨thread, cls, _, _, outer, _, hcalls, .fail, rfl⟩)
    · cases h

end Threads

end HandleForms
