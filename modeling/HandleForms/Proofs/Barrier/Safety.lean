import HandleForms.Proofs.Barrier.Once

/-!
# At most one run of an initializer

However the steps of the threads follow each other, the initializer of a class is started at most
once, calls pass only after its success or inside of it, a failure stays, and a success leaves nothing
behind (`Threads.runsOnce_run`). Most of it is read off the stage of the class. After a failure
there is one call that may answer something else than its reason, the one that ran the initializer;
`Threads.Failing` says where it stands. Once the failure is put down no call waits any more
(`Threads.answers_of_turns`).
-/

namespace HandleForms

namespace Threads

variable {t t' u : Threads} {thread th owner : ThreadId} {cls other : String} {p q : CallPhase}
  {c : BarrierCall} {stack outer : List BarrierCall} {e : Event} {es : List Event} {slot : Nat}
  {stage : Stage} {stop : Stop String} {reason : String} {result : Except (Stop String) InitStatus}
  {answers : List (ThreadId × String × Except (Stop String) InitStatus)}

/-! ## Runs -/

theorem after_of_next (h : t.next e = some t') : t.after e = t' := by rw [after, h]; rfl

theorem after_of_none (h : t.next e = none) : t.after e = t := by rw [after, h]; rfl

theorem Sound.after (hsound : t.Sound) (e : Event) : (t.after e).Sound := by
  cases hnext : t.next e with
  | none => rwa [after_of_none hnext]
  | some t' =>
    rw [after_of_next hnext]
    exact hsound.next hnext

theorem At.after (hsound : t.Sound) (h : t.At cls stage) (e : Event) :
    ∃ stage', (t.after e).At cls stage' ∧ stage.Leads stage' := by
  cases hnext : t.next e with
  | none =>
    rw [after_of_none hnext]
    exact ⟨stage, h, .stay _⟩
  | some t' =>
    rw [after_of_next hnext]
    exact h.next hsound hnext

theorem Sound.run (hsound : t.Sound) (es : List Event) : (t.run es).Sound := by
  induction es generalizing t with
  | nil => exact hsound
  | cons e es ih => exact ih (hsound.after e)

/-- A failure that is put down stays. -/
theorem At.failed_run (hsound : t.Sound) (h : t.At cls (.failed owner slot reason))
    (es : List Event) : (t.run es).At cls (.failed owner slot reason) := by
  induction es generalizing t with
  | nil => exact h
  | cons e es ih =>
    obtain ⟨stage', h', hleads⟩ := h.after hsound e
    cases hleads
    exact ih (hsound.after e) h'

theorem sound_idle (threads : Nat) : (idle threads).Sound := by
  have hstack : ∀ (th : ThreadId) (stack : List BarrierCall),
      (idle threads).calls[th]? = some stack → stack = [] := fun th stack h =>
    List.eq_of_mem_replicate (List.mem_of_getElem? h)
  have hopen : ∀ th c, ¬ (idle threads).Open th c := by
    rintro th c ⟨stack, h, hc⟩
    rw [hstack th stack h] at hc
    cases hc
  have howned : ∀ cls slot, ¬ (idle threads).Owns cls slot := by
    rintro cls slot (h | ⟨th, q, hq, -⟩)
    · cases h
    · exact hopen th _ hq
  refine ⟨fun th stack h d hd => ?_, fun th stack h => ?_, fun cls slot h => (howned cls slot h).elim,
    fun cls _ slot h => (howned cls slot h).elim, fun cls => ⟨.fresh, rfl, ?_,
      fun th q hq => (hopen th _ hq).elim, fun slot h => (howned cls slot h).elim, nofun, nofun, nofun,
      nofun⟩⟩
  · rw [hstack th stack h] at hd
    cases hd
  · rw [hstack th stack h]
    exact .nil
  · exact ⟨nofun, False.elim⟩

/-! ## Answers -/

/-- The event ends a call of the thread for the class with this result. -/
def Answers (t : Threads) (e : Event) (thread : ThreadId) (cls : String)
    (result : Except (Stop String) InitStatus) : Prop :=
  (t.after e).results = (thread, cls, result) :: t.results

/-- The calls of a thread that are over. -/
def answersTo (t : Threads) (thread : ThreadId) :
    List (ThreadId × String × Except (Stop String) InitStatus) :=
  t.results.filter fun r => r.1 == thread

/-- What is answered was the result of the innermost call. -/
theorem Answers.exists_call (h : t.Answers e thread cls result) :
    ∃ outer, t.calls[thread]? = some (⟨cls, .returned result⟩ :: outer) := by
  have hsame : (t.after e).results ≠ t.results := fun heq =>
    absurd (congrArg List.length (h.symm.trans heq)) (Nat.succ_ne_self _)
  cases hnext : t.next e with
  | none => exact absurd (congrArg results (after_of_none hnext)) hsame
  | some t' =>
    rw [Answers, after_of_next hnext] at h
    rw [after_of_next hnext] at hsame
    rcases next_cases hnext with ⟨_, _, _, _, _, rfl⟩ | ⟨_, _, _, _, _, u, _, hmove, rfl⟩ |
      ⟨thread', cls', result', outer, hcalls, rfl⟩
    · exact absurd rfl hsame
    · exact absurd hmove.results_eq hsame
    · obtain ⟨heq, -⟩ := List.cons.inj h
      simp only [Prod.mk.injEq] at heq
      obtain ⟨rfl, rfl, rfl⟩ := heq
      exact ⟨outer, hcalls⟩

theorem At.allows_of_answers (hat : t.At cls stage) (h : t.Answers e thread cls result) :
    stage.Allows thread (.returned result) :=
  have ⟨_, hcalls⟩ := h.exists_call
  hat.allows hcalls

/-! ## After a failure -/

/-- The call takes note of the end of the initializer, or passes on that it panicked. -/
def IsOwn : CallPhase → Prop
  | .settle _ _ | .returned (.error (.violation _)) => True
  | _ => False

theorem IsOwn.not_isRunning (h : IsOwn q) : ¬ q.IsRunning := by
  rintro ⟨slot, rfl⟩
  exact h

/-- Such calls come from the ones that run an initializer only. -/
theorem Move.isOwn (h : t.Move thread cls p q u) (hq : IsOwn q) :
    p.IsRunning ∨ ∃ slot stop, p = .settle slot (.error stop) ∧ q = .returned (.error stop) := by
  cases h with
  | succeed | fail => exact .inl ⟨_, rfl⟩
  | settleError => exact .inr ⟨_, _, rfl, rfl⟩
  | _ => exact hq.elim

/-- The initializer of the class failed on the thread of the owner. `answers` are the calls of the
owner that were over then. -/
structure Failing (t : Threads) (cls : String) (owner : ThreadId) (slot : Nat) (stop : Stop String)
    (reason : String) (answers : List (ThreadId × String × Except (Stop String) InitStatus)) :
    Prop where
  sound : t.Sound
  stage : t.At cls (.ended owner slot (.error stop)) ∨ t.At cls (.failed owner slot reason)
  /-- The call that ran the initializer is the innermost one of the owner until it is over. -/
  own : ∀ th q, t.Open th ⟨cls, q⟩ → IsOwn q →
    (th = owner ∧ (q = .settle slot (.error stop) ∨ q = .returned (.error stop)) ∧
      t.answersTo owner = answers) ∧ ∃ outer, t.calls[th]? = some (⟨cls, q⟩ :: outer)

/-- This is so when the initializer ends with the failure. -/
theorem failing_of_finish (hsound : t.Sound)
    (hcalls : t.calls[owner]? = some (⟨cls, .running slot⟩ :: outer)) :
    (t.after (.finish owner (.error stop))).Failing cls owner slot stop reason
      (t.answersTo owner) := by
  have hmove : t.Move owner cls (.running slot) (.settle slot (.error stop)) t := .fail
  have hnext : t.next (.finish owner (.error stop)) =
      some (t.setCalls owner (⟨cls, .settle slot (.error stop)⟩ :: outer)) := by
    simp only [next, hcalls]
  obtain ⟨stage, h⟩ := hsound.stage cls
  obtain ⟨rfl, h'⟩ := h.finish hsound hcalls hmove
  rw [after_of_next hnext]
  refine ⟨hsound.next hnext, .inl h', fun th q hq hown => ?_⟩
  have hallowed := h'.calls th q hq
  cases q with
  | settle s outcome =>
    obtain ⟨rfl, rfl, rfl⟩ := Stage.ended.inj hallowed
    have hlt := (List.getElem?_eq_some_iff.1 hcalls).1
    exact ⟨⟨rfl, .inl rfl, rfl⟩, outer, List.getElem?_set_self hlt⟩
  | returned result =>
    rcases result with (_ | v) | _
    · exact hown.elim
    · obtain ⟨_, _, _, hstage, -⟩ := hallowed
      cases hstage
    · exact hown.elim
  | _ => exact hown.elim

namespace Failing

variable (h : t.Failing cls owner slot stop reason answers)
include h

/-- A call that an initializer made is not the one that ran the failed one. -/
theorem not_mem_outer (hcalls : t.calls[th]? = some (c :: outer)) (hown : IsOwn q) :
    ⟨cls, q⟩ ∉ outer := fun hmem =>
  hown.not_isRunning (h.sound.nested th _ hcalls _ hmem)

theorem next (hreason : Barrier.outcomeState (.error stop) = .failed reason)
    (hnext : t.next e = some t') : t'.Failing cls owner slot stop reason answers := by
  refine ⟨h.sound.next hnext, ?_, fun th q hq hown => ?_⟩
  · rcases h.stage with hat | hat
    · obtain ⟨stage', hat', hleads⟩ := hat.next h.sound hnext
      cases hleads with
      | stay => exact .inl hat'
      | fail hreason' =>
        cases hreason.symm.trans hreason'
        exact .inr hat'
    · obtain ⟨stage', hat', hleads⟩ := hat.next h.sound hnext
      cases hleads
      exact .inr hat'
  rcases next_cases hnext with ⟨thread, other, stack, hcalls, hstack, rfl⟩ |
    ⟨thread, other, p, r, outer, u, hcalls, hmove, rfl⟩ | ⟨thread, other, result, outer, hcalls, rfl⟩
  · rcases (open_setCalls hcalls).1 hq with ⟨rfl, hmem⟩ | ⟨hth, hold⟩
    · rcases List.mem_cons.1 hmem with heq | hmem
      · obtain ⟨-, rfl⟩ := BarrierCall.mk.inj heq
        exact hown.elim
      · obtain ⟨-, outer, htop⟩ := h.own th q ⟨stack, hcalls, hmem⟩ hown
        obtain rfl := Option.some.inj (hcalls.symm.trans htop)
        exact absurd (hstack _ rfl) hown.not_isRunning
    · obtain ⟨hself, outer, htop⟩ := h.own th q hold hown
      exact ⟨hself, outer, (List.getElem?_set_ne (Ne.symm hth)).trans htop⟩
  · have hanswers : (u.setCalls thread (⟨other, r⟩ :: outer)).answersTo owner = t.answersTo owner :=
      congrArg (List.filter _) hmove.results_eq
    rcases open_of_move hcalls hmove hq with ⟨rfl, heq⟩ | ⟨hold, houter⟩
    · obtain ⟨rfl, rfl⟩ := BarrierCall.mk.inj heq
      have hlt : th < u.calls.length := hmove.calls_eq ▸ (List.getElem?_eq_some_iff.1 hcalls).1
      rcases hmove.isOwn hown with ⟨slot', rfl⟩ | ⟨slot', stop', rfl, rfl⟩
      · rcases h.stage with hat | hat <;> cases hat.allows hcalls
      · obtain ⟨⟨rfl, hp, ha⟩, -⟩ := h.own th _ ⟨_, hcalls, .head _⟩ trivial
        cases hp.resolve_right nofun
        exact ⟨⟨rfl, .inr rfl, hanswers.trans ha⟩, outer, List.getElem?_set_self hlt⟩
    · obtain ⟨⟨howner, hphase, ha⟩, outer', htop⟩ := h.own th q hold hown
      have hth : thread ≠ th := fun hth => h.not_mem_outer (hth ▸ hcalls) hown (houter hth.symm)
      refine ⟨⟨howner, hphase, hanswers.trans ha⟩, outer', ?_⟩
      exact (List.getElem?_set_ne hth).trans (hmove.calls_eq ▸ htop)
  · rcases (open_setCalls hcalls).1 hq with ⟨rfl, hmem⟩ | ⟨hth, hold⟩
    · exact absurd hmem (h.not_mem_outer hcalls hown)
    · obtain ⟨⟨rfl, hphase, ha⟩, outer', htop⟩ := h.own th q hold hown
      refine ⟨⟨rfl, hphase, ?_⟩, outer', (List.getElem?_set_ne (Ne.symm hth)).trans htop⟩
      exact (List.filter_cons_of_neg (by simpa using Ne.symm hth)).trans ha

theorem run (hreason : Barrier.outcomeState (.error stop) = .failed reason) (es : List Event) :
    (t.run es).Failing cls owner slot stop reason answers := by
  induction es generalizing t with
  | nil => exact h
  | cons e es ih =>
    refine ih ?_
    cases hnext : t.next e with
    | none => rwa [after_of_none hnext]
    | some t' =>
      rw [after_of_next hnext]
      exact h.next hreason hnext

/-- The class stays tracked. -/
theorem entry : t.barrier.entries.lookup cls = some slot := by
  rcases h.stage with hat | hat <;> exact hat.entry slot rfl

/-- Every answer is the failure, apart from that to the call that ran the initializer. -/
theorem answer (hanswers : t.Answers e th cls result) :
    result = .error (.error reason) ∨
      th = owner ∧ result = .error stop ∧ t.answersTo owner = answers := by
  obtain ⟨outer, hcalls⟩ := hanswers.exists_call
  rcases h.stage with hat | hat
  · have hallowed := hat.allows hcalls
    rcases result with stop' | (_ | _)
    · exact absurd hallowed nofun
    · exact hallowed.elim
    · exact absurd hallowed nofun
  · have hallowed := hat.allows hcalls
    rcases result with stop' | (_ | _)
    · obtain ⟨_, _, _, heq, rfl | ⟨-, v, rfl⟩⟩ := hallowed
      · cases heq
        exact .inl rfl
      · obtain ⟨⟨howner, hphase, ha⟩, -⟩ := h.own th _ ⟨_, hcalls, .head _⟩ trivial
        have hstop := CallPhase.returned.inj (hphase.resolve_left nofun)
        exact .inr ⟨howner, hstop, ha⟩
    · exact hallowed.elim
    · exact absurd hallowed nofun

/-- When the owner goes on, the failure is put down. -/
theorem settled (hreason : Barrier.outcomeState (.error stop) = .failed reason) :
    (t.after (.step owner)).At cls (.failed owner slot reason) := by
  rcases h.stage with hat | hat
  · obtain ⟨-, outer, hcalls⟩ := h.own owner _ (hat.runner owner _ rfl) trivial
    have hlt := (List.getElem?_eq_some_iff.1 hcalls).1
    have hnext : t.next (.step owner) = some (setCalls
        { t with barrier := t.barrier.settle slot (.error stop) } owner
          (⟨cls, .returned (.error stop)⟩ :: outer)) := by
      simp only [Threads.next, hcalls, advance]
    have h' := h.next hreason hnext
    rw [after_of_next hnext]
    refine h'.stage.resolve_left fun hat' => ?_
    obtain ⟨-, outer', hcalls'⟩ := h'.own owner _ (hat'.runner owner _ rfl) trivial
    cases (List.getElem?_set_self hlt).symm.trans hcalls'
  · exact hat.failed_run h.sound [.step owner]

theorem settled_run (hreason : Barrier.outcomeState (.error stop) = .failed reason)
    (hes : Event.step owner ∈ es) : (t.run es).At cls (.failed owner slot reason) := by
  induction es generalizing t with
  | nil => cases hes
  | cons e es ih =>
    rcases List.mem_cons.1 hes with rfl | hes
    · exact (h.settled hreason).failed_run (h.sound.after _) es
    · exact ih (h.run hreason [e]) hes

end Failing

/-! ## No call waits after a failure -/

/-- The thread that an event is about. -/
def Event.actor : Event → ThreadId
  | .call thread _ | .step thread | .finish thread _ => thread

/-- The event is a step of the thread. -/
def Event.isStepOf (thread : ThreadId) : Event → Bool
  | .step th => th == thread
  | _ => false

/-- How often the thread makes a step. -/
def turns (thread : ThreadId) (es : List Event) : Nat := es.countP (Event.isStepOf thread)

/-- The steps that a call needs at most when it finds a failure. -/
def toReturn : CallPhase → Nat
  | .start => 4
  | .enter => 3
  | .inspect _ => 2
  | _ => 1

theorem toReturn_le (p : CallPhase) : toReturn p ≤ 4 := by
  unfold toReturn
  split <;> omega

theorem calls_next (h : t.next e = some t') : ∃ stack, t'.calls = t.calls.set e.actor stack := by
  cases e with
  | call thread cls =>
    simp only [next] at h
    split at h
    · obtain rfl := Option.some.inj h
      exact ⟨_, rfl⟩
    · obtain rfl := Option.some.inj h
      exact ⟨_, rfl⟩
    · cases h
  | step thread =>
    simp only [next] at h
    split at h
    · next c outer hcalls =>
      rcases advance_cases h with ⟨q, u, hmove, rfl⟩ | ⟨result, -, rfl⟩
      · exact ⟨_, congrArg (List.set · thread _) hmove.calls_eq⟩
      · exact ⟨_, rfl⟩
    · cases h
  | finish thread outcome =>
    simp only [next] at h
    split at h
    · obtain rfl := Option.some.inj h
      cases outcome <;> exact ⟨_, rfl⟩
    · cases h

/-- A call waits for the steps of its own thread only, unless it runs an initializer. -/
theorem calls_after (hcalls : t.calls[thread]? = some (⟨cls, p⟩ :: outer)) (hp : ¬ p.IsRunning)
    (he : e.isStepOf thread = false) :
    (t.after e).calls[thread]? = some (⟨cls, p⟩ :: outer) := by
  cases hnext : t.next e with
  | none => rwa [after_of_none hnext]
  | some t' =>
    rw [after_of_next hnext]
    obtain ⟨stack, hset⟩ := calls_next hnext
    rw [hset, List.getElem?_set_ne, hcalls]
    rintro rfl
    cases e with
    | step => simp [Event.isStepOf, Event.actor] at he
    | call | finish =>
      simp only [next, Event.actor] at hnext hcalls
      rw [hcalls] at hnext
      cases p with
      | running slot => exact hp ⟨slot, rfl⟩
      | _ => cases hnext

/-- A call that finds a failure goes on. -/
theorem At.step_of_failed (h : t.At cls (.failed owner slot reason))
    (hcalls : t.calls[thread]? = some (⟨cls, p⟩ :: outer)) :
    (∃ result, t.Answers (.step thread) thread cls result) ∨
      ∃ q, (t.after (.step thread)).calls[thread]? = some (⟨cls, q⟩ :: outer) ∧
        toReturn q < toReturn p := by
  have hlt := (List.getElem?_eq_some_iff.1 hcalls).1
  have hallowed := h.allows hcalls
  have hgo : ∀ q, t.next (.step thread) = some (t.setCalls thread (⟨cls, q⟩ :: outer)) →
      (t.after (.step thread)).calls[thread]? = some (⟨cls, q⟩ :: outer) := fun q hnext =>
    after_of_next hnext ▸ List.getElem?_set_self hlt
  cases p with
  | start =>
    have hi : cls ∉ t.initialized := h.initialized.1
    exact .inr ⟨.enter, hgo _ (by simp [Threads.next, hcalls, advance, hi]), by decide⟩
  | enter =>
    refine .inr ⟨.inspect slot, hgo _ ?_, Nat.lt_succ_self _⟩
    simp [Threads.next, hcalls, advance, Barrier.enter_of_some (h.entry slot rfl)]
  | inspect s =>
    have hstate : t.barrier.state s = .failed reason := (h.holds hcalls rfl).2
    refine .inr ⟨.returned (.error (.error reason)), hgo _ ?_, Nat.lt_succ_self _⟩
    simp [Threads.next, hcalls, advance, Barrier.inspect, hstate]
  | running | settle => cases hallowed
  | remove =>
    obtain ⟨_, hstage⟩ := hallowed
    cases hstage
  | returned result =>
    have hnext : t.next (.step thread) = some { t.setCalls thread outer with
        results := (thread, cls, result) :: t.results } := by
      simp only [Threads.next, hcalls, advance]
    exact .inl ⟨result, congrArg Threads.results (after_of_next hnext)⟩

/-- Once a failure is put down, a call for the class is over after some steps of its thread, whatever
the other threads do meanwhile. -/
theorem answers_of_turns (hsound : t.Sound) (h : t.At cls (.failed owner slot reason))
    (hcalls : t.calls[thread]? = some (⟨cls, p⟩ :: outer)) (hturns : toReturn p ≤ turns thread es) :
    ∃ es₁ es₂, es = es₁ ++ .step thread :: es₂ ∧
      ∃ result, (t.run es₁).Answers (.step thread) thread cls result := by
  induction es generalizing t p with
  | nil => cases p <;> cases hturns
  | cons e es ih =>
    have hsound' := hsound.after e
    have h' := h.failed_run hsound [e]
    by_cases he : e.isStepOf thread = true
    · obtain rfl : e = .step thread := by
        cases e with
        | step => exact congrArg Event.step (beq_iff_eq.1 he)
        | call | finish => cases he
      rcases h.step_of_failed hcalls with hanswers | ⟨q, hcalls', hlt⟩
      · exact ⟨[], es, rfl, hanswers⟩
      · have hcount : turns thread (.step thread :: es) = turns thread es + 1 :=
          List.countP_cons_of_pos he
        obtain ⟨es₁, es₂, rfl, hanswers⟩ := ih hsound' h' hcalls' (by omega)
        exact ⟨.step thread :: es₁, es₂, rfl, hanswers⟩
    · have hrunning : ¬ p.IsRunning := by
        rintro ⟨s, rfl⟩
        cases h.allows hcalls
      have hcount : turns thread (e :: es) = turns thread es := List.countP_cons_of_neg he
      obtain ⟨es₁, es₂, rfl, hanswers⟩ := ih hsound' h'
        (calls_after hcalls hrunning (Bool.eq_false_iff.2 he)) (hcount ▸ hturns)
      exact ⟨e :: es₁, es₂, rfl, hanswers⟩

/-! ## The barrier is safe -/

/-- What the barrier promises of a class at any moment. -/
structure RunsOnce (t : Threads) (cls : String) : Prop where
  /-- The initializer was started at most once. -/
  once : (t.started.filter fun e => e.2 == cls).length ≤ 1
  /-- At most one thread is recorded as running it, in whatever slot. -/
  recorded : ∀ slot slot' th th', t.Owns cls slot → t.Owns cls slot' →
    t.barrier.state slot = .running th → t.barrier.state slot' = .running th' → th = th'
  /-- A call passes before the end of the initializer on the thread that runs it only. -/
  reentrant : ∀ e th, t.Answers e th cls (.ok .reentrant) →
    ∃ slot, t.Open th ⟨cls, .running slot⟩ ∧ t.barrier.state slot = .running th
  /-- Other calls pass when the class is initialized. -/
  done : ∀ e th, t.Answers e th cls (.ok .done) → cls ∈ t.initialized
  /-- When the initializer fails or panics, the entry stays, and from then on every call for the class
  gets the reason. The call that ran the initializer passes on how it ended, and this is the first
  answer that its thread gets. After the next step of this thread no call waits any more. -/
  failure : ∀ th slot outer stop reason es, t.calls[th]? = some (⟨cls, .running slot⟩ :: outer) →
    Barrier.outcomeState (.error stop) = .failed reason →
    let u := (t.after (.finish th (.error stop))).run es
    u.barrier.entries.lookup cls = some slot ∧
      (∀ e th' result, u.Answers e th' cls result → result = .error (.error reason) ∨
        th' = th ∧ result = .error stop ∧ u.answersTo th = t.answersTo th) ∧
      (Event.step th ∈ es → u.barrier.state slot = .failed reason ∧
        ∀ th' p outer' later, u.calls[th']? = some (⟨cls, p⟩ :: outer') → 4 ≤ turns th' later →
          ∃ es₁ es₂, later = es₁ ++ .step th' :: es₂ ∧
            ∃ result, (u.run es₁).Answers (.step th') th' cls result)
  /-- A class that is initialized is not tracked when its calls are over. -/
  success : cls ∈ t.initialized → (∀ th q, ¬ t.Open th ⟨cls, q⟩) → t.barrier.isTracked cls = false

theorem Sound.runsOnce (hsound : t.Sound) (cls : String) : t.RunsOnce cls := by
  obtain ⟨stage, h⟩ := hsound.stage cls
  refine ⟨?_, ?_, fun e th hanswers => ?_, fun e th hanswers => ?_, ?_, fun hi hopen => ?_⟩
  · calc (t.started.filter fun e => e.2 == cls).length
        = stage.starts.length := by rw [← h.starts, List.length_map]
      _ ≤ 1 := by cases stage <;> simp [Stage.starts]
  · have hrunner : ∀ slot th, t.Owns cls slot → t.barrier.state slot = .running th →
        stage.starts = [th] := by
      intro slot th hslot hstate
      have hholds := h.slots slot hslot
      rw [hstate] at hholds
      cases stage with
      | running | ended =>
        cases hholds.2
        rfl
      | fresh | failed => cases hholds.2
      | done => exact absurd hholds nofun
    intro slot slot' th th' hslot hslot' hstate hstate'
    exact (List.cons.inj ((hrunner slot th hslot hstate).symm.trans
      (hrunner slot' th' hslot' hstate'))).1
  · obtain ⟨slot, rfl⟩ := h.allows_of_answers hanswers
    have hopen := h.runner th _ rfl
    exact ⟨slot, hopen, (h.slots slot (.inr ⟨th, _, hopen, rfl⟩)).2⟩
  · exact h.initialized.2 (h.allows_of_answers hanswers)
  · intro th slot outer stop reason es hcalls hreason u
    have hfailing : u.Failing cls th slot stop reason (t.answersTo th) :=
      (failing_of_finish hsound hcalls).run hreason es
    refine ⟨hfailing.entry, fun e th' result => hfailing.answer, fun hes => ?_⟩
    have hsettled : u.At cls (.failed th slot reason) :=
      (failing_of_finish hsound hcalls).settled_run hreason hes
    refine ⟨(hsettled.slots slot (.inl hfailing.entry)).2, fun th' p outer' later hcalls' hturns => ?_⟩
    exact answers_of_turns hfailing.sound hsettled hcalls' (Nat.le_trans (toReturn_le p) hturns)
  · cases hslot : t.barrier.entries.lookup cls with
    | none => rw [Barrier.isTracked, hslot]; rfl
    | some slot =>
      have hinitialized := h.initialized.1 hi
      cases stage with
      | fresh | running | failed => exact hinitialized.elim
      | ended owner only outcome => exact absurd (h.runner owner _ rfl) (hopen _ _)
      | done owner =>
        rcases h.removed owner slot rfl hslot with ⟨th, hth⟩ | ⟨-, th, hth⟩
        · exact absurd hth (hopen _ _)
        · exact absurd hth (hopen _ _)

/-- Any number of threads may call the barrier for any classes, one inside the initializer of another,
and their steps may follow each other in any order. -/
theorem runsOnce_run (threads : Nat) (es : List Event) (cls : String) :
    ((idle threads).run es).RunsOnce cls :=
  ((sound_idle threads).run es).runsOnce cls

/-- Two threads race for a class whose initializer fails, and for one whose initializer succeeds. -/
example : ((race 2 "C" (.error (.error "boom"))).barrier.isTracked "C",
    (race 2 "C" (.ok ())).barrier.isTracked "C") = (true, false) := by decide

end Threads

end HandleForms
