import HandleForms.Proofs.Mirror.Script

/-!
# The class barrier in worlds that mirror each other

Both worlds track the same classes, so a call for a class comes to the same: it passes, fails, or
runs the initializer, which is discreet host code. Once a call has passed, and no initializer is
running, the class is initialized in both worlds (`Act.Mirrors.ensure`).
-/

namespace HandleForms

variable {σ α β γ δ ε : Type}

/-! ## Slots -/

namespace Barrier

variable {b : Barrier} {cls : String} {slot : Nat} {outcome outcome' : Except (Stop String) Unit}

theorem Tidy.claim (hb : b.Tidy) (cls : String) : (b.claim cls).Tidy := by
  -- Claiming puts one entry in front of the others.
  have hlookup : ∀ {other slot}, (b.claim cls).entries.lookup other = some slot →
      other = cls ∧ slot = b.states.length ∨ b.entries.lookup other = some slot :=
        fun {other slot} h => by
    rw [Barrier.claim, List.lookup_cons] at h
    by_cases hother : other = cls
    · rw [hother, beq_self_eq_true] at h
      exact .inl ⟨hother, (Option.some.inj h).symm⟩
    · rw [beq_false_of_ne hother] at h
      exact .inr h
  have hold : ∀ {slot}, slot < b.states.length → (b.claim cls).state slot = b.state slot :=
    fun hlt => by
    rw [state, state, Barrier.claim, List.getElem?_append_left hlt]
  refine ⟨fun {other slot} h => ?_, fun {c c' slot} hc hc' => ?_, fun {other slot} h => ?_⟩
  · simp only [Barrier.claim, List.length_append, List.length_singleton]
    rcases hlookup h with ⟨-, rfl⟩ | h
    · omega
    · exact Nat.lt_succ_of_lt (hb.slot_lt h)
  · rcases hlookup hc with ⟨hother, hslot⟩ | hc <;> rcases hlookup hc' with ⟨hother', hslot'⟩ | hc'
    · exact hother.trans hother'.symm
    · exact absurd (hb.slot_lt hc') (hslot ▸ Nat.lt_irrefl _)
    · exact absurd (hb.slot_lt hc) (hslot' ▸ Nat.lt_irrefl _)
    · exact hb.slot_inj hc hc'
  · rcases hlookup h with ⟨-, rfl⟩ | h
    · left
      rw [state, Barrier.claim, List.getElem?_concat_length]
      rfl
    · rw [hold (hb.slot_lt h)]
      exact hb.settled h

theorem grows_claim (b : Barrier) (cls : String) : b.Grows (b.claim cls) := by
  refine ⟨by simp [Barrier.claim], fun {other slot} h hlt => ?_⟩
  rw [Barrier.claim, List.lookup_cons] at h
  cases hother : other == cls with
  | true =>
    rw [hother] at h
    exact absurd hlt (Option.some.inj h ▸ Nat.lt_irrefl _)
  | false => rwa [hother] at h

/-- Concluding takes entries out at most. -/
theorem lookup_conclude {other : String} {slot' : Nat}
    (h : (b.conclude cls slot outcome).entries.lookup other = some slot') :
    b.entries.lookup other = some slot' ∧ (outcome = .ok () → other ≠ cls) := by
  cases outcome with
  | error stop => exact ⟨h, nofun⟩
  | ok u =>
    rw [conclude, lookup_remove] at h
    split at h
    · cases h
    · next hne => exact ⟨h, fun _ => hne⟩

theorem state_conclude (slot' : Nat) :
    (b.conclude cls slot outcome).state slot' = (b.settle slot outcome).state slot' := by
  cases outcome <;> rfl

theorem length_conclude : (b.conclude cls slot outcome).states.length = b.states.length := by
  cases outcome <;> exact length_states_setState

theorem grows_conclude (b : Barrier) (cls : String) (slot : Nat)
    (outcome : Except (Stop String) Unit) :
    b.Grows (b.conclude cls slot outcome) :=
  ⟨Nat.le_of_eq length_conclude.symm, fun h _ => (lookup_conclude h).1⟩

theorem Tidy.conclude (hb : b.Tidy) (hlt : slot < b.states.length)
    (hown : ∀ other, b.entries.lookup other = some slot → other = cls) :
    (b.conclude cls slot outcome).Tidy := by
  refine ⟨fun h => ?_, fun h h' => hb.slot_inj (lookup_conclude h).1 (lookup_conclude h').1,
    fun {other slot'} h => ?_⟩
  · rw [length_conclude]
    exact hb.slot_lt (lookup_conclude h).1
  · obtain ⟨hlookup, hne⟩ := lookup_conclude h
    rw [state_conclude]
    by_cases hslot : slot' = slot
    · subst hslot
      rw [settle, state_setState_self hlt]
      rcases outcome with (reason | v) | u
      · exact .inr ⟨reason, rfl⟩
      · exact .inr ⟨_, rfl⟩
      · exact absurd (hown other hlookup) (hne rfl)
    · rw [settle, state_setState_of_ne hslot]
      exact hb.settled hlookup

/-- What is put down is how the initializer ended, not what stopped it. -/
theorem conclude_congr (h : Outcome.Mirrors Eq outcome outcome') :
    b.conclude cls slot outcome' = b.conclude cls slot outcome := by
  cases h with
  | ok h => rfl
  | @stop s s' h =>
    cases s <;> cases s' <;>
      simp only [Stop.plain, Stop.error.injEq, Stop.violation.injEq, reduceCtorEq] at h
    · rw [h]
    · rfl

end Barrier

/-! ## Calls of the host -/

variable {host : Host σ} {M : host.Mirroring} {κ κ' : Pairing} {w w' : World σ} {re : Reentry σ}

namespace Act.Mirrors

variable {post : Pairing → Except ε α → Except ε β → Prop}

theorem callHost (hre : re.Mirrored M) (hw : World.Mirrors M κ w w') {call call' : HostCall}
    (hcall : call.Mirrors κ call') {code : Script σ ε α} {code' : Script σ ε β}
    (hcode : Script.Mirrors M post κ w.host w'.host code code') (args args' : List Value) :
    Mirrors M κ w w' (Act.callHost host re call args code) (Act.callHost host re call' args' code')
      post := by
  refine (record hw hcall).bind_at fun κ' _ _ hreach _ _ hκ => ?_
  subst hκ
  exact script hre hcode hreach.worlds rfl rfl _ _

end Act.Mirrors

/-- Initializers that come to the same end in the same way. -/
theorem Act.mirrors_initializerEnd {o o' : Except (Stop RuntimeError) (Except String Unit)}
    (h : Outcome.Mirrors Eq o o') : Outcome.Mirrors Eq (initializerEnd o) (initializerEnd o') := by
  cases h with
  | @ok r r' h =>
    subst h
    rcases r with reason | u
    · exact .stop rfl
    · exact .ok rfl
  | @stop s s' h =>
    cases s <;> cases s' <;>
      simp only [Stop.plain, Stop.error.injEq, Stop.violation.injEq, reduceCtorEq] at h
    · exact .stop (congrArg (fun e : RuntimeError => Stop.error e.message) h)
    · exact .stop (congrArg Stop.violation h)

/-! ## Passing the barrier -/

theorem World.Mirrors.withBarrier (hw : World.Mirrors M κ w w') {b : Barrier} (hb : b.Tidy) :
    World.Mirrors M κ { w with barrier := b } { w' with barrier := b } :=
  { hw with
    tame := { hw.tame with sound := hw.tame.sound.of_eq rfl rfl rfl, barrier := hb }
    tame' := { hw.tame' with sound := hw.tame'.sound.of_eq rfl rfl rfl, barrier := hb }
    barrier := rfl }

/-- Both worlds put down how an initializer ended. -/
theorem World.Mirrors.push_ended (hw : World.Mirrors M κ w w') (cls : String)
    {o o' : Except (Stop String) Unit} (ho : Outcome.Mirrors Eq o o') :
    World.Reach M κ κ w w' (w.push (.ended cls o)) (w'.push (.ended cls o')) :=
  ⟨le_refl κ, { hw with
      tame := hw.tame.of_eq rfl rfl rfl rfl rfl (Nat.le_refl _)
      tame' := hw.tame'.of_eq rfl rfl rfl rfl rfl (Nat.le_refl _) }, .refl _, [_], [_], rfl, rfl,
    .cons (.ended cls ho) .nil⟩

/-- The initializer of a class ended, which was claimed before. -/
theorem World.Reach.conclude {v v' : World σ} {cls : String} {o o' : Except (Stop String) Unit}
    (hw : w.barrier.Tidy)
    (h : World.Reach M κ κ' { w with barrier := w.barrier.claim cls }
      { w' with barrier := w.barrier.claim cls } v v') (ho : Outcome.Mirrors Eq o o') :
    World.Reach M κ κ' w w' (v.conclude cls w.barrier.states.length o)
      (v'.conclude cls w.barrier.states.length o') := by
  have hpush := h.worlds.push_ended cls ho
  have hclaim := hw.claim cls
  have hlength : (w.barrier.claim cls).states.length = w.barrier.states.length + 1 := by
    simp [Barrier.claim]
  have hslot : w.barrier.states.length < (w.barrier.claim cls).states.length := by
    rw [hlength]
    exact Nat.lt_succ_self _
  -- Whatever the initializer did, no other class got hold of the slot.
  have hown : ∀ other,
      v.barrier.entries.lookup other = some w.barrier.states.length → other = cls :=
    fun other hother => hclaim.slot_inj (h.barrier.lookup_old hother hslot) List.lookup_cons_self
  have htidy : (v.barrier.conclude cls w.barrier.states.length o).Tidy :=
    h.worlds.tame.barrier.conclude (Nat.lt_of_lt_of_le hslot h.barrier.length_le) hown
  obtain ⟨new, new', hnew, hnew', hcalls⟩ := (h.trans hpush).calls
  refine ⟨h.le, ?_, ?_, new, new', hnew, hnew', hcalls⟩
  · have hworlds := hpush.worlds.withBarrier htidy
    have hsame : v'.barrier.conclude cls w.barrier.states.length o' =
        v.barrier.conclude cls w.barrier.states.length o := by
      rw [h.worlds.barrier, Barrier.conclude_congr ho]
    unfold World.conclude
    rw [hsame]
    exact hworlds
  · exact (w.barrier.grows_claim cls).trans (h.barrier.trans (v.barrier.grows_conclude cls _ o))

namespace Act.Mirrors

/-- A class that is neither initialized nor tracked. -/
theorem ensure_of_unclaimed (hhost : host.Discreet M) (hre : re.Mirrored M)
    (hw : World.Mirrors M κ w w') {cls : String} (hcls : w.Unclaimed host cls) :
    Mirrors M κ w w' (Act.ensure host re cls) (Act.ensure host re cls)
      fun κ' a b => b = a ∧ (a = .done → κ'.ready cls) := by
  have hcls' : w'.Unclaimed host cls :=
    ⟨(hw.initialized cls).trans hcls.initialized, hw.barrier ▸ hcls.lookup⟩
  have hclaim := hw.withBarrier (hw.tame.barrier.claim cls)
  have hrun := callHost hre hclaim (.initializer cls)
    (hhost.initializer κ _ _ cls hclaim.state) [] []
  -- The same code runs in both worlds, so all that is left is how it ended.
  let run (w : World σ) := Act.callHost host re (.initializer cls) [] (host.initializer cls) w
  have happly : ∀ {u : World σ}, u.barrier = w.barrier → u.Unclaimed host cls →
      Act.ensure host re cls u =
        let ran := run { u with barrier := w.barrier.claim cls }
        (((initializerEnd ran.1).map fun _ => .done).mapError fun s => s.map (.classInitFailed cls),
          ran.2.conclude cls w.barrier.states.length
            (initializerEnd ran.1)) := fun hbarrier hcls => by
    rw [Act.ensure_of_unclaimed hcls rfl, hbarrier]
    rfl
  rw [Mirrors, happly rfl hcls, happly hw.barrier hcls']
  rcases hrun with hcut | hcut | ⟨κ', hreach, ho⟩
  · have hcut : (run { w with barrier := w.barrier.claim cls }).1 = _ := hcut
    dsimp only
    rw [hcut]
    exact .inl rfl
  · have hcut : (run { w' with barrier := w.barrier.claim cls }).1 = _ := hcut
    dsimp only
    rw [hcut]
    exact .inr (.inl rfl)
  · have hends : Outcome.Mirrors Eq (initializerEnd _) (initializerEnd _) :=
      mirrors_initializerEnd (ho.imp fun a b h => h.1.symm)
    refine .inr (.inr ⟨κ', hreach.conclude hw.tame.barrier hends, ?_⟩)
    dsimp only
    revert ho
    generalize (run { w with barrier := w.barrier.claim cls }).1 = o
    generalize (run { w' with barrier := w.barrier.claim cls }).1 = o'
    intro ho
    cases ho with
    | @ok r r' h =>
      obtain ⟨hsame, hready⟩ := h
      rw [hsame]
      cases r with
      | error reason => exact .stop rfl
      | ok u => exact .ok ⟨rfl, fun _ => hready rfl⟩
    | @stop s s' h =>
      cases s <;> cases s' <;>
        simp only [Stop.plain, Stop.error.injEq, Stop.violation.injEq, reduceCtorEq] at h
      · exact .stop (by rw [h])
      · exact .stop (congrArg Stop.violation h)

/-- A call for a class comes to the same in both worlds. Once it has passed, and no initializer is
running, the class is initialized. -/
theorem ensure (hhost : host.Discreet M) (hre : re.Mirrored M) (hw : World.Mirrors M κ w w')
    (cls : String) : Mirrors M κ w w' (Act.ensure host re cls) (Act.ensure host re cls)
      fun κ' a b => b = a ∧ (a = .done → κ'.ready cls) := by
  have hinit' := hw.initialized cls
  cases hinit : host.isInitialized w.host cls with
  | true =>
    have happly : ∀ {u : World σ}, host.isInitialized u.host cls = true →
        Act.ensure host re cls u = (.ok .done, u) := fun hinit => by
      rw [ensure_apply, hinit, if_pos rfl]
    rw [Mirrors, happly hinit, happly (hinit'.trans hinit)]
    exact .inr (.inr ⟨κ, .refl hw, .ok ⟨rfl, fun _ => (hw.ready cls).2 hinit⟩⟩)
  | false =>
    cases hslot : w.barrier.entries.lookup cls with
    | none => exact ensure_of_unclaimed hhost hre hw ⟨hinit, hslot⟩
    | some slot =>
      have hslot' : w'.barrier.entries.lookup cls = some slot := hw.barrier ▸ hslot
      have hpass := @ensure_of_tracked σ host re w cls slot hinit hslot
      have hpass' := @ensure_of_tracked σ host re w' cls slot (hinit'.trans hinit) hslot'
      rw [hw.barrier] at hpass'
      -- A tracked class is being initialized, or its initializer has failed.
      rcases hw.tame.barrier.settled hslot with hstate | ⟨reason, hstate⟩
      · rw [Mirrors, hpass.1 hstate, hpass'.1 hstate]
        exact .inr (.inr ⟨κ, .refl hw, .ok ⟨rfl, nofun⟩⟩)
      · rw [Mirrors, hpass.2 reason hstate, hpass'.2 reason hstate]
        exact .inr (.inr ⟨κ, .refl hw, .stop rfl⟩)

end Act.Mirrors

end HandleForms
