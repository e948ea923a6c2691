import HandleForms.World

/-!
# What a journal shows of the class barriers

The journal of a world tells which initializers were started and have ended, which members were called
and which forms were seen. `Journal.Lawful` says of each entry what has to be so when it is put down:
a static method or a constructor is called once its class is initialized or while its initializer
runs, no initializer is started twice, and no handle is seen without a barrier that its class still
needs. What follows for the journal as a whole is `Host.Guards`.
-/

namespace HandleForms

variable {σ : Type}

/-- The class that has to be initialized before the call: that of a static method or constructor. -/
def HostCall.needs? : HostCall → Option String
  | .member kind m _ => if kind.needsClass then some m.cls else none
  | .allocate cls => some cls
  | _ => none

/-- The class that has to be initialized before the handle dispatches to its member. -/
def HandleOf.needs? (h : Handle) : Option String :=
  match h.data with
  | .direct _ m => if m.needsClass then some m.cls else none
  | _ => none

theorem HandleOf.needs?_eq_some_iff {h : Handle} {cls : String} :
    h.needs? = some cls ↔ ∃ id m, h.data = .direct id m ∧ m.needsClass = true ∧ m.cls = cls := by
  obtain ⟨id, type, form, data⟩ := h
  cases data with
  | direct id m =>
    rw [needs?, Option.ite_none_right_eq_some, Option.some_inj]
    refine ⟨fun h => ⟨id, m, rfl, h⟩, ?_⟩
    rintro ⟨_, _, ⟨⟩, h⟩
    exact h
  | simple => simp [needs?]
  | bound species values => simp [needs?]

namespace Journal

/-- The initializer of the class was started. -/
def Started (j : Journal σ) (cls : String) : Prop := ∃ s, (.initializer cls, s) ∈ j

/-- The initializer of the class ended like this. -/
def Ended (j : Journal σ) (cls : String) (outcome : Except (Stop String) Unit) : Prop :=
  ∃ s, (.ended cls outcome, s) ∈ j

/-- The initializer of the class was started and has not ended. -/
def Runs (j : Journal σ) (cls : String) : Prop := j.Started cls ∧ ∀ outcome, ¬ j.Ended cls outcome

/-- What has to be so when a call is put down. -/
structure Permits (host : Host σ) (j : Journal σ) (call : HostCall) (s : σ) : Prop where
  guarded : ∀ cls, call.needs? = some cls → host.isInitialized s cls = true ∨ j.Runs cls
  once : ∀ cls, call = .initializer cls → ¬ j.Started cls
  closes : ∀ cls outcome, call = .ended cls outcome → j.Runs cls
  seen : ∀ (h : Handle) f cls, call = .looked h f → h.needs? = some cls →
    (f.kind.hasBarrier = false → host.isInitialized s cls = true) ∧
      ∀ g t, (.looked h g, t) ∈ j → g.kind.hasBarrier = false → f.kind.hasBarrier = false

/-- Each entry was permitted when it was put down. -/
def Lawful (host : Host σ) : Journal σ → Prop
  | [] => True
  | (call, s) :: j => Permits host j call s ∧ Lawful host j

end Journal

/-- What a journal shows of the class barriers. -/
structure Host.Guards (host : Host σ) (j : Journal σ) : Prop where
  /-- A static method or a constructor is called once its class is initialized, or while the
  initializer of the class runs. -/
  called : ∀ later call s earlier cls, j = later ++ (call, s) :: earlier → call.needs? = some cls →
    host.isInitialized s cls = true ∨ Journal.Runs earlier cls
  /-- Only the handles to members of an initialized class are seen without a barrier, and they are
  never again seen with one. -/
  seen : ∀ later (h : Handle) f s earlier cls, j = later ++ (.looked h f, s) :: earlier →
    h.needs? = some cls → f.kind.hasBarrier = false →
      host.isInitialized s cls = true ∧
        ∀ g t, (.looked h g, t) ∈ later → g.kind.hasBarrier = false
  /-- After its initializer failed no static method or constructor of a class is called, if the class
  never counts as initialized without a success of its initializer. -/
  failed : ∀ later cls stop s earlier, j = later ++ (.ended cls (.error stop), s) :: earlier →
    (∀ e ∈ j, host.isInitialized e.2 cls = true → j.Ended cls (.ok ())) →
    ∀ e ∈ later, e.1.needs? ≠ some cls

namespace Journal.Lawful

variable {host : Host σ} {j later earlier : Journal σ} {call : HostCall} {s : σ} {cls : String}
  {outcome : Except (Stop String) Unit}

theorem permits (h : Lawful host (later ++ (call, s) :: earlier)) : Permits host earlier call s := by
  induction later with
  | nil => exact h.1
  | cons e later ih => exact ih h.2

/-- An entry among the later ones was permitted after the earlier ones. -/
theorem permits_of_mem (h : Lawful host (later ++ earlier)) (hmem : (call, s) ∈ later) :
    ∃ l r, later = l ++ (call, s) :: r ∧ Permits host (r ++ earlier) call s := by
  obtain ⟨l, r, rfl⟩ := List.append_of_mem hmem
  rw [List.append_assoc] at h
  exact ⟨l, r, rfl, h.permits⟩

/-- An initializer ends once. -/
theorem not_ended_again (h : Lawful host (later ++ (.ended cls outcome, s) :: earlier))
    (outcome' : Except (Stop String) Unit) :
    ¬ Ended later cls outcome' ∧ ¬ Ended earlier cls outcome' := by
  refine ⟨?_, (h.permits.closes cls outcome rfl).2 outcome'⟩
  rintro ⟨t, ht⟩
  obtain ⟨l, r, -, hpermits⟩ := h.permits_of_mem ht
  exact (hpermits.closes cls outcome' rfl).2 outcome ⟨s, List.mem_append_right r (.head _)⟩

/-- What is permitted entry by entry guards the journal as a whole. -/
theorem guards (h : Lawful host j) : host.Guards j where
  called later call s earlier cls hj hneeds := (hj ▸ h : Lawful host _).permits.guarded cls hneeds
  seen later target f s earlier cls hj hneeds hfree := by
    subst hj
    refine ⟨(h.permits.seen target f cls rfl hneeds).1 hfree, fun g t hg => ?_⟩
    obtain ⟨l, r, -, hpermits⟩ := h.permits_of_mem hg
    exact (hpermits.seen target g cls rfl hneeds).2 f s (List.mem_append_right r (.head _)) hfree
  failed later cls stop s earlier hj honly := by
    subst hj
    rintro ⟨call, t⟩ he hneeds
    obtain ⟨-, r, -, hpermits⟩ := h.permits_of_mem he
    rcases hpermits.guarded cls hneeds with hinit | hruns
    · -- The success that made the class count as initialized would be a second end.
      obtain ⟨u, hu⟩ := honly (call, t) (List.mem_append_left _ he) hinit
      obtain ⟨hlater, hearlier⟩ := h.not_ended_again (.ok ())
      rcases List.mem_append.1 hu with hu | hu
      · exact hlater ⟨u, hu⟩
      · rcases List.mem_cons.1 hu with hu | hu
        · cases hu
        · exact hearlier ⟨u, hu⟩
    · exact hruns.2 (.error stop) ⟨s, List.mem_append_right r (.head _)⟩

end Journal.Lawful

end HandleForms
