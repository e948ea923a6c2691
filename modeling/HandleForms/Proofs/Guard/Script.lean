import HandleForms.Proofs.Guard.Perform

/-!
# Host code keeps worlds guarded

Honest host code keeps a guarded world guarded, if what it may ask for does (`Act.keeps_script`). A
call of the host is put down in the journal first, and has to be permitted by what the journal shows
so far (`Act.keeps_callHost`).
-/

namespace HandleForms

variable {σ ε α β : Type}

/-! ## Entries of the journal -/

/-- The class whose initializer starts or ends with this entry. -/
def HostCall.marks? : HostCall → Option String
  | .initializer cls | .ended cls _ => some cls
  | _ => none

namespace Journal

variable {j : Journal σ} {call : HostCall} {s : σ} {cls : String} {outcome : Except (Stop String) Unit}

theorem started_cons : Started ((call, s) :: j) cls ↔ call = .initializer cls ∨ j.Started cls := by
  simp [Started, exists_or, eq_comm]

theorem ended_cons :
    Ended ((call, s) :: j) cls outcome ↔ call = .ended cls outcome ∨ j.Ended cls outcome := by
  simp [Ended, exists_or, eq_comm]

/-- An entry about something else says nothing of an initializer. -/
theorem runs_cons (h : call.marks? ≠ some cls) : Runs ((call, s) :: j) cls ↔ j.Runs cls := by
  have hstart : call ≠ .initializer cls := by
    rintro rfl
    exact h rfl
  have hend : ∀ outcome, call ≠ .ended cls outcome := by
    rintro outcome rfl
    exact h rfl
  simp only [Runs, started_cons, ended_cons, hstart, hend, false_or]

end Journal

namespace Barrier.Tracks

variable {b : Barrier} {j : Journal σ} {initialized initialized' : String → Bool} {call : HostCall}
  {s : σ}

theorem push (h : b.Tracks j initialized) (hmarks : call.marks? = none) :
    b.Tracks ((call, s) :: j) initialized where
  slot_lt := h.slot_lt
  slot_inj := h.slot_inj
  runs_iff cls := (Journal.runs_cons (by simp [hmarks])).trans (h.runs_iff cls)
  settled := h.settled
  started cls hnone hstarted := by
    rcases Journal.started_cons.1 hstarted with rfl | hstarted
    · cases hmarks
    · exact h.started cls hnone hstarted

theorem mono (h : b.Tracks j initialized)
    (hinit : ∀ cls, initialized cls = true → initialized' cls = true) : b.Tracks j initialized' :=
  ⟨h.slot_lt, h.slot_inj, h.runs_iff, h.settled, fun cls hnone hstarted =>
    hinit cls (h.started cls hnone hstarted)⟩

end Barrier.Tracks

namespace World

variable {host : Host σ} {values : σ → List Value} {w : World σ} {call : HostCall}

/-- The world with one more entry in its journal. -/
abbrev push (w : World σ) (call : HostCall) : World σ :=
  { w with journal := (call, w.host) :: w.journal }

theorem Guarded.push (hw : w.Guarded host values) (hmarks : call.marks? = none)
    (hpermits : Journal.Permits host w.journal call w.host)
    (hseen : ∀ (h : Handle) f cls, call = .looked h f → h.needs? = some cls →
      f.kind.hasBarrier = false → (w.currentForm h).kind.hasBarrier = false) :
    (w.push call).Guarded host values where
  sound := hw.sound.of_eq rfl rfl rfl
  swapped := hw.swapped
  state := hw.state
  fields := hw.fields
  tracks := hw.tracks.push hmarks
  lawful := ⟨hpermits, hw.lawful⟩
  seen h f s cls hmem hneeds hfree := by
    rcases List.mem_cons.1 hmem with heq | hmem
    · exact hseen h f cls (Prod.mk.inj heq).1.symm hneeds hfree
    · exact hw.seen h f s cls hmem hneeds hfree

theorem later_push (hmarks : call.marks? = none) : w.Later host (w.push call) :=
  ⟨fun _ h => h, fun _ _ h => h, fun _ h => (Journal.runs_cons (by simp [hmarks])).2 h, fun _ h => h⟩

/-! ## The state of the host and the fields of objects -/

theorem Guarded.withHost {t : σ} (hw : w.Guarded host values) (hlater : host.Later w.host t)
    (hstate : Value.Genuine host t (values t)) :
    ({ w with host := t } : World σ).Guarded host values where
  sound := hw.sound.of_eq rfl rfl rfl
  swapped e he := hlater _ (hw.swapped e he)
  state := hstate
  fields e he f hf := (hw.fields e he f hf).later hlater
  tracks := hw.tracks.mono hlater
  lawful := hw.lawful
  seen := hw.seen

theorem mem_fieldsOf {object : Nat} {f : String × Value} (hf : f ∈ w.fieldsOf object) :
    ∃ e ∈ w.fields, f ∈ e.2 := by
  unfold fieldsOf at hf
  cases hfields : w.fields.lookup object with
  | none => simp [hfields] at hf
  | some fs => exact ⟨_, TypeForms.mem_of_lookup hfields, by simpa [hfields] using hf⟩

/-- Fields hold genuine values. -/
theorem Guarded.field (hw : w.Guarded host values) (object : Nat) (name : String) :
    Value.Genuine host w.host [w.field object name] := by
  unfold World.field
  cases hfield : (w.fieldsOf object).lookup name with
  | none => exact Value.genuine_of_parts fun g hg => by cases hg
  | some v =>
    obtain ⟨e, he, hmem⟩ := mem_fieldsOf (TypeForms.mem_of_lookup hfield)
    exact hw.fields e he _ hmem

theorem Guarded.setField {object : Nat} {name : String} {v : Value} (hw : w.Guarded host values)
    (hv : Value.Genuine host w.host [v]) : (w.setField object name v).Guarded host values where
  sound := hw.sound.of_eq rfl rfl rfl
  swapped := hw.swapped
  state := hw.state
  fields e he f hf := by
    rcases TypeForms.mem_assign he with rfl | he
    · have hold : ∀ f ∈ w.fieldsOf object, Value.Genuine host w.host [f.2] := fun f hf => by
        obtain ⟨e, he, hmem⟩ := mem_fieldsOf hf
        exact hw.fields e he f hmem
      dsimp only at hf
      split at hf
      · obtain ⟨g, hg, rfl⟩ := List.mem_map.1 hf
        split
        · exact hv
        · exact hold g hg
      · rcases List.mem_append.1 hf with hf | hf
        · exact hold f hf
        · rw [List.mem_singleton.1 hf]
          exact hv
    · exact hw.fields e he f hf
  tracks := hw.tracks
  lawful := hw.lawful
  seen := hw.seen

/-! ## Made values -/

mutual

/-- Making a value uses up identities, and all its handles come out of the plan. -/
theorem make_spec (plan : Blueprint) (w : World σ) :
    w.OnlyShares (make plan w).2 ∧ Value.DrawnFrom plan.givens [(make plan w).1] := by
  cases plan with
  | given v => exact ⟨.refl w, fun h hh => hh⟩
  | array element items =>
    obtain ⟨hshares, hdrawn⟩ := makeAll_spec items w
    exact ⟨hshares.trans rfl, hdrawn⟩
  | object cls =>
    exact ⟨rfl, fun h hh => by simp [make, newObject, Value.parts, Value.addPartsOf, Value.addParts] at hh⟩

theorem makeAll_spec (plans : List Blueprint) (w : World σ) :
    w.OnlyShares (makeAll plans w).2 ∧
      Value.DrawnFrom (Blueprint.givensOf plans) (makeAll plans w).1 := by
  cases plans with
  | nil => exact ⟨.refl w, fun h hh => hh⟩
  | cons plan plans =>
    obtain ⟨hshares, hdrawn⟩ := make_spec plan w
    obtain ⟨hshares', hdrawn'⟩ := makeAll_spec plans (make plan w).2
    refine ⟨hshares.trans hshares', fun h hh => ?_⟩
    rw [Blueprint.givensOf, Value.mem_parts_append]
    exact (Value.mem_parts_cons.1 hh).imp (hdrawn h) (hdrawn' h)

end

end World

/-! ## Host code -/

/-- What host code may ask for keeps worlds guarded. -/
structure Reentry.Keeps (host : Host σ) (values : σ → List Value) (re : Reentry σ) : Prop where
  invoke : ∀ (w : World σ) h site args, w.Guarded host values →
    Value.Genuine host w.host (.handle h :: args) →
    Act.Keeps host values w (re.invoke h site args) fun v w' => Value.Genuine host w'.host [v]
  ensure : ∀ (w : World σ) cls, w.Guarded host values →
    Act.Keeps host values w (re.ensure cls) fun _ _ => True

namespace Act

variable {host : Host σ} {values : σ → List Value} {re : Reentry σ} {w : World σ}
  {post : List Value → σ → Except ε α → Prop} {known : List Value}

/-- A look at the world in front of a computation. -/
theorem Keeps.look {x : World σ → Act σ α} {Q : α → World σ → Prop} (h : Keeps host values w (x w) Q) :
    Keeps host values w (get >>= x) Q := ⟨h.guarded, h.later, h.answer⟩

theorem Keeps.record {call : HostCall} (hw : w.Guarded host values) (hmarks : call.marks? = none)
    (hpermits : Journal.Permits host w.journal call w.host)
    (hseen : ∀ (h : Handle) f cls, call = .looked h f → h.needs? = some cls →
      f.kind.hasBarrier = false → (w.currentForm h).kind.hasBarrier = false) :
    Keeps host values w (Act.record call) fun _ w' => w' = w.push call :=
  .modify (hw.push hmarks hpermits hseen) (World.later_push hmarks)

/-- What host code asks for when it makes a handle. -/
theorem keeps_make {op : HandleOp} (pinned : List Value) (hw : w.Guarded host values)
    (hops : Value.Genuine host w.host op.operands) :
    Keeps host values w (request pinned (perform host op)) fun r w' =>
      w'.host = w.host ∧ ∀ h, r = .ok h → Value.Genuine host w'.host [.handle h] := by
  have hrequest : Keeps host values w (request pinned (perform host op)) _ :=
    .request hw (fun v hv halike => keeps_perform hv (halike.host ▸ hops)) fun _ _ _ h => h
  have htriple : Triple [] (perform host op) _ := triple_perform host op
  have halike := (htriple.onlyShares (hw.withFrames (⟨[], pinned⟩ :: w.frames)).sound).alike
  refine ⟨hrequest.guarded, hrequest.later, fun r hr => ⟨?_, hrequest.answer r hr⟩⟩
  have hworld : (request pinned (perform host op) w).2.host =
      (perform host op (w.withFrames (⟨[], pinned⟩ :: w.frames))).2.host := by
    show (attempt (perform host op) (w.withFrames (⟨[], pinned⟩ :: w.frames))).2.host = _
    unfold attempt
    split <;> next heq => rw [heq]
  exact hworld.trans halike.host

theorem keeps_script (hre : re.Keeps host values) {code : Script σ ε α} (pinned : List Value)
    (hw : w.Guarded host values) (hknown : Value.Genuine host w.host known)
    (hcode : code.Honest host values post known w.host) :
    Keeps host values w (script host re pinned code) fun r w' =>
      ∃ known', Value.Genuine host w'.host known' ∧ post known' w'.host r := by
  induction code generalizing w known pinned with
  | done result => exact .pure hw ⟨known, hknown, hcode⟩
  | panic text => exact .throw hw _
  | getState next ih =>
    exact .look (ih w.host pinned hw (Value.genuine_append_iff.2 ⟨hw.state, hknown⟩) hcode)
  | setState state next ih =>
    obtain ⟨hlater, hdrawn, hcode⟩ := hcode
    have hstate := (hknown.drawn hdrawn).later hlater
    refine Keeps.bind (.modify (hw.withHost hlater hstate) ⟨hlater, fun _ _ h => h, fun _ h => h,
      fun _ h => h⟩) fun _ w' hw' _ heq => ?_
    subst heq
    exact ih pinned hw' (hknown.later hlater) hcode
  | create plan next ih =>
    obtain ⟨hdrawn, hcode⟩ := hcode
    obtain ⟨hshares, hmade⟩ := w.make_spec plan
    have halike := hshares.alike
    have hsound : (World.make plan w).2.Sound :=
      have houter := @World.Outer.make σ plan
      hw.sound.of_eq (houter.context w) (houter.swapped w) (houter.invokers w)
    refine Keeps.bind (Q := fun v w' => v = (World.make plan w).1 ∧ w' = (World.make plan w).2)
      ⟨hw.of_alike halike hsound, halike.later, fun v hv => ⟨(Except.ok.inj hv).symm, rfl⟩⟩ ?_
    rintro v w' hw' - ⟨rfl, rfl⟩
    exact ih _ pinned hw' (halike.later.genuine hknown) (halike.host ▸ hcode _ hmade)
  | getField object name next ih =>
    exact .look (ih _ pinned hw (Value.genuine_cons_iff.2 ⟨hw.field object name, hknown⟩) (hcode _))
  | setField object name value next ih =>
    obtain ⟨hdrawn, hcode⟩ := hcode
    refine Keeps.bind (.modify (hw.setField (hknown.drawn hdrawn)) ⟨fun _ h => h, fun _ _ h => h,
      fun _ h => h, fun _ h => h⟩) fun _ w' hw' _ heq => ?_
    subst heq
    exact ih pinned hw' hknown hcode
  | make op next ih =>
    obtain ⟨hdrawn, herror, hok⟩ := hcode
    refine (keeps_make pinned hw (hknown.drawn hdrawn)).bind ?_
    rintro r w' hw' hlater ⟨hhost, hmade⟩
    have hknown' := hlater.genuine hknown
    cases r with
    | error e => exact ih _ pinned hw' hknown' (hhost ▸ herror e)
    | ok h => exact ih _ pinned hw' (Value.genuine_cons_iff.2 ⟨hmade h rfl, hknown'⟩) (hhost ▸ hok h)
  | formKind target next ih =>
    obtain ⟨hdrawn, hcode⟩ := hcode
    have htarget := (Value.genuine_handle_iff.1 (hknown.drawn hdrawn)).1
    refine .look (Keeps.bind (.record hw rfl ⟨nofun, nofun, nofun, ?_⟩ ?_) fun _ w' hw' _ heq => ?_)
    · rintro h f cls ⟨⟩ hneeds
      exact ⟨hw.initialized_of_free htarget hneeds, fun g t hg hfree =>
        hw.seen target g t cls hg hneeds hfree⟩
    · rintro h f cls ⟨⟩ - hfree
      exact hfree
    · subst heq
      exact ih _ pinned hw' hknown (hcode _)
  | invoke target site args next ih =>
    obtain ⟨hdrawn, hcode⟩ := hcode
    refine (Keeps.request (Q := fun v w' => Value.Genuine host w'.host [v]) hw (fun v hv halike =>
      hre.invoke v target site args hv (halike.later.genuine (hknown.drawn hdrawn)))
      fun _ _ _ h => h).bind fun r w' hw' hlater hr => ?_
    have hknown' := hlater.genuine hknown
    obtain ⟨herror, hok⟩ := hcode w'.host hlater.initialized
    cases r with
    | error e => exact ih _ pinned hw' hknown' (herror e)
    | ok v => exact ih _ pinned hw' (Value.genuine_cons_iff.2 ⟨hr v rfl, hknown'⟩) (hok v)
  | ensure cls next ih =>
    refine (Keeps.request (Q := fun _ _ => True) hw (fun v hv _ => hre.ensure v cls hv)
      fun _ _ _ h => h).bind fun r w' hw' hlater _ => ?_
    exact ih _ pinned hw' (hlater.genuine hknown) (hcode _ hlater.initialized r)
  | hold value next ih => exact ih _ hw hknown hcode
  | release next ih => exact ih _ hw hknown hcode

/-- A call of the host that the journal permits. -/
theorem keeps_callHost (hre : re.Keeps host values) {call : HostCall} {code : Script σ ε α}
    (hw : w.Guarded host values) (hmarks : call.marks? = none)
    (hneeds : ∀ cls, call.needs? = some cls →
      host.isInitialized w.host cls = true ∨ w.journal.Runs cls)
    (hlooked : ∀ h f, call ≠ .looked h f) (args : List Value)
    (hknown : Value.Genuine host w.host known)
    (hcode : code.Honest host values post known w.host) :
    Keeps host values w (callHost host re call args code) fun r w' =>
      ∃ known', Value.Genuine host w'.host known' ∧ post known' w'.host r := by
  refine Keeps.bind (.record hw hmarks ⟨hneeds, ?_, ?_, ?_⟩ ?_) fun _ w' hw' _ heq => ?_
  · rintro cls rfl
    cases hmarks
  · rintro cls outcome rfl
    cases hmarks
  · exact fun h f _ hcall => absurd hcall (hlooked h f)
  · exact fun h f _ hcall => absurd hcall (hlooked h f)
  · subst heq
    exact keeps_script hre args hw' hknown hcode

end Act

end HandleForms
