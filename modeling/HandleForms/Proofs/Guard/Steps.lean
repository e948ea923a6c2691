import HandleForms.Proofs.Guard.Ensure

/-!
# Steps of a run in a guarded world

A form that reaches no member may be run with any genuine values. The form of a direct handle may be
run if it passes the class barrier or if the class of the member is ready: initialized, or running its
initializer (`Form.Suits`). `Exec.Keeps` follows the steps of a run from one state on, as `Act.Keeps`
does for computations in a world; the intrinsics that are no part of a direct form keep worlds guarded
whatever they are given.
-/

namespace HandleForms

variable {σ α β : Type}

/-! ## What may be run -/

namespace World

variable {host : Host σ} {w w' : World σ} {cls : String}

/-- A static method or a constructor of the class may be called. -/
def Ready (host : Host σ) (w : World σ) (cls : String) : Prop :=
  host.isInitialized w.host cls = true ∨ w.journal.Runs cls

theorem Later.ready (h : w.Later host w') (hcls : w.Ready host cls) : w'.Ready host cls :=
  hcls.imp (h.initialized cls) (h.runs cls)

end World

/-- A form that may be run with some values: one that reaches no member, or one of a direct handle. -/
inductive Form.Suits (host : Host σ) (w : World σ) (f : Form) (args : List Value) : Prop
  | plain (h : f.ReachesNoMember)
  | direct {h : Handle} {id form : Nat} {m : Member} {basic : Signature} {barrier : Bool}
      (hhandle : args[0]? = some (.handle h)) (hmember : h.member? = some (id, m))
      (hform : Form.direct basic m.kind barrier form = .ok f)
      (hready : m.needsClass = true → f.kind.hasBarrier = false → w.Ready host m.cls)

theorem Form.Suits.later {host : Host σ} {w w' : World σ} {f : Form} {args : List Value}
    (h : f.Suits host w args) (hlater : w.Later host w') : f.Suits host w' args := by
  cases h with
  | plain h => exact .plain h
  | direct hhandle hmember hform hready =>
    exact .direct hhandle hmember hform fun hneeds hfree => hlater.ready (hready hneeds hfree)

namespace HandleOf

variable {h : Handle} {id : Nat} {m : Member}

theorem member?_eq_some_iff : h.member? = some (id, m) ↔ h.data = .direct id m := by
  obtain ⟨handleId, type, form, data⟩ := h
  cases data <;> simp [member?]

theorem needs?_of_direct (hmember : h.member? = some (id, m)) (hneeds : m.needsClass = true) :
    h.needs? = some m.cls :=
  needs?_eq_some_iff.2 ⟨id, m, member?_eq_some_iff.1 hmember, hneeds, rfl⟩

end HandleOf

/-- The form that a genuine handle has now may be run with the handle. -/
theorem World.Guarded.suits {host : Host σ} {values : σ → List Value} {w : World σ} {h : Handle}
    (hw : w.Guarded host values) (hh : h.Genuine host w.host) (args : List Value) :
    (w.currentForm h).Suits host w (.handle h :: args) := by
  have hfits := hw.sound.fits_currentForm hh.proper
  cases hmember : h.member? with
  | none => exact .plain (hfits.plain hmember)
  | some p =>
    obtain ⟨id, m⟩ := p
    obtain ⟨barrier, form, hform⟩ := hfits.direct id m (HandleOf.member?_eq_some_iff.1 hmember)
    exact .direct rfl hmember hform fun hneeds hfree =>
      .inl (hw.initialized_of_free hh (HandleOf.needs?_of_direct hmember hneeds) hfree)

/-! ## Operands -/

namespace Exec

variable {vs args : List Value} {as : List Arg}

/-- Operands are values of names or constants. -/
theorem mem_of_mapM_operand (h : as.mapM (operand vs) = .ok args) {v : Value} (hv : v ∈ args) :
    v ∈ vs ∨ ∃ c, v = .ofConstant c := by
  induction as generalizing args with
  | nil =>
    obtain rfl := Except.ok.inj h
    cases hv
  | cons a as ih =>
    rw [List.mapM_cons] at h
    obtain ⟨u, hu, h⟩ := bind_eq_ok_iff.1 h
    obtain ⟨us, hus, h⟩ := bind_eq_ok_iff.1 h
    obtain rfl := Except.ok.inj h
    rcases List.mem_cons.1 hv with rfl | hv
    · cases a with
      | const c => exact .inr ⟨c, (Except.ok.inj hu).symm⟩
      | name i =>
        unfold operand valueAt at hu
        dsimp only at hu
        split at hu
        · next hget =>
          obtain rfl := Except.ok.inj hu
          exact .inl (List.mem_of_getElem? hget)
        · cases hu
    · exact ih hus hv

/-- The last operand is the value of a name. -/
theorem getLast?_of_mapM_operand {i : Nat} {v : Value} (hv : vs[i]? = some v)
    (h : (as ++ [Arg.name i]).mapM (operand vs) = .ok args) : args.getLast? = some v := by
  rw [List.mapM_append] at h
  obtain ⟨us, -, h⟩ := bind_eq_ok_iff.1 h
  obtain ⟨us', hus', h⟩ := bind_eq_ok_iff.1 h
  have hlast : [Arg.name i].mapM (operand vs) = .ok [v] := by
    simp only [List.mapM_cons, List.mapM_nil, operand, valueAt, hv]
    rfl
  obtain rfl := Except.ok.inj (hlast.symm.trans hus')
  obtain rfl := Except.ok.inj h
  exact List.getLast?_concat

end Exec

/-! ## Steps of a run -/

namespace Exec

/-- From the state the computation leads to a later guarded world, and its answer is `Q` there. -/
structure Keeps (host : Host σ) (values : σ → List Value) (e : Execution σ) (x : Exec σ α)
    (Q : α → World σ → Prop) : Prop where
  guarded : (x e).2.world.Guarded host values
  later : e.world.Later host (x e).2.world
  answer : ∀ a, (x e).1 = .ok a → Q a (x e).2.world

variable {host : Host σ} {values : σ → List Value} {e : Execution σ} {x : Exec σ α}
  {k : α → Exec σ β} {Q Q' : α → World σ → Prop} {R : β → World σ → Prop}

namespace Keeps

theorem act {a : Act σ α} (h : Act.Keeps host values e.world a Q) :
    Keeps host values e (Exec.act a) Q :=
  ⟨h.guarded, h.later, h.answer⟩

theorem pure {a : α} (hw : e.world.Guarded host values) (ha : Q a e.world) :
    Keeps host values e (Pure.pure a : Exec σ α) Q :=
  ⟨hw, .refl _, fun _ hb => Except.ok.inj hb ▸ ha⟩

theorem throw (hw : e.world.Guarded host values) (stop : Stop RuntimeError) :
    Keeps host values e (MonadExcept.throw stop : Exec σ α) Q :=
  ⟨hw, .refl _, fun _ ha => by cases ha⟩

theorem bind (hx : Keeps host values e x Q)
    (hk : ∀ a e', e'.world.Guarded host values → e.world.Later host e'.world → Q a e'.world →
      Keeps host values e' (k a) R) :
    Keeps host values e (x >>= k) R := by
  obtain ⟨hguarded, hlater, hanswer⟩ := hx
  have happly := bind_apply x k e
  cases hr : (x e).1 with
  | error stop =>
    rw [hr] at happly
    exact ⟨by rwa [happly], by rwa [happly], fun b hb => by rw [happly] at hb; cases hb⟩
  | ok a =>
    rw [hr] at happly
    obtain ⟨hguarded', hlater', hanswer'⟩ := hk a _ hguarded hlater (hanswer a hr)
    exact ⟨by rwa [happly], by rw [happly]; exact hlater.trans hlater', by rwa [happly]⟩

/-- A look at the state in front of a computation. -/
theorem look {x : Execution σ → Exec σ α} (h : Keeps host values e (x e) Q) :
    Keeps host values e (get >>= x) Q :=
  ⟨h.guarded, h.later, h.answer⟩

/-- A step that does nothing to the world. -/
theorem aside {s : Exec σ PUnit} (hw : e.world.Guarded host values) (hs : (s e).2.world = e.world) :
    Keeps host values e s fun _ w' => w' = e.world :=
  ⟨by rwa [hs], by rw [hs]; exact .refl _, fun _ _ => hs⟩

theorem consumeFuel (hw : e.world.Guarded host values) :
    Keeps host values e Exec.consumeFuel fun _ w' => w' = e.world :=
  .aside hw (by rw [consumeFuel_apply]; split <;> rfl)

theorem tracing (hw : e.world.Guarded host values) (f : Trace → Trace) :
    Keeps host values e (Exec.tracing f) fun _ w' => w' = e.world :=
  .aside hw rfl

theorem traceEnter (hw : e.world.Guarded host values) (form : Form) (args : List Value) :
    Keeps host values e (Exec.traceEnter form args) fun _ w' => w' = e.world := by
  refine .aside hw ?_
  rw [traceEnter_apply]
  split
  · rfl
  · split <;> rfl

theorem withFrame {F : Frame} (hw : e.world.Guarded host values)
    (hx : ∀ e' : Execution σ, e'.world.Guarded host values → e.world.Alike e'.world →
      Keeps host values e' x Q)
    (hQ : ∀ a w' fs, Q a w' → Q a (w'.withFrames fs)) :
    Keeps host values e (Exec.withFrame F x) Q := by
  obtain ⟨hguarded, hlater, hanswer⟩ :=
    hx { e with world := e.world.withFrames (F :: e.world.frames) } (hw.withFrames _)
      (e.world.alike_withFrames _)
  have hstart : e.world.Later host _ := (e.world.alike_withFrames (F :: e.world.frames)).later
  have hend := @World.Alike.later _ host _ _ (World.alike_withFrames
    (x { e with world := e.world.withFrames (F :: e.world.frames) }).2.world e.world.frames)
  exact ⟨hguarded.withFrames _, (hstart.trans hlater).trans hend, fun a ha => hQ a _ _ (hanswer a ha)⟩

theorem ofStop (hw : e.world.Guarded host values) {r : Except (Stop RuntimeError) α}
    (hr : ∀ a, r = .ok a → Q a e.world) : Keeps host values e (Exec.act (Act.ofStop r)) Q := by
  cases r with
  | ok a => exact pure hw (hr a rfl)
  | error stop => exact throw hw stop

theorem ofViolation (hw : e.world.Guarded host values) {r : Except Violation α}
    (hr : ∀ a, r = .ok a → Q a e.world) : Keeps host values e (Exec.act (Act.ofViolation r)) Q :=
  .ofStop hw fun a ha => hr a (Stop.ofViolation_eq_ok_iff.1 ha)

theorem ofError (hw : e.world.Guarded host values) {r : Except RuntimeError α}
    (hr : ∀ a, r = .ok a → Q a e.world) : Keeps host values e (Exec.act (Act.ofError r)) Q :=
  .ofStop hw fun a ha => hr a (Stop.ofError_eq_ok_iff.1 ha)

/-- An answer that needs no world leaves the state alone. -/
theorem ofStop_bind (hw : e.world.Guarded host values) {r : Except (Stop RuntimeError) α}
    (hk : ∀ a, r = .ok a → Keeps host values e (k a) R) :
    Keeps host values e (Exec.act (Act.ofStop r) >>= k) R := by
  cases r with
  | ok a => exact hk a rfl
  | error stop => exact throw hw stop

theorem ofViolation_bind (hw : e.world.Guarded host values) {r : Except Violation α}
    (hk : ∀ a, r = .ok a → Keeps host values e (k a) R) :
    Keeps host values e (Exec.act (Act.ofViolation r) >>= k) R :=
  .ofStop_bind hw fun a ha => hk a (Stop.ofViolation_eq_ok_iff.1 ha)

theorem ofError_bind (hw : e.world.Guarded host values) {r : Except RuntimeError α}
    (hk : ∀ a, r = .ok a → Keeps host values e (k a) R) :
    Keeps host values e (Exec.act (Act.ofError r) >>= k) R :=
  .ofStop_bind hw fun a ha => hk a (Stop.ofError_eq_ok_iff.1 ha)

end Keeps

end Exec

/-! ## Dropping a barrier -/

namespace World

variable {host : Host σ} {values : σ → List Value} {w : World σ} {h : Handle} {id : Nat} {m : Member}
  {f : Form}

/-- The handle gets another form. -/
def drop (w : World σ) (h : Handle) (m : Member) (f : Form) : World σ :=
  { w with swapped := TypeForms.assign (h.id, h.type, m) f w.swapped }

/-- A handle to a member of an initialized class may drop its barrier. -/
theorem Guarded.drop (hw : w.Guarded host values)
    (hform : ∃ id, Form.direct h.type.basic m.kind false id = .ok f)
    (hinit : host.isInitialized w.host m.cls = true) : (w.drop h m f).Guarded host values where
  sound := by
    refine ⟨hw.sound.context, hw.sound.types, fun e he => ?_, hw.sound.invokers⟩
    rcases TypeForms.mem_assign he with rfl | he
    · exact hform
    · exact hw.sound.swapped e he
  swapped e he := by
    rcases TypeForms.mem_assign he with rfl | he
    · exact hinit
    · exact hw.swapped e he
  state := hw.state
  fields := hw.fields
  tracks := hw.tracks
  lawful := hw.lawful
  seen g seen s cls hmem hneeds hfree := by
    have hold := hw.seen g seen s cls hmem hneeds hfree
    obtain ⟨id, m', hdata, -, -⟩ := HandleOf.needs?_eq_some_iff.1 hneeds
    rw [currentForm_of_direct hdata] at hold ⊢
    by_cases hkey : (g.id, g.type, m') = (h.id, h.type, m)
    · obtain ⟨id, hform⟩ := hform
      rw [World.drop, hkey, TypeForms.lookup_assign_self]
      exact hasBarrier_direct hform
    · rwa [World.drop, TypeForms.lookup_assign_of_ne hkey]

theorem later_drop (w : World σ) (h : Handle) (m : Member) (f : Form) :
    w.Later host (w.drop h m f) where
  initialized _ hcls := hcls
  tracked _ _ hslot := hslot
  runs _ hruns := hruns
  swapped key hkey := by
    by_cases heq : key = (h.id, h.type, m)
    · rw [World.drop, heq, TypeForms.lookup_assign_self]
      rfl
    · rwa [World.drop, TypeForms.lookup_assign_of_ne heq]

end World

namespace Act

variable {host : Host σ} {values : σ → List Value} {w : World σ} {h : Handle} {m : Member}

theorem keeps_dropBarrier (hw : w.Guarded host values)
    (hinit : host.isInitialized w.host m.cls = true) :
    Keeps host values w (dropBarrier h m) fun _ _ => True := by
  have hform : Triple (σ := σ) [] (directForm h.type m.kind false) _ := triple_directForm _ _ _
  have halike := (hform.onlyShares hw.sound).alike
  refine Keeps.bind (Q := fun f w' => w'.host = w.host ∧
      ∃ id, Form.direct h.type.basic m.kind false id = .ok f)
    ⟨hw.of_alike halike (hform.sound hw.sound), halike.later, fun f hf =>
      ⟨halike.host, hform.answer hw.sound hf⟩⟩ ?_
  rintro f w' hw' - ⟨hhost, hf⟩
  refine (Keeps.modify (f := fun w => w.drop h m f) ?_ (w'.later_drop h m f)).bind
    fun _ v hv _ _ => .pure hv trivial
  exact hw'.drop hf (hhost ▸ hinit)

/-- Once its class is initialized a handle may get the form without the barrier. -/
theorem keeps_swapBarrier (hw : w.Guarded host values)
    (hinit : host.isInitialized w.host m.cls = true) :
    Keeps host values w (swapBarrier h m) fun _ _ => True := by
  refine .look ?_
  dsimp only
  split
  · exact (keeps_dropBarrier hw hinit).bind fun _ v hv _ _ => .pure hv trivial
  · exact .pure hw trivial

end Act

/-! ## Intrinsics -/

/-- All handles inside the value are genuine. -/
abbrev Value.Sincere (host : Host σ) (v : Value) (w : World σ) : Prop :=
  Genuine host w.host [v]

namespace Value

variable {host : Host σ} {s : σ} {values : List Value} {v : Value} {h : Handle}

theorem eq_of_asHandle (hv : v.asHandle = .ok h) : v = .handle h := by
  cases v with
  | handle g => exact congrArg _ (Except.ok.inj hv)
  | _ => cases hv

theorem genuine_void : Genuine host s [void] := genuine_of_parts fun _ hg => by cases hg

theorem genuine_ofConstant (c : Constant) : Genuine host s [ofConstant c] := by
  refine genuine_of_parts fun g hg => ?_
  cases c <;> cases hg

theorem genuine_zero (t : BasicType) : Genuine host s [zero t] := by
  refine genuine_of_parts fun g hg => ?_
  cases t <;> cases hg

theorem genuine_member (id : Nat) (m : Member) : Genuine host s [member id m] :=
  genuine_of_parts fun _ hg => by cases hg

theorem Genuine.of_valueAt {i : Nat} (h : Genuine host s values)
    (hv : Exec.valueAt values i = .ok v) : Genuine host s [v] := by
  unfold Exec.valueAt at hv
  split at hv
  · next hget =>
    obtain rfl := Except.ok.inj hv
    exact h.of_mem (List.mem_of_getElem? hget)
  · cases hv

/-- The elements of an array are genuine if the array is. -/
theorem Genuine.of_arrayLoad {array : Value} {i : Int} (h : Genuine host s [array])
    (hv : Exec.arrayLoad array i = .ok v) : Genuine host s [v] := by
  cases array with
  | array id element values =>
    have hvalues : Genuine host s values := h
    unfold Exec.arrayLoad Value.element at hv
    dsimp only at hv
    split at hv
    · next hget =>
      split at hget
      · cases hget
      · obtain rfl := Except.ok.inj hv
        exact hvalues.of_mem (List.mem_of_getElem? hget)
    · cases hv
  | _ => cases hv

theorem Genuine.of_mapM_operand {args : List Value} {as : List Arg} (h : Genuine host s values)
    (hargs : as.mapM (Exec.operand values) = .ok args) : Genuine host s args := by
  refine genuine_iff_forall_mem.2 fun v hv => ?_
  rcases Exec.mem_of_mapM_operand hargs hv with hv | ⟨c, rfl⟩
  · exact h.of_mem hv
  · exact genuine_ofConstant c

end Value

namespace Exec

/-- What runs forms keeps worlds guarded. -/
def Runner.Keeps (host : Host σ) (values : σ → List Value) (run : Runner σ) : Prop :=
  ∀ (e : Execution σ) form args, e.world.Guarded host values → form.Suits host e.world args →
    Value.Genuine host e.world.host args →
      Exec.Keeps host values e (run form args) (Value.Sincere host)

variable {host : Host σ} {values : σ → List Value} {re : Reentry σ} {run : Runner σ} {e : Execution σ}
  {args : List Value} {h : Handle} {id : Nat} {m : Member} {R : β → World σ → Prop}

/-- A call of the host that the journal permits answers a genuine value. -/
theorem keeps_callHost (hre : re.Keeps host values) {call : HostCall}
    {code : Script σ RuntimeError Value} (hw : e.world.Guarded host values)
    (hmarks : call.marks? = none) (hlooked : ∀ h f, call ≠ .looked h f)
    (hready : ∀ cls, call.needs? = some cls → e.world.Ready host cls)
    (hargs : Value.Genuine host e.world.host args)
    (hcode : code.Honest host values Value.Answered args e.world.host) :
    Keeps host values e (callHost host re call args code) (Value.Sincere host) := by
  refine .act ((Act.keeps_callHost hre hw hmarks hready hlooked args hargs hcode).bind ?_)
  rintro r w' hw' - ⟨known, hknown, hanswered⟩
  refine (Act.Keeps.ofError hw' r).imp ?_
  rintro v _ - - ⟨rfl, rfl⟩
  exact hknown.drawn (hanswered v rfl)

/-- Asking for the member of a handle. -/
theorem keeps_directMember {v : Value} (hw : e.world.Guarded host values) :
    Keeps host values e (directMember v) fun p w' =>
      w' = e.world ∧ ∃ h, v = .handle h ∧ h.member? = some p := by
  refine .ofError_bind hw fun h hh => ?_
  split
  · next hmember => exact .pure hw ⟨rfl, h, Value.eq_of_asHandle hh, hmember⟩
  · exact .look (.throw hw _)

/-- What a carrier reads of a genuine handle is genuine. -/
theorem keeps_boundField {species : Species} {index : Nat} {v : Value}
    (hw : e.world.Guarded host values) (hv : Value.Genuine host e.world.host [v]) :
    Keeps host values e (boundField species index v) (Value.Sincere host) := by
  refine .ofError_bind hw fun h hh => ?_
  obtain rfl := Value.eq_of_asHandle hh
  have hbound := (Value.genuine_handle_iff.1 hv).2
  split
  · next actual vs hdata =>
    split
    · refine .ofViolation hw fun u hu => Value.Genuine.of_valueAt ?_ hu
      rwa [HandleOf.bound, hdata] at hbound
    · exact .look (.throw hw _)
  · exact .look (.throw hw _)

/-- The form that a handle has now is run with it. -/
theorem keeps_invokeHandle (hrun : run.Keeps host values) (hw : e.world.Guarded host values)
    (hargs : Value.Genuine host e.world.host (.handle h :: args)) :
    Keeps host values e (invokeHandle run h args) (Value.Sincere host) := by
  have hh := (Value.genuine_handle_iff.1 (Value.genuine_cons_iff.1 hargs).1).1
  refine .look (.withFrame hw (fun e' hw' halike => hrun e' _ _ hw' ?_ ?_) fun _ _ _ hv => hv)
  · exact (hw.suits hh args).later halike.later
  · exact halike.later.genuine hargs

theorem keeps_invokeBasic (hrun : run.Keeps host values) {callee : Signature}
    (hw : e.world.Guarded host values) (hargs : Value.Genuine host e.world.host args) :
    Keeps host values e (invokeBasic run callee args) (Value.Sincere host) := by
  refine .ofViolation_bind hw fun v hv => .ofError_bind hw fun h hh => ?_
  obtain rfl := Value.eq_of_asHandle hh
  dsimp only
  split
  · exact .bind (.throw (Q := fun _ _ => False) hw _) fun _ _ _ _ hfalse => hfalse.elim
  · refine keeps_invokeHandle hrun hw (Value.genuine_cons_iff.2 ⟨hargs.of_valueAt hv, ?_⟩)
    exact Value.genuine_iff_forall_mem.2 fun u hu => hargs.of_mem (List.mem_of_mem_tail hu)

/-- An operation that reaches no member answers a genuine value of genuine ones. -/
theorem keeps_intrinsic (hrun : run.Keeps host values) {op : Intrinsic}
    (hplain : op.reachesMember = false) (hw : e.world.Guarded host values)
    (hargs : Value.Genuine host e.world.host args) :
    Keeps host values e (intrinsic host re run op args) (Value.Sincere host) := by
  cases op with
  | invokeBasic callee => exact keeps_invokeBasic hrun hw hargs
  | boundField species index =>
    exact .ofViolation_bind hw fun v hv => keeps_boundField hw (hargs.of_valueAt hv)
  | checkSpreadLength =>
    refine .ofViolation_bind hw fun v _ => .ofError_bind hw fun n _ =>
      .ofViolation_bind hw fun u _ => .ofError hw fun r hr => ?_
    unfold checkSpreadLength at hr
    split at hr
    · split at hr <;> cases hr
      exact Value.genuine_void
    · split at hr <;> cases hr
      exact Value.genuine_void
    · cases hr
  | arrayLoad element =>
    exact .ofViolation_bind hw fun v _ => .ofError_bind hw fun i _ => .ofViolation_bind hw
      fun u hu => .ofError hw fun r hr => (hargs.of_valueAt hu).of_arrayLoad hr
  | zero type => exact .pure hw (Value.genuine_zero type)
  | identity type => exact .ofViolation hw fun v hv => hargs.of_valueAt hv
  | checkExactType =>
    refine .ofViolation_bind hw fun v _ => .ofError_bind hw fun h _ => .ofViolation_bind hw
      fun u _ => .ofError_bind hw fun expected _ => ?_
    split
    · exact .throw hw _
    · exact .pure hw Value.genuine_void
  | checkGenericType =>
    refine .ofViolation_bind hw fun v hv => .ofError_bind hw fun h hh => .ofViolation_bind hw
      fun u _ => .ofError_bind hw fun expected _ => ?_
    obtain rfl := Value.eq_of_asHandle hh
    have hops : Value.Genuine host e.world.host (HandleOp.asType h expected).operands :=
      hargs.of_valueAt hv
    exact .bind (.act (Act.keeps_perform hw hops)) fun B e' hw' _ hB => .pure hw' hB
  | ensureInitialized | internalMemberName | allocateInstance | constructorMember | linkTo =>
    cases hplain

end Exec

end HandleForms
