import HandleForms.Host.Table
import HandleForms.Proofs.Form.Slots
import HandleForms.Proofs.World.Reachable

/-!
# Built handles

`HandleOf.Built` are the handles that operations make one out of the other, each in whatever world a
client can bring about. They are proper, and the operations on them that have to succeed do:
`Act.Completes` says that a computation answers in every sound world, and has the same rules as
`Act.Triple`.
-/

namespace HandleForms

variable {σ α β : Type}

/-- The handles that allowed operations make out of each other in reachable worlds. -/
inductive HandleOf.Built (host : Host σ) (allowed : HandleOp → Prop) : Handle → Prop
  | made {w : World σ} {op : HandleOp} {B : Handle} (hw : w.Reachable host) (hallowed : allowed op)
      (hops : ∀ h ∈ op.handles, Built host allowed h)
      (hmade : (Act.perform host op w).1 = .ok B) : Built host allowed B

namespace HandleOf.Built

variable {host : Host σ} {allowed allowed' : HandleOp → Prop} {h : Handle}

/-- What is built is proper. -/
theorem proper (hh : HandleOf.Built host allowed h) : h.Proper := by
  induction hh with
  | made hw _ _ hmade ih =>
    exact ((Act.triple_perform host _).answer hw.sound hmade ih).proper ih

theorem mono (hh : HandleOf.Built host allowed h) (hallowed : ∀ op, allowed op → allowed' op) :
    HandleOf.Built host allowed' h := by
  induction hh with
  | made hw hop _ hmade ih => exact .made hw (hallowed _ hop) ih hmade

end HandleOf.Built

/-- Arguments that fit a type still fit when those of the parameters that it has in the place of some
others are replaced by values that fit the others. -/
theorem Signature.map_replace {s t : Signature} {new : List Ty} {args vs : List Value}
    {pos count : Nat} (hle : pos + count ≤ s.arity)
    (hparams : t.params = s.params.take pos ++ new ++ s.params.drop (pos + count))
    (hargs : args.map Value.basicType = t.basicParams)
    (hvs : vs.map Value.basicType = (s.basicParams.drop pos).take count) :
    (args.take pos ++ vs ++ args.drop (pos + new.length)).map Value.basicType = s.basicParams := by
  have htake : (s.params.take pos).length = pos :=
    List.length_take_of_le (Nat.le_trans (Nat.le_add_right _ _) hle)
  have hbefore : t.basicParams.take pos = s.basicParams.take pos := by
    rw [basicParams, ← List.map_take, hparams, List.append_assoc, List.take_left' htake, List.map_take]
    rfl
  have hbehind : t.basicParams.drop (pos + new.length) = s.basicParams.drop (pos + count) := by
    rw [basicParams, ← List.map_drop, hparams, List.drop_left' (by rw [List.length_append, htake]),
      List.map_drop]
    rfl
  rw [List.map_append, List.map_append, List.map_take, List.map_drop, hargs, hvs, hbefore, hbehind,
    List.append_assoc, ← List.drop_drop, List.take_append_drop, List.take_append_drop]

/-- The client holds these values, or values that they are part of. -/
def World.Holds (w : World σ) (values : List Value) : Prop := ∀ v ∈ values, v.Within w.held

theorem World.holds_held (w : World σ) : w.Holds w.held := fun _ => Value.within_of_mem

/-! ## A host that adds -/

theorem mem_toOption {ε : Type} {x : Except ε α} {a : α} : a ∈ x.toOption ↔ x = .ok a := by
  cases x <;> simp [Except.toOption]

/-- The host with the primitives that are always there. -/
abbrev adderHost : Host TableState := HostTable.standard.host

/-- A world in which that host did nothing yet and the client holds some values. -/
def adderWorld (held : List Value) : World TableState :=
  { World.new {} {} HostTable.start with held := held }

/-- A handle that adds two numbers. -/
def adder : Handle :=
  let type : Signature := ⟨[.int, .int], .int, by decide, by decide⟩
  ⟨0, type, ⟨0, 3, [.param .ref, .param .int, .param .int,
    .apply (.external "add" type.basic) [.name 1, .name 2]], some 3, .external⟩, .simple⟩

theorem reachable_adderWorld (held : List Value) : (adderWorld held).Reachable adderHost :=
  .outside (.new {} {} HostTable.start) rfl rfl rfl

theorem built_adder_of {allowed : HandleOp → Prop} (h : allowed (.external "add" adder.type)) :
    HandleOf.Built adderHost allowed adder := by
  have hmade : (Act.perform adderHost (.external "add" adder.type) (adderWorld [])).1 = .ok adder := rfl
  refine .made (reachable_adderWorld []) h ?_ hmade
  nofun

theorem built_adder : HandleOf.Built adderHost (fun _ => True) adder := built_adder_of trivial

namespace Act

/-! ## Computations that answer -/

/-- The computation answers in every sound world. -/
def Completes (owned : List TypeForm) (x : Act σ α) : Prop :=
  ∀ w : World σ, w.Sound → (∀ t ∈ owned, w.context.types.Owned t) → ∃ a, (x w).1 = .ok a

namespace Completes

variable {owned : List TypeForm} {Q : α → Prop} {x : Act σ α} {k : α → Act σ β}

theorem answer {w : World σ} (hx : Completes [] x) (hw : w.Sound) : ∃ a, (x w).1 = .ok a :=
  hx w hw nofun

theorem pure (a : α) : Completes owned (Pure.pure a : Act σ α) := fun _ _ _ => ⟨a, rfl⟩

theorem bind (hx : Triple owned x Q) (hcompletes : Completes owned x)
    (hk : ∀ a, Q a → Completes owned (k a)) : Completes owned (x >>= k) := by
  intro w hw howned
  obtain ⟨a, ha⟩ := hcompletes w hw howned
  obtain ⟨⟨hsound, -⟩, howned', hQ⟩ := hx w hw howned
  rw [bind_apply, ha]
  exact hk a (hQ a ha) _ hsound howned'

theorem look {k : World σ → Act σ β} (hk : ∀ w : World σ, w.Sound → Completes owned (k w)) :
    Completes owned (get >>= k) :=
  fun w hw howned => hk w hw w hw howned

theorem context (f : Live Kept → Context Kept → α × Context Kept) :
    Completes (σ := σ) owned (Act.context f) := fun _ _ _ => ⟨_, rfl⟩

/-- A check that passes in front of a computation. -/
theorem guarded {p : Prop} {_ : Decidable p} {y : Act σ PUnit} {k : PUnit → Act σ β} (hp : ¬ p)
    (hk : Completes owned (k ⟨⟩)) : Completes owned (if p then y >>= k else k ⟨⟩) := by
  rwa [if_neg hp]

theorem ofViolation {r : Except Violation α} (h : ∃ a, r = .ok a) :
    Completes (σ := σ) owned (Act.ofViolation r) := by
  obtain ⟨a, rfl⟩ := h
  exact pure a

end Completes

variable {owned : List TypeForm}

theorem completes_require {p : Prop} [Decidable p] {v : Violation} (hp : p) :
    Completes (σ := σ) owned (require p v) := by
  rw [require, if_pos hp]
  exact .pure ()

theorem completes_paramType {type : Signature} {pos : Nat} (hpos : pos < type.arity) :
    Completes (σ := σ) owned (paramType type pos) := by
  rw [paramType, List.getElem?_eq_getElem hpos]
  exact .pure _

theorem completes_dropParams {type : Signature} {start stop : Nat} (hle : start ≤ stop)
    (hstop : stop ≤ type.arity) : Completes (σ := σ) owned (dropParams type start stop) := by
  rw [dropParams, Signature.drop?, dif_pos ⟨hle, hstop⟩]
  exact .pure _

theorem completes_newHandle (type : Signature) (form : Form) (data : HandleData Value) :
    Completes (σ := σ) owned (newHandle type form data) := fun _ _ _ => ⟨_, rfl⟩

theorem completes_newForm {build : Nat → Except Violation Form} (h : ∀ id, ∃ f, build id = .ok f) :
    Completes (σ := σ) owned (newForm build) :=
  .bind (Triple.contextSame (Q := fun _ => True) (fun _ _ hc => ⟨hc.freshForm, trivial⟩)
    fun _ _ => rfl) (.context _) fun id _ => .ofViolation (h id)

theorem completes_typeForm {s : Signature} {k : TypeForm → Act σ α}
    (hk : ∀ t, t.basic = s.basic → Completes (t :: owned) (k t)) :
    Completes owned (typeForm s >>= k) := by
  intro w hw howned
  obtain ⟨t, w', hbasic, hw', -, howned', heq⟩ := typeForm_bind hw howned s k
  rw [heq]
  exact hk t hbasic w' hw' howned'

/-- The form in a slot is there once it can be built. -/
theorem completes_sharedForm {t : TypeForm} {p : FormPurpose} {build : Act σ Form} (ht : t ∈ owned)
    (hbuild : Triple owned build fun f => f.Links t.basic p) (hcompletes : Completes owned build) :
    Completes owned (sharedForm t p build) := by
  refine .bind (triple_cachedForm ht p) (.context _) fun f? _ => ?_
  cases f? with
  | some f => exact .pure f
  | none => exact .bind hbuild hcompletes fun f _ => .context _

/-- A type that leaves a slot for the handle has a carrier around it. -/
theorem completes_rebind {h : Handle} (hslots : h.type.slots ≤ Signature.maxHandleSlots) :
    Completes (σ := σ) owned (rebind h) := by
  unfold rebind
  split
  · exact .pure h
  refine completes_typeForm fun t ht => ?_
  rw [Signature.basic_basic] at ht
  have hbuild : Triple (t :: owned) (do
      let s ← species (σ := σ) [.ref]
      newForm (Form.reinvoker s h.type.basic)) fun f => f.Links t.basic .boundReinvoker := by
    refine (triple_species _).bind fun s hs => (triple_newForm _).imp fun f hf => ?_
    obtain ⟨id, hf⟩ := hf
    exact ⟨s, id, hs, ht ▸ hf⟩
  refine .bind (triple_sharedForm (.head _) hbuild) (completes_sharedForm (.head _) hbuild ?_)
    fun form _ => .bind (triple_species _) (.context _) fun s _ => completes_newHandle _ _ _
  refine .bind (triple_species _) (.context _) fun s hs => completes_newForm fun id =>
    Form.reinvoker_ok hs (Nat.le_trans (Nat.le_of_eq (Signature.slots_basic h.type)) hslots) id

/-- An edit that is let through is answered, unless it is refused while it is carried out. -/
theorem completes_edit {base : Form} {e : Edit} (hbase : base.Editable)
    (hcheck : e.check base = .ok ()) (hwords : e.normal.InWords) (hrefused : ¬ e.Refused base) :
    Completes (σ := σ) owned (edit base e) := by
  intro w hw _
  obtain ⟨f, hf⟩ := hw.context.edit_succeeds w.live hbase hcheck hwords hrefused
  have hanswer : (context (fun live c => c.edit live base e) w).1 = .ok (.ok f) := congrArg _ hf
  refine ⟨f, ?_⟩
  rw [edit, bind_apply, hanswer]
  rfl

end Act

/-! ## Carriers -/

/-- The form of a proper handle takes the handle besides the arguments. -/
theorem HandleOf.Proper.slots_le {h : Handle} (hh : h.Proper) :
    h.type.slots ≤ Signature.maxHandleSlots := by
  have hslots := hh.serves.editable.wellFormed.slots_le
  rw [Form.slots, hh.serves.params, BasicType.slotSum_cons, Signature.slotSum_basicParams] at hslots
  have hone : BasicType.slots .ref + Signature.maxHandleSlots = Signature.maxSlots := rfl
  omega

namespace Act

variable {owned : List TypeForm} {h : Handle}

/-- The form of a carrier of a proper handle is edited. -/
theorem completes_carrier {e : Edit} {k : Handle → Form → Act σ α} (hh : h.Proper)
    (hcheck : ∀ R, h.Rebound R → e.check R.form = .ok ()) (hwords : e.normal.InWords)
    (hrefused : ∀ R, h.Rebound R → ¬ e.Refused R.form)
    (hk : ∀ R f, h.Rebound R → e.Answers R.form f → Completes owned (k R f)) :
    Completes owned (rebind h >>= fun R => editForm R e >>= fun f => k R f) := by
  refine .bind (triple_rebind h) (completes_rebind hh.slots_le) fun R hR => ?_
  have hform (w : World σ) : w.currentForm R = R.form := World.currentForm_of_bound hR.isSome
  have hedit : Triple (σ := σ) owned (editForm R e) fun f => R.form.Editable → e.Answers R.form f :=
    .look fun w _ => by
      rw [hform]
      exact triple_edit R.form e
  refine .bind hedit (.look fun w _ => ?_) fun f hf => hk R f hR (hf (hR.serves hh).editable)
  rw [hform]
  exact completes_edit (hR.serves hh).editable (hcheck R hR) hwords (hrefused R hR)

theorem completes_copyWithExtra {R : Handle} {type : Signature} {form : Form} {value : Value}
    (hform : (form.species? 0).isSome) : Completes (σ := σ) owned (copyWithExtra R type form value) := by
  obtain ⟨s, hs⟩ := Option.isSome_iff_exists.1 hform
  rw [copyWithExtra, hs]
  exact completes_newHandle _ _ _

end Act

end HandleForms
