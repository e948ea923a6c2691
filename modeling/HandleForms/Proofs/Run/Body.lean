import HandleForms.Proofs.Form.Carrier
import HandleForms.Proofs.Run.Refine

/-!
# What a handle with bound values computes

`Exec.body` runs the form of a carrier over the bound values and the arguments: reads of fields are
answered out of the bound values, and there is no handle, no frame around the form and no fuel. It is
what invoking such a handle comes to (`equates_body`), and unlike the invocation it can be compared
with that of another form over other bound values.
-/

namespace HandleForms

variable {σ α : Type}

namespace Exec

/-! ## Evaluating names in order -/

/-- Evaluates names in order, each by `step`. Answers the values of all names. -/
def loop (step : Name Form → List Value → Exec σ Value) :
    List (Name Form) → List Value → Exec σ (List Value)
  | [], values => return values
  | n :: rest, values => do
    let v ← step n values
    loop step rest (values ++ [v])

theorem loop_cons (step : Name Form → List Value → Exec σ Value) (n : Name Form)
    (ns : List (Name Form)) (values : List Value) :
    loop step (n :: ns) values = step n values >>= fun v => loop step ns (values ++ [v]) := rfl

theorem loop_append (step : Name Form → List Value → Exec σ Value) (ns ms : List (Name Form))
    (values : List Value) : loop step (ns ++ ms) values = loop step ns values >>= loop step ms := by
  induction ns generalizing values with
  | nil => simp [loop]
  | cons n ns ih =>
    simp only [List.cons_append, loop, bind_assoc]
    exact congrArg _ (funext fun v => ih _)

/-- Loops whose steps do the same over different first values. -/
theorem equates_loop {held : List Value} {step step' : Name Form → List Value → Exec σ Value}
    {names : List (Name Form)} {f : Name Form → Name Form} {start start' : List Value}
    (h : ∀ n ∈ names, ∀ es, Equates held Eq (step (f n) (start ++ es)) (step' n (start' ++ es)))
    (es : List Value) :
    Equates held (fun us vs => ∃ es, us = start ++ es ∧ vs = start' ++ es)
      (loop step (names.map f) (start ++ es)) (loop step' names (start' ++ es)) := by
  induction names generalizing es with
  | nil => exact .pure ⟨es, rfl, rfl⟩
  | cons n names ih =>
    refine (h n (.head _) es).bind fun v v' hv => ?_
    subst hv
    rw [List.append_assoc, List.append_assoc]
    exact ih (fun m hm => h m (List.mem_cons_of_mem _ hm)) (es ++ [v])

/-- The value of the result of a form, given those of its names. -/
def resultOf (form : Form) (values : List Value) : Exec σ Value :=
  match form.result with
  | none => return .void
  | some r => act (Act.ofViolation (valueAt values r))

theorem Steps.resultOf {host : Host σ} {re : Reentry σ} {P : (β : Type) → StateM (World σ) β → Prop}
    {R : (α : Type) → Exec σ α → Exec σ α → Prop} (hP : Act.Serves host re P) (hR : Steps P R)
    (form : Form) (values : List Value) :
    R _ (Exec.resultOf form values) (Exec.resultOf form values) := by
  unfold Exec.resultOf
  cases form.result with
  | none => exact pure hP hR _
  | some r => exact ofViolation hP hR _

/-! ## One name -/

/-- What the interpreter does with one name. -/
def nameStep (apply : Function Form → List Value → Exec σ Value) (form : Form) (n : Name Form)
    (values : List Value) : Exec σ Value := do
  consumeFuel
  match n.expr with
  | none => act (Act.violate .outOfBounds)
  | some e =>
    tracing fun t => t.expression form values.length e
    let args ← act (Act.ofViolation (e.args.mapM (operand values)))
    let v ← withFrame ⟨[form], values⟩ (apply e.function args)
    tracing fun t => t.value v
    return v

theorem evaluate_eq_loop (apply : Function Form → List Value → Exec σ Value) (form : Form)
    (names : List (Name Form)) (values : List Value) :
    evaluate apply form names values = loop (nameStep apply form) names values := by
  induction names generalizing values with
  | nil => rfl
  | cons n names ih =>
    simp only [evaluate, loop, nameStep, bind_assoc, ih]
    refine congrArg _ (funext fun _ => ?_)
    cases n.expr with
    | none => rfl
    | some e => simp only [bind_assoc, pure_bind]

/-- A run whose arguments fit evaluates the names of the form in order. -/
theorem runForm_succ_eq (host : Host σ) (re : Reentry σ) (depth : Nat) {form : Form}
    {args : List Value} (hlength : args.length = form.arity) :
    runForm host re (depth + 1) form args = (do
      traceEnter form args
      let values ← loop (nameStep (apply host re (runForm host re depth)) form)
        (form.names.drop form.arity) args
      let result ← resultOf form values
      tracing fun t => t.exit form result
      return result) := by
  unfold runForm
  simp only [if_neg (not_not.2 hlength), evaluate_eq_loop, resultOf]
  refine bind_congr fun _ => bind_congr fun values => ?_
  cases form.result <;> rfl

/-- What a name comes to over some bound values. -/
def fieldStep (apply : Function Form → List Value → Exec σ Value) (bound : List Value)
    (n : Name Form) (values : List Value) : Exec σ Value :=
  match n.fieldRead? with
  | some i => act (Act.ofViolation (valueAt bound i))
  | none =>
    match n.expr with
    | none => act (Act.violate .outOfBounds)
    | some e => do
      let args ← act (Act.ofViolation (e.args.mapM (operand values)))
      withFrame ⟨[], values⟩ (apply e.function args)

/-- Runs the form of a carrier over some bound values. -/
def body (host : Host σ) (re : Reentry σ) (run : Runner σ) (form : Form)
    (bound args : List Value) : Exec σ Value := do
  let values ← loop (fieldStep (apply host re run) bound) (form.names.drop form.arity)
    (.void :: args)
  resultOf form values

/-! ## Operands -/

/-- Operands have the same values wherever their names are found. -/
theorem mapM_operand_map {us vs : List Value} {f : Nat → Nat} {as : List Arg}
    (h : ∀ i, .name i ∈ as → us[f i]? = vs[i]?) :
    (as.map (Arg.map f)).mapM (operand us) = as.mapM (operand vs) := by
  induction as with
  | nil => rfl
  | cons a as ih =>
    have hhead : operand us (a.map f) = operand vs a := by
      cases a with
      | name i => simp [Arg.map, operand, valueAt, h i (.head _)]
      | const c => rfl
    rw [List.map_cons, List.mapM_cons, List.mapM_cons, hhead,
      ih fun i hi => h i (List.mem_cons_of_mem _ hi)]

/-- The end of a computation shows no frame. -/
theorem withFrame_ofStop (F : Frame) (r : Except (Stop RuntimeError) α) :
    withFrame F (act (Act.ofStop r) : Exec σ α) = act (Act.ofStop r) := by
  funext e
  cases r <;> rfl

/-- Reading a field of a handle. -/
theorem boundField_eq {h : Handle} {s t : Species} {vs : List Value} (hdata : h.data = .bound s vs)
    (hfields : t.fields = s.fields) (i : Nat) :
    (boundField t i (.handle h) : Exec σ Value) = act (Act.ofViolation (valueAt vs i)) := by
  have hsame : (s == t) = true := (Species.beq_iff s t).2 hfields.symm
  have hpure : act (Act.ofError (.ok h)) = (pure h : Exec σ Handle) := rfl
  rw [boundField, Value.asHandle, hpure, pure_bind, hdata]
  simp only [hsame, if_true]

variable {host : Host σ} {re : Reentry σ} {held : List Value}

/-- Applying a function does the same as itself. -/
theorem equates_apply (hre : re.Blind) (held : List Value) (depth : Nat) (f : Function Form)
    (args : List Value) : Equates held Eq (apply host re (runForm host re depth) f args)
      (apply host re (runForm host re depth) f args) :=
  have h := (Refines.congruence held).apply (blind_serves host hre)
    (refines_runForm hre held (Nat.le_refl depth)) f args
  .of_refines h h

/-! ## Invoking a carrier -/

variable {h : Handle} {s : Species} {bound args es : List Value} {n : Name Form}

/-- One name of the form of a carrier. -/
theorem equates_nameStep (hre : re.Blind) (depth : Nat) (hdata : h.data = .bound s bound)
    (hform : h.form.Carrier s.fields) (hheld : (Value.handle h).Within held) (hn : n ∈ h.form.names)
    (hexpr : n.isParam = false) :
    Equates held Eq
      (nameStep (apply host re (runForm host re depth)) h.form n ((.handle h :: args) ++ es))
      (fieldStep (apply host re (runForm host re depth)) bound n ((.void :: args) ++ es)) := by
  obtain ⟨e, he⟩ : ∃ e, n.expr = some e := by
    cases he : n.expr with
    | none => simp [Name.isParam, he] at hexpr
    | some e => exact ⟨e, rfl⟩
  refine .pay_left ?_
  rw [he]
  refine .silent_left (silent_tracing _) ?_
  have hkept : h.form.KeptBy held := Form.keptBy_of_within hheld (by simp [HandleOf.species?, hdata])
  have hshown := fun v : Value => silent_tracing (σ := σ) fun t => t.value v
  rcases hform.reads_or hn with ⟨i, -, hread, t, hfields, he'⟩ | ⟨hread, hzero⟩
  · -- A read of a field: the interpreter finds the handle in parameter 0.
    obtain rfl : e = ⟨.getter t i, [.name 0]⟩ := Option.some.inj (he.symm.trans he')
    rw [fieldStep, hread]
    have happly : (withFrame ⟨[h.form], (.handle h :: args) ++ es⟩
        (apply host re (runForm host re depth) (.getter t i) [.handle h]) : Exec σ Value) =
        act (Act.ofViolation (valueAt bound i)) := by
      rw [show apply host re (runForm host re depth) (.getter t i) [.handle h] =
        boundField t i (.handle h) from rfl, boundField_eq hdata hfields]
      exact withFrame_ofStop _ _
    show Equates held Eq (do
      let v ← withFrame ⟨[h.form], (.handle h :: args) ++ es⟩
        (apply host re (runForm host re depth) (.getter t i) [.handle h])
      tracing fun t => t.value v
      return v) _
    rw [happly]
    exact .shown hshown (.ofOutcome (.of_eq rfl))
  · -- Everything else finds the same operands.
    have hargs : e.args.mapM (operand ((.handle h :: args) ++ es)) =
        e.args.mapM (operand ((.void :: args) ++ es)) := by
      have hmap := @mapM_operand_map ((.handle h :: args) ++ es) ((.void :: args) ++ es)
        (fun i => i) e.args fun i hi => by
          cases i with
          | zero => exact absurd (Name.mem_operands.2 (by simpa [Name.args, he] using hi)) hzero
          | succ i => rfl
      simpa [List.map_congr_left fun a _ => Arg.map_id a] using hmap
    rw [fieldStep, hread, he]
    dsimp only
    rw [hargs]
    have hframe : Frame.Alike held ⟨[h.form], (.handle h :: args) ++ es⟩
        ⟨[], (.void :: args) ++ es⟩ := by
      refine ⟨fun f hf => ?_, fun f hf => absurd hf (by simp), fun v hv => ?_, fun v hv => ?_⟩
      · rw [List.mem_singleton.1 hf]
        exact .inr hkept
      · rcases List.mem_cons.1 hv with rfl | hv
        · exact .inr hheld
        · exact .inl (List.mem_cons_of_mem _ hv)
      · rcases List.mem_cons.1 hv with rfl | hv
        · exact .inr Value.within_void
        · exact .inl (List.mem_cons_of_mem _ hv)
    refine .bind (.ofOutcome (.of_eq rfl)) fun us vs hus => ?_
    subst hus
    exact .shown hshown ((equates_apply hre held depth e.function us).withFrame hframe)

/-- Invoking a carrier comes to running its body. -/
theorem equates_body (hre : re.Blind) (depth : Nat) (hdata : h.data = .bound s bound)
    (hform : h.form.Carrier s.fields) (hheld : (Value.handle h).Within held)
    (hargs : args.length + 1 = h.form.arity) :
    Equates held Eq (invokeHandle (runForm host re (depth + 1)) h args)
      (body host re (runForm host re depth) h.form bound args) := by
  have hspecies : h.species?.isSome := by simp [HandleOf.species?, hdata]
  have hinvoke : invokeHandle (runForm host re (depth + 1)) h args =
      withFrame ⟨[h.form], []⟩ (runForm host re (depth + 1) h.form (.handle h :: args)) := by
    funext e
    show withFrame ⟨[e.world.currentForm h], []⟩
      (runForm host re (depth + 1) (e.world.currentForm h) (.handle h :: args)) e = _
    rw [World.currentForm_of_bound hspecies]
  rw [hinvoke, runForm_succ_eq host re depth (by simpa using hargs)]
  refine .withFrame_left (fun f hf => ?_) (fun v hv => absurd hv (by simp)) ?_
  · rw [List.mem_singleton.1 hf]
    exact Form.keptBy_of_within hheld hspecies
  refine .silent_left (silent_traceEnter _ _) ?_
  have hloop : Equates held (fun us vs => ∃ es, us = (.handle h :: args) ++ es ∧
      vs = (.void :: args) ++ es)
      (loop (nameStep (apply host re (runForm host re depth)) h.form)
        ((h.form.names.drop h.form.arity).map id) ((.handle h :: args) ++ []))
      (loop (fieldStep (apply host re (runForm host re depth)) bound)
        (h.form.names.drop h.form.arity) ((.void :: args) ++ [])) := by
    refine equates_loop (fun n hn es => ?_) []
    obtain ⟨i, hi⟩ := List.getElem?_of_mem hn
    rw [List.getElem?_drop] at hi
    have hexpr := mt (hform.editable.wellFormed.isParam_iff _ n hi).1 (by omega)
    exact equates_nameStep hre depth hdata hform hheld (List.mem_of_getElem? hi) (by simpa using hexpr)
  rw [List.map_id, List.append_nil, List.append_nil] at hloop
  refine hloop.bind fun us vs => ?_
  rintro ⟨es, rfl, rfl⟩
  refine .shown (fun v => silent_tracing fun t => t.exit h.form v) ?_
  unfold resultOf
  cases hr : h.form.result with
  | none => exact .pure rfl
  | some r =>
    -- The result is computed, so it is not the handle.
    have hpos := hform.editable.arity_pos
    have hle := (hform.result r hr).1
    obtain ⟨k, rfl⟩ : ∃ k, r = k + 1 := ⟨r - 1, by omega⟩
    exact .ofOutcome (.of_eq rfl)

end Exec

end HandleForms
