import HandleForms.Proofs.Handle.Wired
import HandleForms.Proofs.Run.Body

/-!
# What the interpreter checks for nothing

While it runs, the interpreter checks again what a form is made to keep: that there are as many
arguments as parameters, that a field is read from a carrier of the species, and that what is called
is a handle of the type of the call. `Faults` says what to do where such a check fails, and the
interpreter itself reports errors (`Faults.runForm_reported`). The invocation of a handle that was
built without invokers is the same whatever the faults do (`HandleOf.Built.agree_invokeHandle`), so it
comes across none.
-/

namespace HandleForms

variable {σ α β : Type}

/-- What a run does when a check of the interpreter fails. -/
structure Faults (σ : Type) where
  /-- A form is run with another number of arguments than it takes. -/
  arity : Form → List Value → Exec σ PUnit
  /-- A field is read from what is no carrier of the species. -/
  field : Species → Value → Exec σ Value
  /-- What is called is no handle of this type. -/
  call : Signature → Value → Exec σ Value

namespace Faults

/-- The errors that the interpreter reports. -/
def reported : Faults σ where
  arity form args := Exec.fail (.arityMismatch form.arity args.length)
  field _ v := do
    let h ← Exec.act (Act.ofError v.asHandle)
    Exec.fail (.classCast "bound method handle" ((← get).world.describe h))
  call callee v := do
    let h ← Exec.act (Act.ofError v.asHandle)
    Exec.fail (.wrongType callee h.type)

variable (F : Faults σ)

/-- Reads a field of a carrier. -/
def boundField (species : Species) (index : Nat) (v : Value) : Exec σ Value :=
  match v with
  | .handle h =>
    match h.data with
    | .bound actual values =>
      if actual == species then Exec.act (Act.ofViolation (Exec.valueAt values index))
      else F.field species v
    | _ => F.field species v
  | v => F.field species v

/-- Calls the handle in operand 0 with the other operands. -/
def invokeBasic (run : Exec.Runner σ) (callee : Signature) (args : List Value) : Exec σ Value := do
  match ← Exec.act (Act.ofViolation (Exec.valueAt args 0)) with
  | .handle h =>
    if h.type.basic = callee then Exec.invokeHandle run h args.tail
    else F.call callee (.handle h)
  | v => F.call callee v

/-- Applies an intrinsic. -/
def intrinsic (host : Host σ) (re : Reentry σ) (run : Exec.Runner σ) (op : Intrinsic)
    (args : List Value) : Exec σ Value :=
  match op with
  | .invokeBasic callee => F.invokeBasic run callee args
  | .boundField species index => do
    F.boundField species index (← Exec.act (Act.ofViolation (Exec.valueAt args 0)))
  | op => Exec.intrinsic host re run op args

/-- Applies a function. -/
def apply (host : Host σ) (re : Reentry σ) (run : Exec.Runner σ) (f : Function Form)
    (args : List Value) : Exec σ Value :=
  match f with
  | .intrinsic op => F.intrinsic host re run op args
  | f => Exec.apply host re run f args

/-- Runs a form as the interpreter does, unless a check fails. -/
def runForm (host : Host σ) (re : Reentry σ) (depth : Nat) (form : Form) (args : List Value) :
    Exec σ Value := do
  if args.length ≠ form.arity then F.arity form args
  match depth with
  | 0 => Exec.fail .recursionLimit
  | depth + 1 =>
    Exec.traceEnter form args
    let values ← Exec.evaluate (F.apply host re (runForm host re depth)) form
      (form.names.drop form.arity) args
    let result ← match form.result with
      | none => pure .void
      | some r => Exec.act (Act.ofViolation (Exec.valueAt values r))
    Exec.tracing fun t => t.exit form result
    return result

variable (host : Host σ) (re : Reentry σ) (run : Exec.Runner σ)

/-! ## The interpreter reports errors -/

theorem boundField_reported (species : Species) (index : Nat) (v : Value) :
    reported.boundField species index v = (Exec.boundField species index v : Exec σ Value) := by
  cases v with
  | handle h =>
    obtain ⟨id, type, form, data⟩ := h
    cases data <;> rfl
  | _ => rfl

theorem invokeBasic_reported (callee : Signature) (args : List Value) :
    reported.invokeBasic run callee args = Exec.invokeBasic run callee args := by
  refine bind_congr fun v => ?_
  cases v with
  | handle h =>
    show (if h.type.basic = callee then Exec.invokeHandle run h args.tail
      else Exec.fail (.wrongType callee h.type)) =
        (if h.type.basic ≠ callee then
          (Exec.fail (.wrongType callee h.type) >>= fun _ => Exec.invokeHandle run h args.tail)
        else Exec.invokeHandle run h args.tail)
    by_cases hbasic : h.type.basic = callee
    · rw [if_pos hbasic, if_neg (not_not.2 hbasic)]
    · rw [if_neg hbasic, if_pos hbasic]
      rfl
  | _ => rfl

theorem apply_reported (f : Function Form) (args : List Value) :
    reported.apply host re run f args = Exec.apply host re run f args := by
  cases f with
  | intrinsic op =>
    cases op with
    | invokeBasic callee => exact invokeBasic_reported run callee args
    | boundField species index =>
      exact bind_congr fun v => boundField_reported species index v
    | _ => rfl
  | external name type => rfl
  | form callee => rfl

/-- The interpreter is the run that reports errors. -/
theorem runForm_reported (depth : Nat) :
    reported.runForm host re depth = Exec.runForm host re depth := by
  induction depth with
  | zero =>
    funext form args
    rfl
  | succ depth ih =>
    funext form args
    have happly : reported.apply host re (reported.runForm host re depth) =
        Exec.apply host re (Exec.runForm host re depth) := by
      funext f args
      rw [ih, apply_reported]
    rw [runForm, Exec.runForm, happly]
    rfl

end Faults

namespace Exec

/-! ## Steps that stay in reachable worlds -/

namespace Stays

variable {host : Host σ} {re : Reentry σ} {x : Exec σ α} {k : α → Exec σ β}

theorem bind (hx : Stays host x) (hk : ∀ a, Stays host (k a)) : Stays host (x >>= k) :=
  (stays_congruence host).bind (y := x) (l := k) hx hk

theorem withFrame (F : Frame) (hx : Stays host x) : Stays host (Exec.withFrame F x) :=
  (stays_congruence host).withFrame F (y := x) hx

theorem ofStop (r : Except (Stop RuntimeError) α) : Stays host (act (Act.ofStop r)) :=
  (stays_congruence host).act (P := fun _ => Act.Stays host) ((Act.Stays.law host).ofStop r)

theorem apply (hre : re.Stays host) (depth : Nat) (f : Function Form) (args : List Value) :
    Stays host (Exec.apply host re (runForm host re depth) f args) :=
  @Steps.apply _ _ _ _ _ _ (runForm host re depth) (Act.Stays.serves hre)
    (stays_congruence host).toSteps (stays_runForm hre depth) f args

theorem nameStep (hre : re.Stays host) (depth : Nat) (form : Form) (n : Name Form)
    (values : List Value) :
    Stays host (Exec.nameStep (Exec.apply host re (runForm host re depth)) form n values) := by
  have hlaw := stays_congruence host
  refine .bind hlaw.consumeFuel fun _ => ?_
  cases n.expr with
  | none => exact ofStop _
  | some e =>
    exact .bind (hlaw.tracing _) fun _ => .bind (ofStop _) fun args =>
      .bind (.withFrame _ (apply hre depth e.function args)) fun v => .bind (hlaw.tracing _) fun _ =>
        ofStop (.ok v)

theorem loop {step : Name Form → List Value → Exec σ Value}
    (hstep : ∀ n values, Stays host (step n values)) (names : List (Name Form))
    (values : List Value) : Stays host (Exec.loop step names values) := by
  induction names generalizing values with
  | nil => exact ofStop (.ok values)
  | cons n names ih => exact .bind (hstep n values) fun v => ih (values ++ [v])

end Stays

/-! ## Computations that agree -/

/-- The computations do the same in reachable worlds. -/
def Agree (host : Host σ) (x y : Exec σ α) : Prop :=
  ∀ e : Execution σ, e.world.Reachable host → x e = y e

namespace Agree

variable {host : Host σ} {x y : Exec σ α}

theorem refl (x : Exec σ α) : Agree host x x := fun _ _ => rfl

/-- Computations that agree, one behind the other. Only answers that are given matter. -/
theorem bind {k l : α → Exec σ β} (hx : Agree host x y) (hstays : Stays host y)
    (hk : ∀ a, (∃ e : Execution σ, (y e).1 = .ok a) → Agree host (k a) (l a)) :
    Agree host (x >>= k) (y >>= l) := by
  intro e he
  rw [bind_apply, bind_apply, hx e he]
  cases ha : (y e).1 with
  | error stop => rfl
  | ok a => exact hk a ⟨e, ha⟩ _ (hstays e he)

theorem withFrame (F : Frame) (hx : Agree host x y) :
    Agree host (Exec.withFrame F x) (Exec.withFrame F y) := by
  intro e he
  show (let r := x { e with world := e.world.withFrames (F :: e.world.frames) }
    (r.1, { r.2 with world := { r.2.world with frames := e.world.frames } })) = _
  rw [hx { e with world := e.world.withFrames (F :: e.world.frames) } (he.withFrames _)]
  rfl

end Agree

theorem exists_of_bind_ok {x : Exec σ α} {k : α → Exec σ β} {e : Execution σ} {b : β}
    (h : ((x >>= k) e).1 = .ok b) :
    ∃ a, (x e).1 = .ok a ∧ (k a (x e).2).1 = .ok b := by
  rw [bind_apply] at h
  cases ha : (x e).1 with
  | error stop =>
    rw [ha] at h
    cases h
  | ok a =>
    rw [ha] at h
    exact ⟨a, rfl, h⟩

theorem ok_of_ofViolation {r : Except Violation α} {e : Execution σ} {a : α}
    (h : (act (Act.ofViolation r) e).1 = .ok a) : r = .ok a := by
  cases r with
  | error v => cases h
  | ok b => exact congrArg _ (Except.ok.inj h)

/-- Operands have one value each. -/
theorem length_of_mapM_operand {values args : List Value} {as : List Arg}
    (h : as.mapM (operand values) = .ok args) : args.length = as.length := by
  induction as generalizing args with
  | nil =>
    obtain rfl := Except.ok.inj h
    rfl
  | cons a as ih =>
    rw [List.mapM_cons] at h
    obtain ⟨v, -, h⟩ := bind_eq_ok_iff.1 h
    obtain ⟨vs, hvs, h⟩ := bind_eq_ok_iff.1 h
    obtain rfl := Except.ok.inj h
    rw [List.length_cons, List.length_cons, ih hvs]

/-! ## Runs without a fault -/

/-- The values that the first names of a form have when it runs for a handle: in front is the handle,
and what reads a field has the value that the handle holds there. -/
structure Reads (h : Handle) (names : List (Name Form)) (values : List Value) : Prop where
  handle : values[0]? = some (.handle h)
  fields : ∀ (j : Nat) (n : Name Form) (i : Nat) (v : Value), names[j]? = some n → n.fieldRead? = some i →
    values[j]? = some v → h.bound[i]? = some v

variable {host : Host σ} {re : Reentry σ} {S : Handle → Prop} {h : Handle} {f : Form} {n : Name Form}
  {names : List (Name Form)} {values args : List Value} {depth i : Nat} {v : Value} {e : Expr Form}

/-- What a form reads from its handle is there. -/
theorem faultless_boundField (F : Faults σ) (hh : h.Fits f) {s : Species}
    (hs : s.fields = h.bound.map Value.basicType) (hi : i < h.bound.length) :
    F.boundField s i (.handle h) = act (Act.ofViolation (valueAt h.bound i)) := by
  obtain ⟨id, type, form, data⟩ := h
  cases data with
  | bound t vs =>
    have hsame : (t == s) = true := (Species.beq_iff t s).2 ((hh.bound t vs rfl).2.symm.trans hs.symm)
    show (if t == s then _ else _) = _
    rw [if_pos hsame]
    rfl
  | simple | direct => exact absurd hi (Nat.not_lt_zero i)

/-- What is called is a handle of the type of the call. -/
theorem faultless_invokeBasic (F : Faults σ) (run : Runner σ) {c : Handle} {callee : Signature}
    (hbasic : c.type.basic = callee) :
    F.invokeBasic run callee (.handle c :: args) = invokeHandle run c args := by
  show (if c.type.basic = callee then _ else _) = _
  rw [if_pos hbasic]
  rfl

/-- What reads a field of the handle has the value that the handle holds there. -/
theorem nameStep_read (hh : h.Fits f) (hwired : f.Wired S h.bound)
    (hreads : Reads h f.names values) (hn : n ∈ f.names) (hread : n.fieldRead? = some i)
    (run : Runner σ) {ex : Execution σ}
    (hv : (nameStep (apply host re run) f n values ex).1 = .ok v) : h.bound[i]? = some v := by
  obtain ⟨s, he⟩ := Name.expr_of_fieldRead? hread
  obtain ⟨hs, hi⟩ := (hwired n hn _ he).of_getter
  have happly : apply host re run (.getter s i) [.handle h] =
      act (Act.ofViolation (valueAt h.bound i)) :=
    (Faults.boundField_reported s i (.handle h)).symm.trans (faultless_boundField _ hh hs hi)
  have hframed : withFrame ⟨[f], values⟩ (apply host re run (.getter s i) [.handle h]) =
      act (Act.ofViolation (valueAt h.bound i)) := by
    rw [happly]
    exact withFrame_ofStop _ _
  have hargs : [Arg.name 0].mapM (operand values) = .ok [.handle h] := by
    simp [operand, valueAt, hreads.handle]
  unfold nameStep at hv
  rw [he] at hv
  obtain ⟨-, -, hv⟩ := exists_of_bind_ok hv
  obtain ⟨-, -, hv⟩ := exists_of_bind_ok hv
  obtain ⟨args, hargs', hv⟩ := exists_of_bind_ok hv
  obtain rfl := Except.ok.inj (hargs.symm.trans (ok_of_ofViolation hargs'))
  rw [hframed] at hv
  obtain ⟨u, hu, hv⟩ := exists_of_bind_ok hv
  obtain ⟨-, -, hv⟩ := exists_of_bind_ok hv
  obtain rfl := Except.ok.inj hv
  have hvalue := ok_of_ofViolation hu
  unfold valueAt at hvalue
  split at hvalue
  · next heq => rw [heq, Except.ok.inj hvalue]
  · cases hvalue

/-- A form takes the handle and its arguments. -/
theorem not_ne_arity (hh : h.Fits f) (hlen : args.length = h.type.arity) :
    ¬ (Value.handle h :: args).length ≠ f.arity := by
  rw [hh.serves.arity_eq, List.length_cons, hlen]
  exact not_not.2 rfl

variable (hre : re.Stays host) (F : Faults σ)
  (hcalls : ∀ c, S c → ∀ args : List Value, args.length = c.type.arity →
    Agree host (invokeHandle (F.runForm host re depth) c args)
      (invokeHandle (runForm host re depth) c args))
include hcalls

/-- A function of a wired expression over its operands. -/
theorem agree_apply (hh : h.Fits f) (hwired : e.Wired S names h.bound) (hreads : Reads h names values)
    (hargs : e.args.mapM (operand values) = .ok args)
    (hcount : args.length = e.function.params.length) :
    Agree host (F.apply host re (F.runForm host re depth) e.function args)
      (apply host re (runForm host re depth) e.function args) := by
  cases hwired with
  | @read s i hs hi =>
    have hhandle : [Arg.name 0].mapM (operand values) = .ok [.handle h] := by
      simp [operand, valueAt, hreads.handle]
    obtain rfl := Except.ok.inj (hhandle.symm.trans hargs)
    have hreported : apply host re (runForm host re depth) (.intrinsic (.boundField s i)) [.handle h] =
        Faults.reported.boundField s i (.handle h) :=
      (Faults.boundField_reported s i (.handle h)).symm
    have hfaulty : F.apply host re (F.runForm host re depth) (.intrinsic (.boundField s i))
        [.handle h] = F.boundField s i (.handle h) := rfl
    rw [hreported, hfaulty, faultless_boundField _ hh hs hi, faultless_boundField _ hh hs hi]
    exact .refl _
  | @call callee j i rest m c hm hread hc htype hS =>
    rw [List.mapM_cons] at hargs
    obtain ⟨v, hv, hargs⟩ := bind_eq_ok_iff.1 hargs
    obtain ⟨vs, hvs, hargs⟩ := bind_eq_ok_iff.1 hargs
    obtain rfl := Except.ok.inj hargs
    have hvalue : values[j]? = some v := by
      simp only [operand, valueAt] at hv
      split at hv
      · next heq => rw [heq, Except.ok.inj hv]
      · cases hv
    obtain rfl : v = .handle c := by
      have := hreads.fields j m i v hm hread hvalue
      exact Option.some.inj (this.symm.trans hc)
    have hlength : vs.length = c.type.arity := by
      have hparams : (Function.intrinsic (.invokeBasic callee) : Function Form).params =
        .ref :: callee.basicParams := rfl
      rw [hparams, ← htype] at hcount
      simpa using hcount
    have hreported : apply host re (runForm host re depth) (.intrinsic (.invokeBasic callee))
        (.handle c :: vs) = Faults.reported.invokeBasic (runForm host re depth) callee (.handle c :: vs) :=
      (Faults.invokeBasic_reported _ callee _).symm
    have hfaulty : F.apply host re (F.runForm host re depth) (.intrinsic (.invokeBasic callee))
        (.handle c :: vs) = F.invokeBasic (F.runForm host re depth) callee (.handle c :: vs) := rfl
    rw [hreported, hfaulty, faultless_invokeBasic _ _ htype, faultless_invokeBasic _ _ htype]
    exact hcalls c hS vs hlength
  | @plain op args' hop =>
    cases op <;> first | exact .refl _ | cases hop
  | external => exact .refl _

include hre

theorem agree_nameStep (hh : h.Fits f) (hwired : f.Wired S h.bound) (hreads : Reads h f.names values)
    (hn : f.names[values.length]? = some n) :
    Agree host (nameStep (F.apply host re (F.runForm host re depth)) f n values)
      (nameStep (apply host re (runForm host re depth)) f n values) := by
  have hlaw := stays_congruence host
  refine .bind (.refl _) hlaw.consumeFuel fun _ _ => ?_
  cases he : n.expr with
  | none => exact .refl _
  | some e =>
    refine .bind (.refl _) (hlaw.tracing _) fun _ _ => ?_
    refine .bind (.refl _) (.ofStop _) fun args hargs => ?_
    obtain ⟨_, hargs⟩ := hargs
    have hargs := ok_of_ofViolation hargs
    have hcount : args.length = e.function.params.length :=
      (length_of_mapM_operand hargs).trans
        (hh.serves.editable.wellFormed.operandCount _ n e hn he)
    refine .bind (.withFrame _ ?_) (.withFrame _ (.apply hre depth e.function args)) fun _ _ => .refl _
    exact agree_apply F hcalls hh (hwired n (List.mem_of_getElem? hn) e he) hreads hargs hcount

/-- The names of a form, from the one that comes next on. -/
theorem agree_loop (hh : h.Fits f) (hwired : f.Wired S h.bound) {rest : List (Name Form)}
    (hrest : f.names.drop values.length = rest) (hreads : Reads h f.names values) :
    Agree host (loop (nameStep (F.apply host re (F.runForm host re depth)) f) rest values)
      (loop (nameStep (apply host re (runForm host re depth)) f) rest values) := by
  induction rest generalizing values with
  | nil => exact .refl _
  | cons n rest ih =>
    have hn : f.names[values.length]? = some n := by
      rw [← List.head?_drop, hrest]
      rfl
    refine .bind (agree_nameStep hre F hcalls hh hwired hreads hn) (.nameStep hre depth f n values)
      fun v hv => ih ?_ ⟨?_, fun j m i u hm hread hu => ?_⟩
    · rw [List.length_append, List.length_singleton, ← List.drop_drop, hrest]
      rfl
    · exact Draft.getElem?_of_isPrefix (List.prefix_append _ _) hreads.handle
    · by_cases hj : j < values.length
      · rw [List.getElem?_append_left hj] at hu
        exact hreads.fields j m i u hm hread hu
      · obtain rfl : j = values.length := by
          have := (List.getElem?_eq_some_iff.1 hu).1
          rw [List.length_append, List.length_singleton] at this
          omega
        obtain rfl := Option.some.inj (hn.symm.trans hm)
        rw [List.getElem?_concat_length] at hu
        obtain rfl := Option.some.inj hu
        obtain ⟨ex, hv⟩ := hv
        exact nameStep_read hh hwired hreads (List.mem_of_getElem? hn) hread _ hv

/-- The form that a handle has now, over arguments that it takes. -/
theorem agree_runForm (hh : h.Fits f) (hwired : f.Wired S h.bound)
    (hlen : args.length = h.type.arity) :
    Agree host (F.runForm host re (depth + 1) f (.handle h :: args))
      (runForm host re (depth + 1) f (.handle h :: args)) := by
  have harity := not_ne_arity hh hlen
  have hreads : Reads h f.names (.handle h :: args) := by
    refine ⟨rfl, fun j n i v hn hread hv => ?_⟩
    -- What reads a field is an expression, and these are parameters.
    have hlt : j < f.arity := by
      have := (List.getElem?_eq_some_iff.1 hv).1
      omega
    obtain ⟨s, he⟩ := Name.expr_of_fieldRead? hread
    have hparam := (hh.serves.editable.wellFormed.isParam_iff j n hn).2 hlt
    simp [Name.isParam, he] at hparam
  have hdrop : f.names.drop (Value.handle h :: args).length = f.names.drop f.arity := by
    rw [not_not.1 harity]
  rw [Faults.runForm, runForm]
  simp only [if_neg harity, evaluate_eq_loop]
  refine .bind (.refl _) ((stays_congruence host).traceEnter _ _) fun _ _ => ?_
  exact .bind (agree_loop hre F hcalls hh hwired hdrop hreads)
    (.loop (fun n values => .nameStep hre depth f n values) _ _) fun _ _ => .refl _

end Exec

namespace HandleOf.Built

variable {host : Host σ} {re : Reentry σ} {h : Handle}

/-- Invoking a handle that was built without invokers comes across no fault. -/
theorem agree_invokeHandle (hre : re.Stays host) (F : Faults σ) (depth : Nat)
    (hh : Built host HandleOp.MakesNoInvoker h) {args : List Value}
    (hlen : args.length = h.type.arity) :
    Exec.Agree host (Exec.invokeHandle (F.runForm host re depth) h args)
      (Exec.invokeHandle (Exec.runForm host re depth) h args) := by
  induction depth generalizing h args with
  | zero =>
    intro e he
    have harity := Exec.not_ne_arity (he.sound.fits_currentForm hh.proper) hlen
    have hrun : Exec.Agree host
        (F.runForm host re 0 (e.world.currentForm h) (.handle h :: args))
        (Exec.runForm host re 0 (e.world.currentForm h) (.handle h :: args)) := by
      rw [Faults.runForm, Exec.runForm]
      simp only [if_neg harity]
      exact .refl _
    exact hrun.withFrame ⟨[e.world.currentForm h], []⟩ e he
  | succ depth ih =>
    intro e he
    have hrun := Exec.agree_runForm hre F (fun c hc args hlen => ih hc hlen)
      (he.sound.fits_currentForm hh.proper) (hh.wired he) hlen
    exact hrun.withFrame ⟨[e.world.currentForm h], []⟩ e he

end HandleOf.Built

end HandleForms
