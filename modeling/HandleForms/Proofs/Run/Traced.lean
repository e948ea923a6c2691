import HandleForms.Proofs.Run.Greater
import HandleForms.Proofs.Run.TraceLines

/-!
# Traces of invocations

A run writes what `RunLines` or `CutRun` says (`Exec.writes_runForm`): every expression writes the
lines of the forms that it calls and then its own, and every form writes those of its expressions
between a line at entry and a line at exit. As long as invocations return, a trace that they share is
as deep after each of them as before it. An error leaves forms open and expressions waiting for good,
which indents whatever is invoked next (`Trace.Kept.lines_invoke`).

Errors leave a run through `bind`, so what a computation writes is stated once for both ends
(`Exec.Writes`), with a rule for each way in which computations are put together.
-/

namespace HandleForms

open Trace

variable {σ α β : Type}

namespace Exec

/-! ## Computations that leave the trace alone -/

/-- The computation writes nothing into the trace. -/
def Untraced (x : Exec σ α) : Prop := ∀ e : Execution σ, (x e).2.trace = e.trace

namespace Untraced

theorem act (a : Act σ α) : Untraced (Exec.act a) := fun _ => rfl

theorem pure (a : α) : Untraced (Pure.pure a : Exec σ α) := fun _ => rfl

theorem fail (err : RuntimeError) : Untraced (Exec.fail err : Exec σ α) := fun _ => rfl

theorem bind {x : Exec σ α} {k : α → Exec σ β} (hx : Untraced x) (hk : ∀ a, Untraced (k a)) :
    Untraced (x >>= k) := by
  intro e
  rw [bind_apply]
  have hx := hx e
  cases (x e).1 with
  | ok a => exact (hk a _).trans hx
  | error stop => exact hx

/-- A look at the state in front of a computation. -/
theorem look {k : Execution σ → Exec σ α} (hk : ∀ e, Untraced (k e)) : Untraced (get >>= k) :=
  bind (fun _ => rfl) hk

theorem consumeFuel : Untraced (consumeFuel : Exec σ Unit) := by
  intro e
  rw [consumeFuel_apply]
  split <;> rfl

theorem directMember (v : Value) : Untraced (directMember v : Exec σ (Nat × Member)) := by
  refine bind (act _) fun h => ?_
  split
  · exact pure _
  · exact look fun _ => fail _

theorem boundField (species : Species) (index : Nat) (v : Value) :
    Untraced (boundField species index v : Exec σ Value) := by
  refine bind (act _) fun h => ?_
  split
  · split
    · exact act _
    · exact look fun _ => fail _
  · exact look fun _ => fail _

theorem callHost (host : Host σ) (re : Reentry σ) (call : HostCall) (args : List Value)
    (code : Script σ RuntimeError Value) : Untraced (callHost host re call args code) := act _

/-- Only calls of handles and barriers write into the trace. -/
theorem intrinsic {host : Host σ} {re : Reentry σ} {run : Runner σ} {op : Intrinsic}
    (hsilent : (Function.intrinsic op : Function Form).isSilent = true)
    (hbarrier : op ≠ .ensureInitialized) (args : List Value) :
    Untraced (intrinsic host re run op args) := by
  cases op with
  | invokeBasic callee => cases hsilent
  | ensureInitialized => exact absurd rfl hbarrier
  | boundField species index => exact bind (act _) fun v => boundField species index v
  | checkSpreadLength | arrayLoad element =>
    exact bind (act _) fun _ => bind (act _) fun _ => bind (act _) fun _ => act _
  | zero type => exact pure _
  | identity type => exact act _
  | checkExactType =>
    refine bind (act _) fun _ => bind (act _) fun h => bind (act _) fun _ => bind (act _) fun type => ?_
    split
    · exact fail _
    · exact pure _
  | checkGenericType =>
    exact bind (act _) fun _ => bind (act _) fun _ => bind (act _) fun _ => bind (act _) fun _ =>
      bind (act _) fun _ => pure _
  | internalMemberName | constructorMember =>
    exact bind (act _) fun v => bind (directMember v) fun _ => pure _
  | allocateInstance =>
    exact bind (act _) fun v => bind (directMember v) fun _ => callHost _ _ _ _ _
  | linkTo kind type =>
    unfold Exec.intrinsic
    dsimp only
    split
    · exact act _
    · exact bind (act _) fun _ => callHost _ _ _ _ _

end Untraced

/-! ## What a computation writes -/

/-- What a computation that came to `r` wrote into the trace `t`: `P` of what it returned and of the
lines, or, when an error stopped it, `C` of the forms that it left open, the expressions that it left
waiting and the lines. -/
def Wrote (t : Trace) (r : Except (Stop RuntimeError) α × Execution σ) (P : α → List String → Prop)
    (C : Nat → List String → List String → Prop) : Prop :=
  match r.1 with
  | .ok a => ∃ ls, r.2.trace = some (t.extend 0 [] ls) ∧ P a ls
  | .error (.error _) => ∃ opened stuck ls,
      r.2.trace = some (t.extend opened stuck ls) ∧ C opened stuck ls
  | .error (.violation _) => True

/-- What a computation writes into a trace with so many open forms. -/
def Writes (v : Verbosity) (depth : Nat) (x : Exec σ α) (P : α → List String → Prop)
    (C : Nat → List String → List String → Prop) : Prop :=
  ∀ (e : Execution σ) (t : Trace), e.trace = some t → t.verbosity = v → t.depth = depth → t.Settled →
    Wrote t (x e) P C

namespace Writes

variable {v : Verbosity} {depth : Nat} {x : Exec σ α} {k : α → Exec σ β}
  {P P' : α → List String → Prop} {Q : β → List String → Prop}
  {C C' : Nat → List String → List String → Prop}

theorem imp (hx : Writes v depth x P C) (hP : ∀ a ls, P a ls → P' a ls)
    (hC : ∀ n ws ls, C n ws ls → C' n ws ls) : Writes v depth x P' C' := by
  intro e t ht hv hd hs
  have hx := hx e t ht hv hd hs
  revert hx
  rcases x e with ⟨(err | violation) | a, s⟩
  · rintro ⟨n, ws, ls, htrace, h⟩
    exact ⟨n, ws, ls, htrace, hC n ws ls h⟩
  · exact id
  · rintro ⟨ls, htrace, h⟩
    exact ⟨ls, htrace, hP a ls h⟩

theorem of_untraced (hx : Untraced x) (hP : ∀ a, P a []) (hC : C 0 [] []) : Writes v depth x P C := by
  intro e t ht hv hd hs
  have htrace : (x e).2.trace = some (t.extend 0 [] []) := (hx e).trans ht
  revert htrace
  rcases x e with ⟨(err | violation) | a, s⟩ <;> intro htrace
  · exact ⟨0, [], [], htrace, hC⟩
  · trivial
  · exact ⟨[], htrace, hP a⟩

theorem pure (a : α) (hP : P a []) : Writes v depth (Pure.pure a : Exec σ α) P C :=
  fun _ _ ht _ _ _ => ⟨[], ht, hP⟩

theorem fail (err : RuntimeError) (hC : C 0 [] []) :
    Writes v depth (Exec.fail err : Exec σ α) P C :=
  fun _ _ ht _ _ _ => ⟨0, [], [], ht, hC⟩

/-- The lines of what comes first come first. -/
theorem bind (hx : Writes v depth x P C)
    (hk : ∀ a ls, P a ls → Writes v depth (k a) (fun b ls' => Q b (ls ++ ls'))
      fun n ws ls' => C n ws (ls ++ ls')) : Writes v depth (x >>= k) Q C := by
  intro e t ht hv hd hs
  have hx := hx e t ht hv hd hs
  rw [bind_apply]
  revert hx
  rcases x e with ⟨(err | violation) | a, s⟩
  · exact id
  · exact id
  rintro ⟨ls, htrace, hP⟩
  have hk := hk a ls hP s (t.extend 0 [] ls) htrace hv hd (hs.extend fun _ => rfl)
  dsimp only
  revert hk
  rcases k a s with ⟨(err | violation) | b, s'⟩
  · rintro ⟨n, ws, ls', htrace', h⟩
    refine ⟨n, ws, ls ++ ls', ?_, h⟩
    rw [htrace', extend_extend, List.append_nil, Nat.zero_add]
  · exact id
  · rintro ⟨ls', htrace', h⟩
    exact ⟨ls ++ ls', by rw [htrace', extend_extend]; rfl, h⟩

/-- What comes first writes nothing. -/
theorem untraced_bind (hx : Untraced x) (hC : C 0 [] []) (hk : ∀ a, Writes v depth (k a) Q C) :
    Writes v depth (x >>= k) Q C :=
  bind (P := fun _ ls => ls = []) (of_untraced hx (fun _ => rfl) hC) fun a ls hls => by
    subst hls
    exact hk a

theorem withFrame (F : Frame) (hx : Writes v depth x P C) : Writes v depth (withFrame F x) P C :=
  fun e t ht hv hd hs => hx { e with world := e.world.withFrames (F :: e.world.frames) } t ht hv hd hs

/-- A computation as the value of an expression. -/
theorem shown {x : Exec σ Value} {P : Value → List String → Prop} (hx : Writes v depth x P C)
    (f : Form) (index : Nat) (e : Expr Form) :
    Writes v depth (do
      tracing fun t => t.expression f index e
      let value ← x
      tracing fun t => t.value value
      return value)
      (fun value ls => ∃ ls', P value ls' ∧ ls = ls' ++ valueLines v depth f index e value)
      (fun n ws ls => ∃ ws', C n ws' ls ∧ ws = ws' ++ waiting v f index e) := by
  intro s t ht hv hd hs
  let started : Execution σ := { s with trace := s.trace.map fun t => t.expression f index e }
  have htrace : started.trace = some (t.extend 0 (waiting v f index e) []) := by
    show s.trace.map _ = _
    rw [ht, Option.map_some, expression_eq, hv]
  have hx := hx started _ htrace hv hd (hs.extend fun hv' => waiting_eq_nil (hv.symm.trans hv') f index e)
  show Wrote t ((x >>= fun value => do
    tracing fun t => t.value value
    return value : Exec σ Value) started) _ _
  rw [bind_apply]
  revert hx
  rcases x started with ⟨(err | violation) | value, s'⟩
  · rintro ⟨n, ws, ls, htrace', h⟩
    refine ⟨n, ws ++ waiting v f index e, ls, ?_, ws, h, rfl⟩
    rw [htrace', extend_extend, Nat.zero_add]
    rfl
  · exact id
  · rintro ⟨ls, htrace', h⟩
    refine ⟨ls ++ valueLines v depth f index e value, ?_, ls, h, rfl⟩
    -- What ran in between took off as much as it put on, so this expression is the first again.
    show s'.trace.map _ = _
    rw [htrace', Option.map_some, extend_extend, ← hv, ← hd]
    exact congrArg some (value_extend hs f index e value)

/-- A computation as the run of a form, between the line at entry and the line at exit. -/
theorem entered {x : Exec σ Value} {P : Value → List String → Prop} (f : Form) (args : List Value)
    (hx : Writes v (depth + 1) x P C) :
    Writes v depth (do
      traceEnter f args
      let result ← x
      tracing fun t => t.exit f result
      return result)
      (fun result ls => ∃ type ls', f.signature = .ok type ∧ P result ls' ∧
        ls = enterLines v depth f type args ++ ls' ++ [exitLine depth f result])
      (fun n ws ls => ∃ type n' ls', f.signature = .ok type ∧ C n' ws ls' ∧ n = n' + 1 ∧
        ls = enterLines v depth f type args ++ ls') := by
  intro e t ht hv hd hs
  rw [bind_apply, traceEnter_apply, ht]
  dsimp only
  rw [enter_eq, hv, hd]
  cases htype : f.signature with
  | error violation =>
    -- The line at entry shows a type that the form does not have, which no caller survives.
    trivial
  | ok type =>
  let entered : Execution σ :=
    { e with trace := some (t.extend 1 [] (enterLines v depth f type args)) }
  have hx := hx entered _ rfl hv (congrArg (· + 1) hd) (hs.extend fun _ => rfl)
  show Wrote t ((x >>= fun result => do
    tracing fun t => t.exit f result
    return result : Exec σ Value) entered) _ _
  rw [bind_apply]
  revert hx
  rcases x entered with ⟨(err | violation) | result, s⟩
  · rintro ⟨n, ws, ls, htrace, h⟩
    refine ⟨n + 1, ws, enterLines v depth f type args ++ ls, ?_, type, n, ls, rfl, h, rfl, rfl⟩
    rw [htrace, extend_extend, List.append_nil, Nat.add_comm]
  · exact id
  · rintro ⟨ls, htrace, h⟩
    refine ⟨enterLines v depth f type args ++ ls ++ [exitLine depth f result], ?_,
      type, ls, rfl, h, rfl⟩
    show s.trace.map _ = _
    rw [htrace, Option.map_some, extend_extend, ← hd]
    exact congrArg some (exit_extend f result)

end Writes

/-! ## Calls -/

section Calls

variable {host : Host σ} {re : Reentry σ} {run : Runner σ} {v : Verbosity} {depth : Nat}

/-- A barrier that is dropped has a line. -/
theorem writes_traceSwap (swap : Option (Form × Form)) {C : Nat → List String → List String → Prop} :
    Writes v depth (traceSwap swap : Exec σ Unit)
      (fun _ ls => ls = (swap.map fun (old, new) => swapLine depth old new).toList) C := by
  intro e t ht hv hd hs
  cases swap with
  | none => exact ⟨[], ht, rfl⟩
  | some swap =>
    refine ⟨[swapLine depth swap.1 swap.2], ?_, rfl⟩
    show e.trace.map (fun t => t.swap swap.1 swap.2) = _
    rw [ht, ← hd]
    rfl

theorem writes_passBarrier (value : Value) (args : List Value) :
    Writes v depth (passBarrier host re value)
      (CallLines v depth (.intrinsic .ensureInitialized) args)
      (CutCall v depth (.intrinsic .ensureInitialized) args) := by
  cases hvalue : value.asHandle with
  | error err =>
    rw [passBarrier_error hvalue]
    exact .fail err .failed
  | ok h =>
  cases hm : h.member? with
  | none =>
    rw [passBarrier_plain hvalue hm]
    exact .untraced_bind (x := get) (fun _ => rfl) .failed fun _ => .fail _ .failed
  | some p =>
  obtain ⟨id, m⟩ := p
  rw [passBarrier_member hvalue hm]
  refine .untraced_bind (.act _) .failed fun status => ?_
  cases status with
  | reentrant => exact Writes.pure Value.void (.silent rfl)
  | done =>
    refine .untraced_bind (.act _) .failed fun swap => ?_
    refine .bind (writes_traceSwap swap (C := CutCall v depth _ args)) fun _ ls hls => ?_
    subst hls
    refine Writes.pure Value.void ?_
    cases swap with
    | none => exact .silent rfl
    | some swap => exact .swap swap.1 swap.2

variable (hrun : ∀ form args, Writes v depth (run form args) (RunLines v depth form args)
  (CutRun v depth form args))
include hrun

theorem writes_invokeBasic (callee : Signature) (args : List Value) :
    Writes v depth (invokeBasic run callee args)
      (CallLines v depth (.intrinsic (.invokeBasic callee)) args)
      (CutCall v depth (.intrinsic (.invokeBasic callee)) args) := by
  cases args with
  | nil => exact fun e t _ _ _ _ => trivial
  | cons a args =>
  cases ha : a.asHandle with
  | error err =>
    have hfail : invokeBasic run callee (a :: args) = Exec.fail err := by
      show (act (Act.ofError a.asHandle) >>= fun h => _ : Exec σ Value) = _
      rw [ha]
      rfl
    rw [hfail]
    exact .fail err .failed
  | ok h =>
  obtain rfl : a = .handle h := by
    cases a <;> first | (obtain rfl := Except.ok.inj ha; rfl) | cases ha
  have hinvoke : Writes v depth (invokeHandle run h args)
      (CallLines v depth (.intrinsic (.invokeBasic callee)) (.handle h :: args))
      (CutCall v depth (.intrinsic (.invokeBasic callee)) (.handle h :: args)) := by
    refine .untraced_bind (x := get) (fun _ => rfl) .failed fun e => ?_
    exact .withFrame _ ((hrun _ _).imp (fun _ _ => .handle) fun _ _ _ => .handle)
  show Writes v depth (if h.type.basic ≠ callee then
    Exec.fail (.wrongType callee h.type) >>= fun _ => invokeHandle run h args
    else invokeHandle run h args) _ _
  split
  · exact .fail _ .failed
  · exact hinvoke

theorem writes_apply (f : Function Form) (args : List Value) :
    Writes v depth (apply host re run f args) (CallLines v depth f args)
      (CutCall v depth f args) := by
  have hsilent (hsilent : f.isSilent = true) {x : Exec σ Value} (hx : Untraced x) :
      Writes v depth x (CallLines v depth f args) (CutCall v depth f args) :=
    .of_untraced hx (fun _ => .silent hsilent) .failed
  match f with
  | .external name type => exact hsilent rfl (.callHost host re _ args _)
  | .form callee => exact (hrun callee args).imp (fun _ _ => .form) fun _ _ _ => .form
  | .intrinsic op =>
    by_cases hcall : ∃ callee, op = .invokeBasic callee
    · obtain ⟨callee, rfl⟩ := hcall
      exact writes_invokeBasic hrun callee args
    by_cases hbarrier : op = .ensureInitialized
    · subst hbarrier
      exact .untraced_bind (.act _) .failed fun value => writes_passBarrier value args
    · have hop : (Function.intrinsic op : Function Form).isSilent = true := by
        cases op <;> first | rfl | exact absurd ⟨_, rfl⟩ hcall
      exact hsilent hop (.intrinsic hop hbarrier args)

end Calls

/-! ## Forms -/

section Forms

variable {host : Host σ} {re : Reentry σ} {run : Runner σ} {v : Verbosity} {depth : Nat}

/-- An expression is written down when its value is known, behind what it ran. -/
theorem writes_nameStep (hrun : ∀ form args, Writes v depth (run form args)
    (RunLines v depth form args) (CutRun v depth form args)) (form : Form) (n : Name Form)
    (values : List Value) :
    Writes v depth (nameStep (apply host re run) form n values)
      (StepLines v depth form n values) (CutStep v depth form n values) := by
  refine .untraced_bind .consumeFuel .starved fun _ => ?_
  cases hexpr : n.expr with
  | none => exact fun _ _ _ _ _ _ => trivial
  | some e =>
  have hcall : Writes v depth (do
      let args ← act (Act.ofViolation (e.args.mapM (operand values)))
      withFrame ⟨[form], values⟩ (apply host re run e.function args))
      (fun value ls => ∃ args, e.args.mapM (operand values) = .ok args ∧
        CallLines v depth e.function args value ls)
      (fun n ws ls => ∃ args, e.args.mapM (operand values) = .ok args ∧
        CutCall v depth e.function args n ws ls) := by
    cases hargs : e.args.mapM (operand values) with
    | error violation => exact fun _ _ _ _ _ _ => trivial
    | ok args =>
      refine .withFrame _ ((writes_apply hrun e.function args).imp ?_ ?_)
      · exact fun value ls h => ⟨args, rfl, h⟩
      · exact fun n ws ls h => ⟨args, rfl, h⟩
  have hshown := hcall.shown form values.length e
  simp only [bind_assoc] at hshown
  refine hshown.imp ?_ ?_
  · rintro value ls ⟨ls', ⟨args, hargs, hlines⟩, rfl⟩
    exact .mk hexpr hargs hlines
  · rintro n ws ls ⟨ws', ⟨args, hargs, hlines⟩, rfl⟩
    exact .started hexpr hargs hlines

theorem writes_loop (hrun : ∀ form args, Writes v depth (run form args)
    (RunLines v depth form args) (CutRun v depth form args)) (form : Form) (ns : List (Name Form))
    (values : List Value) :
    Writes v depth (loop (nameStep (apply host re run) form) ns values)
      (BodyLines v depth form ns values) (CutBody v depth form ns values) := by
  induction ns generalizing values with
  | nil => exact .pure values .nil
  | cons n ns ih =>
    rw [loop_cons]
    refine .bind ((writes_nameStep hrun form n values).imp (fun _ _ h => h) fun _ _ _ => .first)
      fun value ls hstep => (ih (values ++ [value])).imp ?_ ?_
    · exact fun last ls' hrest => .cons hstep hrest
    · exact fun n ws ls' hrest => .later hstep hrest

/-- Reading the result of a form answers the result, unless a precondition is broken. -/
theorem writes_resultOf {C : Nat → List String → List String → Prop} (form : Form)
    (values : List Value) :
    Writes v depth (resultOf form values : Exec σ Value)
      (fun result ls => form.resultValue? values = some result ∧ ls = []) C := by
  intro e t ht _ _ _
  unfold resultOf Form.resultValue?
  cases form.result with
  | none => exact ⟨[], ht, rfl, rfl⟩
  | some r =>
  show Wrote t (act (Act.ofViolation (valueAt values r)) e) _ _
  unfold valueAt
  cases hvalue : values[r]? with
  | none => trivial
  | some value => exact ⟨[], ht, hvalue, rfl⟩

variable (host re) in
/-- What a form does once it is entered. -/
theorem writes_body (hrun : ∀ form args, Writes v depth (run form args)
    (RunLines v depth form args) (CutRun v depth form args)) (form : Form) (args : List Value) :
    Writes v depth (do
      let values ← loop (nameStep (apply host re run) form) (form.names.drop form.arity) args
      resultOf form values)
      (fun result ls => ∃ values, BodyLines v depth form (form.names.drop form.arity) args values ls ∧
        form.resultValue? values = some result)
      (CutBody v depth form (form.names.drop form.arity) args) := by
  refine .bind ((writes_loop hrun form _ args).imp (fun _ _ h => h) fun _ _ _ h => h) ?_
  intro values ls hbody
  refine (writes_resultOf form values (C := fun _ _ _ => False)).imp ?_ fun _ _ _ h => h.elim
  rintro result _ ⟨hresult, rfl⟩
  exact ⟨values, (List.append_nil ls).symm ▸ hbody, hresult⟩

end Forms

/-- A run writes the lines of a run that returned, or of one that was cut short. -/
theorem writes_runForm (host : Host σ) (re : Reentry σ) (limit : Nat) (v : Verbosity) (depth : Nat)
    (form : Form) (args : List Value) :
    Writes v depth (runForm host re limit form args) (RunLines v depth form args)
      (CutRun v depth form args) := by
  -- The forms that this one calls are one level deeper in the trace and have one level less to go.
  induction limit generalizing depth form args with
  | zero =>
    by_cases hlength : args.length = form.arity
    · rw [runForm_zero host re hlength]
      exact .fail _ .refused
    · rw [runForm_of_length_ne host re hlength]
      exact .fail _ .refused
  | succ limit ih =>
    by_cases hlength : args.length = form.arity
    · have hentered := (writes_body host re (ih (depth + 1)) form args).entered form args
      simp only [bind_assoc] at hentered
      rw [runForm_succ_eq host re limit hlength]
      refine hentered.imp ?_ ?_
      · rintro result ls ⟨type, ls', htype, ⟨values, hbody, hresult⟩, rfl⟩
        exact .mk htype hbody hresult
      · rintro n ws ls ⟨type, n', ls', htype, hbody, rfl, rfl⟩
        exact .entered htype hbody
    · rw [runForm_of_length_ne host re hlength]
      exact .fail _ .refused

/-- So does an invocation, with the form that the handle has when it begins. -/
theorem wrote_invocation (host : Host σ) (re : Reentry σ) (limit : Nat) (h : Handle)
    (args : List Value) (e : Execution σ) {t : Trace} (ht : e.trace = some t) (hs : t.Settled) :
    let form := e.world.currentForm h
    Wrote t (invocation (runForm host re limit) h args .basic e)
      (RunLines t.verbosity t.depth form (.handle h :: args))
      (CutRun t.verbosity t.depth form (.handle h :: args)) := by
  intro form
  rw [invocation, bind_apply]
  cases hcheck : Act.checkArguments h.type args with
  | error err =>
    -- The arguments are looked at before the form is entered.
    exact ⟨0, [], [], ht, .refused⟩
  | ok =>
    exact (writes_runForm host re limit t.verbosity t.depth form (.handle h :: args)).withFrame
      ⟨[form], []⟩ e t ht rfl rfl hs

end Exec

/-! ## Invocations that go on with a trace -/

/-- What an invocation does to a trace. -/
theorem Act.invokeTracing_wrote (host : Host σ) (re : Reentry σ) {t t' : Trace} (hs : t.Settled)
    (h : Handle) (args : List Value) (w : World σ) {answer : Except RuntimeError Value}
    (hrun : (invokeTracing host re t h args w).1 = .ok (answer, t')) :
    match answer with
    | .ok result => ∃ ls, t' = t.extend 0 [] ls ∧
        RunLines t.verbosity t.depth (w.currentForm h) (.handle h :: args) result ls
    | .error _ => ∃ opened stuck ls, t' = t.extend opened stuck ls ∧
        CutRun t.verbosity t.depth (w.currentForm h) (.handle h :: args) opened stuck ls := by
  have hwrote := Exec.wrote_invocation host re w.limits.depth h args
    ⟨w, w.limits.fuel, some t⟩ rfl hs
  rw [invokeTracing_apply] at hrun
  revert hrun hwrote
  dsimp only
  unfold Exec.Wrote
  generalize Exec.invocation (Exec.runForm host re w.limits.depth) h args .basic
    ⟨w, w.limits.fuel, some t⟩ = r
  rcases r with ⟨(err | violation) | result, e⟩
  · rintro hrun ⟨opened, stuck, ls, htrace, hcut⟩
    cases hrun
    exact ⟨opened, stuck, ls, by rw [htrace]; rfl, hcut⟩
  · intro hrun
    cases hrun
  · rintro hrun ⟨ls, htrace, hlines⟩
    cases hrun
    exact ⟨ls, by rw [htrace]; rfl, hlines⟩

namespace Trace

variable {host : Host σ} {re : Reentry σ} {v : Verbosity} {t t' : Trace}
  {answers : List (Except RuntimeError Value)}

/-- Traces that invocations kept, one going on where the one before it stopped, with what they
answered, the latest first. Between them anything may happen to the world. -/
inductive Kept (host : Host σ) (re : Reentry σ) (v : Verbosity) :
    List (Except RuntimeError Value) → Trace → Prop
  | empty : Kept host re v [] (empty v)
  | invoke {t t' : Trace} {answers : List (Except RuntimeError Value)}
      {answer : Except RuntimeError Value} {h : Handle} {args : List Value} {w : World σ}
      (ht : Kept host re v answers t)
      (hrun : (Act.invokeTracing host re t h args w).1 = .ok (answer, t')) :
      Kept host re v (answer :: answers) t'

theorem Kept.settled (ht : Kept host re v answers t) : t.verbosity = v ∧ t.Settled := by
  induction ht with
  | empty => exact ⟨rfl, settled_empty v⟩
  | @invoke t t' answers answer h args w ht hrun ih =>
    obtain ⟨hv, hs⟩ := ih
    have hwrote := Act.invokeTracing_wrote host re hs h args w hrun
    cases answer with
    | ok result =>
      obtain ⟨ls, rfl, -⟩ := hwrote
      exact ⟨hv, hs.extend fun _ => rfl⟩
    | error err =>
      obtain ⟨opened, stuck, ls, rfl, hcut⟩ := hwrote
      exact ⟨hv, hs.extend hcut.length_stuck.1⟩

/-- As long as all invocations return, no form stays open and no expression goes on waiting. -/
theorem Kept.closed (ht : Kept host re v answers t) (hok : ∀ a ∈ answers, ∃ result, a = .ok result) :
    t.depth = 0 ∧ t.pending = [] := by
  induction ht with
  | empty => exact ⟨rfl, rfl⟩
  | @invoke t t' answers answer h args w ht hrun ih =>
    obtain ⟨result, rfl⟩ := hok answer List.mem_cons_self
    obtain ⟨ls, rfl, -⟩ := Act.invokeTracing_wrote host re ht.settled.2 h args w hrun
    exact ih fun a ha => hok a (List.mem_cons_of_mem _ ha)

/-- A run that returns adds the lines of its forms, entered and left at the same indentation, and
leaves the trace as deep as it found it, with the same expressions waiting. A run that an error cuts
short leaves every form open that it entered and did not finish, and the expression waiting that each
of them was evaluating; the lines of what is invoked next are indented by the forms that are open. -/
theorem Kept.lines_invoke (ht : Kept host re v answers t) (h : Handle) (args : List Value)
    (w : World σ) {answer : Except RuntimeError Value}
    (hrun : (Act.invokeTracing host re t h args w).1 = .ok (answer, t')) :
    let form := w.currentForm h
    (∀ result, answer = .ok result → t'.depth = t.depth ∧ t'.pending = t.pending ∧
      ∃ ls, t'.lines = t.lines ++ ls ∧ RunLines v t.depth form (.handle h :: args) result ls) ∧
    (∀ err, answer = .error err → ∃ opened stuck ls, t'.depth = t.depth + opened ∧
      t'.pending = stuck ++ t.pending ∧ t'.lines = t.lines ++ ls ∧
      CutRun v t.depth form (.handle h :: args) opened stuck ls ∧ (opened = 0 ↔ ls = [])) ∧
    ((∀ a ∈ answers, ∃ result, a = .ok result) → t.depth = 0 ∧ t.pending = []) := by
  intro form
  obtain ⟨hv, hs⟩ := ht.settled
  have hwrote := Act.invokeTracing_wrote host re hs h args w hrun
  rw [hv] at hwrote
  refine ⟨?_, ?_, ht.closed⟩
  · rintro result rfl
    obtain ⟨ls, rfl, hlines⟩ := hwrote
    exact ⟨rfl, rfl, ls, lines_extend, hlines⟩
  · rintro err rfl
    obtain ⟨opened, stuck, ls, rfl, hcut⟩ := hwrote
    exact ⟨opened, stuck, ls, rfl, rfl, lines_extend, hcut, hcut.opened_eq_zero_iff⟩

/-- A handle that calls a primitive that its host does not have. -/
def stray : Handle :=
  let type : Signature := ⟨[.int], .int, by decide, by decide⟩
  ⟨1, type, ⟨1, 2, [.param .ref, .param .int, .apply (.external "missing" type.basic) [.name 1]],
    some 2, .external⟩, .simple⟩

/-- A call of a primitive that does not exist leaves its form open and its expression waiting, and
what is invoked next is written one level deeper. -/
theorem Kept.lines_invoke_stray :
    let invoke (t : Trace) (h : Handle) (args : List Value) :=
      (Act.invokeTracing adderHost (adderHost.reenter 1) t h args (adderWorld [])).1
    ∃ t t', (invoke (.empty .verbose) stray [.int 3] =
        .ok (.error (.unknownPrimitive "missing"), t) ∧ t.depth = 1 ∧ t.pending.length = 1 ∧
        CutRun .verbose 0 stray.form [.handle stray, .int 3] 1 t.pending t.lines) ∧
      invoke t adder [.int 1, .int 2] = .ok (.ok (.int 3), t') ∧ t'.depth = 1 ∧
      t'.pending = t.pending ∧
      ∃ ls, t'.lines = t.lines ++ ls ∧
        RunLines .verbose 1 adder.form [.handle adder, .int 1, .int 2] (.int 3) ls := by
  intro invoke
  obtain ⟨t, hstray, hdepth, hpending⟩ : ∃ t, invoke (.empty .verbose) stray [.int 3] =
      .ok (.error (.unknownPrimitive "missing"), t) ∧ t.depth = 1 ∧ t.pending.length = 1 :=
    ⟨_, rfl, rfl, rfl⟩
  obtain ⟨t', hadder⟩ : ∃ t', invoke t adder [.int 1, .int 2] = .ok (.ok (.int 3), t') := ⟨_, rfl⟩
  have hempty : Kept adderHost (adderHost.reenter 1) .verbose [] (.empty .verbose) := .empty
  obtain ⟨-, hcut, -⟩ := hempty.lines_invoke stray [.int 3] (adderWorld []) hstray
  obtain ⟨opened, stuck, ls, hopened, hstuck, hlines, hrun, -⟩ := hcut _ rfl
  obtain ⟨hreturned, -, -⟩ := (hempty.invoke hstray).lines_invoke adder [.int 1, .int 2]
    (adderWorld []) hadder
  obtain ⟨hdepth', hpending', ls', hlines', hrun'⟩ := hreturned _ rfl
  obtain rfl : opened = 1 := by
    have hopened : t.depth = 0 + opened := hopened
    omega
  rw [hdepth] at hdepth' hrun'
  refine ⟨t, t', ⟨hstray, hdepth, hpending, ?_⟩, hadder, hdepth', hpending', ls', hlines', hrun'⟩
  rw [hstuck, hlines]
  show CutRun _ _ _ _ _ (stuck ++ []) ([] ++ ls)
  rw [List.append_nil, List.nil_append]
  exact hrun

end Trace

end HandleForms
