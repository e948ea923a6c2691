import HandleForms.Proofs.Handle.Built
import HandleForms.Proofs.Run.Limits
import HandleForms.Proofs.World.Tables

/-!
# Invocations with greater limits

An invocation that hits no limit does the same under all greater limits and uses as much fuel as it
starts expressions; one that does hit a limit has called the host as the invocation with greater
limits does first. Host code may make handles and pass class barriers meanwhile, but it may not
invoke handles, whose invocations would have limits of their own.
-/

namespace HandleForms

variable {σ α : Type}

/-- An outcome that is answered together with a trace. A broken precondition still stops. -/
def Outcome.traced (o : Outcome α) (t : Trace) : Outcome (Except RuntimeError α × Trace) :=
  match o with
  | .ok a => .ok (.ok a, t)
  | .error (.error e) => .ok (.error e, t)
  | .error (.violation v) => .error (.violation v)

namespace Act

/-- How much fuel an invocation uses. -/
def fuelUsed (host : Host σ) (re : Reentry σ) (h : Handle) (site : CallSite) (args : List Value)
    (w : World σ) : Nat :=
  w.limits.fuel -
    (Exec.invocation (Exec.runForm host re w.limits.depth) h args site ⟨w, w.limits.fuel, none⟩).2.fuel

/-- How many expressions an invocation starts. -/
def expressionsStarted (host : Host σ) (re : Reentry σ) (h : Handle) (site : CallSite)
    (args : List Value) (w : World σ) : Nat :=
  (Exec.invocation (Exec.countedForm host re w.limits.depth) h args site ⟨w, 0, none⟩).2.fuel

/-- Without invocations, what host code may ask for goes the same under all limits. -/
theorem limitless_withoutInvoke {host : Host σ} (hhost : host.NeverInvokes) (levels : Nat) :
    (host.reenter levels).withoutInvoke.Limitless :=
  ⟨fun _ _ _ => Limitless.making.throw _, hhost.limitless_reenter levels⟩

/-- Invocations with a greater depth go on where the others are cut short. -/
theorem cuts_invocation {host : Host σ} (hhost : host.NeverInvokes) (levels : Nat)
    {depth depth' : Nat} (hle : depth ≤ depth') (h : Handle) (args : List Value) (site : CallSite) :
    Exec.Cuts (Exec.invocation (Exec.runForm host (host.reenter levels) depth) h args site)
      (Exec.invocation (Exec.runForm host (host.reenter levels) depth') h args site) := by
  have hre := limitless_withoutInvoke hhost levels
  rw [Exec.runForm_withoutInvoke hhost _ depth, Exec.runForm_withoutInvoke hhost _ depth']
  exact Exec.Steps.invocation (Limitless.serves host hre) Exec.Cuts.congruence.toSteps
    Limitless.making.invokerForm (Exec.cuts_runForm host hre hle) h args site

/-- An invocation that settles uses as much fuel as it starts expressions. -/
theorem counts_invocation (host : Host σ) (re : Reentry σ) (depth : Nat) (h : Handle)
    (args : List Value) (site : CallSite) :
    Exec.Counts (Exec.invocation (Exec.runForm host re depth) h args site)
      (Exec.invocation (Exec.countedForm host re depth) h args site) :=
  Exec.Steps.invocation (Act.Serves.trivial host re) Exec.Counts.steps (fun _ _ => trivial)
    (Exec.counts_runForm host re depth) h args site

/-- Greater limits change nothing of an execution but what is left, unless a limit is hit. The calls
that the host has received are in any case the first of those with greater limits. -/
theorem invocation_of_greater_limits {host : Host σ} (hhost : host.NeverInvokes) (levels : Nat)
    (h : Handle) (site : CallSite) (args : List Value) (w : World σ) (trace : Option Trace)
    (l l' : ExecLimits) (hfuel : l.fuel ≤ l'.fuel) (hdepth : l.depth ≤ l'.depth) :
    let run (l : ExecLimits) := Exec.invocation (Exec.runForm host (host.reenter levels) l.depth) h
      args site ⟨w.withLimits l, l.fuel, trace⟩
    (¬ Outcome.Limited (run l).1 → run l' = ((run l).1, (run l).2.more l' (l'.fuel - l.fuel))) ∧
    (run l).2.world.journal <:+ (run l').2.world.journal := by
  intro run
  have hcuts := cuts_invocation hhost levels hdepth h args site
  have hmore : Execution.more ⟨w.withLimits l, l.fuel, trace⟩ l' (l'.fuel - l.fuel) =
      ⟨w.withLimits l', l'.fuel, trace⟩ := by
    show (⟨w.withLimits l', l.fuel + (l'.fuel - l.fuel), trace⟩ : Execution σ) = _
    rw [Nat.add_sub_cancel' hfuel]
  have hsame := hcuts.same ⟨w.withLimits l, l.fuel, trace⟩ l' (l'.fuel - l.fuel)
  have hcut := hcuts.cut ⟨w.withLimits l, l.fuel, trace⟩ l' (l'.fuel - l.fuel)
  rw [hmore] at hsame hcut
  refine ⟨hsame, ?_⟩
  by_cases hlimits : Outcome.Limited (run l).1
  · exact hcut hlimits
  · have hrun : run l' = _ := hsame hlimits
    rw [hrun]
    exact List.suffix_refl _

/-- Limits only cut invocations short. One that hits no limit ends the same in the same world under
all greater limits, and has used the same fuel: a unit for each expression that it starts, unless a
broken precondition stops it. One that hits a limit has called the host as the invocation with
greater limits does first; the journal lists the latest call first. -/
theorem invoke_of_greater_limits {host : Host σ} (hhost : host.NeverInvokes) (levels : Nat)
    (h : Handle) (site : CallSite) (args : List Value) (w : World σ) (l l' : ExecLimits)
    (hfuel : l.fuel ≤ l'.fuel) (hdepth : l.depth ≤ l'.depth) :
    let re := host.reenter levels
    let run (l : ExecLimits) := invoke host re h site args (w.withLimits l)
    let used (l : ExecLimits) := fuelUsed host re h site args (w.withLimits l)
    (¬ Outcome.Limited (run l).1 →
      run l' = ((run l).1, (run l).2.withLimits l') ∧ used l' = used l ∧
      ((∀ v, (run l).1 ≠ .error (.violation v)) →
        used l = expressionsStarted host re h site args (w.withLimits l))) ∧
    (run l).2.journal <:+ (run l').2.journal := by
  intro re run used
  let execution (l : ExecLimits) :=
    Exec.invocation (Exec.runForm host re l.depth) h args site ⟨w.withLimits l, l.fuel, none⟩
  have hrun (l : ExecLimits) : run l = ((execution l).1, (execution l).2.world) :=
    executes_invoke host re h args l site (w.withLimits l) rfl
  obtain ⟨hsame, hjournal⟩ :=
    invocation_of_greater_limits hhost levels h site args w none l l' hfuel hdepth
  rw [hrun l, hrun l']
  refine ⟨fun hlimits => ?_, hjournal⟩
  have hsame : execution l' = _ := hsame hlimits
  have hleft : (execution l').2.fuel = (execution l).2.fuel + (l'.fuel - l.fuel) :=
    congrArg (fun r => r.2.fuel) hsame
  refine ⟨by rw [hsame]; rfl, ?_, fun hviolation => ?_⟩
  · -- The fuel that is left differs by as much as the limits do.
    show l'.fuel - (execution l').2.fuel = l.fuel - (execution l).2.fuel
    omega
  · -- The run that counts starts from nothing, so what it has at the end is what it counted.
    have hcount := (counts_invocation host re l.depth h args site ⟨w.withLimits l, l.fuel, none⟩ 0
      ⟨hlimits, hviolation⟩).2
    have hstarted := congrArg (fun r => r.2.fuel) hcount
    exact (hstarted.trans (Nat.zero_add _)).symm

/-- Adding takes one expression: a single unit of fuel is as good as a million, and without any the
host is not called. -/
theorem invoke_adder_of_greater_limits :
    let run (l : ExecLimits) := invoke adderHost (adderHost.reenter 1) adder .basic [.int 1, .int 2]
      ((adderWorld [.handle adder]).withLimits l)
    let used (l : ExecLimits) := fuelUsed adderHost (adderHost.reenter 1) adder .basic
      [.int 1, .int 2] ((adderWorld [.handle adder]).withLimits l)
    (run ⟨1, 1⟩).1 = .ok (.int 3) ∧ used ⟨1, 1⟩ = 1 ∧
      run {} = (.ok (.int 3), (run ⟨1, 1⟩).2.withLimits {}) ∧ used {} = 1 ∧
      expressionsStarted adderHost (adderHost.reenter 1) adder .basic [.int 1, .int 2]
        ((adderWorld [.handle adder]).withLimits ⟨1, 1⟩) = 1 ∧
      (run ⟨0, 1⟩).1 = .error (.error .outOfFuel) ∧ (run ⟨0, 1⟩).2.journal <:+ (run {}).2.journal := by
  intro run used
  have hone : (run ⟨1, 1⟩).1 = .ok (.int 3) := rfl
  have hused : used ⟨1, 1⟩ = 1 := rfl
  have hhost := HostTable.neverInvokes_standard
  obtain ⟨hsame, hmore, hcount⟩ := (invoke_of_greater_limits hhost 1 adder .basic [.int 1, .int 2]
    (adderWorld [.handle adder]) ⟨1, 1⟩ {} (by decide) (by decide)).1
      (hone ▸ Outcome.not_limited_ok _)
  have hjournal := (invoke_of_greater_limits hhost 1 adder .basic [.int 1, .int 2]
    (adderWorld [.handle adder]) ⟨0, 1⟩ {} (by decide) (by decide)).2
  have hstarted := hcount fun v hv => by cases hone.symm.trans hv
  exact ⟨hone, hused, hone ▸ hsame, hmore.trans hused, hstarted.symm.trans hused, rfl, hjournal⟩

/-! ## Traces -/

/-- An invocation that goes on with a trace is an execution with a trace. -/
theorem invokeTracing_apply (host : Host σ) (re : Reentry σ) (start : Trace) (h : Handle)
    (args : List Value) (w : World σ) :
    let r := Exec.invocation (Exec.runForm host re w.limits.depth) h args .basic
      ⟨w, w.limits.fuel, some start⟩
    invokeTracing host re start h args w =
      (Outcome.traced r.1 (r.2.trace.getD start), r.2.world) := by
  intro r
  unfold invokeTracing
  have hr : r = Exec.invocation (Exec.runForm host re w.limits.depth) h args .basic
    ⟨w, w.limits.fuel, some start⟩ := rfl
  rw [Exec.invocation, Exec.bind_apply] at hr
  cases hcheck : checkArguments h.type args with
  | error e =>
    rw [hcheck] at hr
    rw [hr]
    rfl
  | ok =>
    rw [hcheck] at hr
    have hrun : r = Exec.invokeHandle (Exec.runForm host re w.limits.depth) h args
      ⟨w, w.limits.fuel, some start⟩ := hr
    show (execute (some start) (Exec.invokeHandle (Exec.runForm host re w.limits.depth) h args) >>=
      fun r => pure (r.1, r.2.2.getD start) : Act σ _) w = _
    rw [bind_apply, execute, ← hrun]
    rcases r with ⟨(_ | _) | _, e⟩ <;> rfl

/-- An invocation that keeps a trace and hits no limit does the same under all greater limits, and
its trace is the same. One that hits a limit has called the host as the other does first. -/
theorem invokeTraced_of_greater_limits {host : Host σ} (hhost : host.NeverInvokes) (levels : Nat)
    (verbosity : Verbosity) (h : Handle) (args : List Value) (w : World σ) (l l' : ExecLimits)
    (hfuel : l.fuel ≤ l'.fuel) (hdepth : l.depth ≤ l'.depth) :
    let run (l : ExecLimits) :=
      invokeTraced host (host.reenter levels) verbosity h args (w.withLimits l)
    ((∀ t, (run l).1 ≠ .ok (.error .outOfFuel, t) ∧ (run l).1 ≠ .ok (.error .recursionLimit, t)) →
      run l' = ((run l).1, (run l).2.withLimits l')) ∧
    (run l).2.journal <:+ (run l').2.journal := by
  intro run
  let execution (l : ExecLimits) := Exec.invocation (Exec.runForm host (host.reenter levels) l.depth) h
    args .basic ⟨w.withLimits l, l.fuel, some (Trace.empty verbosity)⟩
  have hrun (l : ExecLimits) : run l = (Outcome.traced (execution l).1
      ((execution l).2.trace.getD (Trace.empty verbosity)), (execution l).2.world) :=
    invokeTracing_apply host (host.reenter levels) (Trace.empty verbosity) h args (w.withLimits l)
  obtain ⟨hsame, hjournal⟩ := invocation_of_greater_limits hhost levels h .basic args w
    (some (Trace.empty verbosity)) l l' hfuel hdepth
  rw [hrun l, hrun l']
  refine ⟨fun hlimits => ?_, hjournal⟩
  have hlimited : ¬ Outcome.Limited (execution l).1 := by
    rintro (hlimited | hlimited)
    · exact (hlimits _).1 (by rw [hlimited]; rfl)
    · exact (hlimits _).2 (by rw [hlimited]; rfl)
  have hsame : execution l' = _ := hsame hlimited
  rw [hsame]
  rfl

end Act

end HandleForms
