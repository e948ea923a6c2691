import HandleForms.Proofs.Run.Faults
import HandleForms.Proofs.Run.Invocation

/-!
# The representation of handles

The type of a handle and its form are made along different ways, and nothing compares them when the
handle is used. They fit each other in every world (`HandleOf.Represented`), so the checks that the
interpreter makes while it runs a handle that was built without invokers never fail
(`HandleOf.Built.represented`).
-/

namespace HandleForms

variable {σ : Type}

/-- Runs the current form of a handle with the limits of the world, with faults for errors. -/
def Faults.invokeHandle (F : Faults σ) (host : Host σ) (re : Reentry σ) (trace : Option Trace)
    (h : Handle) (args : List Value) : Act σ (Except RuntimeError Value × Nat × Option Trace) := do
  Act.execute trace (Exec.invokeHandle (F.runForm host re (← get).limits.depth) h args)

/-- The invocation that reports errors is the one of the interpreter. -/
theorem Faults.invokeHandle_reported (host : Host σ) (re : Reentry σ) (trace : Option Trace)
    (h : Handle) (args : List Value) :
    reported.invokeHandle host re trace h args = Act.invokeHandle host re trace h args := by
  unfold Faults.invokeHandle
  simp only [Faults.runForm_reported]
  rfl

namespace HandleOf

/-- The form fits the type and the values of the handle. -/
structure Represented (h : Handle) (f : Form) : Prop where
  /-- The form takes the handle and the arguments. -/
  params : f.params = .ref :: h.type.basicParams
  ret : f.ret = h.type.basicRet
  /-- The form of a carrier is constrained to the species of the carrier. -/
  species : ∀ s values, h.data = .bound s values → (f.species? 0).map Species.fields = some s.fields
  /-- A carrier holds one value for each field. -/
  values : ∀ s values, h.data = .bound s values → values.map Value.basicType = s.fields
  /-- The form of a carrier does nothing to it but read its fields. -/
  reads : ∀ s values, h.data = .bound s values → ∀ n ∈ f.names, 0 ∈ n.operands →
    ∃ i < s.fields.length, n.ReadsField s.fields i

variable {host : Host σ} {h : Handle} {f : Form}

theorem Fits.represents (hh : h.Fits f) : h.Represented f where
  params := hh.serves.params
  ret := hh.serves.ret
  species s values hdata := (hh.bound s values hdata).1.species
  values s values hdata := (hh.bound s values hdata).2
  reads s values hdata := (hh.bound s values hdata).1.reads

/-- A handle fits its form in every world, and one that was built without invokers runs over
arguments that fit without a failing check. -/
theorem Built.represented {w : World σ} (hw : w.Reachable host) (hh : h.Built host fun _ => True) :
    h.Represented (w.currentForm h) ∧
      (h.Built host HandleOp.MakesNoInvoker →
        ∀ (F : Faults σ) (levels : Nat) (trace : Option Trace) (args : List Value),
          Act.checkArguments h.type args = .ok () →
            F.invokeHandle host (host.reenter levels) trace h args w =
              Act.invokeHandle host (host.reenter levels) trace h args w) := by
  refine ⟨(hw.sound.fits_currentForm hh.proper).represents,
    fun hplain F levels trace args hcheck => ?_⟩
  have hlen : args.length = h.type.arity := by
    simpa using congrArg List.length (Act.checkArguments_eq_ok_iff.1 hcheck)
  have hagree := hplain.agree_invokeHandle (host.stays_reenter levels) F w.limits.depth hlen
    ⟨w, w.limits.fuel, trace⟩ hw
  show Act.execute trace (Exec.invokeHandle (F.runForm host (host.reenter levels) w.limits.depth) h
      args) w =
    Act.execute trace (Exec.invokeHandle (Exec.runForm host (host.reenter levels) w.limits.depth) h
      args) w
  unfold Act.execute
  rw [hagree]

/-- Seven is held by what adds to it, and is read without a failing check. -/
theorem Built.represented_seven :
    ∃ B, (Act.perform adderHost (.insert adder 0 [.int 7]) (adderWorld [])).1 = .ok B ∧
      B.Represented ((adderWorld []).currentForm B) ∧ ∀ F : Faults TableState,
        F.invokeHandle adderHost (adderHost.reenter 0) none B [.int 1] (adderWorld []) =
          Act.invokeHandle adderHost (adderHost.reenter 0) none B [.int 1] (adderWorld []) := by
  have hchecks : ∃ B ∈ (Act.perform adderHost (.insert adder 0 [.int 7]) (adderWorld [])).1.toOption,
      Act.checkArguments B.type [.int 1] = .ok () := by
    decide +kernel
  obtain ⟨B, hB, hcheck⟩ := hchecks
  have hB := mem_toOption.1 hB
  have hadder : adder.Built adderHost HandleOp.MakesNoInvoker := built_adder_of trivial
  have hbuilt : B.Built adderHost HandleOp.MakesNoInvoker :=
    .made (reachable_adderWorld []) (show (HandleOp.insert adder 0 [.int 7]).MakesNoInvoker from trivial)
      (List.forall_mem_singleton.2 hadder) hB
  obtain ⟨hrepresented, hruns⟩ :=
    Built.represented (reachable_adderWorld []) (hbuilt.mono fun _ _ => trivial)
  exact ⟨B, hB, hrepresented, fun F => hruns hbuilt F 0 none [.int 1] hcheck⟩

end HandleOf

end HandleForms
