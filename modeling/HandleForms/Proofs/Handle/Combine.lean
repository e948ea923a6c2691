import HandleForms.Proofs.Handle.Built
import HandleForms.Proofs.Run.Invocation

/-!
# Filtering, collecting and folding are composition

A filter, a collector and a combiner run before their target does, over the arguments from a position
on. `HandleOf.Combined` says what the three adapters make; invoking it is invoking the handle in
front and then, with its result in place, the target (`HandleOf.Combined.invoke_eq`).
-/

namespace HandleForms

variable {σ : Type}

/-- Invokes `C` over the arguments from `pos` on and, if it answers, `H` with the result in place. -/
def Act.invokeCombined (host : Host σ) (re : Reentry σ) (H : Handle) (pos : Nat) (C : Handle)
    (keep : Bool) (args : List Value) : Act σ Value := do
  let r ← Act.invoke host re C .basic ((args.drop pos).take C.type.arity)
  Act.invoke host re H .basic (args.take pos ++ (if C.type.ret.isVoid then [] else [r]) ++
    args.drop (pos + if keep then 0 else C.type.arity))

namespace HandleOf

/-- `B` runs `C` in front of `H`, over parameters that are kept or not. -/
structure Combined (H : Handle) (pos : Nat) (C : Handle) (keep : Bool) (B : Handle) : Prop where
  le : pos + Edit.resultArity C.type.ret.isVoid ≤ H.type.arity
  result : C.type.ret.isVoid = false → H.type.params[pos]? = some C.type.ret
  kept : keep = true → (H.type.params.drop (pos + Edit.resultArity C.type.ret.isVoid)).take
    C.type.arity = C.type.params
  params : B.type.params = H.type.params.take pos ++ (if keep then [] else C.type.params) ++
    H.type.params.drop (pos + Edit.resultArity C.type.ret.isVoid)
  isSome : B.species?.isSome
  made : ∃ R, H.Rebound R ∧ Edit.Combines R.form (pos + 1) C.type keep B.form ∧
    B.bound = R.bound ++ [.handle C]

variable {host : Host σ} {H C B : Handle} {pos : Nat} {keep : Bool} {args : List Value} {r : Value}

/-- One edit that puts a handle in front. -/
theorem Adapted.combines {type : Signature} {e : Edit} (hB : H.Adapted type [e] [.handle C] B)
    (hcombines : ∀ R, H.Rebound R → e.Answers R.form B.form →
      Edit.Combines R.form (pos + 1) C.type keep B.form) :
    ∃ R, H.Rebound R ∧ Edit.Combines R.form (pos + 1) C.type keep B.form ∧
      B.bound = R.bound ++ [.handle C] := by
  obtain ⟨-, R, hR, hchain, hdata⟩ := hB
  obtain ⟨⟩ | ⟨hf, ⟨⟩⟩ := hchain
  exact ⟨R, hR, hcombines R hR hf, bound_of_data hdata⟩

/-! ## What the adapters make -/

theorem Combined.of_filter (hH : H.Proper) (hB : (HandleOp.filter H pos C).Makes B) :
    H.Combined pos C false B := by
  cases hB with
  | adapted hop hadapted =>
    cases hop with
    | @filter _ _ param _ hparam hfits hparams hret =>
      have hpos : pos < H.type.params.length := (List.getElem?_eq_some_iff.1 hfits).1
      have hvoid : C.type.ret.isVoid = false := by
        have hne := H.type.params_ne_void _ (List.mem_of_getElem? hfits)
        cases hret : C.type.ret <;> first | rfl | exact absurd hret hne
      refine ⟨?_, fun _ => hfits, nofun, ?_, hadapted.isSome, hadapted.combines fun R hR hf => ?_⟩
      · rw [hvoid]
        exact hpos
      · rw [hadapted.type_eq, hparams, hvoid, hparam, List.set_eq_take_append_cons_drop, if_pos hpos]
        simp [Edit.resultArity]
      · have hserves := hR.serves hH
        refine hf.combines_filter hserves.editable (by rw [Signature.basicParams, hparam]; rfl) ?_
        rw [Form.param?, hserves.params, List.getElem?_cons_succ, Signature.basicParams,
          List.getElem?_map, hfits]
        rfl

theorem Combined.of_collect (hH : H.Proper) (hB : (HandleOp.collect H pos C).Makes B) :
    H.Combined pos C false B := by
  cases hB with
  | adapted hop hadapted =>
    cases hop with
    | collect hle hfits hparams hret =>
      refine ⟨hle, hfits, nofun, hadapted.type_eq ▸ hparams, hadapted.isSome,
        hadapted.combines fun R hR hf => ?_⟩
      have hserves := hR.serves hH
      refine hf.combines_collect hserves.editable ?_
      rw [hserves.arity_eq]
      exact Nat.succ_le_succ (Nat.le_trans (Nat.le_add_right _ _) hle)

theorem Combined.of_fold (hH : H.Proper) (hB : (HandleOp.fold H pos C).Makes B) :
    H.Combined pos C true B := by
  cases hB with
  | adapted hop hadapted =>
    cases hop with
    | fold hle hfits hkept hparams hret =>
      refine ⟨Nat.le_trans (Nat.le_add_right _ _) hle, hfits, fun _ => hkept, ?_, hadapted.isSome,
        hadapted.combines fun R hR hf => hf.combines_fold (hR.serves hH).editable⟩
      rw [hadapted.type_eq, hparams]
      simp

namespace Combined

/-! ## The arguments of the two -/

variable (h : H.Combined pos C keep B)
include h

theorem length_take : (H.type.params.take pos).length = pos :=
  List.length_take_of_le (Nat.le_trans (Nat.le_add_right _ _) h.le)

theorem drop_params : B.type.params.drop pos = (if keep then [] else C.type.params) ++
    H.type.params.drop (pos + Edit.resultArity C.type.ret.isVoid) := by
  rw [h.params, List.append_assoc, List.drop_left' h.length_take]

/-- The handle in front gets arguments that fit. -/
theorem map_called (hargs : args.map Value.basicType = B.type.basicParams) :
    ((args.drop pos).take C.type.arity).map Value.basicType = C.type.basicParams := by
  have hkept := h.kept
  rw [List.map_take, List.map_drop, hargs, Signature.basicParams, ← List.map_drop, ← List.map_take,
    h.drop_params]
  cases keep with
  | true => rw [if_pos rfl, List.nil_append, hkept rfl]; rfl
  | false => rw [if_neg (by simp), Signature.arity, List.take_left' rfl]; rfl

/-- The target gets arguments that fit if the result of the handle in front does. -/
theorem map_combined (hargs : args.map Value.basicType = B.type.basicParams)
    (hr : r.basicType = C.type.basicRet) :
    (Exec.combinedArgs pos C.type keep args r).map Value.basicType = H.type.basicParams := by
  have hfits : (if C.type.ret.isVoid then [] else [r]).map Value.basicType =
      (H.type.basicParams.drop pos).take (Edit.resultArity C.type.ret.isVoid) := by
    have hresult := h.result
    cases hvoid : C.type.ret.isVoid with
    | true => rfl
    | false =>
      rw [if_neg nofun, Edit.resultArity, if_neg nofun, List.take_one, List.head?_drop,
        Signature.basicParams, List.getElem?_map, hresult hvoid, List.map_singleton, hr]
      rfl
  have hwhole := Signature.map_replace h.le h.params hargs hfits
  rw [Exec.combinedArgs, Signature.basicRet_beq_void]
  have hcount : (if keep then [] else C.type.params).length = if keep then 0 else C.type.arity := by
    split <;> rfl
  rwa [hcount] at hwhole

theorem length_combined (hargs : args.length = B.type.arity) (r : Value) :
    (Exec.combinedArgs pos C.type keep args r).length = H.type.arity := by
  obtain ⟨n, hn⟩ : ∃ n, (if keep then 0 else C.type.arity) = n := ⟨_, rfl⟩
  have hlength : args.length =
      pos + n + (H.type.arity - (pos + Edit.resultArity C.type.ret.isVoid)) := by
    have hnew : (if keep then [] else C.type.params).length = n := by
      rw [← hn]
      split <;> rfl
    rw [hargs, Signature.arity, h.params, List.length_append, List.length_append, h.length_take, hnew,
      List.length_drop]
    rfl
  have hresult : (if C.type.ret.isVoid then [] else [r]).length =
      Edit.resultArity C.type.ret.isVoid := by
    unfold Edit.resultArity
    split <;> rfl
  have hle := h.le
  rw [Exec.combinedArgs, Signature.basicRet_beq_void, hn, List.length_append, List.length_append,
    List.length_take, List.length_drop, hresult]
  omega

/-! ## Invocations -/

/-- A handle with another one in front does what the two do one after the other. -/
theorem invoke_eq {re : Reentry σ} {w : World σ} (hre : re.Blind) (hre' : re.Stays host)
    (hw : w.Reachable host) (hH : H.Proper) (hC : C.Proper) (hB : B.Proper)
    (hheld : w.Holds (.handle H :: .handle C :: .handle B :: args))
    (hargs : args.map Value.basicType = B.type.basicParams)
    (hresult : ∀ r, (Act.invoke host re C .basic ((args.drop pos).take C.type.arity) w).1 = .ok r →
      r.basicType = C.type.basicRet)
    (hlimits : ¬ Outcome.Limited (Act.invoke host re B .basic args w).1)
    (hlimits' : ¬ Outcome.Limited (Act.invokeCombined host re H pos C keep args w).1) :
    Act.invoke host re B .basic args w = Act.invokeCombined host re H pos C keep args w := by
  obtain ⟨R, hR, hcombines, hbound⟩ := h.made
  obtain ⟨s, hRdata, hcarrier, hvalues⟩ := hR.carrier hH
  have hlen : R.bound.length = s.fields.length := by
    simpa using congrArg List.length hvalues
  have hcount : args.length = B.type.arity := by
    simpa using congrArg List.length hargs
  have hcalled := h.map_called hargs
  obtain ⟨depth, hlt, hle⟩ : ∃ depth, w.limits.depth < depth ∧
      (Act.invoke host re C .basic ((args.drop pos).take C.type.arity) w).2.limits.depth ≤ depth :=
    ⟨_, Nat.le_max_left (w.limits.depth + 1) _, Nat.le_max_right _ _⟩
  have hrun : Exec.RefinesFrom w.held Eq
      (Exec.body host re (Exec.runForm host re w.limits.depth) B.form B.bound args)
      (Exec.invokeHandle (Exec.runForm host re depth) C ((args.drop pos).take C.type.arity) >>=
        fun r => Exec.call host re depth H (Exec.combinedArgs pos C.type keep args r)) w := by
    rw [hbound]
    refine Exec.refinesFrom_combines hre hcarrier hcombines hlen (by rw [hcount, hB.serves.arity_eq])
      (fun v hv => hheld v ?_) rfl hlt (fun hvoid r w' hends => ?_) fun r =>
        Exec.yields_rebound hre hR hH (hheld _ (.head _)) (h.length_combined hcount r)
    · rcases List.mem_cons.1 hv with rfl | hv
      · exact .tail _ (.head _)
      · exact .tail _ (.tail _ (.tail _ hv))
    · obtain ⟨cost, hends⟩ := hends
      exact Exec.invokeHandle_void (Act.quiet_of_sound hw.sound hC hvoid)
        (congrArg Prod.fst (hends 0))
  refine Act.invoke_eq_of_ends hre hB h.isSome (hheld _ (.tail _ (.tail _ (.head _)))) hargs hlimits
    hrun ?_
  refine Act.ends_bind (fun hlimits => Act.ends_of_invoke hre hcalled hlimits (Nat.le_of_lt hlt))
    (fun r hr hlimits => ?_) hlimits'
  have hcombined := h.map_combined hargs (hresult r hr)
  rw [Exec.combinedArgs, Signature.basicRet_beq_void] at hcombined ⊢
  exact Act.ends_call_of_invoke hre
    (Act.stays_invoke hre' C .basic _ w hw).sound hH hcombined hlimits hle

end Combined

/-- Collecting and filtering are composition: the handle that either adapter makes invokes the
collector over its arguments and, if that answers, the target with the result in their place. -/
theorem Built.collect_composes {w : World σ} {op : HandleOp} (hw : w.Reachable host)
    (hH : H.Built host fun _ => True) (hC : C.Built host fun _ => True)
    (hop : op = .collect H pos C ∨ op = .filter H pos C)
    (hB : (Act.perform host op w).1 = .ok B) (w₁ : World σ) (levels : Nat) (args : List Value)
    (hw₁ : w₁.Reachable host) (hheld : w₁.Holds (.handle H :: .handle C :: .handle B :: args))
    (hargs : Act.checkArguments B.type args = .ok ())
    (hresult : ∀ r, (Act.invoke host (host.reenter levels) C .basic
      ((args.drop pos).take C.type.arity) w₁).1 = .ok r → r.basicType = C.type.basicRet)
    (hlimits : ¬ Outcome.Limited (Act.invoke host (host.reenter levels) B .basic args w₁).1)
    (hlimits' : ¬ Outcome.Limited
      (Act.invokeCombined host (host.reenter levels) H pos C false args w₁).1) :
    Act.invoke host (host.reenter levels) B .basic args w₁ =
      Act.invokeCombined host (host.reenter levels) H pos C false args w₁ := by
  have hhandles : ∀ h ∈ op.handles, h.Built host fun _ => True := by
    rcases hop with rfl | rfl <;> exact List.forall_mem_cons.2 ⟨hH, List.forall_mem_singleton.2 hC⟩
  have hBbuilt : B.Built host fun _ => True := .made hw trivial hhandles hB
  have hcombined : H.Combined pos C false B := by
    rcases hop with rfl | rfl
    · exact .of_collect hH.proper ((Act.triple_collectArguments H pos C).answer hw.sound hB hH.proper)
    · exact .of_filter hH.proper ((Act.triple_filterArgument H pos C).answer hw.sound hB hH.proper)
  exact hcombined.invoke_eq (host.blind_reenter levels) (host.stays_reenter levels) hw₁ hH.proper
    hC.proper hBbuilt.proper hheld (Act.checkArguments_eq_ok_iff.1 hargs) hresult hlimits hlimits'

/-- A sum of a sum. -/
theorem Built.collect_composes_sums :
    let args : List Value := [.int 1, .int 2, .int 3]
    ∃ B, (Act.collectArguments adder 0 adder (adderWorld [])).1 = .ok B ∧
      let w := adderWorld (.handle adder :: .handle adder :: .handle B :: args)
      Act.invoke adderHost (adderHost.reenter 0) B .basic args w =
        Act.invokeCombined adderHost (adderHost.reenter 0) adder 0 adder false args w := by
  intro args
  have hruns : ∃ B ∈ (Act.collectArguments adder 0 adder (adderWorld [])).1.toOption,
      let w := adderWorld (.handle adder :: .handle adder :: .handle B :: args)
      Act.checkArguments B.type args = .ok () ∧
      (∀ r ∈ (Act.invoke adderHost (adderHost.reenter 0) adder .basic
        ((args.drop 0).take adder.type.arity) w).1.toOption, r.basicType = .int) ∧
      ¬ Outcome.Limited (Act.invoke adderHost (adderHost.reenter 0) B .basic args w).1 ∧
      ¬ Outcome.Limited
        (Act.invokeCombined adderHost (adderHost.reenter 0) adder 0 adder false args w).1 := by
    decide +kernel
  obtain ⟨B, hB, hcheck, hresult, hlimits, hlimits'⟩ := hruns
  have hB := mem_toOption.1 hB
  exact ⟨B, hB, Built.collect_composes (reachable_adderWorld []) built_adder built_adder (.inl rfl) hB
    _ 0 args (reachable_adderWorld _) (World.holds_held _) hcheck
    (fun r hr => hresult r (mem_toOption.2 hr)) hlimits hlimits'⟩

/-! ## Combiners that do not fit -/

/-- The types of a combiner fit those of the parameters from `pos` on. -/
structure Folds (H : Handle) (pos : Nat) (C : Handle) : Prop where
  le : pos + Edit.resultArity C.type.ret.isVoid + C.type.arity ≤ H.type.arity
  result : C.type.ret.isVoid = false → H.type.params[pos]? = some C.type.ret
  kept : (H.type.params.drop (pos + Edit.resultArity C.type.ret.isVoid)).take C.type.arity =
    C.type.params

end HandleOf

namespace Act

variable {H C : Handle} {pos : Nat}

/-- A check that fails in front of a computation. -/
theorem guard_apply {α : Type} {p : Prop} {_ : Decidable p} {e : RuntimeError}
    {k : PUnit → Act σ α} (hp : p) (w : World σ) :
    (if p then fail e >>= k else k ⟨⟩) w = (.error (.error e), w) := by
  rw [if_pos hp]; rfl

/-- What does not fit is refused before anything is made. -/
theorem foldArguments_misfit (hmisfit : ¬ H.Folds pos C)
    (hwords : pos + Edit.resultArity C.type.ret.isVoid + C.type.arity < Text.wordCount)
    (w : World σ) : foldArguments H pos C w =
      (.error (.error (.form (.incompatibleCombiner C.type H.type))), w) := by
  rw [foldArguments]
  dsimp only
  rw [Text.wordAdd_of_lt (a := pos) (by omega), Text.wordAdd_of_lt (by omega)]
  by_cases hle : pos + Edit.resultArity C.type.ret.isVoid + C.type.arity ≤ H.type.arity
  · rw [if_neg (by omega)]
    have hrange : paramRange (σ := σ) H.type (pos + Edit.resultArity C.type.ret.isVoid)
        (pos + Edit.resultArity C.type.ret.isVoid + C.type.arity) =
          pure ((H.type.params.drop (pos + Edit.resultArity C.type.ret.isVoid)).take C.type.arity) := by
      rw [paramRange, if_pos ⟨Nat.le_add_right _ _, hle⟩, List.drop_take, Nat.add_sub_cancel_left]
    rw [hrange]
    simp only [pure_bind]
    split
    · next hvalue =>
      have hone : Edit.resultArity C.type.ret.isVoid = 1 := if_neg (by simpa using hvalue)
      have hpos : pos < H.type.params.length :=
        Nat.lt_of_lt_of_le (by omega : pos < pos + 1 + C.type.arity) (hone ▸ hle)
      have htype : paramType (σ := σ) H.type pos = pure H.type.params[pos] := by
        rw [paramType, List.getElem?_eq_getElem hpos]
      rw [htype]
      simp only [pure_bind]
      by_cases hresult : C.type.ret = H.type.params[pos]
      · rw [if_neg (not_not.2 hresult)]
        refine guard_apply (fun hkept => hmisfit ⟨hle, fun _ => ?_, hkept.symm⟩) w
        rw [List.getElem?_eq_getElem hpos, hresult]
      · exact guard_apply hresult w
    · next hvoid =>
      exact guard_apply (fun hkept => hmisfit ⟨hle, fun h => absurd h (by simpa using hvoid),
        hkept.symm⟩) w
  · exact guard_apply (by omega) w
end Act

namespace HandleOf

variable {host : Host σ} {H C B : Handle} {pos : Nat}

end HandleOf

end HandleForms
