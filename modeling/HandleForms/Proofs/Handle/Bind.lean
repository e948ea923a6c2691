import HandleForms.Proofs.Handle.Built
import HandleForms.Proofs.Run.Invocation

/-!
# Binding is partial application

Values that fit can be bound to the parameters of every handle that operations built, and the handle
with the values bound does over the other arguments what its target does over all of them
(`HandleOf.Built.insertArguments`).
-/

namespace HandleForms

variable {σ : Type}

/-- Values that are bound one after the other at one position. -/
theorem Exec.yields_binds {host : Host σ} {re : Reentry σ} {held : List Value} {base f : Form}
    {fields : List BasicType} {bound args vs : List Value} {pos : Nat} {X : Nat → Exec σ Value}
    (hre : re.Blind) (hbase : base.Carrier fields)
    (hf : Edit.Chain base (vs.map fun v => .bind (pos + 1) v.basicType) f)
    (hlen : bound.length = fields.length) (hpos : pos ≤ args.length)
    (hargs : args.length + vs.length + 1 = base.arity)
    (h : Yields host re held base bound (args.take pos ++ vs ++ args.drop pos) X) :
    Yields host re held f (bound ++ vs) args X := by
  induction vs generalizing base fields bound with
  | nil =>
    cases hf
    simpa using h
  | cons v vs ih =>
    obtain ⟨⟩ | ⟨hg, hrest⟩ := hf
    next g =>
    rw [List.length_cons] at hargs
    have harity : g.arity + 1 = base.arity := by
      have hparams := Form.length_params hbase.editable.wellFormed
      have hshape := hg.arity_eq hbase.editable
      simp only [Edit.reshape, Form.shape, Form.Shape.grow, if_neg (Nat.succ_ne_zero pos)] at hshape
      rw [hshape, List.length_eraseIdx_of_lt (by omega)]
      omega
    have hinsert : (args.take pos ++ vs ++ args.drop pos).insertIdx pos v =
        args.take pos ++ v :: vs ++ args.drop pos := by
      have htake : (args.take pos).length = pos := List.length_take_of_le hpos
      have hle : pos ≤ (args.take pos ++ vs ++ args.drop pos).length := by
        simp only [List.length_append, htake]
        omega
      rw [Edit.Adapts.insertIdx_eq hle, List.append_assoc, List.take_left' htake,
        List.drop_left' htake]
      simp
    rw [List.append_cons]
    refine ih (hg.carrier hbase fun _ h => by cases h) hrest (by simpa [Edit.field?] using hlen) (by omega)
      (yields_bind hre hbase hg hlen ?_ (hinsert ▸ h))
    simp only [List.length_append, List.length_take, List.length_drop]
    omega

namespace Act

variable {owned : List TypeForm} {h : Handle}

theorem completes_bindArgument {pos : Nat} {value : Value} (hh : h.Proper)
    (hvalue : h.type.basicParams[pos]? = some value.basicType) :
    Completes (σ := σ) owned (bindArgument h pos value) := by
  have hpos : pos < h.type.arity := by
    rw [← Signature.length_basicParams]
    exact (List.getElem?_eq_some_iff.1 hvalue).1
  refine .bind (triple_require _ _) (completes_require hpos) fun _ _ =>
    .bind (triple_paramType _ _) (completes_paramType hpos) fun t ht => ?_
  have htype : value.basicType = t.basicType := by
    rw [Signature.basicParams, List.getElem?_map, ht] at hvalue
    exact (Option.some.inj hvalue).symm
  refine .guarded (not_not.2 htype) (completes_carrier hh (fun R hR => ?_) trivial
    (fun R hR => Edit.not_refused_of_ne (by simp) (by simp)) fun R f hR hf => ?_)
  · have hserves := hR.serves hh
    rw [Edit.check, bind_unit_eq_ok_iff, Edit.require_eq_ok_iff, Form.expectParam_eq_ok_iff,
      hserves.arity_eq, Form.param?, hserves.params, List.getElem?_cons_succ, hvalue, htype]
    exact ⟨Nat.succ_lt_succ hpos, rfl⟩
  · obtain ⟨s, -, hcarrier, -⟩ := hR.carrier hh
    have hgrown := hf.carrier hcarrier fun _ h => by cases h
    refine .bind (triple_dropParams _ _ _) (completes_dropParams (Nat.le_succ pos) hpos) fun type _ =>
      completes_copyWithExtra ?_
    rw [← Option.isSome_map, hgrown.species]
    rfl

/-- Values that fit can be bound. -/
theorem completes_insertArguments {pos : Nat} {vs : List Value} (hh : h.Proper)
    (hvs : vs.map Value.basicType = (h.type.basicParams.drop pos).take vs.length) :
    Completes (σ := σ) owned (insertArguments h pos vs) := by
  induction vs generalizing h with
  | nil => exact .pure h
  | cons v vs ih =>
    have hpos : pos < h.type.basicParams.length := by
      have hlength := congrArg List.length hvs
      simp only [List.length_map, List.length_take, List.length_drop, List.length_cons] at hlength
      omega
    rw [List.drop_eq_getElem_cons hpos, List.length_cons, List.take_succ_cons, List.map_cons] at hvs
    obtain ⟨hv, hvs⟩ := List.cons.inj hvs
    have hv : h.type.basicParams[pos]? = some v.basicType := by
      rw [List.getElem?_eq_getElem hpos, hv]
    refine .bind (triple_bindArgument h pos v) (completes_bindArgument hh hv) fun B hB => ?_
    obtain ⟨⟨⟨hlt, -⟩, hparams, hret⟩, hadapted⟩ := hB
    refine ih ((hadapted hh).proper (.insert_one hlt hv hparams hret) hh) ?_
    have htake : (h.type.params.take pos).length = pos := List.length_take_of_le (Nat.le_of_lt hlt)
    rw [hvs, Signature.basicParams, Signature.basicParams, hparams, ← List.map_drop, ← List.map_drop,
      List.drop_left' htake]

end Act

/-! ## Invoking what values are bound to -/

namespace HandleOf

variable {host : Host σ} {H B : Handle} {pos : Nat} {vs args : List Value}

/-- A handle with values bound yields what a call of its target over all values does. -/
theorem Adapted.yields_insert {re : Reentry σ} {held : List Value} {type : Signature}
    (hre : re.Blind) (hB : H.Adapted type (vs.map fun v => .bind (pos + 1) v.basicType) vs B)
    (hH : H.Proper) (hpos : pos ≤ args.length) (hargs : args.length + vs.length = H.type.arity)
    (hheld : (Value.handle H).Within held) :
    Exec.Yields host re held B.form B.bound args fun d =>
      Exec.call host re d H (args.take pos ++ vs ++ args.drop pos) := by
  obtain ⟨-, R, hR, hchain, hdata⟩ := hB
  obtain ⟨s, hRdata, hcarrier, hvalues⟩ := hR.carrier hH
  have hlen : R.bound.length = s.fields.length := by
    simpa using congrArg List.length hvalues
  have harity := (hR.serves hH).arity_eq
  rw [bound_of_data hdata]
  refine Exec.yields_binds hre hcarrier hchain hlen hpos (by omega)
    (Exec.yields_rebound hre hR hH hheld ?_)
  simp only [List.length_append, List.length_take, List.length_drop]
  omega

/-- Binding is partial application: values that fit can be bound, and the handle that this makes does
over the other arguments what the target does over all of them. -/
theorem Built.insertArguments_applies {w : World σ} (hw : w.Reachable host)
    (hH : H.Built host fun _ => True)
    (hvs : vs.map Value.basicType = (H.type.basicParams.drop pos).take vs.length) :
    ∃ B, (Act.insertArguments H pos vs w).1 = .ok B ∧
      ∀ (w₁ : World σ) (levels : Nat) (args : List Value), w₁.Reachable host →
        w₁.Holds (.handle H :: .handle B :: args) → Act.checkArguments B.type args = .ok () →
        let applied := Act.invoke host (host.reenter levels) B .basic args w₁
        let whole := Act.invoke host (host.reenter levels) H .basic
          (args.take pos ++ vs ++ args.drop pos) w₁
        ¬ Outcome.Limited applied.1 → ¬ Outcome.Limited whole.1 → applied = whole := by
  obtain ⟨B, hB⟩ := (Act.completes_insertArguments hH.proper hvs).answer hw.sound
  have hmakes := (Act.triple_insertArguments H pos vs).answer hw.sound hB hH.proper
  have hproper := hmakes.proper (List.forall_mem_singleton.2 hH.proper)
  refine ⟨B, hB, fun w₁ levels args hw₁ hheld hcheck hlimits hlimits' => ?_⟩
  cases hmakes with
  | insertNone => simp
  | adapted hop hadapted =>
    cases hop with
    | insert hlen hvalues hparams hret =>
      rw [Act.checkArguments_eq_ok_iff] at hcheck
      have hdropped : B.type.params =
          H.type.params.take pos ++ [] ++ H.type.params.drop (pos + vs.length) := by
        rw [hadapted.type_eq, hparams, List.append_nil]
      have hwhole : (args.take pos ++ vs ++ args.drop pos).map Value.basicType =
          H.type.basicParams := Signature.map_replace hlen hdropped hcheck hvalues
      have hlength : args.length + vs.length = H.type.arity := by
        have := congrArg List.length hwhole
        simp only [List.length_map, List.length_append, List.length_take, List.length_drop,
          Signature.length_basicParams] at this
        omega
      exact Act.invoke_eq_of_yields (host.blind_reenter levels) hw₁.sound hproper hadapted.isSome
        hH.proper (hheld _ (List.mem_cons_of_mem _ (.head _))) hcheck hwhole
        (hadapted.yields_insert (host.blind_reenter levels) hH.proper (by omega) hlength
          (hheld _ (.head _)))
        hlimits hlimits'

/-- Seven plus one is one with seven bound to the first parameter. -/
theorem Built.insertArguments_applies_seven :
    ∃ B, (Act.insertArguments adder 0 [.int 7] (adderWorld [])).1 = .ok B ∧
      let w := adderWorld [.handle adder, .handle B, .int 1]
      Act.invoke adderHost (adderHost.reenter 0) B .basic [.int 1] w =
        Act.invoke adderHost (adderHost.reenter 0) adder .basic [.int 7, .int 1] w := by
  obtain ⟨B, hB, happlies⟩ := built_adder.insertArguments_applies (reachable_adderWorld [])
    (show [Value.int 7].map Value.basicType = (adder.type.basicParams.drop 0).take 1 from rfl)
  have hruns : ∀ B ∈ (Act.insertArguments adder 0 [.int 7] (adderWorld [])).1.toOption,
      let w := adderWorld [.handle adder, .handle B, .int 1]
      Act.checkArguments B.type [.int 1] = .ok () ∧
      ¬ Outcome.Limited (Act.invoke adderHost (adderHost.reenter 0) B .basic [.int 1] w).1 ∧
      ¬ Outcome.Limited
        (Act.invoke adderHost (adderHost.reenter 0) adder .basic [.int 7, .int 1] w).1 := by
    decide +kernel
  obtain ⟨hcheck, hlimits, hlimits'⟩ := hruns B (mem_toOption.2 hB)
  have happlied := happlies (adderWorld [.handle adder, .handle B, .int 1]) 0 [.int 1]
    (reachable_adderWorld _) (World.holds_held _) hcheck hlimits hlimits'
  exact ⟨B, hB, happlied⟩

end HandleOf

end HandleForms
