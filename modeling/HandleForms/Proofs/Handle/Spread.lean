import HandleForms.Proofs.Handle.Built
import HandleForms.Proofs.Run.Invocation
import HandleForms.Proofs.Run.Spread

/-!
# Spreading is unpacking

A handle that takes parameters out of an array does over the array what its target does over the
elements. What is no array of the right length is refused before anything else happens
(`HandleOf.Built.spread_unpacks`).
-/

namespace HandleForms

namespace HandleOf

variable {σ : Type} {host : Host σ} {H B : Handle} {pos count : Nat} {array : Ty}

/-- Spreading is unpacking: where the array is, the target gets its elements, and what does not
unpack fails without any change of the world. -/
theorem Built.spread_unpacks {w : World σ} (hw : w.Reachable host) (hH : H.Built host fun _ => True)
    (hB : (Act.spreadArguments H pos array count w).1 = .ok B) (w₁ : World σ) (levels : Nat)
    (args : List Value) (a : Value) (hw₁ : w₁.Reachable host)
    (hheld : w₁.Holds (.handle H :: .handle B :: args))
    (hargs : Act.checkArguments B.type args = .ok ()) (ha : args[pos]? = some a)
    (hlimits : ¬ Outcome.Limited (Act.invoke host (host.reenter levels) B .basic args w₁).1) :
    (∀ vs, Exec.Unpacks a vs → vs.length = count →
      vs.map Value.basicType = (H.type.basicParams.drop pos).take count →
      let unpacked := Act.invoke host (host.reenter levels) H .basic
        (args.take pos ++ vs ++ args.drop (pos + 1)) w₁
      ¬ Outcome.Limited unpacked.1 →
        Act.invoke host (host.reenter levels) B .basic args w₁ = unpacked) ∧
    ∀ e, Exec.Packs a count e →
      Act.invoke host (host.reenter levels) B .basic args w₁ = (.error (.error e), w₁) := by
  have hre := host.blind_reenter levels
  have hmakes := (Act.triple_spreadArguments H pos array count).answer hw.sound hB hH.proper
  have hproper : B.Proper := hmakes.proper (List.forall_mem_singleton.2 hH.proper)
  rw [Act.checkArguments_eq_ok_iff] at hargs
  have hcount : args.length + 1 = B.form.arity := by
    rw [hproper.serves.arity_eq, ← Signature.length_basicParams, ← hargs, List.length_map]
  cases hmakes with
  | adapted hop hadapted =>
    cases hop with
    | spread harray hle hparams hret =>
      have hsome := hadapted.isSome
      obtain ⟨htype, R, hR, hchain, hdata⟩ := hadapted
      obtain ⟨⟩ | ⟨hf, ⟨⟩⟩ := hchain
      have hbound := bound_of_data hdata
      obtain ⟨s, hRdata, hcarrier, hvalues⟩ := hR.carrier hH.proper
      have hBheld : (Value.handle B).Within w₁.held := hheld _ (.tail _ (.head _))
      refine ⟨fun vs hvs hlength hfits hlimits' => ?_, fun e he => ?_⟩
      · subst hlength
        have hwhole := Signature.map_replace hle (htype ▸ hparams) hargs hfits
        refine Act.invoke_eq_of_yields hre hw₁.sound hproper hsome hH.proper hBheld hargs hwhole
          ?_ hlimits hlimits'
        rw [hbound, List.append_nil]
        refine Exec.yields_spread hre hcarrier hf hcount (fun v hv => hheld v (.tail _ (.tail _ hv)))
          ha hvs (Exec.yields_rebound hre hR hH.proper (hheld _ (.head _)) ?_)
        rw [← Signature.length_basicParams, ← hwhole, List.length_map]
        rfl
      · refine Act.invoke_eq_of_ends hre hproper hsome hBheld hargs hlimits
          ((Exec.yields_spread_error hcarrier.editable hf ha he.checkSpreadLength_eq _ _
            (Nat.lt_succ_self _)).refinesFrom rfl) ⟨0, fun spare => ?_⟩
        rw [Nat.zero_add]
        rfl

/-- An array of two numbers unpacks into a sum; `null` does not. -/
theorem Built.spread_unpacks_pair : ∃ B,
    (Act.spreadArguments adder 0 (.array .int) 2 (adderWorld [])).1 = .ok B ∧
      (let pair : Value := .array 0 .int [.int 1, .int 2]
        let w := adderWorld [.handle adder, .handle B, pair]
        Act.invoke adderHost (adderHost.reenter 0) B .basic [pair] w =
          Act.invoke adderHost (adderHost.reenter 0) adder .basic [.int 1, .int 2] w) ∧
      let w := adderWorld [.handle adder, .handle B, .null]
      Act.invoke adderHost (adderHost.reenter 0) B .basic [.null] w =
        (.error (.error (.nullPointer "argument spreading")), w) := by
  have hruns : ∃ B ∈ (Act.spreadArguments adder 0 (.array .int) 2 (adderWorld [])).1.toOption,
      (let pair : Value := .array 0 .int [.int 1, .int 2]
        let w := adderWorld [.handle adder, .handle B, pair]
        Act.checkArguments B.type [pair] = .ok () ∧
        ¬ Outcome.Limited (Act.invoke adderHost (adderHost.reenter 0) B .basic [pair] w).1 ∧
        ¬ Outcome.Limited
          (Act.invoke adderHost (adderHost.reenter 0) adder .basic [.int 1, .int 2] w).1) ∧
      let w := adderWorld [.handle adder, .handle B, .null]
      Act.checkArguments B.type [.null] = .ok () ∧
      ¬ Outcome.Limited (Act.invoke adderHost (adderHost.reenter 0) B .basic [.null] w).1 := by
    decide +kernel
  obtain ⟨B, hB, ⟨hpair, hlimits, hlimits'⟩, hnull, hlimits''⟩ := hruns
  have hB := mem_toOption.1 hB
  have hunpacks := (Built.spread_unpacks (reachable_adderWorld []) built_adder hB
    (adderWorld [.handle adder, .handle B, .array 0 .int [.int 1, .int 2]]) 0 _ _
    (reachable_adderWorld _) (World.holds_held _) hpair rfl hlimits).1 [.int 1, .int 2]
    (.array 0 .int _) rfl rfl hlimits'
  have hfails := (Built.spread_unpacks (reachable_adderWorld []) built_adder hB
    (adderWorld [.handle adder, .handle B, .null]) 0 _ _ (reachable_adderWorld _)
    (World.holds_held _) hnull rfl hlimits'').2 (.nullPointer "argument spreading")
    (.null (by decide))
  exact ⟨B, hB, hunpacks, hfails⟩

end HandleOf

end HandleForms
