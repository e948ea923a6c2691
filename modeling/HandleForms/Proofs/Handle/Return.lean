import HandleForms.Proofs.Handle.Built
import HandleForms.Proofs.Run.Returned

/-!
# Return adapters are composition

Filtering a result is invoking the target and then the filter on what it answers
(`HandleOf.Filtered.invoke_eq`); a zero result is what is left when the target answers
(`HandleOf.Zeroed.invoke_eq`). A carrier that has computed values to get at its result keeps them
alive while the filter runs, which a filter can tell from what it finds shared: this is what the
frame of `Act.under` stands for. A target that is no carrier computes nothing but its result, and
there is no such frame.
-/

namespace HandleForms

variable {σ α : Type}

/-! ## One after the other -/

namespace Act

/-- Does something while these frames keep what is in them alive. -/
def under (frames : List Frame) (x : Act σ α) : Act σ α := fun w =>
  let r := x (w.withFrames (frames ++ w.frames))
  (r.1, r.2.withFrames w.frames)

/-- Invokes `H` and, if it answers, `F` on the answer, which is nothing for an `H` without result. -/
def invokeFiltered (host : Host σ) (re : Reentry σ) (H F : Handle) (frames : List Frame)
    (args : List Value) : Act σ Value := do
  let r ← invoke host re H .basic args
  under frames (invoke host re F .basic (if H.type.ret.isVoid then [] else [r]))

/-- Invokes `H` and, if it answers, answers the zero of a type. -/
def invokeZeroed (host : Host σ) (re : Reentry σ) (H : Handle) (type : Ty) (args : List Value) :
    Act σ Value := do
  let _ ← invoke host re H .basic args
  return .zero type.basicType

end Act

namespace HandleOf

variable {host : Host σ} {re : Reentry σ} {w : World σ} {H F B : Handle} {type : Ty}
  {args : List Value} {d d' : Nat}

/-- `B` is `H` with the results passed on to `F`. -/
structure Filtered (H F B : Handle) : Prop where
  fits : F.type.params = if H.type.ret.isVoid then [] else [H.type.ret]
  type_eq : B.type = H.type.withRet F.type.ret
  isSome : B.species?.isSome
  made : ∃ R, H.Rebound R ∧ (Edit.filterReturn F.type.basicRet).Answers R.form B.form ∧
    B.bound = R.bound ++ [.handle F]

/-- `B` is `H` with the results replaced by the zero of a type. -/
structure Zeroed (H : Handle) (type : Ty) (B : Handle) : Prop where
  type_eq : B.type = H.type.withRet type
  isSome : B.species?.isSome
  made : ∃ R, H.Rebound R ∧ (Edit.zeroReturn type.basicType).Answers R.form B.form ∧
    B.bound = R.bound

theorem Filtered.of_makes (hB : (HandleOp.filterReturn H F).Makes B) : H.Filtered F B := by
  cases hB with
  | adapted hop hadapted =>
    cases hop with
    | filterReturn hfits =>
      refine ⟨hfits, hadapted.type_eq, hadapted.isSome, ?_⟩
      obtain ⟨-, R, hR, hchain, hdata⟩ := hadapted
      obtain ⟨⟩ | ⟨hf, ⟨⟩⟩ := hchain
      exact ⟨R, hR, hf, bound_of_data hdata⟩

theorem Zeroed.of_makes (hB : (HandleOp.zeroReturn H type).Makes B) : H.Zeroed type B := by
  cases hB with
  | adapted hop hadapted =>
    cases hop with
    | zeroReturn =>
      refine ⟨hadapted.type_eq, hadapted.isSome, ?_⟩
      obtain ⟨-, R, hR, hchain, hdata⟩ := hadapted
      obtain ⟨⟩ | ⟨hf, ⟨⟩⟩ := hchain
      exact ⟨R, hR, hf, by rw [bound_of_data hdata, List.append_nil]⟩

namespace Filtered

variable (h : H.Filtered F B)
include h

/-- What the filter is called on fits it. -/
theorem map_results {r : Value} (hr : r.basicType = H.type.basicRet) :
    (if H.type.ret.isVoid then [] else [r]).map Value.basicType = F.type.basicParams := by
  rw [Signature.basicParams, h.fits]
  split
  · rfl
  · exact congrArg (fun t => [t]) hr

end Filtered

theorem results_eq (r : Value) :
    Exec.results H.type r = if H.type.ret.isVoid then [] else [r] := by
  simp only [Exec.results, ← Signature.basicRet_beq_void, beq_iff_eq]

/-- A carrier around a handle computes nothing but the result. -/
theorem kept_of_wrapped {R : Handle} {us : List Value} {r u : Value} {w₁ : World σ}
    (hR : H.Rebound R) (hplain : H.species? = none) (hquiet : Exec.Quiet w H)
    (hargs : args.length = H.type.arity) (hcomputed : Exec.Computed R.form us r)
    (hends : (Exec.loop (Exec.fieldStep (Exec.apply host re (Exec.runForm host re d)) R.bound)
      (R.form.names.drop R.form.arity) (.void :: args)).Ends w (.ok us) w₁) (hu : u ∈ us) :
    u = .void ∨ u ∈ args ∨ u = .handle H ∨ u ∈ Exec.results H.type r := by
  cases hR with
  | self hbound => simp [hplain] at hbound
  | @wrapped R s t id _ _ hs hform ht hdata =>
  have hbound : R.bound = [.handle H] := by simp [HandleOf.bound, hdata]
  rw [hbound, Exec.loop_reinvoker hs hform hargs] at hends
  obtain ⟨cost, hends⟩ := hends
  obtain ⟨v, hv, hus⟩ := Exec.ok_of_bind (congrArg Prod.fst (hends 0))
  obtain rfl : .void :: args ++ [.handle H, v] = us := Except.ok.inj hus
  have hr : r = if H.type.basicRet = .void then .void else v := by
    have hresult := hcomputed.resultOf (σ := σ)
    rw [Exec.resultOf_reinvoker hs hform hargs] at hresult
    exact (Except.ok.inj (congrArg Prod.fst (congrFun hresult ⟨w, 0, none⟩))).symm
  have hv : v = .void ∨ v ∈ Exec.results H.type r := by
    unfold Exec.results
    split at hr
    · next hvoid => exact .inl (Exec.invokeHandle_void (hquiet hvoid) hv)
    · next hvoid => exact .inr (by rw [if_neg hvoid, hr]; exact .head _)
  simp only [List.cons_append, List.mem_cons, List.mem_append, List.not_mem_nil, or_false] at hu
  rcases hu with rfl | hu | rfl | rfl
  · exact .inl rfl
  · exact .inr (.inl hu)
  · exact .inr (.inr (.inl rfl))
  · exact hv.imp_right fun hv => .inr (.inr hv)

namespace Filtered

/-- The form of a handle whose results are filtered calls the target, and then the filter under what
the target has left. -/
theorem exists_frames (host : Host σ) {R : Handle} {fields : List BasicType} (h : H.Filtered F B)
    (hre : re.Blind) (hquiet : Exec.Quiet w H) (hH : H.Proper) (hR : H.Rebound R)
    (hcarrier : R.form.Carrier fields)
    (hf : (Edit.filterReturn F.type.basicRet).Answers R.form B.form)
    (hlen : R.bound.length = fields.length)
    (hheld : ∀ v ∈ .void :: .handle H :: args, v.Within w.held)
    (hargs : args.length = H.type.arity) (hlt : d < d') :
    ∃ frames, ∃ K : Value → Exec σ Value, (H.species? = none → frames = []) ∧
      Exec.RefinesFrom w.held Eq
        (Exec.body host re (Exec.runForm host re d) B.form (R.bound ++ [.handle F]) args)
        (Exec.call host re d' H args >>= K) w ∧
      ∀ (w₁ w' : World σ) r o, (Exec.call host re d' F (Exec.results H.type r)).Ends
        (w₁.withFrames (frames ++ w₁.frames)) o w' → ¬ o.Limited →
          (K r).Ends w₁ o (w'.withFrames w₁.frames) := by
  have hyields : Exec.Yields host re w.held R.form R.bound args fun d =>
      Exec.call host re d H args := Exec.yields_rebound hre hR hH (hheld _ (.tail _ (.head _))) hargs
  have hbasic := Signature.basicParams_of_result h.fits
  by_cases hplain : H.species? = none
  · refine ⟨[], fun r => Exec.call host re d' F (Exec.results H.type r), fun _ => rfl,
      Exec.refinesFrom_filterReturn hre hcarrier (hR.serves hH) hf hbasic hlen hargs rfl hlt hyields
        fun us r w₁ w' hcomputed hends hw' => ?_, fun w₁ w' r o hends hlimits => ?_⟩
    · refine (Exec.refines_framed_call hre (Nat.le_of_lt hlt) F fun u hu => ?_).refinesFrom hw'
      rcases List.mem_append.1 hu with hu | hu
      · rcases kept_of_wrapped hR hplain hquiet hargs hcomputed hends hu with rfl | hu | rfl | hu
        · exact .inr Value.within_void
        · exact .inr (hheld _ (.tail _ (.tail _ hu)))
        · exact .inr (hheld _ (.tail _ (.head _)))
        · exact .inl (.tail _ hu)
      · exact .inl (List.mem_singleton.1 hu ▸ .head _)
    · have hself : Exec.Refines w₁.held Eq (Exec.call host re d' F (Exec.results H.type r))
          (Exec.call host re d' F (Exec.results H.type r)) :=
        Exec.refines_call hre w₁.held (Nat.le_refl d') F _
      rw [← hself.frames_eq hends hlimits]
      exact hends
  · obtain ⟨kept, hkept⟩ := Exec.refinesFrom_filterReturn_kept hre hcarrier (hR.serves hH) hf hbasic
      hlen hargs rfl hlt hyields
    exact ⟨[⟨[], kept⟩], _, fun hnone => absurd hnone hplain, hkept,
      fun w₁ w' r o hends _ => hends.withFrame⟩

/-- A handle whose results are filtered does what the target and the filter do one after the other. -/
theorem invoke_eq (h : H.Filtered F B) (hre : re.Blind) (hre' : re.Stays host)
    (hw : w.Reachable host) (hH : H.Proper) (hF : F.Proper) (hB : B.Proper)
    (hheld : w.Holds (.handle H :: .handle F :: .handle B :: args))
    (hargs : args.map Value.basicType = H.type.basicParams)
    (hresult : ∀ r, (Act.invoke host re H .basic args w).1 = .ok r →
      r.basicType = H.type.basicRet) :
    ∃ frames, (H.species? = none → frames = []) ∧
      (¬ Outcome.Limited (Act.invoke host re B .basic args w).1 →
        ¬ Outcome.Limited (Act.invokeFiltered host re H F frames args w).1 →
          Act.invoke host re B .basic args w = Act.invokeFiltered host re H F frames args w) := by
  obtain ⟨R, hR, hf, hbound⟩ := h.made
  obtain ⟨s, -, hcarrier, hvalues⟩ := hR.carrier hH
  have hlen : R.bound.length = s.fields.length := by
    simpa using congrArg List.length hvalues
  have hcount : args.length = H.type.arity := by
    simpa using congrArg List.length hargs
  have hfits : args.map Value.basicType = B.type.basicParams := by
    rw [hargs, h.type_eq]
    rfl
  have hvalues : ∀ v ∈ .void :: .handle H :: args, v.Within w.held := by
    intro v hv
    rcases List.mem_cons.1 hv with rfl | hv
    · exact Value.within_void
    · refine hheld v ?_
      rcases List.mem_cons.1 hv with rfl | hv
      · exact .head _
      · exact .tail _ (.tail _ (.tail _ hv))
  obtain ⟨d, hlt, hle⟩ : ∃ d, w.limits.depth < d ∧
      (Act.invoke host re H .basic args w).2.limits.depth ≤ d :=
    ⟨_, Nat.le_max_left (w.limits.depth + 1) _, Nat.le_max_right _ _⟩
  obtain ⟨frames, K, hplain, hrun, hK⟩ := h.exists_frames host hre
    (Act.quiet_of_sound hw.sound hH) hH hR hcarrier hf hlen hvalues hcount hlt
  refine ⟨frames, hplain, fun hlimits hlimits' => ?_⟩
  refine Act.invoke_eq_of_ends hre hB h.isSome (hheld _ (.tail _ (.tail _ (.head _)))) hfits hlimits
    (hbound ▸ hrun) ?_
  refine Act.ends_bind (fun hlimits => Act.ends_call_of_invoke hre hw.sound hH hargs hlimits
    (Nat.le_of_lt hlt)) (fun r hr hlimits => hK _ _ r _ ?_ hlimits) hlimits'
  rw [results_eq]
  exact Act.ends_call_of_invoke hre
    ((Act.stays_invoke hre' H .basic args w hw).withFrames _).sound hF (h.map_results (hresult r hr))
    hlimits hle

end Filtered

/-- A handle with a zero result does what the target does, and answers the zero. -/
theorem Zeroed.invoke_eq (h : H.Zeroed type B) (hre : re.Blind) (hw : w.Reachable host)
    (hH : H.Proper) (hB : B.Proper) (hheld : w.Holds (.handle H :: .handle B :: args))
    (hargs : args.map Value.basicType = H.type.basicParams)
    (hlimits : ¬ Outcome.Limited (Act.invoke host re B .basic args w).1)
    (hlimits' : ¬ Outcome.Limited (Act.invokeZeroed host re H type args w).1) :
    Act.invoke host re B .basic args w = Act.invokeZeroed host re H type args w := by
  obtain ⟨R, hR, hf, hbound⟩ := h.made
  obtain ⟨s, -, hcarrier, -⟩ := hR.carrier hH
  have hcount : args.length = H.type.arity := by
    simpa using congrArg List.length hargs
  have hfits : args.map Value.basicType = B.type.basicParams := by
    rw [hargs, h.type_eq]
    rfl
  have hyields : Exec.Yields host re w.held R.form R.bound args fun d =>
      Exec.call host re d H args := Exec.yields_rebound hre hR hH (hheld _ (.head _)) hcount
  have hrun := Exec.refinesFrom_zeroReturn hre hcarrier (hR.serves hH) hf hcount rfl
    (Nat.lt_succ_self w.limits.depth) hyields
  refine Act.invoke_eq_of_ends hre hB h.isSome (hheld _ (.tail _ (.head _))) hfits hlimits
    (hbound ▸ hrun) ?_
  refine Act.ends_bind (fun hlimits => Act.ends_call_of_invoke hre hw.sound hH hargs hlimits
    (Nat.le_succ _)) (fun r hr _ => ?_) hlimits'
  exact ⟨0, fun spare => by rw [Nat.zero_add]; rfl⟩

end HandleOf

end HandleForms
