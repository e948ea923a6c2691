import HandleForms.Proofs.Run.Body

/-!
# Frames around invocations

While a handle is invoked, the frames of its run keep it and its arguments alive. A frame around the
invocation that holds nothing but the handle and arguments makes no difference (`Exec.refines_framed`),
so whoever passes a value on need not hold it any longer.
-/

namespace HandleForms

/-- Two stacks of frames that keep the same alive next to some values. -/
def Frames.Beside (vs held : List Value) (fs gs : List Frame) : Prop :=
  Frames.Same held (⟨[], vs⟩ :: fs) (⟨[], vs⟩ :: gs)

namespace Frames

variable {held vs us : List Value} {fs gs : List Frame}

/-- A frame that keeps the values may take their place. -/
theorem Under.replace {F : Frame} (h : Under held (⟨[], vs⟩ :: fs) (⟨[], vs⟩ :: gs))
    (hvs : ∀ v ∈ vs, v ∈ F.values) : Under held (F :: fs) (F :: gs) := by
  refine ⟨fun f hf => ?_, fun v hv => ?_⟩
  · rw [List.flatMap_cons, List.mem_append] at hf ⊢
    rcases hf with hf | hf
    · exact .inl (.inl hf)
    · exact (h.forms f hf).imp_left .inr
  · rw [List.flatMap_cons, List.mem_append] at hv ⊢
    rcases hv with hv | hv
    · exact .inl (.inl hv)
    · refine (h.values v (List.mem_append_right _ hv)).imp_left fun hv => ?_
      exact (List.mem_append.1 hv).imp_left (hvs v)

theorem Beside.replace {F : Frame} (h : Beside vs held fs gs) (hvs : ∀ v ∈ vs, v ∈ F.values) :
    Same held (F :: fs) (F :: gs) :=
  ⟨h.under.replace hvs, h.above.replace hvs⟩

theorem Beside.push (h : Beside vs held fs gs) (F : Frame) : Beside vs held (F :: fs) (F :: gs) := by
  have hswap : ∀ fs gs : List Frame, Under held (⟨F.forms, vs ++ F.values⟩ :: fs)
      (⟨F.forms, vs ++ F.values⟩ :: gs) → Under held (⟨[], vs⟩ :: F :: fs) (⟨[], vs⟩ :: F :: gs) :=
    fun fs gs h => ⟨fun f hf => by simpa using h.forms f (by simpa using hf),
      fun v hv => by simpa using h.values v (by simpa using hv)⟩
  have hsame := h.replace (F := ⟨F.forms, vs ++ F.values⟩) fun v hv => List.mem_append_left _ hv
  exact ⟨hswap _ _ hsame.under, hswap _ _ hsame.above⟩

/-- A frame of such values, and of others that are held, on one side. -/
theorem Same.beside (h : Same held fs gs) (hus : ∀ u ∈ us, u ∈ vs ∨ u.Within held) :
    Beside vs held (⟨[], us⟩ :: fs) gs := by
  refine ⟨⟨fun f hf => h.under.forms f (by simpa using hf), fun v hv => ?_⟩,
    ⟨fun f hf => by simpa using h.above.forms f (by simpa using hf), fun v hv => ?_⟩⟩
  · simp only [List.flatMap_cons, List.mem_append] at hv ⊢
    rcases hv with hv | hv | hv
    · exact .inl (.inl hv)
    · exact (hus v hv).imp_left .inl
    · exact (h.under.values v hv).imp_left .inr
  · simp only [List.flatMap_cons, List.mem_append] at hv ⊢
    rcases hv with hv | hv
    · exact .inl (.inl hv)
    · exact (h.above.values v hv).imp_left fun hv => .inr (.inr hv)

end Frames

namespace Exec

variable {σ : Type} {host : Host σ} {re : Reentry σ} {held vs us args : List Value}

/-! ## Runs -/

theorem refinesBeside_nameStep (hre : re.Blind) (depth : Nat) (form : Form) (n : Name Form)
    {values : List Value} (hvs : ∀ v ∈ vs, v ∈ values) :
    RefinesIn (Frames.Beside vs held) held Eq
      (nameStep (apply host re (runForm host re depth)) form n values)
      (nameStep (apply host re (runForm host re depth)) form n values) := by
  refine .pay_left (.pay_right ?_)
  cases n.expr with
  | none => exact .ofOutcome (.of_eq rfl)
  | some e =>
    refine .silent_left (silent_tracing _) (.silent_right (silent_tracing _) ?_)
    refine .bind (.ofOutcome (.of_eq rfl)) fun ops ops' hops => ?_
    subst hops
    refine .bind (.withFrame_of (fun _ _ h => h.replace hvs) (equates_apply hre held depth e.function ops).le)
      fun v v' hv => ?_
    subst hv
    exact .silent_left (silent_tracing _) (.silent_right (silent_tracing _) (.pure rfl))

/-- The frames of a run keep its arguments. -/
theorem refinesBeside_runForm (hre : re.Blind) (depth : Nat) (form : Form)
    (hvs : ∀ v ∈ vs, v ∈ args) : RefinesIn (Frames.Beside vs held) held Eq
      (runForm host re depth form args) (runForm host re depth form args) := by
  unfold runForm
  dsimp only
  split
  · exact .bind (Q := fun _ _ => False) (.ofOutcome (.stop _)) fun _ _ hfalse => hfalse.elim
  · cases depth with
    | zero => exact .ofOutcome (.stop _)
    | succ depth =>
      dsimp only
      refine .silent_left (silent_traceEnter _ _) (.silent_right (silent_traceEnter _ _) ?_)
      have hloop : ∀ (names : List (Name Form)) (values : List Value), (∀ v ∈ vs, v ∈ values) →
          RefinesIn (Frames.Beside vs held) held Eq
            (evaluate (apply host re (runForm host re depth)) form names values)
            (evaluate (apply host re (runForm host re depth)) form names values) := by
        intro names
        induction names with
        | nil => exact fun values _ => .pure rfl
        | cons n names ih =>
          intro values hvs
          rw [evaluate_eq_loop, loop]
          refine .bind (refinesBeside_nameStep hre depth form n hvs) fun v v' hv => ?_
          subst hv
          rw [← evaluate_eq_loop]
          exact ih _ fun v hv => List.mem_append_left _ (hvs v hv)
      refine .bind (hloop _ _ hvs) fun values values' hvalues => ?_
      subst hvalues
      have hexit : ∀ v : Value, RefinesIn (Frames.Beside vs held) held Eq
          (do tracing (σ := σ) fun t => t.exit form v
              return v)
          (do tracing fun t => t.exit form v
              return v) := fun v =>
        .silent_left (silent_tracing _) (.silent_right (silent_tracing _) (.pure rfl))
      cases form.result with
      | none => exact .bind (Q := Eq) (.pure rfl) fun v v' hv => hv ▸ hexit v
      | some r => exact .bind (Q := Eq) (.ofOutcome (.of_eq rfl)) fun v v' hv => hv ▸ hexit v

/-- So do the frames of an invocation, and they keep the handle. -/
theorem refinesBeside_invokeHandle (hre : re.Blind) (depth : Nat) (h : Handle) :
    RefinesIn (Frames.Beside (.handle h :: args) held) held Eq
      (invokeHandle (runForm host re depth) h args) (invokeHandle (runForm host re depth) h args) := by
  intro w fs gs fuel hheld hframes
  have hrun := (@refinesBeside_runForm σ host re held (.handle h :: args) (.handle h :: args) hre depth
    (w.currentForm h) fun v hv => hv).withFrame_of
      fun fs gs (hframes : Frames.Beside (.handle h :: args) held fs gs) =>
        hframes.push ⟨[w.currentForm h], []⟩
  exact hrun w fs gs fuel hheld hframes

/-- A frame around an invocation that keeps nothing but the handle and arguments makes no difference.
-/
theorem refines_framed (hre : re.Blind) (depth : Nat) (h : Handle)
    (hus : ∀ u ∈ us, u ∈ .handle h :: args ∨ u.Within held) :
    Refines held Eq (withFrame ⟨[], us⟩ (invokeHandle (runForm host re depth) h args))
      (invokeHandle (runForm host re depth) h args) :=
  .withFrame_left_of (fun _ _ hsame => hsame.beside hus) (refinesBeside_invokeHandle hre depth h)

end Exec

end HandleForms
