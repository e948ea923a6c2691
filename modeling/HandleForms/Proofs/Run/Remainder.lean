import HandleForms.Proofs.Run.Frames

/-!
# What is left of a run

`Exec.remainder` is what a run still does once some of its names have values. Steps of two runs are
compared one by one under frames that keep more than what the steps themselves hold
(`Frames.Keeping`).
-/

namespace HandleForms

variable {σ α : Type}

/-! ## Frames that keep more -/

/-- Two stacks of frames that keep the same alive, and both keep some forms and values. -/
structure Frames.Keeping (forms : List Form) (kept held : List Value) (fs gs : List Frame) :
    Prop where
  same : Same held fs gs
  left : ∀ f ∈ forms, f ∈ fs.flatMap Frame.forms
  right : ∀ f ∈ forms, f ∈ gs.flatMap Frame.forms
  leftValues : ∀ v ∈ kept, v ∈ fs.flatMap Frame.values ∨ v.Within held
  rightValues : ∀ v ∈ kept, v ∈ gs.flatMap Frame.values ∨ v.Within held

namespace Frames

variable {forms : List Form} {kept held : List Value} {fs gs : List Frame} {F G : Frame}

/-- A frame of what other frames keep. -/
theorem Under.cons_kept (h : Under held fs gs) (hforms : ∀ f ∈ F.forms, f ∈ gs.flatMap Frame.forms)
    (hvalues : ∀ v ∈ F.values, v ∈ gs.flatMap Frame.values) : Under held (F :: fs) gs := by
  constructor
  · intro f hf
    rw [List.flatMap_cons, List.mem_append] at hf
    exact hf.elim (fun hf => .inl (hforms f hf)) (h.forms f)
  · intro v hv
    rw [List.flatMap_cons, List.mem_append] at hv
    exact hv.elim (fun hv => .inl (hvalues v hv)) (h.values v)

theorem Same.cons_kept (h : Same held fs gs) (hforms : ∀ f ∈ F.forms, f ∈ fs.flatMap Frame.forms)
    (hvalues : ∀ v ∈ F.values, v ∈ fs.flatMap Frame.values) : Same held fs (F :: gs) :=
  ⟨h.under.cons_right F, h.above.cons_kept hforms hvalues⟩

/-- Frames of forms and values that are kept anyway. -/
theorem Keeping.cons (h : Keeping forms kept held fs gs) (hF : ∀ f ∈ F.forms, f ∈ forms)
    (hG : ∀ g ∈ G.forms, g ∈ forms)
    (hus : ∀ u ∈ F.values, u ∈ G.values ∨ u ∈ kept ∨ u.Within held)
    (hvs : ∀ v ∈ G.values, v ∈ F.values ∨ v ∈ kept ∨ v.Within held) :
    Same held (F :: fs) (G :: gs) := by
  refine ⟨⟨fun x hx => ?_, fun u hu => ?_⟩, ⟨fun x hx => ?_, fun v hv => ?_⟩⟩
  · rw [List.flatMap_cons, List.mem_append] at hx ⊢
    rcases hx with hx | hx
    · exact .inl (.inr (h.right x (hF x hx)))
    · exact (h.same.under.forms x hx).imp_left .inr
  · rw [List.flatMap_cons, List.mem_append] at hu ⊢
    rcases hu with hu | hu
    · rcases hus u hu with hu | hu | hu
      · exact .inl (.inl hu)
      · exact (h.rightValues u hu).imp_left .inr
      · exact .inr hu
    · exact (h.same.under.values u hu).imp_left .inr
  · rw [List.flatMap_cons, List.mem_append] at hx ⊢
    rcases hx with hx | hx
    · exact .inl (.inr (h.left x (hG x hx)))
    · exact (h.same.above.forms x hx).imp_left .inr
  · rw [List.flatMap_cons, List.mem_append] at hv ⊢
    rcases hv with hv | hv
    · rcases hvs v hv with hv | hv | hv
      · exact .inl (.inl hv)
      · exact (h.leftValues v hv).imp_left .inr
      · exact .inr hv
    · exact (h.same.above.values v hv).imp_left .inr

end Frames

namespace Exec

variable {host : Host σ} {re : Reentry σ} {kept held vs us : List Value} {forms : List Form}
  {f g : Form} {depth : Nat} {names : List (Name Form)}

/-! ## What is left of a run -/

theorem withFrame_apply (F : Frame) (x : Exec σ α) (e : Execution σ) :
    withFrame F x e = ((x { e with world := e.world.withFrames (F :: e.world.frames) }).1,
      { (x { e with world := e.world.withFrames (F :: e.world.frames) }).2 with
        world := (x { e with world := e.world.withFrames (F :: e.world.frames) }).2.world.withFrames
          e.world.frames }) := rfl

/-- What a run answers, given the values of all names. -/
def finish (f : Form) (values : List Value) : Exec σ Value := do
  let v ← resultOf f values
  tracing fun t => t.exit f v
  return v

/-- What is left of a run with the names that have no value yet. -/
def remainder (host : Host σ) (re : Reentry σ) (depth : Nat) (f : Form) (names : List (Name Form))
    (vs : List Value) : Exec σ Value := do
  let values ← evaluate (apply host re (runForm host re depth)) f names vs
  finish f values

theorem remainder_nil : remainder host re depth f [] vs = finish f vs := pure_bind ..

theorem remainder_cons (n : Name Form) : remainder host re depth f (n :: names) vs = (do
    let u ← nameStep (apply host re (runForm host re depth)) f n vs
    remainder host re depth f names (vs ++ [u])) := by
  unfold remainder
  rw [evaluate_eq_loop, loop]
  simp only [← evaluate_eq_loop, bind_assoc]

/-- A run without a trace. -/
theorem runForm_succ (host : Host σ) (re : Reentry σ) (depth : Nat) (hlength : vs.length = f.arity)
    (w : World σ) (fuel : Nat) : runForm host re (depth + 1) f vs ⟨w, fuel, none⟩ =
      remainder host re depth f (f.names.drop f.arity) vs ⟨w, fuel, none⟩ := by
  rw [runForm_succ_eq host re depth hlength, bind_apply, silent_traceEnter]
  unfold remainder finish
  rw [evaluate_eq_loop]

/-- What is left of a run sees nothing of the frames. -/
theorem blind_remainder (host : Host σ) (hre : re.Blind) (depth : Nat) (f : Form)
    (names : List (Name Form)) (vs : List Value) : Blind (remainder host re depth f names vs) := by
  have hevaluate : ∀ vs, Blind (evaluate (apply host re (runForm host re depth)) f names vs) :=
    Blind.congruence.evaluate_self (blind_serves host hre) (blind_runForm host hre depth) f names
  refine .bind (hevaluate vs) fun values => ?_
  exact .bind (Blind.congruence.resultOf (blind_serves host hre) f values) fun v =>
    .bind (Blind.congruence.tracing _) fun _ => .act (.pure v)

/-! ## Steps of two runs -/

/-- What a run answers does not depend on the world. -/
theorem refines_resultOf {R : List Frame → List Frame → Prop} :
    RefinesIn (σ := σ) R held Eq (resultOf f vs) (resultOf f vs) := by
  unfold resultOf
  cases f.result with
  | none => exact .pure rfl
  | some r => exact .ofOutcome (.of_eq rfl)

/-- Runs that answer the same end in the same way. -/
theorem refines_finish {R : List Frame → List Frame → Prop}
    (h : (resultOf f us : Exec σ Value) = resultOf g vs) :
    RefinesIn (σ := σ) R held Eq (finish f us) (finish g vs) := by
  unfold finish
  rw [h]
  refine .bind refines_resultOf fun v v' hv => ?_
  subst hv
  exact .silent_left (silent_tracing _) (.silent_right (silent_tracing _) (.pure rfl))

/-- A name does the same in two forms if its operands have the same values. -/
theorem refinesKeeping_nameStep (hre : re.Blind) (hf : f ∈ forms) (hg : g ∈ forms) (n : Name Form)
    (s : Nat → Nat) (hargs : ∀ i, .name i ∈ n.args → us[s i]? = vs[i]?)
    (hus : ∀ u ∈ us, u ∈ vs ∨ u ∈ kept ∨ u.Within held)
    (hvs : ∀ v ∈ vs, v ∈ us ∨ v ∈ kept ∨ v.Within held) :
    RefinesIn (Frames.Keeping forms kept held) held Eq
      (nameStep (apply host re (runForm host re depth)) f (n.mapArgs s) us)
      (nameStep (apply host re (runForm host re depth)) g n vs) := by
  refine .pay_left (.pay_right ?_)
  cases hexpr : n.expr with
  | none =>
    simp only [Name.mapArgs, hexpr, Option.map_none]
    exact .ofOutcome (.of_eq rfl)
  | some e =>
    simp only [Name.mapArgs, hexpr, Option.map_some]
    refine .silent_left (silent_tracing _) (.silent_right (silent_tracing _) ?_)
    rw [mapM_operand_map fun i hi => hargs i (by simpa [Name.args, hexpr] using hi)]
    refine .bind (.ofOutcome (.of_eq rfl)) fun ops ops' hops => ?_
    subst hops
    refine .bind (.withFrame_of (fun _ _ h => h.cons (List.forall_mem_singleton.2 hf)
      (List.forall_mem_singleton.2 hg) hus hvs)
      (equates_apply hre held depth e.function ops).le) fun v v' hv => ?_
    subst hv
    exact .silent_left (silent_tracing _) (.silent_right (silent_tracing _) (.pure rfl))

/-- A form that reads no field of a carrier does what its names come to. -/
theorem refinesKeeping_fields (hre : re.Blind) (hf : f ∈ forms) (bound : List Value)
    (hnames : ∀ n ∈ names, n.fieldRead? = none) :
    RefinesIn (Frames.Keeping forms kept held) held Eq (remainder host re depth f names vs) (do
      let values ← loop (fieldStep (apply host re (runForm host re depth)) bound) names vs
      resultOf f values) := by
  induction names generalizing vs with
  | nil =>
    rw [remainder_nil, loop, pure_bind]
    have hexit : RefinesIn (σ := σ) (Frames.Keeping forms kept held) held Eq (finish f vs)
        (resultOf f vs >>= Pure.pure) :=
      .bind refines_resultOf fun v v' hv => .silent_left (silent_tracing _) (.pure hv)
    rwa [bind_pure] at hexit
  | cons n names ih =>
    obtain ⟨hread, hnames⟩ := List.forall_mem_cons.1 hnames
    rw [remainder_cons, loop_cons, bind_assoc]
    refine .bind (Q := Eq) (.pay_left ?_) fun v v' hv => hv ▸ ih hnames
    rw [fieldStep, hread]
    cases n.expr with
    | none => exact .ofOutcome (.of_eq rfl)
    | some e =>
      refine .silent_left (silent_tracing _) (.bind (.ofOutcome (.of_eq rfl)) fun ops ops' hops => ?_)
      subst hops
      have hframes : RefinesIn (Frames.Keeping forms kept held) held Eq
          (withFrame ⟨[f], vs⟩ (apply host re (runForm host re depth) e.function ops))
          (withFrame ⟨[], vs⟩ (apply host re (runForm host re depth) e.function ops)) :=
        .withFrame_of (fun _ _ h => h.cons (List.forall_mem_singleton.2 hf) (by simp)
          (fun _ hu => .inl hu) fun _ hv => .inl hv) (equates_apply hre held depth e.function ops).le
      have hshown := hframes.bind (l := Pure.pure) fun v v' hv =>
        RefinesIn.silent_left (silent_tracing fun t => t.value v) (.pure hv)
      rwa [bind_pure] at hshown

end Exec

end HandleForms
