import HandleForms.Proofs.Guard.Steps

/-!
# Running forms keeps worlds guarded

The names of a form that reaches no member are evaluated one after the other, and each keeps the world
guarded. In a direct form the call of the member comes last: by then the class barrier was passed, or
the form passes none and the class is ready (`Exec.keeps_runForm`). What host code may ask for is then
kept by induction on how deep the calls go (`Host.Honest.keeps_reenter`).
-/

namespace HandleForms

variable {σ α β : Type}

namespace Exec

variable {host : Host σ} {values : σ → List Value} {re : Reentry σ} {run : Runner σ} {e : Execution σ}
  {vs args : List Value} {h : Handle} {id : Nat} {m : Member} {R : List Value → World σ → Prop}

/-! ## Direct forms -/

/-- Behind the class barrier the class of the member is ready. -/
theorem keeps_passBarrier (hhost : host.Honest values) (hre : re.Keeps host values)
    (hw : e.world.Guarded host values) (hmember : h.member? = some (id, m)) :
    Keeps host values e (passBarrier host re (.handle h)) fun v w' =>
      v.Sincere host w' ∧ w'.Ready host m.cls := by
  rw [passBarrier_member rfl hmember]
  refine .bind (.act (Act.keeps_ensure hhost hre hw m.cls)) fun status e' hw' _ hstatus => ?_
  cases status with
  | reentrant => exact .pure hw' ⟨Value.genuine_void, .inr hstatus⟩
  | done =>
    refine .bind (.act (Act.keeps_swapBarrier hw' hstatus)) fun swap e'' hw'' hlater _ => ?_
    have hready : e''.world.Ready host m.cls := .inl (hlater.initialized m.cls hstatus)
    refine Keeps.bind (Q := fun _ w' => w' = e''.world) ?_ fun _ e₃ hw₃ hlater₃ _ =>
      .pure hw₃ ⟨Value.genuine_void, hlater₃.ready hready⟩
    cases swap with
    | none => exact .pure hw'' rfl
    | some swap => exact .tracing hw'' _

variable (run) in
/-- A call of the member whose class is ready. -/
theorem keeps_linkTo (link : Signature) (hhost : host.Honest values) (hre : re.Keeps host values)
    (hw : e.world.Guarded host values) (hargs : Value.Genuine host e.world.host args)
    (hlast : args.getLast? = some (.member id m))
    (hready : m.needsClass = true → e.world.Ready host m.cls) :
    Keeps host values e (intrinsic host re run (.linkTo m.kind link) args) (Value.Sincere host) := by
  unfold intrinsic
  simp only [hlast]
  have hinit : Value.Genuine host e.world.host args.dropLast :=
    Value.genuine_iff_forall_mem.2 fun u hu => hargs.of_mem (List.dropLast_subset _ hu)
  refine keeps_callHost hre hw rfl nofun ?_ hinit (hhost.member ..)
  intro cls hcls
  obtain ⟨hneeds, hcls⟩ := Option.ite_none_right_eq_some.1 hcls
  exact Option.some.inj hcls ▸ hready hneeds

variable (run) in
theorem keeps_allocateInstance (hhost : host.Honest values) (hre : re.Keeps host values)
    (hw : e.world.Guarded host values) (hmember : h.member? = some (id, m))
    (hready : e.world.Ready host m.cls) :
    Keeps host values e (intrinsic host re run .allocateInstance [.handle h]) (Value.Sincere host) := by
  refine .ofViolation_bind hw fun v hv => .bind (keeps_directMember hw) ?_
  rintro p e' hw' hlater ⟨-, g, rfl, hp⟩
  cases hv
  obtain rfl := Option.some.inj (hmember.symm.trans hp)
  refine keeps_callHost hre hw' rfl nofun ?_ Value.genuine_nil (hhost.allocate ..)
  rintro cls ⟨⟩
  exact hlater.ready hready

variable (re run) in
/-- The member of a handle as a value. -/
theorem keeps_memberOf {op : Intrinsic} (hop : op = .internalMemberName ∨ op = .constructorMember)
    (hw : e.world.Guarded host values) (hmember : h.member? = some (id, m)) :
    Keeps host values e (intrinsic host re run op [.handle h]) fun v _ => v = .member id m := by
  have hkeeps : Keeps host values e (do
      let p ← directMember (← act (Act.ofViolation (valueAt [.handle h] 0)))
      return .member p.1 p.2 : Exec σ Value) fun v _ => v = .member id m := by
    refine .ofViolation_bind hw fun v hv => .bind (keeps_directMember hw) ?_
    rintro p e' hw' - ⟨-, g, rfl, hp⟩
    cases hv
    obtain rfl := Option.some.inj (hmember.symm.trans hp)
    exact .pure hw' rfl
  rcases hop with rfl | rfl <;> exact hkeeps

/-! ## Evaluating names -/

/-- One name is evaluated, then the others. -/
theorem keeps_evaluate_cons {apply : Function Form → List Value → Exec σ Value} {form : Form}
    {n : Name Form} {rest : List (Name Form)} {P : Value → World σ → Prop}
    (hw : e.world.Guarded host values) (hP : ∀ v w' fs, P v w' → P v (w'.withFrames fs))
    (hn : ∀ expr args (e' : Execution σ), n.expr = some expr →
      expr.args.mapM (operand vs) = .ok args → e'.world.Guarded host values →
      e.world.Later host e'.world → Keeps host values e' (apply expr.function args) P)
    (hrest : ∀ v (e' : Execution σ), e'.world.Guarded host values → e.world.Later host e'.world →
      P v e'.world → Keeps host values e' (evaluate apply form rest (vs ++ [v])) R) :
    Keeps host values e (evaluate apply form (n :: rest) vs) R := by
  refine .bind (.consumeFuel hw) fun _ e₁ hw₁ hlater₁ _ => ?_
  split
  · exact .throw hw₁ _
  next expr hexpr =>
  refine .bind (.tracing hw₁ _) fun _ e₂ hw₂ hlater₂ _ => .ofViolation_bind hw₂ fun args hargs => ?_
  have hlater := hlater₁.trans hlater₂
  refine .bind (.withFrame hw₂ (fun e₃ hw₃ halike => hn expr args e₃ hexpr hargs hw₃
    (hlater.trans halike.later)) hP) fun v e₃ hw₃ hlater₃ hv => ?_
  refine .bind (.tracing hw₃ _) fun _ e₄ hw₄ hlater₄ heq => ?_
  exact hrest v e₄ hw₄ ((hlater.trans hlater₃).trans hlater₄) (heq ▸ hv)

/-- Names that reach no member have genuine values. -/
theorem keeps_evaluate (hhost : host.Honest values) (hre : re.Keeps host values)
    (hrun : run.Keeps host values) (form : Form) {names : List (Name Form)}
    (hplain : ∀ n ∈ names, n.ReachesNoMember) (hw : e.world.Guarded host values)
    (hvs : Value.Genuine host e.world.host vs) :
    Keeps host values e (evaluate (apply host re run) form names vs) fun us w' =>
      Value.Genuine host w'.host us := by
  induction names generalizing e vs with
  | nil => exact .pure hw hvs
  | cons n names ih =>
    refine keeps_evaluate_cons (P := Value.Sincere host) hw (fun _ _ _ hv => hv) ?_ ?_
    · intro expr args e' hexpr hargs hw' hlater
      have hargs' : Value.Genuine host e'.world.host args :=
        (hlater.genuine hvs).of_mapM_operand hargs
      have hfunction := hplain n (.head _) expr hexpr
      cases hf : expr.function with
      | intrinsic op =>
        rw [hf] at hfunction
        exact keeps_intrinsic hrun hfunction hw' hargs'
      | external name type =>
        exact keeps_callHost hre hw' rfl nofun nofun hargs' (hhost.primitive ..)
      | form callee =>
        rw [hf] at hfunction
        exact hfunction.elim
    · intro v e' hw' hlater hv
      exact ih (fun n hn => hplain n (.tail _ hn)) hw'
        (Value.genuine_append_iff.2 ⟨hlater.genuine hvs, hv⟩)

/-- The one operand that is the handle. -/
theorem eq_of_mapM_operand_zero (hzero : vs[0]? = some (.handle h))
    (hargs : [Arg.name 0].mapM (operand vs) = .ok args) : args = [.handle h] := by
  simp only [List.mapM_cons, List.mapM_nil, operand, valueAt, hzero] at hargs
  exact (Except.ok.inj hargs).symm

theorem getElem?_zero_concat {v u : Value} (hzero : vs[0]? = some v) : (vs ++ [u])[0]? = some v := by
  cases vs with
  | nil => cases hzero
  | cons => exact hzero

/-- The call that ends a direct form. -/
theorem keeps_link (hhost : host.Honest values) (hre : re.Keeps host values) (form : Form)
    {link : Signature} {as : List Arg} {i : Nat} (hw : e.world.Guarded host values)
    (hvs : Value.Genuine host e.world.host vs) (hmember : vs[i]? = some (.member id m))
    (hready : m.needsClass = true → e.world.Ready host m.cls) :
    Keeps host values e (evaluate (apply host re run) form
      [.apply (.intrinsic (.linkTo m.kind link)) (as ++ [Arg.name i])] vs) fun us w' =>
        Value.Genuine host w'.host us := by
  refine keeps_evaluate_cons (P := Value.Sincere host) hw (fun _ _ _ hv => hv) ?_ fun v e' hw' hlater hv =>
    .pure hw' (Value.genuine_append_iff.2 ⟨hlater.genuine hvs, hv⟩)
  rintro expr args e' ⟨⟩ hargs hw' hlater
  exact keeps_linkTo run link hhost hre hw' ((hlater.genuine hvs).of_mapM_operand hargs)
    (getLast?_of_mapM_operand hmember hargs) fun hneeds => hlater.ready (hready hneeds)

/-- What a direct form does behind the class barrier. -/
theorem keeps_dispatch (hhost : host.Honest values) (hre : re.Keeps host values) (form : Form)
    {basic link : Signature} (hw : e.world.Guarded host values)
    (hvs : Value.Genuine host e.world.host vs) (hzero : vs[0]? = some (.handle h))
    (hmember : h.member? = some (id, m))
    (hready : m.needsClass = true → e.world.Ready host m.cls) :
    Keeps host values e (evaluate (apply host re run) form
      (Form.dispatchExprs basic link m.kind vs.length) vs) fun us w' =>
        Value.Genuine host w'.host us := by
  have hreads : ∀ {args}, [Arg.name 0].mapM (operand vs) = .ok args → args = [.handle h] :=
    eq_of_mapM_operand_zero hzero
  unfold Form.dispatchExprs
  split
  · next hkind =>
    have hcls : e.world.Ready host m.cls := hready (by rw [Member.needsClass, hkind]; rfl)
    refine keeps_evaluate_cons (P := Value.Sincere host) hw (fun _ _ _ hv => hv) ?_ ?_
    · rintro expr args e' ⟨⟩ hargs hw' hlater
      obtain rfl := hreads hargs
      exact keeps_allocateInstance run hhost hre hw' hmember (hlater.ready hcls)
    intro instance' e₁ hw₁ hlater₁ hinstance
    have hvs₁ := Value.genuine_append_iff.2 ⟨hlater₁.genuine hvs, hinstance⟩
    refine keeps_evaluate_cons (P := fun v _ => v = .member id m) hw₁ (fun _ _ _ hv => hv) ?_ ?_
    · rintro expr args e' ⟨⟩ hargs hw' -
      obtain rfl := eq_of_mapM_operand_zero (getElem?_zero_concat hzero) hargs
      exact keeps_memberOf re run (.inr rfl) hw' hmember
    rintro _ e₂ hw₂ hlater₂ rfl
    have hslot : (vs ++ [instance'] ++ [Value.member id m])[vs.length + 1]? = some (.member id m) := by
      simp
    exact keeps_link hhost hre form hw₂
      (Value.genuine_append_iff.2 ⟨hlater₂.genuine hvs₁, Value.genuine_member id m⟩) hslot
      fun _ => (hlater₁.trans hlater₂).ready hcls
  · refine keeps_evaluate_cons (P := fun v _ => v = .member id m) hw (fun _ _ _ hv => hv) ?_ ?_
    · rintro expr args e' ⟨⟩ hargs hw' -
      obtain rfl := hreads hargs
      exact keeps_memberOf re run (.inl rfl) hw' hmember
    rintro _ e₁ hw₁ hlater₁ rfl
    exact keeps_link hhost hre form hw₁
      (Value.genuine_append_iff.2 ⟨hlater₁.genuine hvs, Value.genuine_member id m⟩)
      List.getElem?_concat_length fun hneeds => hlater₁.ready (hready hneeds)

/-- The names of a direct form, with its barrier or without it. -/
theorem keeps_directExprs (hhost : host.Honest values) (hre : re.Keeps host values) (form : Form)
    {basic link : Signature} {barrier : Bool} (hw : e.world.Guarded host values)
    (hvs : Value.Genuine host e.world.host vs) (hzero : vs[0]? = some (.handle h))
    (hmember : h.member? = some (id, m)) (hlength : vs.length = basic.arity + 1)
    (hready : m.needsClass = true → barrier = false → e.world.Ready host m.cls) :
    Keeps host values e (evaluate (apply host re run) form
      (Form.directExprs basic link m.kind barrier) vs) fun us w' =>
        Value.Genuine host w'.host us := by
  cases barrier with
  | false =>
    rw [Form.directExprs_false, ← hlength]
    exact keeps_dispatch hhost hre form hw hvs hzero hmember fun hneeds => hready hneeds rfl
  | true =>
    rw [Form.directExprs_true, ← hlength]
    refine keeps_evaluate_cons (P := fun v w' => v.Sincere host w' ∧ w'.Ready host m.cls) hw
      (fun _ _ _ hv => hv) ?_ ?_
    · rintro expr args e' ⟨⟩ hargs hw' -
      obtain rfl := eq_of_mapM_operand_zero hzero hargs
      exact .ofViolation_bind hw' fun v hv => by cases hv; exact keeps_passBarrier hhost hre hw' hmember
    rintro v e' hw' hlater ⟨hv, hcls⟩
    have hdispatch := @keeps_dispatch σ host values re run e' (vs ++ [v]) h id m hhost hre form
      basic link hw' (Value.genuine_append_iff.2 ⟨hlater.genuine hvs, hv⟩) (getElem?_zero_concat hzero)
      hmember fun _ => hcls
    rwa [List.length_append, List.length_singleton] at hdispatch

/-! ## Forms -/

/-- Running a form that suits the values keeps worlds guarded. -/
theorem keeps_runForm (hhost : host.Honest values) (hre : re.Keeps host values) (depth : Nat) :
    Runner.Keeps host values (runForm host re depth) := by
  induction depth with
  | zero =>
    intro e form args hw _ _
    unfold runForm
    dsimp only
    split
    · exact .bind (.throw (Q := fun _ _ => False) hw _) fun _ _ _ _ hfalse => hfalse.elim
    · exact .throw hw _
  | succ depth ih =>
    intro e form args hw hsuits hargs
    unfold runForm
    dsimp only
    split
    · exact .bind (.throw (Q := fun _ _ => False) hw _) fun _ _ _ _ hfalse => hfalse.elim
    next harity =>
    refine .bind (.traceEnter hw form args) fun _ e₁ hw₁ hlater₁ _ => ?_
    have hargs₁ := hlater₁.genuine hargs
    have hnames : Keeps host values e₁ (evaluate (apply host re (runForm host re depth)) form
        (form.names.drop form.arity) args) fun us w' => Value.Genuine host w'.host us := by
      cases hsuits with
      | plain hplain =>
        exact keeps_evaluate hhost hre ih form (fun n hn => hplain n (List.mem_of_mem_drop hn)) hw₁ hargs₁
      | @direct h id _ m basic barrier hzero hmember hform hready =>
        have hbarrier := World.hasBarrier_direct hform
        obtain ⟨link, -, hparts⟩ := Form.direct_eq_ok hform
        obtain ⟨-, rfl⟩ := Form.ofParts_eq_ok_iff.1 hparts
        rw [List.drop_left]
        refine keeps_directExprs hhost hre _ hw₁ hargs₁ hzero hmember ?_ fun hneeds hfree => ?_
        · simpa [Form.paramNames] using harity
        · refine hlater₁.ready (hready hneeds ?_)
          rw [hbarrier, hfree, Bool.false_and]
    refine .bind hnames fun us e₂ hw₂ hlater₂ hus => ?_
    have hexit : ∀ v : Value, v.Sincere host e₂.world → Keeps host values e₂ (do
        tracing fun t => t.exit form v
        return v) (Value.Sincere host) := fun v hv =>
      .bind (.tracing hw₂ _) fun _ e₃ hw₃ hlater₃ _ => .pure hw₃ (hlater₃.genuine hv)
    split
    · exact hexit .void Value.genuine_void
    · exact .ofViolation_bind hw₂ fun v hv => hexit v (hus.of_valueAt hv)

end Exec

/-! ## Invocations -/

namespace Act

variable {host : Host σ} {values : σ → List Value} {re : Reentry σ} {w : World σ} {h : Handle}
  {args : List Value}

theorem keeps_execute {x : Exec σ Value} (trace : Option Trace)
    (hx : Exec.Keeps host values ⟨w, w.limits.fuel, trace⟩ x (Value.Sincere host)) :
    Keeps host values w (execute trace x) fun r w' =>
      ∀ v, r.1 = .ok v → v.Sincere host w' := by
  obtain ⟨hguarded, hlater, hanswer⟩ := hx
  have hworld : (execute trace x w).2 = (x ⟨w, w.limits.fuel, trace⟩).2.world := by
    unfold execute
    rcases x ⟨w, w.limits.fuel, trace⟩ with ⟨(_ | _) | _, e⟩ <;> rfl
  refine ⟨by rwa [hworld], by rwa [hworld], fun r hr v hv => ?_⟩
  rw [hworld]
  refine hanswer v ?_
  unfold execute at hr
  rcases hx : x ⟨w, w.limits.fuel, trace⟩ with ⟨(_ | _) | _, e⟩ <;> rw [hx] at hr <;> cases hr
  · cases hv
  · exact congrArg _ (Except.ok.inj hv)

theorem keeps_linkAndCall (hhost : host.Honest values) (hre : re.Keeps host values)
    (hw : w.Guarded host values) (hargs : Value.Genuine host w.host (.handle h :: args))
    (type : Signature) (generic : Bool) :
    Keeps host values w (linkAndCall host re h type generic args) (Value.Sincere host) := by
  refine (Keeps.ofError hw _).bind ?_
  rintro - w' hw' - ⟨rfl, -⟩
  have hform : Triple (σ := σ) [] (invokerForm type ⟨generic, true⟩) _ := triple_invokerForm _ _
  have halike := (hform.onlyShares hw'.sound).alike
  refine Keeps.bind (Q := fun f w => f.ReachesNoMember)
    ⟨hw'.of_alike halike (hform.sound hw'.sound), halike.later, fun f hf => ?_⟩ ?_
  · obtain ⟨id, hlinker⟩ := Form.links_linker.1 (hform.answer hw'.sound hf)
    exact Form.reachesNoMember_linker hlinker
  intro linker w₁ hw₁ hlater₁ hplain
  have htoken : Value.Genuine host w₁.host (.handle h :: args ++ [.signature type]) :=
    Value.genuine_append_iff.2 ⟨hlater₁.genuine hargs, Value.genuine_of_parts fun _ hg => by cases hg⟩
  have hrun : ∀ v : World σ, v.Guarded host values → w₁.Alike v →
      Keeps host values v (runForm host re linker (.handle h :: args ++ [.signature type])) fun r w' =>
        ∀ v, r.1 = .ok v → v.Sincere host w' := fun v hv halike =>
    .look (keeps_execute none (Exec.keeps_runForm hhost hre _ _ linker _ hv (.plain hplain)
      (halike.later.genuine htoken)))
  refine (Keeps.withFrame hw₁ hrun fun _ _ _ hr => hr).bind fun r w₂ hw₂ _ hr => ?_
  refine (Keeps.ofError hw₂ _).imp ?_
  rintro v _ - - ⟨rfl, hv⟩
  exact hr v hv

/-- An invocation of a genuine handle keeps worlds guarded. -/
theorem keeps_invoke (hhost : host.Honest values) (hre : re.Keeps host values)
    (hw : w.Guarded host values) (hargs : Value.Genuine host w.host (.handle h :: args))
    (site : CallSite) :
    Keeps host values w (invoke host re h site args) (Value.Sincere host) := by
  cases site with
  | basic =>
    refine (Keeps.ofError hw _).bind ?_
    rintro - w' hw' - ⟨rfl, -⟩
    refine Keeps.bind (Q := fun r w' => ∀ v, r.1 = .ok v → v.Sincere host w')
      (.look (keeps_execute none (Exec.keeps_invokeHandle (Exec.keeps_runForm hhost hre _) hw' hargs)))
      fun r w₂ hw₂ _ hr => ?_
    refine (Keeps.ofError hw₂ _).imp ?_
    rintro v _ - - ⟨rfl, hv⟩
    exact hr v hv
  | exact type => exact keeps_linkAndCall hhost hre hw hargs type false
  | generic type => exact keeps_linkAndCall hhost hre hw hargs type true

/-- So does one that keeps a trace. -/
theorem keeps_invokeTraced (hhost : host.Honest values) (hre : re.Keeps host values)
    (hw : w.Guarded host values) (hargs : Value.Genuine host w.host (.handle h :: args))
    (verbosity : Verbosity) :
    Keeps host values w (invokeTraced host re verbosity h args) fun r w' =>
      ∀ v, r.1 = .ok v → v.Sincere host w' := by
  unfold invokeTraced invokeTracing
  dsimp only
  split
  · exact .pure hw nofun
  · exact (Keeps.look (keeps_execute _
      (Exec.keeps_invokeHandle (Exec.keeps_runForm hhost hre _) hw hargs))).bind
        fun _ w' hw' _ hr => .pure hw' hr

end Act

/-- What host code may ask for keeps worlds guarded, however deep the calls go. -/
theorem Host.Honest.keeps_reenter {host : Host σ} {values : σ → List Value} (hhost : host.Honest values)
    (levels : Nat) : (host.reenter levels).Keeps host values := by
  induction levels with
  | zero =>
    exact ⟨fun w _ _ _ hw _ => .throw hw _, fun w _ hw => .throw hw _⟩
  | succ levels ih =>
    exact ⟨fun w h site args hw hargs => Act.keeps_invoke hhost ih hw hargs site,
      fun w cls hw => (Act.keeps_ensure hhost ih hw cls).imp fun _ _ _ _ _ => trivial⟩

end HandleForms
