import HandleForms.Proofs.Handle.Limits
import HandleForms.Proofs.Run.Invocation
import HandleForms.Proofs.Run.Remainder

/-!
# Calls at a checked type

Call sites and invokers run different forms, with the type that they ask for in different places, but
both forms go on in the same way: the target is checked against the type, or viewed at it, and is
called (`Exec.loop_checkedCall`). So a call site (`Exec.refines_linker`) and an invoker
(`Exec.yields_invoker`) come to the same call, `Exec.callAt`.
-/

namespace HandleForms

variable {σ α : Type}

/-! ## Viewing a handle at a type -/

namespace Act

/-- The handle that is called when a call asks for a type: the target, or a copy of it at that type
if the call is a generic one. -/
def viewAt (generic : Bool) (h : Handle) (type : Signature) : Act σ Handle :=
  if generic then asType h type
  else if h.type = type then return h else fail (.wrongType type h.type)

variable {generic : Bool} {h t : Handle} {type : Signature} {w w' : World σ}

/-- What viewing a handle comes to. -/
theorem viewAt_apply (generic : Bool) (h : Handle) (type : Signature) (w : World σ) :
    viewAt generic h type w =
      if h.type = type then (.ok h, w)
      else if generic ∧ h.type.basic = type.basic then
        (.ok ⟨w.nextId, type, w.currentForm h, h.data⟩, { w with nextId := w.nextId + 1 })
      else (.error (.error (.wrongType type h.type)), w) := by
  cases generic with
  | false =>
    show (if h.type = type then pure h else fail (.wrongType type h.type) : Act σ Handle) w = _
    split <;> rfl
  | true =>
    show asType h type w = _
    unfold asType
    by_cases htype : h.type = type
    · rw [if_pos htype, if_pos htype]
      rfl
    · rw [if_neg htype, if_neg htype]
      by_cases hbasic : h.type.basic = type.basic
      · rw [if_neg (not_not.2 hbasic), if_pos ⟨rfl, hbasic⟩]
        rfl
      · rw [if_pos hbasic, if_neg fun h => hbasic h.2]
        rfl

/-- Frames do not matter to it. -/
theorem viewAt_withFrames (fs : List Frame) : viewAt generic h type (w.withFrames fs) =
    ((viewAt generic h type w).1, (viewAt generic h type w).2.withFrames fs) := by
  rw [viewAt_apply, viewAt_apply]
  split
  · rfl
  · split <;> rfl

theorem held_viewAt : (viewAt generic h type w).2.held = w.held := by
  rw [viewAt_apply]
  split
  · rfl
  · split <;> rfl

theorem frames_viewAt : (viewAt generic h type w).2.frames = w.frames := by
  rw [viewAt_apply]
  split
  · rfl
  · split <;> rfl

/-- A handle is viewed at the type that was asked for. -/
theorem type_viewAt (ht : (viewAt generic h type w).1 = .ok t) : t.type = type := by
  rw [viewAt_apply] at ht
  split at ht
  · next htype => rwa [← Except.ok.inj ht]
  · split at ht
    · rw [← Except.ok.inj ht]
    · cases ht

/-- Without a view it is the target itself. -/
theorem eq_of_viewAt (ht : (viewAt false h type w).1 = .ok t) : t = h := by
  rw [viewAt_apply] at ht
  split at ht
  · exact (Except.ok.inj ht).symm
  · rw [if_neg (by simp)] at ht
    cases ht

end Act

namespace Exec

variable {host : Host σ} {re : Reentry σ} {held vs args : List Value} {h : Handle} {generic : Bool}
  {type : Signature} {depth depth' : Nat} {f : Form}

/-- Calls the handle that a target is viewed as. -/
def callAt (host : Host σ) (re : Reentry σ) (depth : Nat) (generic : Bool) (h : Handle)
    (type : Signature) (args : List Value) : Exec σ Value := do
  let t ← act (Act.viewAt generic h type)
  call host re depth t args

/-- Viewing a handle does the same under whatever frames. -/
theorem refines_viewAt (R : List Frame → List Frame → Prop) (held : List Value) :
    RefinesIn (σ := σ) R held (fun t t' => t = t' ∧ t.type = type) (act (Act.viewAt generic h type))
      (act (Act.viewAt generic h type)) := by
  intro w fs gs fuel hheld _
  have hview : ∀ (fs : List Frame) fuel, act (Act.viewAt generic h type) ⟨w.withFrames fs, fuel, none⟩ =
      ((Act.viewAt generic h type w).1,
        ⟨(Act.viewAt generic h type w).2.withFrames fs, fuel, none⟩) := fun fs fuel => by
    unfold act
    rw [Act.viewAt_withFrames]
  refine .inr ⟨_, (Act.viewAt generic h type w).1, fuel, _, hview fs fuel,
    Act.held_viewAt.trans hheld, ?_, 0, fun spare => ?_⟩
  · cases hanswer : (Act.viewAt generic h type w).1 with
    | error stop => exact .stop stop
    | ok t => exact .ok ⟨rfl, Act.type_viewAt hanswer⟩
  · rw [Nat.zero_add]
    exact hview gs spare

/-- A frame around it keeps nothing that it needs. -/
theorem withFrame_viewAt (F : Frame) (k : Handle → α) :
    withFrame F (do return k (← act (Act.viewAt generic h type))) =
      (do return k (← act (Act.viewAt generic h type)) : Exec σ α) := by
  funext e
  have hview : ∀ e : Execution σ, (do return k (← act (Act.viewAt generic h type)) : Exec σ α) e =
      ((Act.viewAt generic h type e.world).1.map k,
        { e with world := (Act.viewAt generic h type e.world).2 }) := fun e => by
    rw [bind_apply, act]
    rcases Act.viewAt generic h type e.world with ⟨_ | _, w⟩ <;> rfl
  rw [withFrame_apply, hview, hview]
  dsimp only
  rw [Act.viewAt_withFrames]
  dsimp only [World.withFrames]
  rw [← @Act.frames_viewAt σ generic h type e.world]

/-! ## The check and the call -/

/-- What the check of a call answers. -/
def checkedAs (generic : Bool) (t : Handle) : Value := if generic then .handle t else .void

/-- The check views the target. -/
theorem apply_check (run : Runner σ) : apply host re run
      (.intrinsic (if generic then .checkGenericType else .checkExactType))
      [.handle h, .signature type] =
    (do return checkedAs generic (← act (Act.viewAt generic h type)) : Exec σ Value) := by
  cases generic with
  | true => rfl
  | false =>
    funext e
    have hexact : apply host re run (.intrinsic .checkExactType) [.handle h, .signature type] =
        (if h.type ≠ type then fail (.wrongType type h.type) else pure .void : Exec σ Value) := by
      by_cases htype : h.type = type <;> rfl
    show apply host re run (.intrinsic .checkExactType) [.handle h, .signature type] e = _
    rw [hexact, bind_apply, act, Act.viewAt_apply]
    by_cases htype : h.type = type
    · rw [if_neg (not_not.2 htype), if_pos htype]
      rfl
    · rw [if_pos htype, if_neg htype, if_neg (by simp)]
      rfl

/-- The names that check a target and call it. -/
theorem loop_checkedCall {run : Runner σ} {bound : List Value} {target first token : Nat}
    (htarget : vs[target]? = some (.handle h)) (htoken : vs[token]? = some (.signature type))
    (hargs : (List.range' first args.length).map (fun i => vs[i]?) = args.map some) :
    loop (fieldStep (apply host re run) bound)
      (Form.checkedCall generic type.basic target first (first + args.length) token vs.length) vs = (do
        let t ← act (Act.viewAt generic h type)
        let v ← withFrame ⟨[], vs ++ [checkedAs generic t]⟩ (invokeHandle run t args)
        return vs ++ [checkedAs generic t] ++ [v]) := by
  let check : Name Form := .apply
    (.intrinsic (if generic then .checkGenericType else .checkExactType)) [.name target, .name token]
  let callee : Nat := if generic then vs.length else target
  have hnames : Form.checkedCall generic type.basic target first (first + args.length) token
      vs.length = [check, .call type.basic (callee :: List.range' first args.length)] := by
    cases generic <;> simp [Form.checkedCall, check, callee, Name.call, Form.argRange]
  have hcheck : fieldStep (apply host re run) bound check vs =
      (do return checkedAs generic (← act (Act.viewAt generic h type)) : Exec σ Value) := by
    have hoperands : [Arg.name target, .name token].mapM (operand vs) =
        .ok [.handle h, .signature type] :=
      @mapM_operand_name [target, token] vs [.handle h, .signature type] (by simp [htarget, htoken])
    have hstep : fieldStep (apply host re run) bound check vs = (do
        let args ← act (Act.ofViolation ([Arg.name target, .name token].mapM (operand vs)))
        withFrame ⟨[], vs⟩ (apply host re run
          (.intrinsic (if generic then .checkGenericType else .checkExactType)) args)) := by
      cases generic <;> rfl
    have hpure : act (Act.ofViolation (.ok [.handle h, .signature type])) =
        (pure [.handle h, .signature type] : Exec σ (List Value)) := rfl
    rw [hstep, hoperands, hpure, pure_bind, apply_check, withFrame_viewAt]
  rw [hnames, loop_cons, hcheck, bind_assoc]
  funext e
  rw [bind_apply, bind_apply]
  cases hview : (act (Act.viewAt generic h type) e).1 with
  | error stop => rfl
  | ok t =>
    have hcallee : (vs ++ [checkedAs generic t])[callee]? = some (.handle t) := by
      cases generic with
      | true => exact List.getElem?_concat_length
      | false =>
        obtain rfl : t = h := Act.eq_of_viewAt hview
        obtain ⟨hlt, -⟩ := List.getElem?_eq_some_iff.1 htarget
        exact (List.getElem?_append_left hlt).trans htarget
    have hoperands : (callee :: List.range' first args.length).map
        (fun i => (vs ++ [checkedAs generic t])[i]?) = (.handle t :: args).map some := by
      rw [List.map_cons, List.map_cons, hcallee, ← hargs]
      refine congrArg _ (List.map_congr_left fun i hi => ?_)
      obtain ⟨v, -, hv⟩ := List.mem_map.1 (hargs ▸ List.mem_map_of_mem (f := fun i => vs[i]?) hi)
      obtain ⟨hlt, -⟩ := List.getElem?_eq_some_iff.1 hv.symm
      exact List.getElem?_append_left hlt
    have hbasic : t.type.basic = type.basic.basic := by
      rw [Act.type_viewAt hview, Signature.basic_basic]
    dsimp only
    rw [pure_bind, loop_cons, fieldStep_call hbasic hoperands]
    rfl

/-! ## Invokers and call sites -/

/-- The answer of a call is that of the form around it. -/
theorem resultOf_checkedCall {n : Name Form} {u v : Value}
    (hresult : f.result = Form.keptResult f.names (some (vs.length + 1)))
    (hn : f.names[vs.length + 1]? = some n) (hret : n.type = type.basicRet) :
    (resultOf f (vs ++ [u] ++ [v]) : Exec σ Value) =
      pure (if type.basicRet = .void then .void else v) := by
  rw [resultOf_kept hresult hn (v := v) (by simp), hret]

/-- The call is the last name of the forms that check their target. -/
theorem getElem?_checkedCall {basic : Signature} {params : List (Name Form)}
    {target first stop token next : Nat} (hlength : params.length = next) :
    ∃ n : Name Form, (params ++ Form.checkedCall generic basic target first stop token next)[next + 1]? =
      some n ∧ n.type = basic.basicRet := by
  rw [List.getElem?_append_right (by omega), show next + 1 - params.length = 1 by omega]
  cases generic <;> exact ⟨_, rfl, by
    simp [Name.apply, Function.invokeBasic, Function.ret, Intrinsic.ret]⟩

/-- The frames around such a call keep nothing that is not kept anyway. -/
theorem refines_callAt (hre : re.Blind) (hle : depth ≤ depth')
    (hvs : ∀ v ∈ vs, v ∈ args ∨ v.Within held) :
    Refines held Eq (do
        let t ← act (Act.viewAt generic h type)
        let v ← withFrame ⟨[], vs ++ [checkedAs generic t]⟩ (invokeHandle (runForm host re depth) t args)
        return if type.basicRet = .void then .void else v)
      (callAt host re depth' generic h type args) := by
  refine (refines_viewAt _ held).bind fun t t' ht => ?_
  obtain ⟨rfl, htype⟩ := ht
  subst htype
  have hframed : Refines held Eq
      (withFrame ⟨[], vs ++ [checkedAs generic t]⟩ (invokeHandle (runForm host re depth) t args))
      (invokeHandle (runForm host re depth') t args) := by
    refine (refines_framed hre depth t fun v hv => ?_).eq_trans (refines_invokeHandle hre held hle t args)
    rcases List.mem_append.1 hv with hv | hv
    · exact (hvs v hv).imp_left (.tail _)
    · rw [List.mem_singleton.1 hv]
      cases generic with
      | true => exact .inl (.head _)
      | false => exact .inr Value.within_void
  exact hframed.bind fun v v' hv => hv ▸ .pure rfl

/-- An invoker views its target at the type that it holds, and calls it. -/
theorem body_invoker {s : Species} {id : Nat} (run : Runner σ) (hs : s.fields = [.ref])
    (hform : Form.invoker generic s type.basic id = .ok f) (hlength : args.length = type.arity) :
    body host re run f [.signature type] (.handle h :: args) = (do
      let t ← act (Act.viewAt generic h type)
      let v ← withFrame ⟨[], (.void :: .handle h :: args ++ [.signature type]) ++ [checkedAs generic t]⟩
        (invokeHandle run t args)
      return if type.basicRet = .void then .void else v) := by
  have harity : type.basic.arity = args.length := by rw [Signature.arity_basic, hlength]
  let vs : List Value := .void :: .handle h :: args ++ [.signature type]
  have hvs : vs.length = args.length + 3 := by simp [vs]
  rw [Form.invoker_eq hs, harity] at hform
  obtain ⟨-, rfl⟩ := Form.ofParts_eq_ok_iff.1 hform
  have hread : fieldStep (apply host re run) [.signature type] (.apply (.getter s 0) [.name 0])
      (.void :: .handle h :: args) = pure (.signature type) := rfl
  have htoken : vs[args.length + 2]? = some (.signature type) := by
    rw [show args.length + 2 = (Value.void :: .handle h :: args).length by simp]
    exact List.getElem?_concat_length
  have hargs : (List.range' 2 args.length).map (fun i => vs[i]?) = args.map some := by
    refine List.ext_getElem (by simp) fun k hk hk' => ?_
    have hlt : k < args.length := by simpa using hk
    simp [vs, Nat.add_comm 2 k, List.getElem?_append_left hlt]
  have hloop := @loop_checkedCall σ host re vs args h generic type run [.signature type] 1 2
    (args.length + 2) rfl htoken hargs
  rw [hvs, Nat.add_comm 2] at hloop
  obtain ⟨n, hn, hret⟩ := @getElem?_checkedCall generic type.basic
    ((.carrier s :: Form.paramNames (.ref :: type.basic.basicParams)) ++
      [.apply (.getter s 0) [.name 0]]) 1 2 (args.length + 2) (args.length + 2) (args.length + 3)
    (by simp [Form.paramNames, hlength])
  rw [List.append_assoc, List.singleton_append] at hn
  rw [body, List.drop_left, loop_cons, hread, pure_bind]
  show (loop (fieldStep (apply host re run) [.signature type]) _ vs >>= fun values => resultOf _ values) = _
  rw [hloop, bind_assoc]
  refine bind_congr fun t => ?_
  rw [bind_assoc]
  refine bind_congr fun v => ?_
  rw [pure_bind, resultOf_checkedCall (by rw [hvs]) (hvs ▸ hn)
    (hret.trans (Signature.basicRet_basic type))]

/-- What an invoker yields. -/
theorem yields_invoker {I : Handle} (hre : re.Blind) (hI : I.Checks generic type)
    (hh : (Value.handle h).Within held) (hlength : args.length = type.arity) :
    Yields host re held I.form I.bound (.handle h :: args) fun d =>
      callAt host re d generic h type args := by
  intro d d' hlt
  obtain ⟨s, id, hs, hform⟩ := hI.form
  obtain ⟨_, -, hdata⟩ := hI.data
  have hbound : I.bound = [.signature type] := by simp [HandleOf.bound, hdata]
  rw [hbound, body_invoker _ hs hform hlength]
  refine refines_callAt hre (Nat.le_of_lt hlt) fun v hv => ?_
  simp only [List.mem_append, List.mem_cons, List.not_mem_nil, or_false] at hv
  rcases hv with (rfl | rfl | hv) | rfl
  · exact .inr Value.within_void
  · exact .inr hh
  · exact .inl hv
  · exact .inr (Value.within_ofConstant (.signature type))

/-- A call site views its target at the type that comes last, and calls it. -/
theorem refines_linker {id : Nat} {kept : List Value} (hre : re.Blind) (hle : depth ≤ depth')
    (hform : Form.linker generic type.basic id = .ok f) (hh : (Value.handle h).Within held)
    (hlength : args.length = type.arity) :
    RefinesIn (Frames.Keeping [f] kept held) held Eq
      (runForm host re depth f (.handle h :: args ++ [.signature type]))
      (callAt host re depth' generic h type args) := by
  let vs : List Value := .handle h :: args ++ [.signature type]
  have hvs : vs.length = args.length + 2 := by simp [vs]
  have hparams : (Form.paramNames (.ref :: type.basic.basicParams ++ [.ref])).length =
      args.length + 2 := by
    simp [Form.paramNames, hlength]
  let exprs : List (Name Form) := Form.checkedCall generic type.basic 0 1 (args.length + 1)
    (args.length + 1) (args.length + 2)
  have hlinker : Form.linker generic type.basic id =
      Form.ofParts id (Form.paramNames (.ref :: type.basic.basicParams ++ [.ref])) exprs
        (some (args.length + 3)) (InvokerShape.kind ⟨generic, true⟩) := by
    rw [Form.linker, hparams]
    rfl
  obtain ⟨n, hn, hret⟩ := @getElem?_checkedCall generic type.basic
    (Form.paramNames (.ref :: type.basic.basicParams ++ [.ref])) 0 1 (args.length + 1)
    (args.length + 1) (args.length + 2) hparams
  rw [hlinker] at hform
  obtain ⟨-, hf⟩ := Form.ofParts_eq_ok_iff.1 hform
  have hfarity : f.arity = args.length + 2 := by rw [hf]; exact hparams
  have hfnames : f.names.drop f.arity = exprs := by rw [hf]; exact List.drop_left
  have hfresult : f.result = Form.keptResult f.names (some (vs.length + 1)) := by rw [hf, hvs]
  have hfget : f.names[vs.length + 1]? = some n := by rw [hf, hvs]; exact hn
  have htoken : vs[args.length + 1]? = some (.signature type) := by
    rw [show args.length + 1 = (Value.handle h :: args).length by simp]
    exact List.getElem?_concat_length
  have hargs : (List.range' 1 args.length).map (fun i => vs[i]?) = args.map some := by
    refine List.ext_getElem (by simp) fun k hk hk' => ?_
    have hlt : k < args.length := by simpa using hk
    simp [vs, Nat.add_comm 1 k, List.getElem?_append_left hlt]
  have hplain : ∀ n ∈ exprs, n.fieldRead? = none := by
    intro n hn
    simp only [exprs, Form.checkedCall] at hn
    split at hn <;> simp only [List.mem_cons, List.not_mem_nil, or_false] at hn <;>
      rcases hn with rfl | rfl <;> rfl
  cases depth with
  | zero =>
    intro w fs gs fuel _ _
    rw [runForm_zero host re (hvs.trans hfarity.symm)]
    exact .inl (.inr rfl)
  | succ depth =>
    have hfields := @refinesKeeping_fields σ host re kept held vs [f] f depth exprs hre (.head _) [] hplain
    have hloop := @loop_checkedCall σ host re vs args h generic type (runForm host re depth) [] 0 1
      (args.length + 1) rfl htoken hargs
    rw [hvs, Nat.add_comm 1] at hloop
    have hcall : Refines held Eq (do
          let values ← loop (fieldStep (apply host re (runForm host re depth)) []) exprs vs
          resultOf f values)
        (callAt host re depth' generic h type args) := by
      have hresult : ∀ t v, (resultOf f (vs ++ [checkedAs generic t] ++ [v]) : Exec σ Value) =
          pure (if type.basicRet = .void then .void else v) := fun t v =>
        resultOf_checkedCall hfresult hfget (hret.trans (Signature.basicRet_basic type))
      rw [hloop]
      simp only [bind_assoc, pure_bind, hresult]
      refine refines_callAt hre (Nat.le_of_lt hle) fun v hv => ?_
      simp only [vs, List.mem_append, List.mem_cons, List.not_mem_nil, or_false] at hv
      rcases hv with (rfl | hv) | rfl
      · exact .inr hh
      · exact .inl hv
      · exact .inr (Value.within_ofConstant (.signature type))
    intro w fs gs fuel hheld hframes
    rw [runForm_succ host re depth (hvs.trans hfarity.symm), hfnames]
    exact hfields.trans_eq hcall w fs gs fuel hheld hframes

end Exec

/-! ## Call sites and invokers that hit no limit -/

namespace Act

variable {host : Host σ} {re : Reentry σ} {h I : Handle} {args : List Value} {generic : Bool}
  {type : Signature} {depth : Nat} {w : World σ}

/-- What a call site links to, before its linker runs. -/
theorem linkAndCall_apply {f : Form} {v : World σ} (hargs : checkArguments type args = .ok ())
    (hf : invokerForm type ⟨generic, true⟩ w = (.ok f, v)) (run : Exec.Runner σ) (fuel : Nat) :
    Exec.linkAndCall run h type generic args ⟨w, fuel, none⟩ =
      Exec.withFrame ⟨[f], []⟩ (run f (.handle h :: args ++ [.signature type])) ⟨v, fuel, none⟩ := by
  have hlinker : Exec.act (invokerForm type ⟨generic, true⟩) ⟨w, fuel, none⟩ =
      (.ok f, ⟨v, fuel, none⟩) := by
    unfold Exec.act
    rw [hf]
  unfold Exec.linkAndCall
  rw [hargs, Exec.bind_apply]
  show (Exec.act (invokerForm type ⟨generic, true⟩) >>= _ : Exec σ Value) ⟨w, fuel, none⟩ = _
  rw [Exec.bind_apply, hlinker]

/-- A call site that hits no limit ends like the call, which runs while the linker is kept alive. -/
theorem ends_linkAndCall (hre : re.Blind) (hw : w.Sound) (hh : (Value.handle h).Within w.held)
    (hslots : type.slots ≤ Signature.maxInvokerSlots) (hargs : checkArguments type args = .ok ())
    (hle : w.limits.depth ≤ depth) {site : CallSite}
    (hsite : site = if generic then .generic type else .exact type)
    (hlimits : ¬ Outcome.Limited (invoke host re h site args w).1) :
    ∃ fs u, (Exec.callAt host re depth generic h type args).Ends
        ((invokerForm type ⟨generic, true⟩ w).2.withFrames fs) (invoke host re h site args w).1 u ∧
      (invoke host re h site args w).2 = u.withFrames w.frames := by
  obtain ⟨f, hf⟩ := (completes_invokerForm ⟨generic, true⟩ hslots).answer hw
  have hspec : Triple (σ := σ) [] (invokerForm type ⟨generic, true⟩) _ := triple_invokerForm type _
  obtain ⟨id, hlinker⟩ := Form.links_linker.1 (hspec.answer hw hf)
  have hshares := hspec.onlyShares hw
  generalize hv : (invokerForm type ⟨generic, true⟩ w).2 = v at hshares ⊢
  have hmade : invokerForm type ⟨generic, true⟩ w = (.ok f, v) := Prod.ext hf hv
  rw [World.OnlyShares] at hshares
  have hframes : v.frames = w.frames := by rw [hshares]
  have hheld : v.held = w.held := by rw [hshares]
  have hinvocation : ∀ run, Exec.invocation (σ := σ) run h args site =
      Exec.linkAndCall run h type generic args := by
    subst hsite
    cases generic <;> exact fun _ => rfl
  rw [executes_invoke host re h args w.limits site w rfl, hinvocation, linkAndCall_apply hargs hmade,
    Exec.withFrame_apply] at hlimits ⊢
  dsimp only at hlimits ⊢
  have hlength : args.length = type.arity := by
    simpa using congrArg List.length (checkArguments_eq_ok_iff.1 hargs)
  let fs : List Frame := ⟨[f], []⟩ :: v.frames
  have hkept : ∀ g ∈ [f], g ∈ fs.flatMap Frame.forms := fun g hg =>
    List.mem_flatMap.2 ⟨_, .head _, hg⟩
  rcases Exec.refines_linker hre hle hlinker hh hlength v fs fs w.limits.fuel hheld
    ⟨.refl _ _, hkept, hkept, List.forall_mem_nil _, List.forall_mem_nil _⟩ with
    hlimited | ⟨o, o', rest, u, hrun, -, hagree, hends⟩
  · exact absurd hlimited hlimits
  · obtain rfl := hagree.eq
    rw [hrun]
    exact ⟨fs, _, hends, by rw [hframes]⟩

/-- An invoker that hits no limit ends like the call. -/
theorem ends_invoker (hre : re.Blind) (hI : I.Checks generic type)
    (hheld : w.Holds [.handle I, .handle h]) (hargs : checkArguments type args = .ok ())
    (hlt : w.limits.depth < depth)
    (hlimits : ¬ Outcome.Limited (invoke host re I .basic (.handle h :: args) w).1) :
    (Exec.callAt host re depth generic h type args).Ends w
      (invoke host re I .basic (.handle h :: args) w).1
      (invoke host re I .basic (.handle h :: args) w).2 := by
  have hfits : (Value.handle h :: args).map Value.basicType = I.type.basicParams := by
    rw [(Signature.invoker_ok hI.invoker).1, List.map_cons, checkArguments_eq_ok_iff.1 hargs]
    rfl
  have hlength : args.length = type.arity := by
    simpa using congrArg List.length (checkArguments_eq_ok_iff.1 hargs)
  obtain ⟨s, hs, hdata⟩ := hI.data
  have hbound : I.bound = [.signature type] := by simp [HandleOf.bound, hdata]
  have harity : (Value.handle h :: args).length + 1 = I.form.arity := by
    rw [hI.proper.serves.arity_eq, ← Signature.length_basicParams, ← hfits, List.length_map]
  have hyields : Exec.Yields host re w.held I.form I.bound (.handle h :: args) fun d =>
      Exec.callAt host re d generic h type args :=
    Exec.yields_invoker hre hI (hheld _ (.tail _ (.head _))) hlength
  have hbody := hyields w.limits.depth depth hlt
  rw [hbound] at hbody
  have hrun := Exec.refinesFrom_of_body hre hdata (hI.proper.bound s _ hdata).1 (hheld _ (.head _)) harity rfl
    (hbody.refinesFrom rfl) w.limits.fuel
  rw [invoke_basic hfits] at hlimits ⊢
  rcases hrun with hlimited | ⟨o, o', rest, u, hrun, -, hagree, hends⟩
  · exact absurd hlimited hlimits
  · obtain rfl := hagree.eq
    rw [hrun]
    exact hends

end Act

end HandleForms
