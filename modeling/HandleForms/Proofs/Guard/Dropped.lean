import HandleForms.Proofs.Form.Slots
import HandleForms.Proofs.Guard.Run
import HandleForms.Proofs.Run.Invocation
import HandleForms.Proofs.Run.Remainder

/-!
# What a dropped barrier changes

Behind the class barrier a direct form goes on like the one without a barrier, with every name one
further on. So once its class is initialized, a handle that still passes its barrier does what it does
after it has dropped it (`Act.invoke_dropped`): the form that it drops is kept alive on both sides, and
the form that it gets is alive as long as the handle is.
-/

namespace HandleForms

variable {σ α β : Type}

/-! ## Making the form without the barrier -/

namespace Act

/-- The computation answers in every world. -/
def Answers (x : Act σ α) : Prop := ∀ w, ∃ a, (x w).1 = .ok a

namespace Answers

theorem pure (a : α) : Answers (σ := σ) (Pure.pure a) := fun _ => ⟨a, rfl⟩

theorem bind {x : Act σ α} {k : α → Act σ β} (hx : Answers x) (hk : ∀ a, Answers (k a)) :
    Answers (x >>= k) := fun w => by
  obtain ⟨a, ha⟩ := hx w
  rw [bind_apply, ha]
  exact hk a _

theorem context (f : Live Kept → Context Kept → α × Context Kept) :
    Answers (σ := σ) (Act.context f) := fun _ => ⟨_, rfl⟩

theorem sharedForm (t : TypeForm) (p : FormPurpose) {build : Act σ Form} (hbuild : Answers build) :
    Answers (Act.sharedForm t p build) := by
  refine .bind (.context _) fun found => ?_
  cases found with
  | some f => exact .pure f
  | none => exact .bind hbuild fun f => .context _

/-- A basic type with a linker call has a direct form without a barrier. -/
theorem directForm {type link : Signature} {kind : DispatchKind}
    (hlink : Form.linkType type.basic kind = .ok link) :
    Answers (σ := σ) (Act.directForm type kind false) := by
  have hbuild : Answers (σ := σ) (newForm (Form.direct type.basic kind false)) :=
    .bind (.context _) fun id w => by
      obtain ⟨f, hf⟩ := Form.direct_ok false hlink id
      rw [hf]
      exact ⟨f, rfl⟩
  have hchecked : Answers (σ := σ)
      (checkSlots type (Signature.maxHandleSlots - if kind = .newSpecial then 1 else 0)) := by
    rw [checkSlots, if_neg]
    · exact .pure ()
    · have hslots := Form.slots_of_linkType hlink
      rw [Signature.slots_basic] at hslots
      omega
  exact .bind hchecked fun _ => .bind (.context _) fun t => .sharedForm t _ hbuild

end Answers

variable {h : Handle} {id : Nat} {m : Member} {w w' : World σ} {g : Form}

/-- A direct handle can drop its barrier. -/
theorem dropBarrier_ok {basic : Signature} {barrier : Bool} {f : Form}
    (hf : Form.direct basic m.kind barrier id = .ok f) (hbasic : h.type.basic = basic) (w : World σ) :
    ∃ g w', dropBarrier h m w = (.ok g, w') := by
  obtain ⟨link, hlink, -⟩ := Form.direct_eq_ok hf
  obtain ⟨g, hg⟩ := Answers.directForm (hbasic ▸ hlink) w
  rw [dropBarrier_apply]
  dsimp only
  rw [hg]
  exact ⟨g, _, rfl⟩

/-- A handle that dropped its barrier has the form that was made. -/
theorem eq_drop_of_dropBarrier (hdrop : dropBarrier h m w = (.ok g, w')) :
    ∃ v, Act.directForm h.type m.kind false w = (.ok g, v) ∧ w' = v.drop h m g := by
  rw [dropBarrier_apply] at hdrop
  dsimp only at hdrop
  split at hdrop
  · next hg =>
    obtain ⟨hok, rfl⟩ := Prod.mk.inj hdrop
    obtain rfl := Except.ok.inj hok
    exact ⟨_, Prod.ext hg rfl, rfl⟩
  · cases hdrop

/-- What there is after a handle dropped its barrier. -/
theorem dropBarrier_eq_ok (hdrop : dropBarrier h m w = (.ok g, w')) :
    w'.frames = w.frames ∧ w'.held = w.held ∧
      w'.swapped.lookup (h.id, h.type, m) = some g := by
  have hblind := blind_directForm (σ := σ) h.type m.kind false
  have hframes := hblind.frames w
  have hheld := hblind.held w
  obtain ⟨v, hform, rfl⟩ := eq_drop_of_dropBarrier hdrop
  rw [hform] at hframes hheld
  exact ⟨hframes, hheld, TypeForms.lookup_assign_self⟩

/-- In a sound world it is the direct form without the barrier, and nothing else changes but what is
shared. -/
theorem direct_of_dropBarrier (hw : w.Sound) (hdrop : dropBarrier h m w = (.ok g, w')) :
    (∃ id, Form.direct h.type.basic m.kind false id = .ok g) ∧
      ∃ v, w.OnlyShares v ∧ w' = v.drop h m g := by
  have htriple : Triple (σ := σ) [] (Act.directForm h.type m.kind false) _ := triple_directForm _ _ _
  have hshares := htriple.onlyShares hw
  obtain ⟨v, hform, rfl⟩ := eq_drop_of_dropBarrier hdrop
  rw [hform] at hshares
  exact ⟨htriple.answer hw (congrArg Prod.fst hform), v, hshares, rfl⟩

end Act

/-! ## Names one further on -/

namespace Form

variable {basic link : Signature} {kind : DispatchKind} {first : Nat} {f g : Form}

/-- Where names go when one more name stands at place `first`. -/
def shift (first i : Nat) : Nat := if i < first then i else i + 1

theorem map_argRange_shift (h : basic.arity < first) :
    (argRange 1 (basic.arity + 1)).map (Arg.map (shift first)) = argRange 1 (basic.arity + 1) := by
  rw [argRange, List.map_map]
  refine List.map_congr_left fun i hi => ?_
  have hlt := List.mem_range'_1.1 hi
  show Arg.name (shift first i) = .name i
  rw [shift, if_pos (by omega)]

/-- What stands behind the barrier is the same, one further on. -/
theorem dispatchExprs_succ (h : basic.arity < first) : dispatchExprs basic link kind (first + 1) =
    (dispatchExprs basic link kind first).map (Name.mapArgs (shift first)) := by
  have hzero : shift first 0 = 0 := if_pos (by omega)
  have hfirst : shift first first = first + 1 := if_neg (Nat.lt_irrefl _)
  have hnext : shift first (first + 1) = first + 2 := if_neg (by omega)
  unfold dispatchExprs
  split <;> simp [Name.apply, Name.mapArgs, Arg.map, hzero, hfirst, hnext, map_argRange_shift h]

/-- So is the result. -/
theorem result_direct {idf idg : Nat} (hf : direct basic kind true idf = .ok f)
    (hg : direct basic kind false idg = .ok g) :
    f.result = g.result.map (shift (basic.arity + 1)) := by
  obtain ⟨link, hlink, hf⟩ := direct_eq_ok hf
  obtain ⟨link', hlink', hg⟩ := direct_eq_ok hg
  obtain rfl := Except.ok.inj (hlink.symm.trans hlink')
  obtain ⟨-, rfl⟩ := ofParts_eq_ok_iff.1 hf
  obtain ⟨-, rfl⟩ := ofParts_eq_ok_iff.1 hg
  let c := if kind = .newSpecial then 0 else 1
  have hlength : (paramNames (.ref :: basic.basicParams)).length = basic.arity + 1 := by
    simp [paramNames]
  have htype : ((paramNames (.ref :: basic.basicParams) ++
        directExprs basic link kind true)[basic.arity + 1 + 1 + c]?).map Name.type =
      ((paramNames (.ref :: basic.basicParams) ++
        directExprs basic link kind false)[basic.arity + 1 + c]?).map Name.type := by
    rw [directExprs_true, directExprs_false, dispatchExprs_succ (Nat.lt_succ_self _), ← hlength,
      Nat.add_assoc, List.getElem?_append_right (Nat.le_add_right _ _),
      List.getElem?_append_right (Nat.le_add_right _ _), Nat.add_sub_cancel_left,
      Nat.add_sub_cancel_left, Nat.add_comm 1 c, List.getElem?_cons_succ, List.getElem?_map,
      Option.map_map, hlength]
    rfl
  show keptResult _ (some (basic.arity + 1 + 1 + c)) =
    (keptResult _ (some (basic.arity + 1 + c))).map _
  unfold keptResult
  rw [Option.filter_some, Option.filter_some, htype]
  split
  · rw [Option.map_some, shift, if_neg (by omega)]
    congr 1
    omega
  · rfl

end Form

/-! ## Behind the barrier -/

/-- The form that a held handle got when it dropped its barrier is alive anyway. -/
theorem World.indistinct_of_dropped {w : World σ} {fs : List Frame} {h : Handle} {id : Nat} {m : Member}
    {f g : Form} (hheld : (Value.handle h).Within w.held) (hmember : h.member? = some (id, m))
    (hg : w.swapped.lookup (h.id, h.type, m) = some g) (hfree : g.kind.hasBarrier = false) :
    (w.withFrames (⟨[f, g], []⟩ :: fs)).Indistinct (⟨[f], []⟩ :: fs) := by
  intro u pushed hu hdropped
  let withBoth : World σ := { u with frames := pushed ++ ⟨[f, g], []⟩ :: fs }
  let withOne : World σ := { u with frames := pushed ++ ⟨[f], []⟩ :: fs }
  have hroots : withBoth.roots = withOne.roots := by
    have hcyclic : withBoth.isCyclic = withOne.isCyclic := by
      funext o
      simp only [isCyclic, reachedObjects, withBoth, withOne, closure_frames]
      rfl
    simp only [roots, hcyclic]
    simp [withBoth, withOne]
  have hhandles : withBoth.liveHandles = withOne.liveHandles := by
    rw [liveHandles, liveHandles, hroots]
    simp only [withBoth, withOne, reached_frames]
  have hlive : g ∈ withOne.liveHandles.map withOne.currentForm := by
    refine List.mem_map.2 ⟨h, mem_liveHandles_of_held ?_, ?_⟩
    · exact (show u.held = w.held from hu) ▸ hheld _ (Value.handle_mem_parts h)
    · rw [currentForm_of_member? hmember]
      show (u.swapped.lookup (h.id, h.type, m)).getD h.form = g
      rw [hdropped _ g hg hfree, Option.getD_some]
  refine live_eq (fun x => ?_) fun x => iff_of_eq (congrArg (x ∈ ·) hhandles)
  have hframes : x ∈ withBoth.frames.flatMap Frame.forms ↔
      x = g ∨ x ∈ withOne.frames.flatMap Frame.forms := by
    simp only [withBoth, withOne, List.flatMap_append, List.flatMap_cons, List.mem_append,
      List.mem_cons, List.not_mem_nil, or_false]
    tauto
  show x ∈ withBoth.liveForms ↔ x ∈ withOne.liveForms
  rw [liveForms, liveForms, hhandles, List.mem_append, List.mem_append, List.mem_append,
    List.mem_append, hframes]
  constructor
  · rintro (((rfl | hx) | hx) | hx)
    · exact .inr hlive
    · exact .inl (.inl hx)
    · exact .inl (.inr hx)
    · exact .inr hx
  · exact Or.imp_left (Or.imp_left .inr)

namespace Exec

variable {host : Host σ} {re : Reentry σ} {held vs es us : List Value} {forms : List Form} {f g : Form}
  {depth : Nat} {names : List (Name Form)}

/-- Values behind the first ones are found one further on. -/
theorem getElem?_shift (v : Value) (i : Nat) :
    (vs ++ [v] ++ es)[Form.shift vs.length i]? = (vs ++ es)[i]? := by
  unfold Form.shift
  split
  · next h => simp [List.getElem?_append_left h]
  · next h =>
    rw [List.getElem?_append_right (by simp; omega), List.getElem?_append_right (by omega)]
    congr 1
    simp

/-- The answer is the same one further on. -/
theorem resultOf_shift (v : Value) (hresult : f.result = g.result.map (Form.shift vs.length)) :
    (resultOf f (vs ++ [v] ++ es) : Exec σ Value) = resultOf g (vs ++ es) := by
  unfold resultOf
  rw [hresult]
  cases g.result with
  | none => rfl
  | some r => simp only [Option.map_some, valueAt, getElem?_shift]

/-- With one more value in front of them the names do the same, one further on. -/
theorem refinesKeeping_remainder (hre : re.Blind) (hf : f ∈ forms) (hg : g ∈ forms)
    (hresult : f.result = g.result.map (Form.shift vs.length)) (names : List (Name Form))
    (es : List Value) : RefinesIn (Frames.Keeping forms [] held) held Eq
      (remainder host re depth f (names.map (Name.mapArgs (Form.shift vs.length)))
        (vs ++ [.void] ++ es))
      (remainder host re depth g names (vs ++ es)) := by
  induction names generalizing es with
  | nil =>
    rw [List.map_nil, remainder_nil, remainder_nil]
    exact refines_finish (resultOf_shift .void hresult)
  | cons n names ih =>
    rw [List.map_cons, remainder_cons, remainder_cons]
    refine .bind (refinesKeeping_nameStep hre hf hg n _ (fun i _ => getElem?_shift .void i)
      (fun u hu => ?_)
      fun v hv => .inl ?_) fun v v' hv => ?_
    · simp only [List.mem_append, List.mem_singleton] at hu ⊢
      rcases hu with (hu | rfl) | hu
      · exact .inl (.inl hu)
      · exact .inr (.inr Value.within_void)
      · exact .inl (.inr hu)
    · rcases List.mem_append.1 hv with hv | hv
      · exact List.mem_append_left _ (List.mem_append_left _ hv)
      · exact List.mem_append_right _ hv
    · subst hv
      rw [List.append_assoc _ es, List.append_assoc vs es]
      exact ih (es ++ [v])

/-! ## The barrier itself -/

variable {h : Handle} {id : Nat} {m : Member} {w w' : World σ} {fs : List Frame} {fuel : Nat}

variable (re) in
/-- Passing the barrier of an initialized class drops it. -/
theorem nameStep_barrier (run : Runner σ) (hzero : vs[0]? = some (.handle h))
    (hmember : h.member? = some (id, m)) (hinit : host.isInitialized w.host m.cls = true)
    (hbarrier : (w.currentForm h).kind.hasBarrier = true)
    (hdrop : Act.dropBarrier h m w = (.ok g, w')) (hframes : w.Indistinct (⟨[f], vs⟩ :: fs)) :
    nameStep (apply host re run) f (.apply (.intrinsic .ensureInitialized) [.name 0]) vs
        ⟨w.withFrames fs, fuel + 1, none⟩ =
      (.ok .void, ⟨w'.withFrames fs, fuel, none⟩) := by
  let v := w.withFrames (⟨[f], vs⟩ :: fs)
  have hensure : Act.ensure host re m.cls v = (.ok .done, v) := by
    rw [Act.ensure_apply, hinit, if_pos rfl]
  have hswap : Act.swapBarrier h m v =
      (.ok (some (w.currentForm h, g)), w'.withFrames (⟨[f], vs⟩ :: fs)) := by
    rw [(blind_swapBarrier hmember).eq w _ hframes, Act.swapBarrier_apply, if_pos hbarrier, hdrop]
    rfl
  have hpass : passBarrier host re (.handle h) ⟨v, fuel, none⟩ =
      (.ok .void, ⟨w'.withFrames (⟨[f], vs⟩ :: fs), fuel, none⟩) := by
    rw [passBarrier_member rfl hmember, passAs]
    rw [bind_apply, act, hensure]
    dsimp only
    rw [bind_apply, act, hswap]
    rfl
  have hframe : withFrame ⟨[f], vs⟩ (passBarrier host re (.handle h)) ⟨w.withFrames fs, fuel, none⟩ =
      (.ok .void, ⟨w'.withFrames fs, fuel, none⟩) := by
    rw [withFrame_apply]
    show ((passBarrier host re (.handle h) ⟨v, fuel, none⟩).1,
      { (passBarrier host re (.handle h) ⟨v, fuel, none⟩).2 with
        world := (passBarrier host re (.handle h) ⟨v, fuel, none⟩).2.world.withFrames fs }) = _
    rw [hpass]
  have hoperand : [Arg.name 0].mapM (operand vs) = .ok [.handle h] := by
    simp only [List.mapM_cons, List.mapM_nil, operand, valueAt, hzero]
    rfl
  have hstep : nameStep (apply host re run) f (.apply (.intrinsic .ensureInitialized) [.name 0]) vs
      ⟨w.withFrames fs, fuel + 1, none⟩ = (do
        let args ← act (Act.ofViolation ([Arg.name 0].mapM (operand vs)))
        let v ← withFrame ⟨[f], vs⟩ (intrinsic host re run .ensureInitialized args)
        tracing fun t => t.value v
        return v) ⟨w.withFrames fs, fuel, none⟩ := rfl
  rw [hstep, hoperand]
  show (withFrame ⟨[f], vs⟩ (passBarrier host re (.handle h)) >>= fun v => do
    tracing fun t => t.value v
    return v) ⟨w.withFrames fs, fuel, none⟩ = _
  rw [bind_apply, hframe]
  rfl

/-- A handle that is let through because the initializer is running keeps its form. -/
theorem passBarrier_reentrant {e : Execution σ} (hmember : h.member? = some (id, m))
    (hstatus : (Act.ensure host re m.cls e.world).1 = .ok .reentrant) :
    passBarrier host re (.handle h) e = (.ok .void, e) := by
  have hensure : Act.ensure host re m.cls e.world = (.ok .reentrant, e.world) :=
    Prod.ext hstatus (Act.ensure_reentrant (Prod.ext hstatus rfl))
  rw [passBarrier_member rfl hmember, passAs]
  rw [bind_apply, act, hensure]
  rfl

variable {basic link : Signature} {args : List Value}

/-- With its barrier a handle to a member of an initialized class does what it does without it. -/
theorem invokeHandle_dropped (hre : re.Blind) {idf idg : Nat} (hmember : h.member? = some (id, m))
    (hinit : host.isInitialized w.host m.cls = true) (hneeds : m.needsClass = true)
    (hf : Form.direct basic m.kind true idf = .ok f) (hcurrent : w.currentForm h = f)
    (hg : Form.direct basic m.kind false idg = .ok g)
    (hdrop : Act.dropBarrier h m w = (.ok g, w')) (hheld : (Value.handle h).Within w.held)
    (hframe : ⟨[f], .handle h :: args⟩ ∈ w.frames) (hlength : args.length = basic.arity) (fuel : Nat) :
    Outcome.Limited (invokeHandle (runForm host re depth) h args ⟨w, fuel, none⟩).1 ∨
      ∃ o rest w'', invokeHandle (runForm host re depth) h args ⟨w, fuel, none⟩ =
        (o, ⟨w'', rest, none⟩) ∧ (invokeHandle (runForm host re depth) h args).Ends w' o w'' := by
  obtain ⟨hframes, hheld', hlookup⟩ := Act.dropBarrier_eq_ok hdrop
  have hcurrent' : w'.currentForm h = g := by
    rw [World.currentForm_of_member? hmember, hlookup, Option.getD_some]
  have hfree : g.kind.hasBarrier = false := by
    rw [World.hasBarrier_direct hg]
    rfl
  have hbarrier : (w.currentForm h).kind.hasBarrier = true := by
    rw [hcurrent, World.hasBarrier_direct hf, Bool.true_and]
    exact hneeds
  obtain ⟨link, hlink, -⟩ := Form.direct_eq_ok hf
  obtain ⟨hfarity, hfnames⟩ := Form.names_direct hf hlink
  obtain ⟨hgarity, hgnames⟩ := Form.names_direct hg hlink
  let vs := Value.handle h :: args
  have hvs : vs.length = basic.arity + 1 := congrArg (· + 1) hlength
  have hinvoke : ∀ (depth fuel : Nat) (v : World σ),
      invokeHandle (runForm host re depth) h args ⟨v, fuel, none⟩ =
        withFrame ⟨[v.currentForm h], []⟩ (runForm host re depth (v.currentForm h) vs)
          ⟨v, fuel, none⟩ := fun _ _ _ => rfl
  rw [hinvoke, hcurrent, withFrame_apply]
  cases depth with
  | zero =>
    rw [runForm_zero host re (hvs.trans hfarity.symm)]
    exact .inl (.inr rfl)
  | succ depth =>
  rw [runForm_succ host re depth (hvs.trans hfarity.symm), hfnames, Form.directExprs_true,
    remainder_cons]
  cases fuel with
  | zero => exact .inl (.inl rfl)
  | succ fuel =>
  let fs : List Frame := ⟨[f], []⟩ :: w.frames
  let fs' : List Frame := ⟨[f, g], []⟩ :: w.frames
  let gs : List Frame := ⟨[g], []⟩ :: w.frames
  have hkeptf : f ∈ w.frames.flatMap Frame.forms := List.mem_flatMap.2 ⟨_, hframe, .head _⟩
  have hkeptvs : ∀ v ∈ vs, v ∈ w.frames.flatMap Frame.values := fun v hv =>
    List.mem_flatMap.2 ⟨_, hframe, hv⟩
  -- The frames in which the barrier is passed keep nothing that the outer ones do not.
  have hinner : w.Indistinct (⟨[f], vs⟩ :: fs) := by
    refine World.indistinct_of_same (.cons_kept (.cons_kept (.refl _ _) ?_ nofun) ?_ hkeptvs)
    · exact List.forall_mem_singleton.2 hkeptf
    · exact List.forall_mem_singleton.2 hkeptf
  let behind := Form.dispatchExprs basic link m.kind
  have hpass : (nameStep (apply host re (runForm host re depth)) f
        (.apply (.intrinsic .ensureInitialized) [.name 0]) vs >>= fun u =>
          remainder host re depth f (behind (basic.arity + 1 + 1)) (vs ++ [u]))
        ⟨w.withFrames fs, fuel + 1, none⟩ =
      remainder host re depth f (behind (basic.arity + 1 + 1)) (vs ++ [.void])
        ⟨w'.withFrames fs, fuel, none⟩ := by
    rw [bind_apply, nameStep_barrier re _ rfl hmember hinit hbarrier hdrop hinner]
  -- The new form is alive as long as the handle is, so a frame may keep it too.
  have hkept : remainder host re depth f (behind (basic.arity + 1 + 1)) (vs ++ [.void])
        ⟨w'.withFrames fs, fuel, none⟩ = _ :=
    (blind_remainder host hre depth f _ _).eq ⟨w'.withFrames fs', fuel, none⟩ fs
      (World.indistinct_of_dropped (hheld'.symm ▸ hheld) hmember hlookup hfree)
  have hkeeping : Frames.Keeping [f, g] [] w.held fs' gs := by
    refine ⟨⟨⟨?_, fun v hv => .inl hv⟩, ⟨?_, fun v hv => .inl hv⟩⟩, ?_, ?_, nofun, nofun⟩
    · rintro x (_ | ⟨_, _ | ⟨_, hx⟩⟩)
      · exact .inl (.tail _ hkeptf)
      · exact .inl (.head _)
      · exact .inl (.tail _ hx)
    · exact fun x hx => .inl (.tail _ hx)
    · exact List.forall_mem_cons.2 ⟨.head _, List.forall_mem_singleton.2 (.tail _ (.head _))⟩
    · exact List.forall_mem_cons.2 ⟨.tail _ hkeptf, List.forall_mem_singleton.2 (.head _)⟩
  have hrefines : RefinesIn (Frames.Keeping [f, g] [] w.held) w.held Eq
      (remainder host re depth f (behind (basic.arity + 1 + 1)) (vs ++ [.void]))
      (remainder host re depth g (behind (basic.arity + 1)) vs) := by
    have hremainder := @refinesKeeping_remainder σ host re w.held vs [f, g] f g depth hre (.head _)
      (.tail _ (.head _)) (hvs ▸ Form.result_direct hf hg) (behind (basic.arity + 1)) []
    rwa [List.append_nil, List.append_nil, hvs, ← Form.dispatchExprs_succ (Nat.lt_succ_self _)]
      at hremainder
  rw [show _ = _ from hpass, hkept]
  rcases hrefines w' fs' gs fuel hheld' hkeeping with hlimited | ⟨o, o', rest, w'', hx, -, hagree, cost, hy⟩
  · exact .inl hlimited
  obtain rfl := hagree.eq
  rw [hx]
  refine .inr ⟨o, rest, w''.withFrames w.frames, rfl, cost, fun spare => ?_⟩
  rw [hinvoke, hcurrent', withFrame_apply, runForm_succ host re depth (hvs.trans hgarity.symm),
    hgnames, Form.directExprs_false]
  show ((remainder host re depth g (behind (basic.arity + 1)) vs
      ⟨w'.withFrames (⟨[g], []⟩ :: w'.frames), cost + spare, none⟩).1, _) = _
  rw [hframes, show remainder host re depth g _ vs _ = _ from hy spare]

end Exec

/-! ## Invocations -/

namespace Act

variable {host : Host σ} {re : Reentry σ} {h : Handle} {id : Nat} {m : Member} {w w' : World σ}
  {args : List Value} {g : Form}

/-- Arguments that do not fit are refused before anything happens. -/
theorem invoke_unfit (hargs : args.map Value.basicType ≠ h.type.basicParams) :
    ∃ e, ∀ w : World σ, invoke host re h .basic args w = (.error (.error e), w) := by
  cases hcheck : checkArguments h.type args with
  | ok => exact absurd (checkArguments_eq_ok_iff.1 hcheck) hargs
  | error e =>
    refine ⟨e, fun w => ?_⟩
    simp only [invoke, hcheck]
    rfl

/-- A handle to a member of an initialized class can drop its barrier, and invocations then do what
they did before: they come to the same outcome, the same calls of the host and the same state of it,
unless a limit is hit. The caller keeps the handle and the form that it drops. -/
theorem invoke_dropped (hre : re.Blind) (hw : w.Sound) (hh : h.Proper)
    (hmember : h.member? = some (id, m)) (hneeds : m.needsClass = true)
    (hinit : host.isInitialized w.host m.cls = true)
    (hbarrier : (w.currentForm h).kind.hasBarrier = true) (hheld : (Value.handle h).Within w.held)
    (hframe : ⟨[w.currentForm h], .handle h :: args⟩ ∈ w.frames) :
    ∃ g w', dropBarrier h m w = (.ok g, w') ∧ w'.currentForm h = g ∧ g.kind.hasBarrier = false ∧
      (¬ Outcome.Limited (invoke host re h .basic args w).1 →
        ¬ Outcome.Limited (invoke host re h .basic args w').1 →
        (invoke host re h .basic args w).1 = (invoke host re h .basic args w').1 ∧
        (invoke host re h .basic args w).2.host = (invoke host re h .basic args w').2.host ∧
        (invoke host re h .basic args w).2.journal = (invoke host re h .basic args w').2.journal) := by
  obtain ⟨idf, hf⟩ := (hw.fits_currentForm hh).direct_eq (HandleOf.member?_eq_some_iff.1 hmember)
  rw [hbarrier] at hf
  obtain ⟨g, w', hdrop⟩ := dropBarrier_ok hf rfl w
  obtain ⟨-, -, hlookup⟩ := dropBarrier_eq_ok hdrop
  obtain ⟨⟨idg, hg⟩, v, hshares, rfl⟩ := direct_of_dropBarrier hw hdrop
  have hlimits : (v.drop h m g).limits = w.limits := by
    rw [World.OnlyShares] at hshares
    rw [hshares]
    rfl
  refine ⟨g, _, hdrop, ?_, World.hasBarrier_direct hg, fun hlimited hlimited' => ?_⟩
  · rw [World.currentForm_of_member? hmember, hlookup, Option.getD_some]
  by_cases hargs : args.map Value.basicType = h.type.basicParams
  · have hlength : args.length = h.type.basic.arity := by
      rw [← List.length_map Value.basicType, hargs, ← Signature.basicParams_basic,
        Signature.length_basicParams]
    rw [invoke_basic hargs] at hlimited
    have hends := ends_of_invoke hre hargs hlimited' (Nat.le_of_eq (congrArg ExecLimits.depth hlimits))
    rcases Exec.invokeHandle_dropped hre hmember hinit hneeds hf rfl hg hdrop hheld hframe hlength
      w.limits.fuel with hbarred | ⟨o, rest, w'', hrun, hends'⟩
    · exact absurd hbarred hlimited
    · obtain ⟨hout, hworld⟩ := hends.unique hends'
      rw [invoke_basic hargs, hrun, hout, hworld]
      exact ⟨rfl, rfl, rfl⟩
  · obtain ⟨e, he⟩ := @invoke_unfit σ host re h args hargs
    rw [he, he]
    have halike := hshares.alike
    exact ⟨rfl, halike.host.symm, halike.journal.symm⟩

end Act

end HandleForms
