import HandleForms.Proofs.Guard.World

/-!
# Computations that keep worlds guarded

`Act.Keeps` says that from a guarded world a computation leads to a later guarded world, whether it
answers or stops, and that its answer is `Q` there. Its rules are stated from one world on, so that
what is known of this world can be used. Making handles of genuine values keeps worlds guarded and
makes genuine handles (`Act.keeps_perform`): a direct handle is made without a barrier only if its
class is initialized, and its copies get the form that it has then.
-/

namespace HandleForms

variable {σ α β ε : Type}

namespace Act

/-- From the world the computation leads to a later guarded world, and its answer is `Q` there. -/
structure Keeps (host : Host σ) (values : σ → List Value) (w : World σ) (x : Act σ α)
    (Q : α → World σ → Prop) : Prop where
  guarded : (x w).2.Guarded host values
  later : w.Later host (x w).2
  answer : ∀ a, (x w).1 = .ok a → Q a (x w).2

variable {host : Host σ} {values : σ → List Value} {w : World σ} {x : Act σ α} {k : α → Act σ β}
  {Q Q' : α → World σ → Prop} {R : β → World σ → Prop}

namespace Keeps

theorem imp (h : Keeps host values w x Q)
    (himp : ∀ a w', w'.Guarded host values → w.Later host w' → Q a w' → Q' a w') :
    Keeps host values w x Q' :=
  ⟨h.guarded, h.later, fun a ha => himp a _ h.guarded h.later (h.answer a ha)⟩

theorem pure {a : α} (hw : w.Guarded host values) (ha : Q a w) :
    Keeps host values w (Pure.pure a : Act σ α) Q :=
  ⟨hw, .refl w, fun _ hb => Except.ok.inj hb ▸ ha⟩

theorem throw (hw : w.Guarded host values) (stop : Stop RuntimeError) :
    Keeps host values w (MonadExcept.throw stop : Act σ α) Q :=
  ⟨hw, .refl w, fun _ ha => by cases ha⟩

theorem bind (hx : Keeps host values w x Q)
    (hk : ∀ a w', w'.Guarded host values → w.Later host w' → Q a w' → Keeps host values w' (k a) R) :
    Keeps host values w (x >>= k) R := by
  obtain ⟨hguarded, hlater, hanswer⟩ := hx
  have happly := bind_apply x k w
  cases hr : (x w).1 with
  | error stop =>
    rw [hr] at happly
    exact ⟨by rwa [happly], by rwa [happly], fun b hb => by rw [happly] at hb; cases hb⟩
  | ok a =>
    rw [hr] at happly
    obtain ⟨hguarded', hlater', hanswer'⟩ := hk a _ hguarded hlater (hanswer a hr)
    exact ⟨by rwa [happly], by rw [happly]; exact hlater.trans hlater', by rwa [happly]⟩

theorem ofStop (hw : w.Guarded host values) (r : Except (Stop RuntimeError) α) :
    Keeps host values w (Act.ofStop r) fun a w' => w' = w ∧ r = .ok a := by
  cases r with
  | ok a => exact pure hw ⟨rfl, rfl⟩
  | error stop => exact throw hw stop

theorem ofError (hw : w.Guarded host values) (r : Except RuntimeError α) :
    Keeps host values w (Act.ofError r) fun a w' => w' = w ∧ r = .ok a :=
  (ofStop hw _).imp fun _ _ _ _ h => h.imp_right Stop.ofError_eq_ok_iff.1

/-- A change of the world. -/
theorem modify {f : World σ → World σ} (hguarded : (f w).Guarded host values)
    (hlater : w.Later host (f w)) :
    Keeps host values w (modify f : Act σ PUnit) fun _ w' => w' = f w :=
  ⟨hguarded, hlater, fun _ _ => rfl⟩

/-- Frames have no part in what is kept. -/
theorem withFrame {F : Frame} (hw : w.Guarded host values)
    (hx : ∀ v : World σ, v.Guarded host values → w.Alike v → Keeps host values v x Q)
    (hQ : ∀ a w' fs, Q a w' → Q a (w'.withFrames fs)) :
    Keeps host values w (Act.withFrame F x) Q := by
  obtain ⟨hguarded, hlater, hanswer⟩ :=
    hx (w.withFrames (F :: w.frames)) (hw.withFrames _) (w.alike_withFrames _)
  have hstart : w.Later host _ := (w.alike_withFrames (F :: w.frames)).later
  have hend := @World.Alike.later _ host _ _
    (World.alike_withFrames (x (w.withFrames (F :: w.frames))).2 w.frames)
  exact ⟨hguarded.withFrames _, (hstart.trans hlater).trans hend, fun a ha => hQ a _ _ (hanswer a ha)⟩

theorem attempt (hx : Keeps host values w x Q) :
    Keeps host values w (Act.attempt x) fun r w' => ∀ a, r = .ok a → Q a w' := by
  obtain ⟨hguarded, hlater, hanswer⟩ := hx
  have hworld : (Act.attempt x w).2 = (x w).2 := by
    unfold Act.attempt
    split <;> next heq => rw [heq]
  refine ⟨by rwa [hworld], by rwa [hworld], fun r hr a ha => ?_⟩
  subst ha
  rw [hworld]
  refine hanswer a ?_
  unfold Act.attempt at hr
  split at hr
  · next heq =>
    rw [heq]
    exact congrArg _ (Except.ok.inj (Except.ok.inj hr))
  · cases Except.ok.inj hr
  · cases hr

/-- What host code asks of the runtime. -/
theorem request {pinned : List Value} (hw : w.Guarded host values)
    (hx : ∀ v : World σ, v.Guarded host values → w.Alike v → Keeps host values v x Q)
    (hQ : ∀ a w' fs, Q a w' → Q a (w'.withFrames fs)) :
    Keeps host values w (Act.request pinned x) fun r w' => ∀ a, r = .ok a → Q a w' :=
  withFrame hw (fun v hv halike => (hx v hv halike).attempt) fun _ _ fs h a ha => hQ a _ fs (h a ha)

end Keeps

/-! ## Making handles -/

/-- A look at the world behind a computation that does not change it. -/
theorem ofSignature_bind_get (r : Except SignatureError α) (k : α → World σ → Act σ β) (w : World σ) :
    (ofSignature r >>= fun a => get >>= k a) w = (ofSignature r >>= fun a => k a w) w := by
  rw [bind_apply, bind_apply]
  cases r <;> rfl

/-- A direct handle is made without a barrier only if its class is initialized. -/
theorem initialized_of_direct {m : Member} {B : Handle} (hw : w.Sound)
    (hB : (direct host m w).1 = .ok B) (hneeds : m.needsClass = true)
    (hfree : B.form.kind.hasBarrier = false) : host.isInitialized w.host m.cls = true := by
  let barrier := m.needsClass && !host.isInitialized w.host m.cls
  let make : Act σ Handle := do
    let type ← ofSignature m.handleType
    let form ← directForm type m.kind barrier
    newHandle type form (.direct (← freshId) m)
  have hmake : direct host m w = make w := ofSignature_bind_get _ _ w
  have hform : Triple [] make fun B => B.form.kind.hasBarrier = barrier := by
    refine (Triple.ofSignature _).bind fun type _ => (triple_directForm _ _ _).bind fun form hform =>
      triple_freshId.bind fun memberId _ => (triple_newHandle _ _ _).imp fun B hB => ?_
    obtain ⟨id, hform⟩ := hform
    rw [hB.2.1, World.hasBarrier_direct hform]
    cases hkind : m.kind.needsClass <;> simp [barrier, Member.needsClass, hkind]
  have hbarrier := hform.answer hw (hmake ▸ hB)
  simpa [barrier, hneeds, hfree] using hbarrier

/-- A copy of a handle has the form that the handle has now. -/
theorem form_of_asType {h B : Handle} {type : Signature} (hB : (asType h type w).1 = .ok B) :
    B = h ∨ B.form = w.currentForm h := by
  unfold asType at hB
  split at hB
  · exact .inl (Except.ok.inj hB).symm
  split at hB
  · cases hB
  · exact .inr (Except.ok.inj hB ▸ rfl)

end Act

namespace HandleOf

variable {h : Handle}

theorem needs?_of_member? (hplain : h.member? = none) : h.needs? = none := by
  obtain ⟨id, type, form, data⟩ := h
  cases data with
  | direct id m => cases hplain
  | simple => rfl
  | bound species values => rfl

theorem Genuine.of_plain {host : Host σ} {s : σ} (hproper : h.Proper) (hplain : h.member? = none) :
    h.Genuine host s :=
  ⟨hproper, fun cls hneeds => by rw [needs?_of_member? hplain] at hneeds; cases hneeds⟩

end HandleOf

namespace HandleOp

variable {host : Host σ} {s : σ} {op : HandleOp} {h : Handle} {type : Signature} {es : List Edit}
  {extra : List Value}

theorem genuine_of_mem_handles (hops : Value.Genuine host s op.operands) (hh : h ∈ op.handles) :
    Value.Genuine host s [.handle h] :=
  hops.of_mem (List.mem_append_left _ (List.mem_map_of_mem hh))

/-- The target and what an adapter binds are operands. -/
theorem Adapts.operands (hop : op.Adapts h type es extra) :
    h ∈ op.handles ∧ ∀ v ∈ extra, v ∈ op.operands := by
  cases hop with
  | insert => exact ⟨.head _, fun v hv => List.mem_append_right _ hv⟩
  | filter | collect | filterReturn | fold =>
    refine ⟨.head _, fun v hv => ?_⟩
    rw [List.mem_singleton.1 hv]
    exact .tail _ (.head _)
  | drop | dup | spread | zeroReturn | permute => exact ⟨.head _, List.forall_mem_nil _⟩

/-- What a carrier holds is genuine if the handle is. -/
theorem genuine_rebound {R : Handle} (hR : h.Rebound R) (hh : Value.Genuine host s [.handle h]) :
    Value.Genuine host s R.bound := by
  cases hR with
  | self => exact (Value.genuine_handle_iff.1 hh).2
  | wrapped _ _ _ _ _ hdata =>
    have hbound : R.bound = [.handle h] := by simp [HandleOf.bound, hdata]
    rwa [hbound]

end HandleOp

namespace Act

variable {host : Host σ} {values : σ → List Value} {w : World σ} {op : HandleOp} {B : Handle}

theorem genuine_of_perform (hw : w.Guarded host values)
    (hops : Value.Genuine host w.host op.operands) (hB : (perform host op w).1 = .ok B) :
    Value.Genuine host w.host [.handle B] := by
  have hhandles : ∀ h ∈ op.handles, h.Proper := fun h hh =>
    (Value.genuine_handle_iff.1 (HandleOp.genuine_of_mem_handles hops hh)).1.proper
  have hmakes : op.Makes B := (triple_perform host op).answer hw.sound hB hhandles
  have hproper := hmakes.proper hhandles
  rw [Value.genuine_handle_iff]
  have hsimple : B.data = .simple → B.Genuine host w.host ∧ Value.Genuine host w.host B.bound := by
    intro hdata
    refine ⟨.of_plain hproper (by simp [HandleOf.member?, hdata]), ?_⟩
    simp [HandleOf.bound, hdata, Value.genuine_nil]
  cases hmakes with
  | external _ _ hdata | empty _ _ hdata => exact hsimple hdata
  | basicInvoker hB => exact hsimple hB.1
  | exactInvoker hB | genericInvoker hB =>
    obtain ⟨s, -, hdata⟩ := hB.data
    refine ⟨.of_plain hproper (by simp [HandleOf.member?, hdata]), ?_⟩
    rw [HandleOf.bound, hdata]
    exact Value.genuine_of_parts fun g hg => by cases hg
  | @direct m barrier _ memberId _ htype hform hdata =>
    refine ⟨⟨hproper, fun cls hneeds hfree => ?_⟩, by simp [HandleOf.bound, hdata, Value.genuine_nil]⟩
    obtain ⟨_, m', hdata', hclass, rfl⟩ := HandleOf.needs?_eq_some_iff.1 hneeds
    obtain ⟨-, rfl⟩ := HandleData.direct.inj (hdata.symm.trans hdata')
    exact initialized_of_direct hw.sound hB hclass hfree
  | @asType h _ type hbasic htype hfits hform hdata =>
    obtain ⟨hh, hbound⟩ := Value.genuine_handle_iff.1
      (HandleOp.genuine_of_mem_handles hops (.head _))
    refine ⟨⟨hproper, fun cls hneeds hfree => ?_⟩, by simpa [HandleOf.bound, hdata] using hbound⟩
    have hneeds' : h.needs? = some cls := by rwa [HandleOf.needs?, ← hdata]
    rcases form_of_asType hB with rfl | hcurrent
    · exact hh.guarded cls hneeds hfree
    · exact hw.initialized_of_free hh hneeds' (hcurrent ▸ hfree)
  | insertNone | dropNone =>
    exact Value.genuine_handle_iff.1 (HandleOp.genuine_of_mem_handles hops (.head _))
  | adapted hop hadapted =>
    obtain ⟨htarget, hextra⟩ := hop.operands
    refine ⟨.of_plain hproper (HandleOf.member?_eq_none_of_bound hadapted.isSome), ?_⟩
    obtain ⟨-, R, hR, -, hdata⟩ := hadapted
    rw [HandleOf.bound_of_data hdata, Value.genuine_append_iff]
    refine ⟨HandleOp.genuine_rebound hR (HandleOp.genuine_of_mem_handles hops htarget), ?_⟩
    exact Value.genuine_iff_forall_mem.2 fun v hv => hops.of_mem (hextra v hv)

/-- Handles that are made of genuine values are genuine. -/
theorem keeps_perform (hw : w.Guarded host values) (hops : Value.Genuine host w.host op.operands) :
    Keeps host values w (perform host op) fun B w' => Value.Genuine host w'.host [.handle B] := by
  have htriple : Triple [] (perform host op) _ := triple_perform host op
  have halike := (htriple.onlyShares hw.sound).alike
  refine ⟨hw.of_alike halike (htriple.sound hw.sound), halike.later, fun B hB => ?_⟩
  rw [halike.host]
  exact genuine_of_perform hw hops hB

end Act

end HandleForms
