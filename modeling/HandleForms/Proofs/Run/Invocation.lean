import HandleForms.Proofs.Run.Edited
import HandleForms.Proofs.Run.Frames
import HandleForms.Proofs.Run.Limits
import HandleForms.Proofs.World.Reachable

/-!
# Invoking adapted handles

The carrier that an adapter edits yields what a call of its target does, whether it is the target
itself or a carrier around it (`Exec.yields_rebound`). A top-level invocation that hits no limit ends
like the same invocation with whatever limits are greater, so that what one computation is refined by
and what another one ends like can be put together to one equation between invocations
(`Act.invoke_eq`).
-/

namespace HandleForms

variable {σ α β : Type}

namespace Exec

variable {host : Host σ} {re : Reentry σ} {held : List Value} {h R B : Handle}
  {args bound : List Value} {depth depth' : Nat} {w w' : World σ} {o : Outcome Value}

/-! ## Handles that answer nothing -/

theorem ok_of_bind {x : Exec σ α} {k : α → Exec σ β} {e : Execution σ} {b : β}
    (h : ((x >>= k) e).1 = .ok b) : ∃ a, (x e).1 = .ok a ∧ (k a (x e).2).1 = .ok b := by
  rw [bind_apply] at h
  cases hx : (x e).1 with
  | ok a => exact ⟨a, rfl, by rwa [hx] at h⟩
  | error stop =>
    rw [hx] at h
    cases h

/-- A form without a result answers nothing. -/
theorem runForm_void {form : Form} (hresult : form.result = none) {e : Execution σ} {v : Value}
    (hv : (runForm host re depth form args e).1 = .ok v) : v = .void := by
  unfold runForm at hv
  dsimp only at hv
  split at hv
  · rw [bind_apply] at hv
    cases hv
  cases depth with
  | zero => cases hv
  | succ depth =>
    obtain ⟨-, -, hv⟩ := ok_of_bind hv
    obtain ⟨values, -, hv⟩ := ok_of_bind hv
    rw [hresult] at hv
    exact (Except.ok.inj hv).symm

theorem invokeHandle_void {e : Execution σ} {v : Value}
    (hresult : (e.world.currentForm h).result = none)
    (hv : (invokeHandle (runForm host re depth) h args e).1 = .ok v) : v = .void :=
  runForm_void hresult hv

/-- Calls a handle like a carrier around it does: a handle of a type without a result answers
nothing. -/
def call (host : Host σ) (re : Reentry σ) (depth : Nat) (h : Handle) (args : List Value) :
    Exec σ Value := do
  let v ← invokeHandle (runForm host re depth) h args
  return if h.type.basicRet = .void then .void else v

theorem refines_call (hre : re.Blind) (held : List Value) (hle : depth ≤ depth') (h : Handle)
    (args : List Value) :
    Refines held Eq (call host re depth h args) (call host re depth' h args) :=
  (refines_invokeHandle hre held hle h args).bind fun _ _ hv => hv ▸ .pure rfl

/-- The form that a handle has now answers nothing when its type has no result. -/
def Quiet (w : World σ) (h : Handle) : Prop :=
  h.type.basicRet = .void → (w.currentForm h).result = none

theorem call_apply {e : Execution σ} (hquiet : Quiet e.world h) :
    call host re depth h args e = invokeHandle (runForm host re depth) h args e := by
  have hbind := bind_apply (invokeHandle (runForm host re depth) h args)
    (fun v => (pure (if h.type.basicRet = .void then .void else v) : Exec σ Value)) e
  refine hbind.trans ?_
  cases hv : (invokeHandle (runForm host re depth) h args e).1 with
  | error stop => exact Prod.ext hv.symm rfl
  | ok v =>
    have hsame : (if h.type.basicRet = .void then .void else v) = v := by
      split
      · next hvoid => exact (invokeHandle_void (hquiet hvoid) hv).symm
      · rfl
    exact Prod.ext ((congrArg Except.ok hsame).trans hv.symm) rfl

theorem Ends.call (hquiet : Quiet w h)
    (hends : (invokeHandle (runForm host re depth) h args).Ends w o w') :
    (call host re depth h args).Ends w o w' := by
  obtain ⟨cost, hends⟩ := hends
  exact ⟨cost, fun spare => (call_apply hquiet).trans (hends spare)⟩

/-! ## What the carrier yields -/

/-- A result that has no value is not kept. -/
theorem resultOf_kept {f : Form} {n : Name Form} {r : Nat} {values : List Value} {v : Value}
    (hresult : f.result = Form.keptResult f.names (some r)) (hn : f.names[r]? = some n)
    (hv : values[r]? = some v) :
    (resultOf f values : Exec σ Value) = pure (if n.type = .void then .void else v) := by
  unfold resultOf
  rw [hresult, Form.keptResult]
  by_cases hvoid : n.type = .void
  · simp [hn, hvoid, Option.filter_some]
  · simp only [Option.filter_some, hn, Option.map_some, bne_iff_ne, ne_eq, Option.some.injEq, hvoid,
      not_false_eq_true, if_true, if_false, valueAt, hv]
    rfl

/-- A carrier around a handle reads the handle and calls it. -/
theorem loop_reinvoker {s : Species} {f : Form} {id : Nat} (hs : s.fields = [.ref])
    (hform : Form.reinvoker s h.type.basic id = .ok f) (hargs : args.length = h.type.arity)
    (run : Runner σ) :
    loop (fieldStep (apply host re run) [.handle h]) (f.names.drop f.arity) (.void :: args) = (do
      let v ← withFrame ⟨[], .void :: args ++ [.handle h]⟩ (invokeHandle run h args)
      return .void :: args ++ [.handle h, v]) := by
  have harity : h.type.basic.arity = args.length := by rw [Signature.arity_basic, hargs]
  rw [Form.reinvoker_eq hs, harity] at hform
  obtain ⟨-, rfl⟩ := Form.ofParts_eq_ok_iff.1 hform
  have hvalues : ((args.length + 1) :: List.range' 1 args.length).map
      (fun i => (.void :: args ++ [.handle h])[i]?) = (.handle h :: args).map some := by
    rw [List.map_cons, List.map_cons, ← List.length_cons (a := Value.void),
      List.getElem?_concat_length]
    refine congrArg _ (List.ext_getElem (by simp) fun k hk hk' => ?_)
    have hlt : k < args.length := by simpa using hk
    simp [Nat.add_comm 1 k, List.getElem?_append_left hlt]
  have hread : fieldStep (apply host re run) [.handle h]
      (.apply (.getter s 0) [.name 0]) (.void :: args) = pure (.handle h) := rfl
  rw [List.drop_left, loop_cons, hread, pure_bind, loop_cons, fieldStep_call (by simp) hvalues]
  refine bind_congr fun v => ?_
  rw [loop, List.append_assoc]
  rfl

/-- The result of a carrier around a handle is that of the call. -/
theorem resultOf_reinvoker {s : Species} {f : Form} {id : Nat} (hs : s.fields = [.ref])
    (hform : Form.reinvoker s h.type.basic id = .ok f) (hargs : args.length = h.type.arity)
    (v : Value) : (resultOf f (.void :: args ++ [.handle h, v]) : Exec σ Value) =
      pure (if h.type.basicRet = .void then .void else v) := by
  have harity : h.type.basic.arity = args.length := by rw [Signature.arity_basic, hargs]
  rw [Form.reinvoker_eq hs, harity] at hform
  obtain ⟨-, rfl⟩ := Form.ofParts_eq_ok_iff.1 hform
  rw [resultOf_kept rfl (harity ▸ Form.getElem?_reinvoker) (v := v) (by simp), Name.type_call,
    Signature.basicRet_basic]

/-- A carrier around a handle calls it. -/
theorem body_reinvoker {s : Species} {f : Form} {id : Nat} (hs : s.fields = [.ref])
    (hform : Form.reinvoker s h.type.basic id = .ok f) (hargs : args.length = h.type.arity)
    (run : Runner σ) : body host re run f [.handle h] args = (do
      let v ← withFrame ⟨[], .void :: args ++ [.handle h]⟩ (invokeHandle run h args)
      return if h.type.basicRet = .void then .void else v) := by
  rw [body, loop_reinvoker hs hform hargs, bind_assoc]
  refine bind_congr fun v => ?_
  rw [pure_bind, resultOf_reinvoker hs hform hargs]

/-- The carrier yields what a call of the target does. -/
theorem yields_rebound (hre : re.Blind) (hR : h.Rebound R) (hh : h.Proper)
    (hheld : (Value.handle h).Within held) (hargs : args.length = h.type.arity) :
    Yields host re held R.form R.bound args fun d => call host re d h args := by
  intro d d' hlt
  cases hR with
  | self hbound =>
    obtain ⟨s, hs⟩ := Option.isSome_iff_exists.1 hbound
    have hdata := HandleOf.data_eq_of_species? hs
    have hcall : call host re d' h args = invokeHandle (runForm host re d') h args := by
      refine funext fun e => call_apply fun hvoid => ?_
      rw [World.currentForm_of_bound hbound]
      exact hh.serves.result_eq_none hvoid
    show Refines held Eq _ (call host re d' h args)
    rw [hcall]
    have hbody : Equates held Eq (invokeHandle (runForm host re (d + 1)) h args)
        (body host re (runForm host re d) h.form h.bound args) :=
      equates_body hre d hdata (hh.bound s _ hdata).1 hheld (by rw [hh.serves.arity_eq, hargs])
    exact Refines.trans_eq (hbody.ge.imp fun _ _ h => h.symm) (refines_invokeHandle hre held hlt h args)
  | wrapped hplain htype hs hform ht hdata =>
    have hbound : R.bound = [.handle h] := by simp [HandleOf.bound, hdata]
    rw [hbound, body_reinvoker hs hform hargs]
    have hframed : Refines held Eq
        (withFrame ⟨[], .void :: args ++ [.handle h]⟩ (invokeHandle (runForm host re d) h args))
        (invokeHandle (runForm host re d') h args) := by
      refine (refines_framed hre d h fun v hv => ?_).eq_trans
        (refines_invokeHandle hre held (Nat.le_of_lt hlt) h args)
      simp only [List.mem_append, List.mem_cons, List.not_mem_nil, or_false] at hv
      rcases hv with (rfl | hv) | rfl
      · exact .inr Value.within_void
      · exact .inl (.tail _ hv)
      · exact .inr hheld
    exact hframed.bind fun v _ hv => hv ▸ .pure rfl

/-- Invoking a carrier is refined by what refines its body. -/
theorem refinesFrom_of_body {s : Species} {y : Exec σ Value} (hre : re.Blind)
    (hdata : B.data = .bound s bound) (hform : B.form.Carrier s.fields)
    (hheld : (Value.handle B).Within held) (hargs : args.length + 1 = B.form.arity)
    (hw : w.held = held)
    (hy : RefinesFrom held Eq (body host re (runForm host re depth) B.form bound args) y w) :
    RefinesFrom held Eq (invokeHandle (runForm host re depth) B args) y w :=
  (Refines.trans_eq (refines_invokeHandle hre held (Nat.le_succ depth) B args)
    (equates_body hre depth hdata hform hheld hargs).le).trans_from hy hw

end Exec

/-! ## Top-level invocations -/

namespace Act

variable {host : Host σ} {re : Reentry σ} {h B : Handle} {args : List Value} {depth : Nat}
  {w w' : World σ} {o : Outcome Value}

theorem checkArguments_eq_ok_iff {type : Signature} :
    checkArguments type args = .ok () ↔ args.map Value.basicType = type.basicParams := by
  have hfits : ∀ hlen : args.length = type.params.length,
      ((args.zip type.params).zipIdx.find? fun e => e.1.1.basicType != e.1.2.basicType) = none ↔
        args.map Value.basicType = type.params.map Ty.basicType := by
    intro hlen
    rw [List.find?_eq_none]
    constructor
    · intro h
      refine List.ext_getElem (by simpa using hlen) fun i hi hi' => ?_
      have hi : i < args.length := by simpa using hi
      have hmem : ((args[i], type.params[i]), i) ∈ (args.zip type.params).zipIdx :=
        List.mem_zipIdx_iff_getElem?.2 (by simp [hi, hlen ▸ hi])
      simpa using h _ hmem
    · rintro h ⟨⟨v, t⟩, i⟩ hmem
      have hget := List.getElem?_zip_eq_some.1 (List.mem_zipIdx_iff_getElem?.1 hmem)
      have htypes := congrArg (fun ts => ts[i]?) h
      simp only [List.getElem?_map, hget.1, hget.2, Option.map_some, Option.some.injEq] at htypes
      simpa using htypes
  unfold checkArguments
  split
  · next hlen =>
    refine ⟨nofun, fun h => absurd ?_ hlen⟩
    simpa using congrArg List.length h
  · next hlen =>
    rw [not_not, Signature.arity] at hlen
    rw [Signature.basicParams, ← hfits hlen]
    split
    · next hfound => simp [hfound]
    · next hnone => simp [hnone]

/-- What an invocation with arguments that fit comes to. -/
theorem invoke_basic (hargs : args.map Value.basicType = h.type.basicParams) (w : World σ) :
    invoke host re h .basic args w =
      ((Exec.invokeHandle (Exec.runForm host re w.limits.depth) h args ⟨w, w.limits.fuel, none⟩).1,
        (Exec.invokeHandle (Exec.runForm host re w.limits.depth) h args
          ⟨w, w.limits.fuel, none⟩).2.world) := by
  rw [executes_invoke host re h args w.limits .basic w rfl, Exec.invocation,
    checkArguments_eq_ok_iff.2 hargs]
  rfl

/-- An invocation that hits no limit ends like that with greater limits. -/
theorem ends_of_invoke (hre : re.Blind) (hargs : args.map Value.basicType = h.type.basicParams)
    (hlimits : ¬ Outcome.Limited (invoke host re h .basic args w).1) (hle : w.limits.depth ≤ depth) :
    (Exec.invokeHandle (Exec.runForm host re depth) h args).Ends w
      (invoke host re h .basic args w).1 (invoke host re h .basic args w).2 := by
  rw [invoke_basic hargs] at hlimits ⊢
  rcases (Exec.refines_invokeHandle hre w.held hle h args).refinesFrom rfl w.limits.fuel with
    hlimited | ⟨o, o', rest, w', hx, -, hagree, hends⟩
  · exact absurd hlimited hlimits
  · obtain rfl := hagree.eq
    rw [hx]
    exact hends

/-- In a sound world a handle of a type without a result answers nothing. -/
theorem quiet_of_sound (hw : w.Sound) (hh : h.Proper) : Exec.Quiet w h := fun hvoid =>
  (hw.fits_currentForm hh).serves.result_eq_none hvoid

/-- So does a call. -/
theorem ends_call_of_invoke (hre : re.Blind) (hw : w.Sound) (hh : h.Proper)
    (hargs : args.map Value.basicType = h.type.basicParams)
    (hlimits : ¬ Outcome.Limited (invoke host re h .basic args w).1) (hle : w.limits.depth ≤ depth) :
    (Exec.call host re depth h args).Ends w
      (invoke host re h .basic args w).1 (invoke host re h .basic args w).2 :=
  (ends_of_invoke hre hargs hlimits hle).call (quiet_of_sound hw hh)

/-- One computation after another ends like what each of them ends like. -/
theorem ends_bind {x : Act σ α} {k : α → Act σ β} {y : Exec σ α} {l : α → Exec σ β}
    (hx : ¬ Outcome.Limited (x w).1 → y.Ends w (x w).1 (x w).2)
    (hk : ∀ a, (x w).1 = .ok a → ¬ Outcome.Limited (k a (x w).2).1 →
      (l a).Ends (x w).2 (k a (x w).2).1 (k a (x w).2).2)
    (hlimits : ¬ Outcome.Limited ((x >>= k) w).1) :
    (y >>= l).Ends w ((x >>= k) w).1 ((x >>= k) w).2 := by
  rw [bind_apply] at hlimits ⊢
  cases hxw : (x w).1 with
  | ok a =>
    rw [hxw] at hx hlimits
    exact (hx (by simp [Outcome.Limited])).bind (hk a hxw hlimits)
  | error stop =>
    rw [hxw] at hx hlimits
    refine (hx fun hlimited => hlimits ?_).bind_stop
    simpa [Outcome.Limited] using hlimited

/-- An invocation of a carrier that hits no limit ends like whatever its body is refined by. -/
theorem invoke_eq_of_ends {y : Exec σ Value} (hre : re.Blind) (hB : B.Proper)
    (hbound : B.species?.isSome) (hheld : (Value.handle B).Within w.held)
    (hargs : args.map Value.basicType = B.type.basicParams)
    (hlimits : ¬ Outcome.Limited (invoke host re B .basic args w).1)
    (hy : Exec.RefinesFrom w.held Eq
      (Exec.body host re (Exec.runForm host re w.limits.depth) B.form B.bound args) y w)
    (hends : y.Ends w o w') : invoke host re B .basic args w = (o, w') := by
  obtain ⟨s, hs⟩ := Option.isSome_iff_exists.1 hbound
  have hdata := HandleOf.data_eq_of_species? hs
  have hlength : args.length + 1 = B.form.arity := by
    rw [hB.serves.arity_eq, ← Signature.length_basicParams, ← hargs, List.length_map]
  have hinvoke := Exec.refinesFrom_of_body hre hdata (hB.bound s _ hdata).1 hheld hlength rfl hy
  rw [invoke_basic hargs] at hlimits ⊢
  rcases hinvoke w.limits.fuel with hlimited | ⟨o₁, o₂, rest, w₁, hx, -, hagree, hends'⟩
  · exact absurd hlimited hlimits
  · obtain rfl := hagree.eq
    obtain ⟨rfl, rfl⟩ := hends'.unique hends
    rw [hx]

/-- An invocation of a carrier whose body yields a call does the same as an invocation of what is
called, unless one of them hits a limit. -/
theorem invoke_eq_of_yields {args' : List Value} (hre : re.Blind) (hw : w.Sound) (hB : B.Proper)
    (hbound : B.species?.isSome) (hh : h.Proper) (hheld : (Value.handle B).Within w.held)
    (hargs : args.map Value.basicType = B.type.basicParams)
    (hargs' : args'.map Value.basicType = h.type.basicParams)
    (hy : Exec.Yields host re w.held B.form B.bound args fun d => Exec.call host re d h args')
    (hlimits : ¬ Outcome.Limited (invoke host re B .basic args w).1)
    (hlimits' : ¬ Outcome.Limited (invoke host re h .basic args' w).1) :
    invoke host re B .basic args w = invoke host re h .basic args' w :=
  invoke_eq_of_ends hre hB hbound hheld hargs hlimits
    ((hy w.limits.depth (w.limits.depth + 1) (Nat.lt_succ_self _)).refinesFrom rfl)
    (ends_call_of_invoke hre hw hh hargs' hlimits' (Nat.le_succ _))

end Act

end HandleForms
