import HandleForms.Proofs.Edit.Wired
import HandleForms.Proofs.Handle.Built

/-!
# What handles call

A handle that was built without invokers calls only what adapters bound, at the type that it has, and
reads only what it holds: in every reachable world its form is wired for the values of the handle
(`HandleOf.Built.wired`).
-/

namespace HandleForms

/-- An operation that makes no invoker. -/
def HandleOp.MakesNoInvoker : HandleOp → Prop
  | .exactInvoker _ | .genericInvoker _ | .basicInvoker _ => False
  | _ => True

namespace HandleOf

variable {h R B : Handle} {S : Handle → Prop}

/-- The form of the carrier calls what the handle calls, or the handle. -/
theorem Rebound.wired (hR : h.Rebound R) (hwired : h.form.Wired S h.bound) (hS : S h) :
    R.form.Wired S R.bound := by
  cases hR with
  | self hbound => exact hwired
  | wrapped hplain htype hs hform ht hdata =>
    have hbound : R.bound = [.handle h] := by simp [bound, hdata]
    rw [hbound]
    exact Form.wired_reinvoker hs hform hS

/-- An adapter binds what it calls. -/
theorem Adapted.wired {op : HandleOp} {type : Signature} {es : List Edit} {extra : List Value}
    (hB : h.Adapted type es extra B) (hop : op.Adapts h type es extra) (hh : h.Proper)
    (hwired : h.form.Wired S h.bound) (hS : ∀ g ∈ op.handles, S g) : B.form.Wired S B.bound := by
  have htarget : S h := by
    refine hS h ?_
    cases hop <;> exact .head _
  obtain ⟨-, R, hR, hchain, hdata⟩ := hB
  obtain ⟨s, -, hcarrier, hvalues⟩ := hR.carrier hh
  have hbase := hR.wired hwired htarget
  have hserves := hR.serves hh
  rw [bound_of_data hdata]
  have hquiet : (∀ e ∈ es, e.CallsNothing) → B.form.Wired S (R.bound ++ extra) := fun hcalls =>
    hchain.wired hcalls hcarrier hop.keepsHandle hvalues hop.fields hbase
  have hadditions : ∀ pos ts, ∀ e ∈ Edit.additions pos ts, e.CallsNothing := by
    intro pos ts
    induction ts generalizing pos with
    | nil => exact nofun
    | cons t ts ih => exact List.forall_mem_cons.2 ⟨trivial, ih (pos + 1)⟩
  cases hop with
  | insert =>
    refine hquiet fun e he => ?_
    obtain ⟨v, -, rfl⟩ := List.mem_map.1 he
    trivial
  | drop => exact hquiet (hadditions _ _)
  | dup | spread | zeroReturn => exact hquiet (List.forall_mem_singleton.2 trivial)
  | permute =>
    refine hquiet fun e he => ?_
    simp only [Edit.reordering, Edit.merging, Edit.adding, List.mem_append, List.mem_map,
      List.mem_singleton] at he
    rcases he with ⟨step, -, rfl⟩ | ⟨step, -, rfl⟩ | rfl <;> trivial
  | @filter pos f param _ hparam hfits =>
    obtain ⟨⟩ | ⟨hf, ⟨⟩⟩ := hchain
    refine (hf.combines_filter (c := f.type) hserves.editable (by rw [Signature.basicParams, hparam]; rfl)
      ?_).wired hcarrier hvalues (hS f (by simp [HandleOp.handles])) hbase
    rw [Form.param?, hserves.params, List.getElem?_cons_succ, Signature.basicParams,
      List.getElem?_map, hfits]
    rfl
  | @collect pos c _ hle =>
    obtain ⟨⟩ | ⟨hf, ⟨⟩⟩ := hchain
    refine (hf.combines_collect hserves.editable ?_).wired hcarrier hvalues
      (hS c (by simp [HandleOp.handles])) hbase
    rw [hserves.arity_eq]
    exact Nat.succ_le_succ (Nat.le_trans (Nat.le_add_right _ _) hle)
  | @fold pos c =>
    obtain ⟨⟩ | ⟨hf, ⟨⟩⟩ := hchain
    exact (hf.combines_fold hserves.editable).wired hcarrier hvalues
      (hS c (by simp [HandleOp.handles])) hbase
  | @filterReturn f hfits =>
    obtain ⟨⟩ | ⟨hf, ⟨⟩⟩ := hchain
    refine hf.wired_filterReturn hcarrier hvalues ?_ (hS f (by simp [HandleOp.handles])) hbase
    rw [Signature.basicParams_of_result hfits, hserves.map_result, hserves.ret]

/-- Whatever form a direct handle gets, it calls nothing. -/
theorem Fits.wired_of_member {f : Form} {id : Nat} {m : Member} (hf : h.Fits f)
    (hmember : h.member? = some (id, m)) : f.Wired S h.bound := by
  obtain ⟨id', type, form, data⟩ := h
  cases data with
  | direct id' m' =>
    obtain ⟨barrier, i, hform⟩ := hf.direct id' m' rfl
    exact Form.wired_direct hform
  | simple | bound => cases hmember

end HandleOf

/-- What an operation makes calls only what it was made of. -/
theorem HandleOp.Makes.wired {op : HandleOp} {B : Handle} {S : Handle → Prop} (hB : op.Makes B)
    (hop : op.MakesNoInvoker) (hops : ∀ h ∈ op.handles, h.Proper) (hS : ∀ h ∈ op.handles, S h)
    (hwired : ∀ h ∈ op.handles, h.form.Wired S h.bound) : B.form.Wired S B.bound := by
  cases hB with
  | external htype hform hdata =>
    rw [HandleOf.bound, hdata]
    exact Form.wired_external hform
  | empty htype hform hdata =>
    rw [HandleOf.bound, hdata]
    exact Form.wired_empty hform
  | direct htype hform hdata =>
    rw [HandleOf.bound, hdata]
    exact Form.wired_direct hform
  | exactInvoker | genericInvoker | basicInvoker => exact hop.elim
  | @asType h B type hbasic htype hfits hform hdata =>
    have hbound : B.bound = h.bound := by rw [HandleOf.bound, hdata, HandleOf.bound]
    rw [hbound]
    cases hmember : h.member? with
    | none =>
      rw [hform hmember]
      exact hwired h (.head _)
    | some m => exact hfits.wired_of_member hmember
  | insertNone | dropNone => exact hwired _ (.head _)
  | @adapted op h B type es extra hadapts hB =>
    have htarget : h ∈ op.handles := by cases hadapts <;> exact .head _
    exact hB.wired hadapts (hops h htarget) (hwired h htarget) hS

namespace HandleOf.Built

variable {σ : Type} {host : Host σ} {h : Handle}

/-- What was built without invokers calls only what was built without invokers. -/
theorem form_wired (hh : Built host HandleOp.MakesNoInvoker h) :
    h.form.Wired (Built host HandleOp.MakesNoInvoker) h.bound := by
  induction hh with
  | made hw hop hops hmade ih =>
    have hproper := fun h hmem => (hops h hmem).proper
    exact ((Act.triple_perform host _).answer hw.sound hmade hproper).wired hop hproper hops ih

/-- It does so whatever forms direct handles got in the meantime. -/
theorem wired {w : World σ} (hh : Built host HandleOp.MakesNoInvoker h) (hw : w.Reachable host) :
    (w.currentForm h).Wired (Built host HandleOp.MakesNoInvoker) h.bound := by
  cases hmember : h.member? with
  | none =>
    rw [World.currentForm_of_plain hmember]
    exact hh.form_wired
  | some m => exact (hw.sound.fits_currentForm hh.proper).wired_of_member hmember

end HandleOf.Built

end HandleForms
