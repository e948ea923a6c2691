import HandleForms.Proofs.Handle.Built
import HandleForms.Proofs.Run.Invocation

/-!
# Permuting passes arguments on

A reorder is brought about one merge and one addition at a time. After each of them the form has a
parameter for each entry of the list that is left (`Form.Reads`), so the next edit is let through as
long as the arguments of the new type fit into the slots, and it computes over the entries of that
list what the target does over the entries of the whole reorder. At the end the list is a permutation
of the arguments (`HandleOf.Built.permute_passes`).
-/

namespace HandleForms

variable {σ : Type}

theorem BasicType.slotSum_sublist {ts us : List BasicType} (h : ts.Sublist us) :
    slotSum ts ≤ slotSum us := by
  induction h with
  | slnil => simp
  | cons a _ ih => rw [slotSum_cons]; omega
  | cons_cons a _ ih => rw [slotSum_cons, slotSum_cons]; omega

/-- The form has a parameter for each entry, of the type of the argument that the entry stands for. -/
structure Form.Reads (f : Form) (type : Signature) (entries : List Nat) : Prop where
  carrier : ∃ fields, f.Carrier fields
  params : f.params = .ref :: entries.map fun r => (type.basicParams[r]?).getD .void
  lt : ∀ r ∈ entries, r < type.arity

namespace Form.Reads

variable {f g : Form} {type : Signature} {entries : List Nat}

theorem arity_eq (h : f.Reads type entries) : f.arity = entries.length + 1 := by
  obtain ⟨fields, hcarrier⟩ := h.carrier
  rw [← Form.length_params hcarrier.editable.wellFormed, h.params, List.length_cons, List.length_map]

theorem param?_eq (h : f.Reads type entries) {i r : Nat} (hr : entries[i]? = some r) :
    f.param? (i + 1) = some ((type.basicParams[r]?).getD .void) := by
  rw [Form.param?, h.params, List.getElem?_cons_succ, List.getElem?_map, hr]
  rfl

/-- A step that the form took. -/
theorem answers {e : Edit} {entries' : List Nat} (h : f.Reads type entries) (hg : e.Answers f g)
    (hkeeps : e.KeepsHandle) (hlt : ∀ r ∈ entries', r < type.arity)
    (hparams : (e.reshape f.shape).params =
      .ref :: entries'.map fun r => (type.basicParams[r]?).getD .void) : g.Reads type entries' := by
  obtain ⟨fields, hcarrier⟩ := h.carrier
  refine ⟨⟨_, hg.carrier hcarrier hkeeps⟩, ?_, hlt⟩
  rw [← hparams, ← hg.shape_eq hcarrier.editable]
  rfl

theorem dup {src dst : Nat} (h : f.Reads type entries)
    (hg : (Edit.dup (src + 1) (dst + 1)).Answers f g) : g.Reads type (entries.eraseIdx dst) := by
  refine h.answers hg nofun (fun r hr => h.lt r (List.mem_of_mem_eraseIdx hr)) ?_
  simp [Edit.reshape, Form.shape, h.params, List.eraseIdx_map]

theorem add {pos value : Nat} (h : f.Reads type entries) (hpos : pos ≤ entries.length)
    (hvalue : value < type.arity)
    (hg : (Edit.add (pos + 1) ((type.basicParams[value]?).getD .void)).Answers f g) :
    g.Reads type (entries.insertIdx pos value) := by
  refine h.answers hg nofun (fun r hr => ?_) ?_
  · rcases (List.mem_insertIdx hpos).1 hr with rfl | hr
    · exact hvalue
    · exact h.lt r hr
  · simp [Edit.reshape, Form.shape, h.params, List.map_insertIdx]

/-- The arguments that the entries stand for take no more slots than all of them. -/
theorem slotSum_le (hnodup : entries.Nodup) (hlt : ∀ r ∈ entries, r < type.arity) :
    BasicType.slotSum (entries.map fun r => (type.basicParams[r]?).getD .void) ≤ type.slots := by
  have hsub : entries.Subperm (List.range type.arity) :=
    List.subperm_of_subset hnodup fun r hr => List.mem_range.2 (hlt r hr)
  obtain ⟨entries', hperm, hsub⟩ := hsub
  have hall : (List.range type.arity).map (fun r => (type.basicParams[r]?).getD .void) =
      type.basicParams := by
    refine List.ext_getElem (by simp) fun i hi hi' => ?_
    rw [List.getElem_map, List.getElem_range, List.getElem?_eq_getElem hi', Option.getD_some]
  have hle := BasicType.slotSum_sublist (hsub.map fun r => (type.basicParams[r]?).getD .void)
  rw [hall] at hle
  exact Nat.le_trans (Nat.le_of_eq (BasicType.slotSum_perm (hperm.symm.map _))) hle

end Form.Reads

/-! ## The two passes -/

namespace Edit.Chain

variable {P : Form → List Nat → Prop} {f g : Form} {type : Signature}

/-- What merging one entry into an equal one keeps, merging all of them keeps. -/
theorem merging {kept rest : List Nat} (hg : Chain f (Edit.merging (Reorder.merges kept rest).1) g)
    (hdup : ∀ {f g : Form} {entries : List Nat} {src dst r : Nat}, src < dst →
      entries[src]? = some r → entries[dst]? = some r → P f entries →
      (Edit.dup (src + 1) (dst + 1)).Answers f g → P g (entries.eraseIdx dst))
    (h : P f (kept ++ rest)) : P g (Reorder.merges kept rest).2 := by
  induction rest generalizing f kept with
  | nil =>
    cases hg
    simpa [Reorder.merges] using h
  | cons r rest ih =>
    unfold Reorder.merges at hg ⊢
    split at hg
    · next src hsrc =>
      obtain ⟨hlt, hget⟩ := Reorder.of_idxOf? hsrc
      obtain ⟨⟩ | ⟨hf, hrest⟩ := hg
      refine ih hrest ?_
      have hmerged := hdup hlt (by rw [List.getElem?_append_left hlt, hget])
        (List.getElem?_append_right (Nat.le_refl _) |>.trans (by simp)) h hf
      rwa [List.eraseIdx_append_of_length_le (Nat.le_refl _), Nat.sub_self,
        List.eraseIdx_cons_zero] at hmerged
    · exact ih hg (by simpa using h)

/-- What adding a parameter for one argument keeps, adding all of them keeps. -/
theorem adding {l values : List Nat}
    (hg : Chain f (Edit.adding type (Reorder.additions l values).1) g)
    (hadd : ∀ {f g : Form} {entries : List Nat} {pos value : Nat}, pos ≤ entries.length →
      value ∈ values → P f entries →
      (Edit.add (pos + 1) ((type.basicParams[value]?).getD .void)).Answers f g →
      P g (entries.insertIdx pos value))
    (h : P f l) : P g (Reorder.additions l values).2 := by
  induction values generalizing f l with
  | nil =>
    cases hg
    exact h
  | cons value values ih =>
    unfold Reorder.additions at hg ⊢
    by_cases hmem : l.contains value = true
    · rw [if_pos hmem] at hg ⊢
      exact ih hg (fun hpos hvalue => hadd hpos (.tail _ hvalue)) h
    · rw [if_neg hmem] at hg ⊢
      obtain ⟨⟩ | ⟨hf, hrest⟩ := hg
      exact ih hrest (fun hpos hvalue => hadd hpos (.tail _ hvalue))
        (hadd (Reorder.insertPos_le l value) (.head _) h hf)

end Edit.Chain

/-! ## Reorders that are brought about -/

namespace Act

variable {owned : List TypeForm} {form : Form} {type : Signature}

theorem completes_mergeParams {kept rest : List Nat} (h : form.Reads type (kept ++ rest)) :
    Completes (σ := σ) owned (mergeParams form (Reorder.merges kept rest).1) := by
  induction rest generalizing form kept with
  | nil => exact .pure form
  | cons r rest ih =>
    unfold Reorder.merges
    split
    · next src hsrc =>
      obtain ⟨hlt, hget⟩ := Reorder.of_idxOf? hsrc
      obtain ⟨fields, hcarrier⟩ := h.carrier
      have hsrc : (kept ++ r :: rest)[src]? = some r := by rw [List.getElem?_append_left hlt, hget]
      have hdst : (kept ++ r :: rest)[kept.length]? = some r := by simp
      have hcheck : (Edit.dup (src + 1) (kept.length + 1)).check form = .ok () := by
        simp only [Edit.check, bind_unit_eq_ok_iff, Edit.require_eq_ok_iff]
        refine ⟨⟨Nat.succ_pos _, Nat.succ_lt_succ hlt, ?_⟩, ?_, ?_, bind_eq_ok_iff.2 ⟨_,
          Stop.ofViolation_eq_ok_iff.2 (Form.paramType_eq_ok_iff.2 (h.param?_eq hsrc)),
          Form.expectParam_eq_ok_iff.2 (h.param?_eq hdst)⟩⟩
        · rw [h.arity_eq, List.length_append, List.length_cons]
          omega
        · rw [hcarrier.plain _ (Nat.succ_pos _)]
          rfl
        · rw [hcarrier.plain _ (Nat.succ_pos _)]
          rfl
      refine .bind (triple_edit form _) (completes_edit hcarrier.editable hcheck trivial
        (Edit.not_refused_of_ne (by simp) (by simp))) fun g hg => ih ?_
      have hmerged := h.dup (hg hcarrier.editable)
      rwa [List.eraseIdx_append_of_length_le (Nat.le_refl _), Nat.sub_self,
        List.eraseIdx_cons_zero] at hmerged
    · exact ih (by simpa using h)

theorem completes_addUnread {l values : List Nat} (h : form.Reads type l) (hnodup : l.Nodup)
    (hvalues : ∀ value ∈ values, value < type.arity)
    (hslots : type.slots ≤ Signature.maxHandleSlots) :
    Completes (σ := σ) owned (addUnread type form (Reorder.additions l values).1) := by
  induction values generalizing form l with
  | nil => exact .pure form
  | cons value values ih =>
    unfold Reorder.additions
    by_cases hmem : l.contains value = true
    · rw [if_pos hmem]
      exact ih h hnodup fun v hv => hvalues v (.tail _ hv)
    · rw [if_neg hmem]
      have hle := Reorder.insertPos_le l value
      have hvalue := hvalues value (.head _)
      have hperm := List.perm_insertIdx value l hle
      have hnodup' : (value :: l).Nodup := List.nodup_cons.2 ⟨by simpa using hmem, hnodup⟩
      obtain ⟨fields, hcarrier⟩ := h.carrier
      have hcheck : (Edit.add (Reorder.insertPos l value + 1)
          ((type.basicParams[value]?).getD .void)).check form = .ok () := by
        have hsum := Form.Reads.slotSum_le hnodup' (List.forall_mem_cons.2 ⟨hvalue, h.lt⟩)
        obtain ⟨param, hget⟩ : ∃ t, type.basicParams[value]? = some t :=
          ⟨_, List.getElem?_eq_getElem (by rwa [Signature.length_basicParams])⟩
        have hform : form.slots = 1 + BasicType.slotSum
            (l.map fun r => (type.basicParams[r]?).getD .void) := by
          rw [Form.slots, h.params, BasicType.slotSum_cons]
          rfl
        simp only [Edit.check, bind_unit_eq_ok_iff, Edit.require_eq_ok_iff,
          Form.checkSlots_eq_ok_iff, Edit.isArg_iff]
        refine ⟨⟨Nat.succ_pos _, ?_⟩, ?_, ?_⟩
        · rw [h.arity_eq]
          exact Nat.succ_le_succ hle
        · rw [hget]
          exact Signature.ne_void_of_mem_basicParams rfl _ (List.mem_of_getElem? hget)
        · have hone : Signature.maxSlots = Signature.maxHandleSlots + 1 := rfl
          rw [List.map_cons, BasicType.slotSum_cons] at hsum
          rw [hform, BasicType.slotSum_cons, BasicType.slotSum_nil]
          omega
      refine .bind (triple_paramType _ _) (completes_paramType hvalue) fun t ht => ?_
      have htype : t.basicType = (type.basicParams[value]?).getD .void := by
        rw [Signature.basicParams, List.getElem?_map, ht]
        rfl
      rw [htype]
      exact .bind (triple_edit form _) (completes_edit hcarrier.editable hcheck trivial
        (Edit.not_refused_of_ne (by simp) (by simp))) fun g hg =>
          ih (h.add hle hvalue (hg hcarrier.editable)) (hperm.nodup_iff.2 hnodup')
            fun v hv => hvalues v (.tail _ hv)

/-- The parameters of a target are the arguments that a reorder without a defect lists. -/
theorem reads_of_defect? {h : Handle} {reorder : List Nat} {fields : List BasicType}
    (hform : form.Carrier fields) (hparams : form.params = .ref :: h.type.basicParams)
    (hreorder : Reorder.defect? h.type type reorder = none) : form.Reads type reorder := by
  obtain ⟨hlen, -, hentries⟩ := Reorder.defect?_eq_none_iff.1 hreorder
  refine ⟨⟨fields, hform⟩, hparams.trans (congrArg _ ?_), fun r hr => ?_⟩
  · refine List.ext_getElem (by simp [hlen]) fun i hi hi' => ?_
    have hi : i < h.type.params.length := by simpa [Signature.arity] using hi
    have hentry : i < reorder.length := by simpa using hi'
    obtain ⟨hlt, htype⟩ := hentries i _ (List.getElem?_eq_getElem hentry)
    have hget : type.basicParams[reorder[i]]? = some h.type.basicParams[i] := by
      simp [Signature.basicParams, htype, List.getElem?_eq_getElem hi]
    rw [List.getElem_map, hget, Option.getD_some]
  · obtain ⟨i, hi⟩ := List.getElem?_of_mem hr
    exact (hentries i r hi).1

theorem completes_permuteArguments {h : Handle} {reorder : List Nat} (hh : h.Proper)
    (hreorder : Reorder.defect? h.type type reorder = none)
    (hslots : type.slots ≤ Signature.maxHandleSlots) :
    Completes (σ := σ) owned (permuteArguments h type reorder) := by
  unfold permuteArguments
  rw [hreorder]
  refine .bind (triple_rebind h) (completes_rebind hh.slots_le) fun R hR => .look fun w hw => ?_
  rw [World.currentForm_of_bound hR.isSome]
  obtain ⟨s, -, hcarrier, -⟩ := hR.carrier hh
  have hreads : R.form.Reads type reorder :=
    reads_of_defect? hcarrier (hR.serves hh).params hreorder
  have hrange := Reorder.perm_range hreads.lt
  refine .bind (triple_mergeParams _ _) (completes_mergeParams hreads) fun f₁ hf₁ => ?_
  have hreads₁ := (hf₁ hcarrier.editable).merging (P := fun f l => f.Reads type l)
    (fun _ _ _ h hf => h.dup hf) hreads
  have hnodup := (Reorder.merges_snd [] reorder List.nodup_nil).1
  refine .bind (triple_addUnread _ _ _) (completes_addUnread hreads₁ hnodup
    (fun value hvalue => List.mem_range.1 hvalue) hslots) fun f₂ hf₂ => ?_
  obtain ⟨fields₁, hcarrier₁⟩ := hreads₁.carrier
  have hreads₂ := (hf₂ hcarrier₁.editable).adding (P := fun f l => f.Reads type l)
    (fun hpos hvalue h hf => h.add hpos (List.mem_range.1 hvalue) hf) hreads₁
  obtain ⟨fields₂, hcarrier₂⟩ := hreads₂.carrier
  have hlength : type.arity =
      (Reorder.additions (Reorder.merges [] reorder).2 (List.range type.arity)).2.length := by
    rw [hrange.length_eq, List.length_range]
  have hcheck : (Edit.permute 1 (Reorder.additions (Reorder.merges [] reorder).2
      (List.range type.arity)).2).check f₂ = .ok () := by
    simp only [Edit.check, bind_unit_eq_ok_iff, Edit.require_eq_ok_iff]
    exact ⟨trivial, by rw [hreads₂.arity_eq, Nat.add_comm],
      Edit.isPermutation_of_perm (by rw [← hlength]; exact hrange)⟩
  exact .bind (triple_edit f₂ _) (completes_edit hcarrier₂.editable hcheck trivial
    (Edit.not_refused_of_ne (by simp) (by simp))) fun f₃ _ => completes_newHandle _ _ _

end Act

/-! ## Invoking what a reorder is brought about for -/

/-- The form computes over the arguments that the entries stand for. -/
structure Exec.Computes (host : Host σ) (re : Reentry σ) (held : List Value) (type : Signature)
    (bound args : List Value) (X : Nat → Exec σ Value) (f : Form) (entries : List Nat) : Prop where
  reads : f.Reads type entries
  yields : Yields host re held f bound (entries.map fun r => (args[r]?).getD .void) X

namespace Exec.Computes

variable {host : Host σ} {re : Reentry σ} {held bound args : List Value} {type : Signature}
  {X : Nat → Exec σ Value} {f g : Form} {entries : List Nat}

theorem dup {src dst r : Nat} (hre : re.Blind)
    (h : Computes host re held type bound args X f entries) (hlt : src < dst)
    (hsrc : entries[src]? = some r) (hdst : entries[dst]? = some r)
    (hg : (Edit.dup (src + 1) (dst + 1)).Answers f g) :
    Computes host re held type bound args X g (entries.eraseIdx dst) := by
  have hreads := h.reads.dup hg
  obtain ⟨fields, hcarrier⟩ := h.reads.carrier
  obtain ⟨hlt', hget⟩ := List.getElem?_eq_some_iff.1 hdst
  have hback : (entries.eraseIdx dst).insertIdx dst r = entries := by
    rw [← hget, List.insertIdx_eraseIdx_getElem hlt']
  refine ⟨hreads, yields_dup hre hcarrier hg (by rw [List.length_map, hreads.arity_eq])
    (v := (args[r]?).getD .void) ?_ ?_⟩
  · rw [List.getElem?_map, List.getElem?_eraseIdx_of_lt hlt, hsrc]
    rfl
  · have hmap := List.map_insertIdx (fun r => (args[r]?).getD .void) (entries.eraseIdx dst) dst r
    rw [← hmap, hback]
    exact h.yields

theorem add {pos value : Nat} (hre : re.Blind) (hheld : ∀ v ∈ args, v.Within held)
    (h : Computes host re held type bound args X f entries) (hpos : pos ≤ entries.length)
    (hvalue : value < type.arity)
    (hg : (Edit.add (pos + 1) ((type.basicParams[value]?).getD .void)).Answers f g) :
    Computes host re held type bound args X g (entries.insertIdx pos value) := by
  have hreads := h.reads.add hpos hvalue hg
  obtain ⟨fields, hcarrier⟩ := h.reads.carrier
  refine ⟨hreads, yields_add hre hcarrier hg (by rw [List.length_map, hreads.arity_eq])
    (fun v hv => ?_) ?_⟩
  · obtain ⟨r, -, rfl⟩ := List.mem_map.1 hv
    cases hr : args[r]? with
    | none => exact Value.within_void
    | some v => exact hheld v (List.mem_of_getElem? hr)
  · rw [List.eraseIdx_map, List.eraseIdx_insertIdx_self]
    exact h.yields

end Exec.Computes

namespace HandleOf

variable {host : Host σ} {H B : Handle} {type : Signature} {reorder : List Nat}

/-- Permuting passes arguments on: it succeeds exactly for the reorders that say for each parameter
which argument of its type it gets, when the new type leaves a slot for the handle. What is merged
and added then leaves a permutation of the arguments, and the target gets the arguments that the
reorder lists, however often it lists them. -/
theorem Built.permute_passes {w : World σ} (hw : w.Reachable host)
    (hH : H.Built host fun _ => True) :
    ((∃ B, (Act.permuteArguments H type reorder w).1 = .ok B) ↔
      (reorder.length = H.type.arity ∧ H.type.ret = type.ret ∧ ∀ (i r : Nat), reorder[i]? = some r →
        r < type.arity ∧ type.params[r]? = H.type.params[i]?) ∧
      type.slots ≤ Signature.maxHandleSlots) ∧
    ∀ B, (Act.permuteArguments H type reorder w).1 = .ok B →
      (Reorder.additions (Reorder.merges [] reorder).2 (List.range type.arity)).2.Perm
        (List.range type.arity) ∧
      ∀ (w₁ : World σ) (levels : Nat) (args : List Value), w₁.Reachable host →
        w₁.Holds (.handle H :: .handle B :: args) → Act.checkArguments type args = .ok () →
        let permuted := Act.invoke host (host.reenter levels) B .basic args w₁
        let passed := Act.invoke host (host.reenter levels) H .basic
          (reorder.map fun r => (args[r]?).getD .void) w₁
        ¬ Outcome.Limited permuted.1 → ¬ Outcome.Limited passed.1 → permuted = passed := by
  have hmakes : ∀ B, (Act.permuteArguments H type reorder w).1 = .ok B →
      (HandleOp.permute H type reorder).Makes B := fun B hB =>
    (Act.triple_permuteArguments H type reorder).answer hw.sound hB hH.proper
  refine ⟨⟨?_, fun ⟨hreorder, hslots⟩ => (Act.completes_permuteArguments hH.proper
    (Reorder.defect?_eq_none_iff.2 hreorder) hslots).answer hw.sound⟩, fun B hB => ?_⟩
  · rintro ⟨B, hB⟩
    have hproper : B.Proper := (hmakes B hB).proper (List.forall_mem_singleton.2 hH.proper)
    cases hmakes B hB with
    | adapted hop hadapted =>
      cases hop with
      | permute hreorder =>
        exact ⟨Reorder.defect?_eq_none_iff.1 hreorder, hadapted.type_eq ▸ hproper.slots_le⟩
  have hproper : B.Proper := (hmakes B hB).proper (List.forall_mem_singleton.2 hH.proper)
  cases hmakes B hB with
  | adapted hop hadapted =>
    cases hop with
    | permute hreorder =>
      have hsome := hadapted.isSome
      obtain ⟨htype, R, hR, hchain, hdata⟩ := hadapted
      obtain ⟨s, -, hcarrier, -⟩ := hR.carrier hH.proper
      have hreads := Act.reads_of_defect? hcarrier (hR.serves hH.proper).params hreorder
      refine ⟨Reorder.perm_range hreads.lt,
        fun w₁ levels args hw₁ hheld hargs hlimits hlimits' => ?_⟩
      have hre := host.blind_reenter levels
      rw [Act.checkArguments_eq_ok_iff] at hargs
      have hpassed : (reorder.map fun r => (args[r]?).getD .void).map Value.basicType =
          H.type.basicParams := by
        have hparams := hreads.params.symm.trans (hR.serves hH.proper).params
        rw [← (List.cons.inj hparams).2, List.map_map]
        refine List.map_congr_left fun r _ => ?_
        rw [← hargs, List.getElem?_map, Function.comp_apply]
        cases args[r]? <;> rfl
      refine Act.invoke_eq_of_yields hre hw₁.sound hproper hsome hH.proper
        (hheld _ (.tail _ (.head _))) (htype ▸ hargs) hpassed ?_ hlimits hlimits'
      obtain ⟨f₁, hmerging, hchain⟩ := hchain.split
      obtain ⟨f₂, hadding, hchain⟩ := hchain.split
      obtain ⟨⟩ | ⟨hpermute, ⟨⟩⟩ := hchain
      have hcomputes : Exec.Computes host (host.reenter levels) w₁.held type R.bound args
          (fun d => Exec.call host (host.reenter levels) d H
            (reorder.map fun r => (args[r]?).getD .void)) R.form reorder :=
        ⟨hreads, Exec.yields_rebound hre hR hH.proper (hheld _ (.head _))
          (by rw [← Signature.length_basicParams, ← hpassed]; simp only [List.length_map])⟩
      have hmerged := hmerging.merging (fun hlt hsrc hdst h hg => h.dup hre hlt hsrc hdst hg)
        hcomputes
      have hadded := hadding.adding (fun hpos hvalue h hg => h.add hre
        (fun v hv => hheld v (.tail _ (.tail _ hv))) hpos (List.mem_range.1 hvalue) hg) hmerged
      obtain ⟨fields, hcarrier'⟩ := hadded.reads.carrier
      rw [bound_of_data hdata, List.append_nil]
      refine Exec.yields_permute hre hcarrier' hpermute ?_ hadded.yields
      rw [hproper.serves.arity_eq, htype, ← Signature.length_basicParams, ← hargs, List.length_map]

/-- A number is added to itself, and another argument is dropped. -/
theorem Built.permute_passes_twice :
    let type : Signature := ⟨[.int, .long], .int, by decide, by decide⟩
    let args : List Value := [.int 3, .long 5]
    ∃ B, (Act.permuteArguments adder type [0, 0] (adderWorld [])).1 = .ok B ∧
      let w := adderWorld (.handle adder :: .handle B :: args)
      Act.invoke adderHost (adderHost.reenter 0) B .basic args w =
        Act.invoke adderHost (adderHost.reenter 0) adder .basic [.int 3, .int 3] w := by
  intro type args
  have hruns : ∃ B ∈ (Act.permuteArguments adder type [0, 0] (adderWorld [])).1.toOption,
      let w := adderWorld (.handle adder :: .handle B :: args)
      Act.checkArguments type args = .ok () ∧
      ¬ Outcome.Limited (Act.invoke adderHost (adderHost.reenter 0) B .basic args w).1 ∧
      ¬ Outcome.Limited
        (Act.invoke adderHost (adderHost.reenter 0) adder .basic [.int 3, .int 3] w).1 := by
    decide +kernel
  obtain ⟨B, hB, hcheck, hlimits, hlimits'⟩ := hruns
  have hB := mem_toOption.1 hB
  have hpasses := ((Built.permute_passes (reachable_adderWorld []) built_adder).2 B hB).2
    (adderWorld (.handle adder :: .handle B :: args)) 0 args (reachable_adderWorld _)
    (World.holds_held _) hcheck hlimits hlimits'
  exact ⟨B, hB, hpasses⟩

end HandleOf

end HandleForms
