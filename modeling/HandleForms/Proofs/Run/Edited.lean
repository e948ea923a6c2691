import HandleForms.Proofs.Edit.Combines
import HandleForms.Proofs.Run.Adapted

/-!
# What edits of arguments compute

`Exec.Yields` says what the body of a form comes to over some bound values and some arguments, as a
computation that may run as deep as it likes. An edit of the parameters makes of the new arguments
those that the base gets: the form that is derived yields over the new arguments what the base yields
over these.
-/

namespace HandleForms

namespace Exec

variable {σ : Type} {host : Host σ} {re : Reentry σ} {held : List Value}

/-- What the body of the form does without hitting a limit, `X` does when more forms may run inside
each other. -/
def Yields (host : Host σ) (re : Reentry σ) (held : List Value) (f : Form)
    (bound args : List Value) (X : Nat → Exec σ Value) : Prop :=
  ∀ d d', d < d' → Refines held Eq (body host re (runForm host re d) f bound args) (X d')

/-! ## Early names -/

/-- The read of the appended field. -/
theorem fieldStep_readOf {apply : Function Form → List Value → Exec σ Value} {g : CarrierGrowth}
    {bound : List Value} {v : Value} (hlen : bound.length = g.old.fields.length)
    (values : List Value) : fieldStep apply (bound ++ [v]) (g.readOf 0) values = pure v := by
  have hvalue : valueAt (bound ++ [v]) g.old.fields.length = .ok v := by
    rw [valueAt, ← hlen, List.getElem?_concat_length]
  show act (Act.ofViolation (valueAt (bound ++ [v]) g.old.fields.length)) = pure v
  rw [hvalue]
  rfl

/-- The values of operands that are names. -/
theorem mapM_operand_name {operands : List Nat} {values vs : List Value}
    (h : operands.map (fun i => values[i]?) = vs.map some) :
    (operands.map Arg.name).mapM (operand values) = .ok vs := by
  induction operands generalizing vs with
  | nil =>
    cases vs with
    | nil => rfl
    | cons v vs => cases h
  | cons i operands ih =>
    cases vs with
    | nil => cases h
    | cons v vs =>
      obtain ⟨hi, hrest⟩ := List.cons.inj h
      have hv : operand values (.name i) = .ok v := by simp [operand, valueAt, hi]
      rw [List.map_cons, List.mapM_cons, hv, ih hrest]
      rfl

/-- The call of a handle that was read before. -/
theorem fieldStep_call {sig : Signature} {run : Runner σ} {bound values cargs : List Value}
    {C : Handle} {operands : List Nat} (hbasic : C.type.basic = sig.basic)
    (h : operands.map (fun i => values[i]?) = (.handle C :: cargs).map some) :
    fieldStep (apply host re run) bound (.call sig operands) values =
      withFrame ⟨[], values⟩ (invokeHandle run C cargs) := by
  show (do
    let args ← act (Act.ofViolation ((operands.map Arg.name).mapM (operand values)))
    withFrame ⟨[], values⟩ (invokeBasic run sig.basic args) : Exec σ Value) = _
  rw [mapM_operand_name h]
  have hcall : (invokeBasic run sig.basic (.handle C :: cargs) : Exec σ Value) =
      invokeHandle run C cargs := by
    show (if C.type.basic ≠ sig.basic then
        (fail (.wrongType sig.basic C.type) >>= fun _ => invokeHandle run C cargs)
      else invokeHandle run C cargs) = _
    rw [if_neg (not_not.2 hbasic)]
  rw [← hcall]
  rfl

variable {base f : Form} {e : Edit} {fields : List BasicType} {bound bound' args args' : List Value}
  {X : Nat → Exec σ Value}

/-- An edit whose early names have the same values whatever else happens. -/
theorem yields_of_starts (hre : re.Blind) (hbase : base.Carrier fields) (hderives : e.DerivesTo base f)
    (hkeeps : e.KeepsHandle) (hbound : ∀ i < fields.length, bound'[i]? = bound[i]?)
    (hstarts : ∀ g A, Edit.Adapts base g e A → Edit.Grows base e g → A.params.length = f.arity →
      A.late = [] ∧ A.result = none ∧ ∃ start, (∀ run : Runner σ,
        loop (fieldStep (apply host re run) bound') A.early (.void :: args) = pure start) ∧
          A.Supplies base held start (.void :: args'))
    (h : Yields host re held base bound args' X) : Yields host re held f bound' args X := by
  intro d d' hlt
  obtain ⟨g, A, id, hadapts, hg, rfl⟩ := hderives
  obtain ⟨hlate, hresult, start, hstart, hsupplies⟩ := hstarts g A hadapts hg rfl
  rw [body_form hlate, hstart, pure_bind]
  have hrest : Equates held Eq _ (body host re (runForm host re d) base bound args') :=
    equates_rest hre d hbase (hadapts.carries hbase hg hkeeps) (hadapts.fits hbase.editable hg)
      hresult hbound hsupplies id
  exact hrest.le.trans_eq (h d d' hlt)

/-! ## Parameters -/

theorem yields_bind {pos : Nat} {type : BasicType} {v : Value} (hre : re.Blind)
    (hbase : base.Carrier fields) (hf : (Edit.bind (pos + 1) type).Answers base f)
    (hlen : bound.length = fields.length) (hargs : args.length + 1 = f.arity)
    (h : Yields host re held base bound (args.insertIdx pos v) X) :
    Yields host re held f (bound ++ [v]) args X := by
  have harity := hf.arity_eq hbase.editable
  refine yields_of_starts hre hbase (hf.derives.resolve_left fun h => nomatch h.1) nofun
    (fun i hi => List.getElem?_append_left (by omega)) (fun g A hadapts hg hparams => ?_) h
  have hlength := Form.length_params hbase.editable.wellFormed
  cases hadapts with
  | bind hpos htype =>
    have hlt := (List.getElem?_eq_some_iff.1 htype).1
    simp only [Edit.reshape, Form.shape, Form.Shape.grow, if_neg (Nat.succ_ne_zero pos),
      List.length_eraseIdx, if_pos hlt] at harity
    have hle : pos ≤ args.length := by omega
    refine ⟨rfl, rfl, .void :: args ++ [v], fun run => ?_, ⟨?_, ?_, fun i hi hi' => ?_, fun u hu => ?_,
      fun u hu => ?_⟩⟩
    · simp only [Adaptation.binding, loop_cons, loop, pure_bind,
        fieldStep_readOf (hlen.trans (by rw [hg.old, hbase.fields_eq]))]
    · rw [hparams]
      simp only [Adaptation.binding, List.length_append, List.length_cons, List.length_nil]
      omega
    · simp only [List.length_cons, List.length_insertIdx_of_le_length hle]
      omega
    · obtain ⟨i, rfl⟩ : ∃ k, i = k + 1 := ⟨i - 1, by omega⟩
      simp only [Adaptation.binding, List.getElem?_cons_succ, List.getElem?_insertIdx]
      grind
    · simp only [List.mem_append, List.mem_cons, List.mem_insertIdx hle] at hu ⊢
      tauto
    · simp only [List.mem_append, List.mem_cons, List.mem_insertIdx hle] at hu ⊢
      tauto

theorem yields_add {pos : Nat} {type : BasicType} (hre : re.Blind) (hbase : base.Carrier fields)
    (hf : (Edit.add (pos + 1) type).Answers base f) (hargs : args.length + 1 = f.arity)
    (hheld : ∀ v ∈ args, v.Within held)
    (h : Yields host re held base bound (args.eraseIdx pos) X) :
    Yields host re held f bound args X := by
  have harity := hf.arity_eq hbase.editable
  refine yields_of_starts hre hbase (hf.derives.resolve_left fun h => nomatch h.1) nofun
    (fun i hi => rfl) (fun g A hadapts hg hparams => ?_) h
  have hlength := Form.length_params hbase.editable.wellFormed
  cases hadapts with
  | add hpos hle hvoid hslots =>
    simp only [Edit.reshape, Form.shape, List.length_insertIdx_of_le_length (hlength ▸ hle)] at harity
    refine ⟨rfl, rfl, .void :: args, fun run => rfl, ⟨?_, ?_, fun i hi hi' => ?_, fun u hu => ?_,
      fun u hu => ?_⟩⟩
    · rw [hparams]
      exact hargs
    · simp only [List.length_cons, List.length_eraseIdx]
      grind
    · obtain ⟨i, rfl⟩ : ∃ k, i = k + 1 := ⟨i - 1, by omega⟩
      simp only [Adaptation.adding, List.getElem?_cons_succ, List.getElem?_eraseIdx]
      grind
    · rcases List.mem_cons.1 hu with rfl | hu
      · exact .inl (.head _)
      · exact .inr (hheld u hu)
    · exact .inl ((List.mem_cons.1 hu).elim (fun h => h ▸ .head _) fun hu =>
        List.mem_cons_of_mem _ (List.mem_of_mem_eraseIdx hu))

theorem yields_dup {src dst : Nat} {v : Value} (hre : re.Blind) (hbase : base.Carrier fields)
    (hf : (Edit.dup (src + 1) (dst + 1)).Answers base f) (hargs : args.length + 1 = f.arity)
    (hv : args[src]? = some v) (h : Yields host re held base bound (args.insertIdx dst v) X) :
    Yields host re held f bound args X := by
  have harity := hf.arity_eq hbase.editable
  refine yields_of_starts hre hbase (hf.derives.resolve_left fun h => nomatch h.1) nofun
    (fun i hi => rfl) (fun g A hadapts hg hparams => ?_) h
  have hlength := Form.length_params hbase.editable.wellFormed
  cases hadapts with
  | dup hpos hlt hdst htype =>
    simp only [Edit.reshape, Form.shape, List.length_eraseIdx, if_pos (hlength ▸ hdst)] at harity
    have hle : dst ≤ args.length := by omega
    refine ⟨rfl, rfl, .void :: args, fun run => rfl, ⟨?_, ?_, fun i hi hi' => ?_, fun u hu => ?_,
      fun u hu => ?_⟩⟩
    · rw [hparams]
      exact hargs
    · simp only [List.length_cons, List.length_insertIdx_of_le_length hle]
      omega
    · obtain ⟨i, rfl⟩ : ∃ k, i = k + 1 := ⟨i - 1, by omega⟩
      simp only [Adaptation.merging, List.getElem?_cons_succ, List.getElem?_insertIdx]
      grind
    · simp only [List.mem_cons, List.mem_insertIdx hle] at hu ⊢
      tauto
    · simp only [List.mem_cons, List.mem_insertIdx hle] at hu ⊢
      rcases hu with rfl | rfl | hu
      · exact .inl (.inl rfl)
      · exact .inl (.inr (List.mem_of_getElem? hv))
      · exact .inl (.inr hu)

/-- Every parameter gets its argument. -/
theorem yields_permute {reorder : List Nat} (hre : re.Blind) (hbase : base.Carrier fields)
    (hf : (Edit.permute 1 reorder).Answers base f) (hargs : args.length + 1 = f.arity)
    (h : Yields host re held base bound (reorder.map fun r => (args[r]?).getD .void) X) :
    Yields host re held f bound args X := by
  have hcheck := hf.check
  simp only [Edit.check, bind_unit_eq_ok_iff, Edit.require_eq_ok_iff] at hcheck
  obtain ⟨-, hreorder, hpermutation⟩ := hcheck
  have hperm := Edit.perm_of_isPermutation hpermutation
  rcases hf.derives with ⟨htrivial, rfl⟩ | hderives
  · have hrange : reorder = List.range args.length := by
      rw [show args.length = reorder.length by omega]
      exact beq_iff_eq.1 htrivial
    have hsame : (reorder.map fun r => (args[r]?).getD .void) = args := by
      refine List.ext_getElem (by simp [hrange]) fun i hi hi' => ?_
      simp [hrange, hi']
    rwa [hsame] at h
  have harity := hf.arity_eq hbase.editable
  have hlength : args.length = reorder.length := by
    have hparams := Form.length_params hbase.editable.wellFormed
    simp only [Edit.reshape, Form.shape, Edit.permuteTypes, List.length_append, List.length_take,
      List.length_map, List.length_range] at harity
    omega
  have hmem : ∀ r ∈ reorder, ∃ v, args[r]? = some v := fun r hr =>
    ⟨_, List.getElem?_eq_getElem (hlength ▸ List.mem_range.1 (hperm.mem_iff.1 hr))⟩
  refine yields_of_starts hre hbase hderives (fun _ h => by cases h) (fun i hi => rfl)
    (fun g A hadapts hg hparams => ?_) h
  cases hadapts with
  | permute _ _ =>
    refine ⟨rfl, rfl, .void :: args, fun run => rfl, ⟨?_, ?_, fun i hi hi' => ?_, fun u hu => ?_,
      fun u hu => ?_⟩⟩
    · rw [hparams]
      exact hargs
    · simp only [List.length_cons, List.length_map]
      omega
    · obtain ⟨i, rfl⟩ : ∃ k, i = k + 1 := ⟨i - 1, by omega⟩
      have hlt : i < reorder.length := by omega
      obtain ⟨v, hv⟩ := hmem reorder[i] (List.getElem_mem hlt)
      simp only [Adaptation.permuting, Edit.permuted, List.getElem?_cons_succ, List.getElem?_map,
        Nat.add_sub_cancel, List.getElem?_eq_getElem hlt]
      rw [if_neg (by omega), Nat.add_comm 1]
      simp [hv]
    · rcases List.mem_cons.1 hu with rfl | hu
      · exact .inl (.head _)
      · obtain ⟨r, hr⟩ := List.getElem?_of_mem hu
        have hlt := (List.getElem?_eq_some_iff.1 hr).1
        refine .inl (List.mem_cons_of_mem _ (List.mem_map.2 ⟨r, ?_, by simp [hr]⟩))
        exact hperm.mem_iff.2 (List.mem_range.2 (hlength ▸ hlt))
    · rcases List.mem_cons.1 hu with rfl | hu
      · exact .inl (.head _)
      · obtain ⟨r, hr, rfl⟩ := List.mem_map.1 hu
        obtain ⟨v, hv⟩ := hmem r hr
        rw [hv]
        exact .inl (List.mem_cons_of_mem _ (List.mem_of_getElem? hv))

/-! ## Calls in front -/

/-- The arguments of the base behind a call: its result, if it has one, and in front of and behind it
the arguments that are passed on. -/
def combinedArgs (pos : Nat) (c : Signature) (keep : Bool) (args : List Value) (r : Value) :
    List Value :=
  args.take pos ++ (if c.basicRet == .void then [] else [r]) ++
    args.drop (pos + if keep then 0 else c.arity)

/-- The parameters of the base are found among the arguments and the result of the call. -/
theorem supplies_combining {g : CarrierGrowth} {sig c : Signature} {pos : Nat} {keep : Bool}
    {C r : Value} (hle : pos + 1 + Edit.resultArity (c.basicRet == .void) ≤ base.arity)
    (hbasic : sig.basic = c.basic) (hsize : base.arity ≤ base.size)
    (hargs : args.length + 1 =
      (Adaptation.combining base g (pos + 1) sig keep (c.basicRet == .void)).params.length)
    (hheld : ∀ v ∈ C :: args, v.Within held) (hvoid : c.basicRet = .void → r = .void) :
    (Adaptation.combining base g (pos + 1) sig keep (c.basicRet == .void)).Supplies base held
      (.void :: args ++ [C, r]) (.void :: combinedArgs pos c keep args r) := by
  obtain ⟨n, hn⟩ : ∃ n, (if keep then 0 else c.arity) = n := ⟨_, rfl⟩
  have hnew : (Adaptation.combinationParams sig keep).length = n := by
    have harity : sig.basicParams = c.basicParams := by
      rw [← Signature.basicParams_basic sig, hbasic, Signature.basicParams_basic]
    rw [← hn, Adaptation.combinationParams, harity]
    split <;> simp
  obtain ⟨rs, hrs⟩ : ∃ rs, (if c.basicRet == .void then [] else [r]) = rs := ⟨_, rfl⟩
  have hresults : rs.length = Edit.resultArity (c.basicRet == .void) ∧ (∀ u ∈ rs, u = r) ∧
      (r ∈ rs ∨ r = .void) := by
    subst hrs
    by_cases h : c.basicRet = .void
    · simpa [h, Edit.resultArity] using hvoid h
    · simp [h, Edit.resultArity]
  obtain ⟨hrsLength, hrsEq, hr⟩ := hresults
  unfold Form.size at hsize
  unfold combinedArgs
  rw [hn, hrs]
  rw [← hrsLength] at hle
  have hlen : args.length = pos + n + (base.arity - (pos + 1 + rs.length)) := by
    simp only [Adaptation.combining, List.length_cons, List.length_append, List.length_map,
      List.length_drop, List.length_take, hnew, ← hrsLength] at hargs
    omega
  have htake : (args.take pos).length = pos := by
    rw [List.length_take]
    omega
  refine ⟨?_, ?_, fun i hi hi' => ?_, fun u hu => ?_, fun u hu => ?_⟩
  · rw [← hargs]
    simp [Adaptation.combining]
  · simp only [List.length_cons, List.length_append, htake, List.length_drop]
    omega
  · obtain ⟨i, rfl⟩ : ∃ k, i = k + 1 := ⟨i - 1, by omega⟩
    have hplace : (Adaptation.combining base g (pos + 1) sig keep (c.basicRet == .void)).place
        (i + 1) = (if i < pos then i else if i < pos + rs.length then args.length + 1
          else i - rs.length + n) + 1 := by
      simp only [Adaptation.combining, hnew, ← hrsLength]
      split_ifs <;> omega
    rw [hplace, List.cons_append, List.getElem?_cons_succ, List.getElem?_cons_succ, List.append_assoc]
    split_ifs with hlt hres
    · rw [List.getElem?_append_left (by omega), List.getElem?_append_left (by omega),
        List.getElem?_take_of_lt hlt]
    · have hget := List.getElem?_eq_getElem (show i - pos < rs.length by omega)
      rw [List.getElem?_append_right (Nat.le_succ _), List.getElem?_append_right (by omega), htake,
        List.getElem?_append_left (by omega), hget, hrsEq _ (List.getElem_mem _)]
      simp
    · rw [List.getElem?_append_left (by omega), List.getElem?_append_right (by omega), htake,
        List.getElem?_append_right (by omega), List.getElem?_drop]
      congr 1
      omega
  · simp only [List.mem_append, List.mem_cons, List.not_mem_nil, or_false] at hu ⊢
    rcases hu with (rfl | hu) | rfl | rfl
    · exact .inl (.inl rfl)
    · exact .inr (hheld u (List.mem_cons_of_mem _ hu))
    · exact .inr (hheld u (.head _))
    · exact hr.elim (fun hr => .inl (.inr (.inl (.inr hr)))) fun hr => .inl (.inl hr)
  · simp only [List.mem_append, List.mem_cons, List.not_mem_nil, or_false] at hu ⊢
    rcases hu with rfl | (hu | hu) | hu
    · exact .inl (.inl (.inl rfl))
    · exact .inl (.inl (.inr (List.mem_of_mem_take hu)))
    · exact .inl (.inr (.inr (hrsEq u hu)))
    · exact .inl (.inl (.inr (List.mem_of_mem_drop hu)))

/-- The body of a form that calls a handle in the last field in front of the base. -/
theorem body_call {A : Adaptation} {g : CarrierGrowth} {sig : Signature} {c : Handle}
    {operands : List Nat} {cargs : List Value} (hearly : A.early = [g.readOf 0, .call sig operands])
    (hlate : A.late = []) (hread : bound.length = g.old.fields.length)
    (hbasic : c.type.basic = sig.basic)
    (hvalues : operands.map (fun i => (.void :: args ++ [.handle c])[i]?) =
      (.handle c :: cargs).map some) (run : Runner σ) (id : Nat) :
    body host re run (A.form base id) (bound ++ [.handle c]) args = (do
      let r ← withFrame ⟨[], .void :: args ++ [.handle c]⟩ (invokeHandle run c cargs)
      loop (fieldStep (apply host re run) (bound ++ [.handle c]))
        ((base.names.drop base.arity).map (A.moved base)) (.void :: args ++ [.handle c, r]) >>=
          resultOf (A.form base id)) := by
  rw [body_form hlate, hearly, loop_cons, fieldStep_readOf hread, pure_bind, loop_cons,
    fieldStep_call hbasic hvalues, bind_assoc]
  refine bind_congr fun r => ?_
  rw [loop, pure_bind, List.append_assoc]
  rfl

/-- A handle that is called in front of the base. -/
theorem refinesFrom_combines {w : World σ} {pos : Nat} {c : Handle} {keep : Bool} {d d' : Nat}
    {Y : Value → Nat → Exec σ Value} (hre : re.Blind) (hbase : base.Carrier fields)
    (hf : Edit.Combines base (pos + 1) c.type keep f) (hlen : bound.length = fields.length)
    (hargs : args.length + 1 = f.arity) (hheld : ∀ v ∈ .handle c :: args, v.Within held)
    (hw : w.held = held) (hlt : d < d')
    (hvoid : c.type.basicRet = .void → ∀ r w',
      (invokeHandle (runForm host re d') c ((args.drop pos).take c.type.arity)).Ends w (.ok r) w' →
        r = .void)
    (h : ∀ r, Yields host re held base bound (combinedArgs pos c.type keep args r) (Y r)) :
    RefinesFrom held Eq (body host re (runForm host re d) f (bound ++ [.handle c]) args)
      (invokeHandle (runForm host re d') c ((args.drop pos).take c.type.arity) >>= fun r => Y r d')
      w := by
  have hsize := hbase.editable.wellFormed.arity_le
  obtain ⟨-, hle, hkept, g, sig, e, id, hadapts, hg, hkeeps, -, hbasic, rfl⟩ := hf
  have hread : bound.length = g.old.fields.length := hlen.trans (by rw [hg.old, hbase.fields_eq])
  have hparams : sig.basicParams = c.type.basicParams := by
    rw [← Signature.basicParams_basic sig, hbasic, Signature.basicParams_basic]
  have harity : sig.arity = c.type.arity := by
    rw [← Signature.length_basicParams, hparams, Signature.length_basicParams]
  obtain ⟨n, hn⟩ : ∃ n, (Adaptation.combinationParams sig keep).length = n := ⟨_, rfl⟩
  have hlength : args.length + Edit.resultArity (c.type.basicRet == .void) + 1 = base.arity + n := by
    unfold Form.size at hsize
    have hsum : args.length + 1 = (Adaptation.combining base g (pos + 1) sig keep
      (c.type.basicRet == .void)).params.length := hargs
    simp only [Adaptation.combining, List.length_cons, List.length_append, List.length_map,
      List.length_drop, List.length_take, hn] at hsum
    omega
  have htaken : pos + c.type.arity ≤ args.length := by
    cases keep with
    | true => have := hkept rfl; omega
    | false =>
      have : n = c.type.arity := by
        rw [← hn, Adaptation.combinationParams, if_neg (by simp), Signature.length_basicParams, harity]
      omega
  have hvalues : ((base.arity - Edit.resultArity (c.type.basicRet == .void) +
        (Adaptation.combinationParams sig keep).length) :: List.range' (pos + 1) sig.arity).map
      (fun i => (.void :: args ++ [.handle c])[i]?) =
      (.handle c :: (args.drop pos).take c.type.arity).map some := by
    rw [List.map_cons, List.map_cons, show base.arity - Edit.resultArity (c.type.basicRet == .void) +
      (Adaptation.combinationParams sig keep).length = (.void :: args).length by
        rw [List.length_cons]
        omega, List.getElem?_concat_length]
    refine congrArg _ (List.ext_getElem (by simp; omega) fun k hk hk' => ?_)
    have hlt : k < c.type.arity := by simpa [harity] using hk
    simp [Nat.add_right_comm pos 1 k, List.getElem?_append_left (show pos + k < args.length by omega),
      List.getElem?_eq_getElem (show pos + k < args.length by omega)]
  have hcall : Refines held Eq (withFrame ⟨[], .void :: args ++ [.handle c]⟩
      (invokeHandle (runForm host re d) c ((args.drop pos).take c.type.arity)))
      (invokeHandle (runForm host re d') c ((args.drop pos).take c.type.arity)) := by
    refine (refines_invokeHandle hre held (Nat.le_of_lt hlt) c _).withFrame_left
      (fun f hf => by cases hf) fun v hv => ?_
    simp only [List.mem_append, List.mem_cons, List.not_mem_nil, or_false] at hv
    rcases hv with (rfl | hv) | rfl
    · exact Value.within_void
    · exact hheld v (List.mem_cons_of_mem _ hv)
    · exact hheld _ (.head _)
  rw [body_call rfl rfl hread hbasic.symm hvalues]
  refine (hcall.refinesFrom hw).bind fun r r' w' hr hw' hends => ?_
  subst hr
  have hsupplies := @supplies_combining held base args g sig c.type pos keep (.handle c) r hle hbasic
    hsize hargs hheld fun hv => hvoid hv r w' hends
  have hbound : ∀ i < fields.length, (bound ++ [.handle c])[i]? = bound[i]? :=
    fun i hi => List.getElem?_append_left (by omega)
  have hrest : Equates held Eq _ (body host re (runForm host re d) base bound
      (combinedArgs pos c.type keep args r)) :=
    equates_rest hre d hbase (hadapts.carries hbase hg hkeeps) (hadapts.fits hbase.editable hg) rfl
      hbound hsupplies id
  exact (hrest.le.trans_eq (h r d d' hlt)).refinesFrom hw'

end Exec

end HandleForms
