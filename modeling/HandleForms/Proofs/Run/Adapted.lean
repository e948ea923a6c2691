import HandleForms.Proofs.Edit.Carries
import HandleForms.Proofs.Run.Body

/-!
# What a derived form computes

The body of a derived form first evaluates the early names of its adaptation. When what it has then,
the arguments and the early values, holds for every parameter of the base but the handle the value
that the base gets for it, the rest goes on like the body of the base (`equates_rest`): the
expressions are those of the base with their operands moved, and the reads of fields are reads of the
same fields of the grown carrier.
-/

namespace HandleForms

namespace Adaptation

/-- The values that a derived form has in front of the expressions of its base, and those that the
base starts with. -/
structure Supplies (A : Adaptation) (base : Form) (held start start' : List Value) : Prop where
  length : start.length = A.params.length + A.early.length
  length' : start'.length = base.arity
  place : ∀ i, 0 < i → i < base.arity → start[A.place i]? = start'[i]?
  values : ∀ v ∈ start, v ∈ start' ∨ v.Within held
  values' : ∀ v ∈ start', v ∈ start ∨ v.Within held

namespace Supplies

variable {A : Adaptation} {base : Form} {held start start' es : List Value} {i : Nat}
  (h : A.Supplies base held start start')
include h

theorem alike (es : List Value) :
    Frame.Alike held ⟨[], start ++ es⟩ ⟨[], start' ++ es⟩ := by
  refine ⟨fun f hf => absurd hf (by simp), fun f hf => absurd hf (by simp), fun v hv => ?_,
    fun v hv => ?_⟩
  · rcases List.mem_append.1 hv with hv | hv
    · exact (h.values v hv).imp_left (List.mem_append_left _)
    · exact .inl (List.mem_append_right _ hv)
  · rcases List.mem_append.1 hv with hv | hv
    · exact (h.values' v hv).imp_left (List.mem_append_left _)
    · exact .inl (List.mem_append_right _ hv)

/-- Every name of the base but the handle has its value where it was moved to. -/
theorem getElem?_move (hfits : A.Fits base) (hbase : base.WellFormed) (hi : 0 < i) :
    (start ++ es)[A.move base.arity i]? = (start' ++ es)[i]? := by
  unfold move
  split
  · next hlt =>
    obtain ⟨n, hn, -⟩ := hbase.exists_param hlt
    have hplace := (List.getElem?_eq_some_iff.1 (hfits.place i n.type (Form.param?_eq hlt hn))).1
    rw [List.length_map, List.length_append, ← h.length] at hplace
    rw [List.getElem?_append_left hplace, List.getElem?_append_left (by rw [h.length']; exact hlt),
      h.place i hi hlt]
  · next hge =>
    rw [← h.length, List.getElem?_append_right (by omega),
      List.getElem?_append_right (by rw [h.length']; omega), h.length']
    congr 1
    omega

end Supplies

end Adaptation

namespace Exec

open Adaptation

variable {σ : Type} {host : Host σ} {re : Reentry σ} {base : Form} {A : Adaptation}
  {fields : List BasicType} {held bound bound' start start' es : List Value} {n : Name Form}

/-- One name of the base, and the same name as it stands in the derived form. -/
theorem equates_fieldStep (hre : re.Blind) (depth : Nat) (hbase : base.Carrier fields)
    (hA : A.Carries base fields) (hfits : A.Fits base)
    (hbound : ∀ i < fields.length, bound[i]? = bound'[i]?)
    (hstart : A.Supplies base held start start') (hn : n ∈ base.names) :
    Equates held Eq
      (fieldStep (apply host re (runForm host re depth)) bound (A.moved base n) (start ++ es))
      (fieldStep (apply host re (runForm host re depth)) bound' n (start' ++ es)) := by
  unfold fieldStep
  rcases hbase.reads_or hn with ⟨i, hi, hread, hreads⟩ | ⟨hread, hzero⟩
  · rw [hA.fieldRead?_moved_of_reads hbase.editable.arity_pos hi hreads, hread]
    dsimp only
    rw [valueAt, valueAt, hbound i hi]
    exact .ofOutcome (.of_eq rfl)
  rw [hA.fieldRead?_moved_of_plain hzero, hread, moved_of_plain hzero]
  cases he : n.expr with
  | none => simpa [Name.mapArgs, he] using .ofOutcome (.of_eq rfl)
  | some e =>
    have hmoved : (n.mapArgs (A.move base.arity)).expr =
        some ⟨e.function, e.args.map (Arg.map (A.move base.arity))⟩ := by
      simp [Name.mapArgs, he]
    rw [hmoved]
    dsimp only
    have hargs : (e.args.map (Arg.map (A.move base.arity))).mapM (operand (start ++ es)) =
        e.args.mapM (operand (start' ++ es)) := by
      refine mapM_operand_map fun i hi => ?_
      have hmem : i ∈ n.operands := Name.mem_operands.2 (by simpa [Name.args, he] using hi)
      exact hstart.getElem?_move hfits hbase.editable.wellFormed
        (Nat.pos_of_ne_zero fun hz => hzero (hz ▸ hmem))
    rw [hargs]
    refine .bind (.ofOutcome (.of_eq rfl)) fun us vs hus => ?_
    subst hus
    exact (equates_apply hre held depth e.function us).withFrame (hstart.alike es)

/-- The result of the base is found where it was moved to. -/
theorem result_form (hbase : base.Carrier fields) (hfits : A.Fits base) (hresult : A.result = none)
    (id : Nat) : (A.form base id).result = base.result.map (A.move base.arity) := by
  show Form.keptResult (A.names base) (A.result.getD _) = _
  rw [hresult, Option.getD_none]
  cases hr : base.result with
  | none => rfl
  | some r =>
    have hn := List.getElem?_eq_getElem (hbase.editable.wellFormed.result_lt r hr)
    have htype := hfits.type_move hbase.editable.made hn
    have hkept := (hbase.result r hr).2
    rw [List.getElem?_map] at htype
    rw [hn] at hkept
    rw [Option.map_some, Form.keptResult, Option.filter_some, htype]
    simpa using hkept

/-- The expressions of the base come to the same behind the early names. -/
theorem equates_moved (hre : re.Blind) (depth : Nat) (hbase : base.Carrier fields)
    (hA : A.Carries base fields) (hfits : A.Fits base)
    (hbound : ∀ i < fields.length, bound[i]? = bound'[i]?)
    (hstart : A.Supplies base held start start') :
    Equates held (fun us vs => ∃ es, us = start ++ es ∧ vs = start' ++ es)
      (loop (fieldStep (apply host re (runForm host re depth)) bound)
        ((base.names.drop base.arity).map (A.moved base)) start)
      (loop (fieldStep (apply host re (runForm host re depth)) bound')
        (base.names.drop base.arity) start') := by
  have hloop : Equates held (fun us vs => ∃ es, us = start ++ es ∧ vs = start' ++ es)
      (loop (fieldStep (apply host re (runForm host re depth)) bound)
        ((base.names.drop base.arity).map (A.moved base)) (start ++ []))
      (loop (fieldStep (apply host re (runForm host re depth)) bound')
        (base.names.drop base.arity) (start' ++ [])) :=
    equates_loop (fun n hn es => equates_fieldStep hre depth hbase hA hfits hbound hstart
      (List.mem_of_mem_drop hn)) []
  rwa [List.append_nil, List.append_nil] at hloop

/-- Behind the early names, the body of a derived form goes on like that of its base. -/
theorem equates_rest (hre : re.Blind) (depth : Nat) (hbase : base.Carrier fields)
    (hA : A.Carries base fields) (hfits : A.Fits base) (hresult : A.result = none)
    (hbound : ∀ i < fields.length, bound[i]? = bound'[i]?)
    (hstart : A.Supplies base held start start') (id : Nat) :
    Equates held Eq
      (loop (fieldStep (apply host re (runForm host re depth)) bound)
        ((base.names.drop base.arity).map (A.moved base)) start >>= resultOf (A.form base id))
      (loop (fieldStep (apply host re (runForm host re depth)) bound')
        (base.names.drop base.arity) start' >>= resultOf base) := by
  refine (equates_moved hre depth hbase hA hfits hbound hstart).bind fun us vs => ?_
  rintro ⟨es, rfl, rfl⟩
  unfold resultOf
  rw [result_form hbase hfits hresult]
  cases hr : base.result with
  | none => exact .pure rfl
  | some r =>
    have hpos := hbase.editable.arity_pos
    have hle := (hbase.result r hr).1
    dsimp only [Option.map_some]
    rw [valueAt, valueAt, hstart.getElem?_move hfits hbase.editable.wellFormed (by omega)]
    exact .ofOutcome (.of_eq rfl)

/-- The body of a derived form that computes nothing behind its base. -/
theorem body_form (hlate : A.late = []) (run : Runner σ) (bound args : List Value) (id : Nat) :
    body host re run (A.form base id) bound args = (do
      let start ← loop (fieldStep (apply host re run) bound) A.early (.void :: args)
      loop (fieldStep (apply host re run) bound) ((base.names.drop base.arity).map (A.moved base))
        start >>= resultOf (A.form base id)) := by
  have hnames : (A.form base id).names.drop (A.form base id).arity =
      A.early ++ (base.names.drop base.arity).map (A.moved base) := by
    show (A.names base).drop A.params.length = _
    rw [names, hlate, List.append_nil, List.append_assoc, List.drop_left]
  rw [body, hnames, loop_append, bind_assoc]

end Exec

end HandleForms
