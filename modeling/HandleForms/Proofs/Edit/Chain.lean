import HandleForms.Proofs.Edit.Carries
import HandleForms.Proofs.Edit.Total

/-!
# Edits one after the other

`Edit.Answers` is what a context answers to an edit, and `Edit.Chain` to several edits, each of the
answer of the one before. Over a carrier, every answer is a form over the carrier grown by the fields
of the edits, and its shape is the one that the edits make.
-/

namespace HandleForms

namespace Edit

variable {base f f' : Form} {e : Edit} {es es' : List Edit} {fields : List BasicType}

/-- A context may answer the form to the edit of the base. -/
structure Answers (base : Form) (e : Edit) (f : Form) : Prop where
  check : e.check base = .ok ()
  derives : e.isTrivial = true ∧ f = base ∨ e.normal.DerivesTo base f

/-- The edit leaves the handle in parameter 0. -/
def KeepsHandle (e : Edit) : Prop := ∀ type, e ≠ .bind 0 type

@[simp] theorem field?_normal (e : Edit) : e.normal.field? = e.field? := by
  cases e with
  | collect pos collector =>
    unfold normal
    dsimp only
    split
    · rfl
    · split <;> rfl
    · rfl
  | _ => rfl

theorem KeepsHandle.normal (h : e.KeepsHandle) : e.normal.KeepsHandle := by
  cases e with
  | collect pos collector =>
    unfold Edit.normal
    dsimp only
    split
    · exact nofun
    · split <;> exact nofun
    · exact nofun
  | _ => exact h

namespace Answers

theorem editable (h : Answers base e f) (hbase : base.Editable) : f.Editable := by
  rcases h.derives with ⟨-, rfl⟩ | hderives
  · exact hbase
  · exact hderives.editable hbase

/-- The answer has the shape that the edit says. -/
theorem shape_eq (h : Answers base e f) (hbase : base.Editable) :
    f.shape = e.reshape base.shape := by
  rcases h.derives with ⟨htrivial, rfl⟩ | hderives
  · exact (reshape_of_isTrivial hbase h.check htrivial).symm
  · rw [hderives.shape_eq hbase, reshape_normal h.check]

theorem arity_eq (h : Answers base e f) (hbase : base.Editable) :
    f.arity = (e.reshape base.shape).params.length := by
  rw [← h.shape_eq hbase]
  exact (Form.length_params (h.editable hbase).wellFormed).symm

/-- The answer is a form over the grown carrier. -/
theorem carrier (h : Answers base e f) (hbase : base.Carrier fields) (hkeeps : e.KeepsHandle) :
    f.Carrier (fields ++ e.field?.toList) := by
  rcases h.derives with ⟨htrivial, rfl⟩ | ⟨g, A, id, hadapts, hg, rfl⟩
  · cases e with
    | permute skip reorder => simpa [field?] using hbase
    | _ => cases htrivial
  · simpa using hadapts.carrier hbase hg hkeeps.normal id

end Answers

/-- A context may answer the last form to edits that are made one after the other. -/
inductive Chain : Form → List Edit → Form → Prop
  | nil (f : Form) : Chain f [] f
  | cons {base g f : Form} {e : Edit} {es : List Edit} (h : Answers base e g) (rest : Chain g es f) :
      Chain base (e :: es) f

namespace Chain

theorem single (h : Answers base e f) : Chain base [e] f := .cons h (.nil f)

theorem append (h : Chain base es f) (h' : Chain f es' f') : Chain base (es ++ es') f' := by
  induction h with
  | nil f => exact h'
  | cons hanswers _ ih => exact .cons hanswers (ih h')

theorem split (h : Chain base (es ++ es') f) : ∃ g, Chain base es g ∧ Chain g es' f := by
  induction es generalizing base with
  | nil => exact ⟨base, .nil base, h⟩
  | cons e es ih =>
    obtain ⟨⟩ | ⟨hanswers, hrest⟩ := h
    obtain ⟨g, hfirst, hlast⟩ := ih hrest
    exact ⟨g, .cons hanswers hfirst, hlast⟩

theorem editable (h : Chain base es f) (hbase : base.Editable) : f.Editable := by
  induction h with
  | nil f => exact hbase
  | cons hanswers _ ih => exact ih (hanswers.editable hbase)

theorem shape_eq (h : Chain base es f) (hbase : base.Editable) :
    f.shape = es.foldl reshape base.shape := by
  induction h with
  | nil f => rfl
  | cons hanswers _ ih => rw [ih (hanswers.editable hbase), hanswers.shape_eq hbase]; rfl

/-- The last form is one over the carrier with the fields of all edits. -/
theorem carrier (h : Chain base es f) (hbase : base.Carrier fields)
    (hkeeps : ∀ e ∈ es, e.KeepsHandle) : f.Carrier (fields ++ es.filterMap field?) := by
  induction h generalizing fields with
  | nil f => simpa using hbase
  | cons hanswers _ ih =>
    have hrest := ih (hanswers.carrier hbase (hkeeps _ (.head _)))
      fun e he => hkeeps e (List.mem_cons_of_mem _ he)
    rw [List.append_assoc] at hrest
    convert hrest using 2
    rw [List.filterMap_cons]
    split <;> next heq => rw [heq]; rfl

end Chain

end Edit

namespace Context

variable {η : Type} {c : Context η} {base f : Form} {e : Edit}

/-- What a sound context answers. -/
theorem Sound.answers (h : c.Sound) (live : Live η) (hbase : base.Editable)
    (hok : (c.edit live base e).1 = .ok f) : e.Answers base f :=
  ⟨check_of_edit_ok hok, edit_ok h live hbase hok⟩

/-- What is let through is answered, unless it is refused while it is carried out. -/
theorem Sound.edit_succeeds (h : c.Sound) (live : Live η) (hbase : base.Editable)
    (hcheck : e.check base = .ok ()) (hwords : e.normal.InWords) (hrefused : ¬ e.Refused base) :
    ∃ f, (c.edit live base e).1 = .ok f := by
  obtain ⟨key, hkey⟩ := Edit.exists_key_of_check hbase hcheck hwords
  simp only [Context.edit, hcheck, hkey]
  split
  · exact ⟨_, rfl⟩
  have hlookup := h.lookupDerived live base key
  split
  · exact ⟨_, rfl⟩
  next c' heq =>
  rw [heq] at hlookup
  obtain ⟨f, hf, -⟩ := deriveAnew_eq hlookup hbase fun g =>
    (Edit.adapts_of_check hbase hcheck hwords g).resolve_right hrefused
  split
  · next stop c'' heq' =>
    rw [heq'] at hf
    cases hf
  · exact ⟨_, rfl⟩

end Context

end HandleForms
