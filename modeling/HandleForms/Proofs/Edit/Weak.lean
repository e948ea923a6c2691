import HandleForms.Client
import HandleForms.Edit.Derive
import HandleForms.Proofs.Draft.Callees
import HandleForms.Proofs.Edit.Transparency

/-!
# Weak entries

A cache of derived forms holds its values weakly, so what an edit does depends on who is alive.
`Context.Edits` says everything that an edit can do to a context.
-/

namespace HandleForms

namespace Context

variable {η : Type} {c : Context η} {live : Live η} {base f : Form} {e : Edit}

/-- The context once a lookup was counted. -/
def lookedUp (c : Context η) : Context η :=
  { c with stats := { c.stats with lookups := c.stats.lookups + 1 } }

/-- Everything that an edit can answer and leave behind. -/
inductive Edits (c : Context η) (live : Live η) (base : Form) (e : Edit) :
    Except (Stop FormError) Form → Context η → Prop
  /-- A check fails. -/
  | unchecked {stop : Stop FormError} (hcheck : e.check base = .error stop) :
      Edits c live base e (.error stop) c
  /-- An operand does not fit in a byte of the key. -/
  | unkeyed {v : Violation} (hcheck : e.check base = .ok ()) (htrivial : e.isTrivial = false)
      (hkey : e.normal.key = .error v) : Edits c live base e (.error (.violation v)) c
  /-- The edit leaves every form as it is. -/
  | same (hcheck : e.check base = .ok ()) (htrivial : e.isTrivial = true) :
      Edits c live base e (.ok base) c
  /-- A live form is under the key. -/
  | found {key : EditKey} {f : Form} (hcheck : e.check base = .ok ())
      (htrivial : e.isTrivial = false) (hkey : e.normal.key = .ok key)
      (hfound : (c.cacheOf base).get? live.form key = some f) :
      Edits c live base e (.ok f)
        ({ c with stats := { c.stats with
            lookups := c.stats.lookups + 1, hits := c.stats.hits + 1 } }.retainForm f)
  /-- Nothing live is under the key, and the edit is stopped while it is carried out. -/
  | refused {key : EditKey} {stop : Stop FormError} {c' : Context η}
      (hcheck : e.check base = .ok ()) (htrivial : e.isTrivial = false)
      (hkey : e.normal.key = .ok key) (hmissing : (c.cacheOf base).get? live.form key = none)
      (hderive : c.lookedUp.deriveAnew base e.normal = (.error stop, c')) :
      Edits c live base e (.error stop) c'
  /-- Nothing live is under the key, and what is derived anew is put there. -/
  | derived {key : EditKey} {f : Form} {c' : Context η} (hcheck : e.check base = .ok ())
      (htrivial : e.isTrivial = false) (hkey : e.normal.key = .ok key)
      (hmissing : (c.cacheOf base).get? live.form key = none)
      (hderive : c.lookedUp.deriveAnew base e.normal = (.ok f, c')) :
      Edits c live base e (.ok f)
        (({ c' with stats := { c'.stats with published := c'.stats.published + 1 } }.setCache base
          ((c'.cacheOf base).accept live.form c'.config.arraySize key f)).retainForm f)

theorem lookupDerived_eq (c : Context η) (live : Live η) (base : Form) (key : EditKey) :
    c.lookupDerived live base key = match (c.cacheOf base).get? live.form key with
      | some f => (some f, { c with stats := { c.stats with
          lookups := c.stats.lookups + 1, hits := c.stats.hits + 1 } }.retainForm f)
      | none => (none, c.lookedUp) := by
  unfold lookupDerived lookedUp
  split <;> simp_all

/-- A form that is put where nothing live is wins. -/
theorem publishDerived_of_missing {key : EditKey}
    (h : (c.cacheOf base).get? live.form key = none) :
    c.publishDerived live base key f = (f,
      ({ c with stats := { c.stats with published := c.stats.published + 1 } }.setCache base
        ((c.cacheOf base).accept live.form c.config.arraySize key f)).retainForm f) := by
  have hself : (f == f) = true := beq_self_eq_true f.id
  simp only [publishDerived, EditCache.put, h, hself, if_true]

theorem edits_edit (c : Context η) (live : Live η) (base : Form) (e : Edit) :
    c.Edits live base e (c.edit live base e).1 (c.edit live base e).2 := by
  simp only [Context.edit]
  cases hcheck : e.check base with
  | error stop => exact .unchecked hcheck
  | ok u =>
    by_cases htrivial : e.isTrivial = true
    · simp only [htrivial, if_true]
      exact .same hcheck htrivial
    have htrivial : e.isTrivial = false := Bool.eq_false_iff.2 htrivial
    simp only [htrivial, Bool.false_eq_true, if_false]
    cases hkey : e.normal.key with
    | error v => exact .unkeyed hcheck htrivial hkey
    | ok key =>
      simp only [lookupDerived_eq]
      cases hget : (c.cacheOf base).get? live.form key with
      | some f => exact .found hcheck htrivial hkey hget
      | none =>
        simp only
        rcases hderive : c.lookedUp.deriveAnew base e.normal with ⟨stop | f, c'⟩
        · exact .refused hcheck htrivial hkey hget hderive
        · have hcaches : c'.caches = c.caches :=
            (congrArg (fun r => r.2.caches) hderive).symm.trans (caches_deriveAnew ..)
          have hcache : c'.cacheOf base = c.cacheOf base := by simp only [cacheOf, hcaches]
          simp only [publishDerived_of_missing (hcache ▸ hget)]
          exact .derived hcheck htrivial hkey hget hderive

/-- Deriving anew takes a new identity and may intern a species. -/
theorem deriveAnew_frame (c : Context η) (base : Form) (e : Edit) :
    ∃ t, (c.deriveAnew base e).2 = { c with species := t, nextForm := c.nextForm + 1 } := by
  unfold deriveAnew
  cases e.field? with
  | none => exact ⟨c.species, rfl⟩
  | some field =>
    simp only
    split
    · exact ⟨c.species, rfl⟩
    · next g d hgrow =>
      unfold growCarrier at hgrow
      obtain ⟨old, -, hgrow⟩ := bind_eq_ok_iff.1 hgrow
      obtain ⟨new, -, hgrow⟩ := bind_eq_ok_iff.1 hgrow
      obtain ⟨-, rfl⟩ := Prod.mk.inj (Except.ok.inj hgrow)
      exact ⟨new.2, rfl⟩

/-- What is derived anew is a new object, which calls nothing that its base does not call. -/
theorem object_deriveAnew (c : Context η) (base : Form) (e : Edit) :
    Ensures (c.deriveAnew base e).1 (Form.Object (· ∈ base.callees) c.nextForm) := by
  unfold deriveAnew
  cases e.field? with
  | none => exact Edit.object_derive base e none _
  | some field =>
    simp only
    split
    · exact ensures_error
    · exact Edit.object_derive base e _ _

end Context

end HandleForms
