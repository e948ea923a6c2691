import HandleForms.Violation

/-!
# Answers, errors and violations

How the two kinds of `Except` computations of this library go on after an answer: those that only
stop for a violation, and those that may also report an error, into which the first kind is lifted.
-/

namespace HandleForms

universe u

variable {α β : Type u} {ε δ : Type u}

@[simp] theorem ok_bind (a : α) (k : α → Except ε β) : (Except.ok a >>= k) = k a := rfl

@[simp] theorem error_bind (e : ε) (k : α → Except ε β) :
    (Except.error e >>= k) = Except.error e := rfl

theorem bind_eq_ok_iff {x : Except ε α} {k : α → Except ε β} {b : β} :
    x >>= k = .ok b ↔ ∃ a, x = .ok a ∧ k a = .ok b := by
  cases x <;> simp

/-- A step without an answer goes on or stops. -/
theorem bind_unit_eq_ok_iff {x : Except ε PUnit} {k : PUnit → Except ε β} {b : β} :
    x >>= k = .ok b ↔ x = .ok ⟨⟩ ∧ k ⟨⟩ = .ok b := by
  cases x <;> simp

theorem bind_eq_error_iff {x : Except ε α} {k : α → Except ε β} {e : ε} :
    x >>= k = .error e ↔ x = .error e ∨ ∃ a, x = .ok a ∧ k a = .error e := by
  cases x <;> simp

theorem map_eq_ok_iff {f : α → β} {x : Except ε α} {b : β} :
    x.map f = .ok b ↔ ∃ a, x = .ok a ∧ f a = b := by
  cases x <;> simp [Except.map]

@[simp] theorem mapError_ok (f : ε → δ) (a : α) : (Except.ok a).mapError f = .ok a := rfl

@[simp] theorem mapError_error (f : ε → δ) (e : ε) :
    (Except.error e : Except ε α).mapError f = .error (f e) := rfl

/-! ## What holds of every answer -/

/-- Every answer of the computation has the property. -/
def Ensures (x : Except ε α) (Q : α → Prop) : Prop := ∀ a, x = .ok a → Q a

section

variable {x y : Except ε α} {k : α → Except ε β} {Q : α → Prop} {R : β → Prop}

theorem ensures_ok {a : α} (h : Q a) : Ensures (.ok a : Except ε α) Q :=
  fun _ hb => Except.ok.inj hb ▸ h

theorem ensures_error {e : ε} : Ensures (.error e : Except ε α) Q := nofun

theorem Ensures.mono (h : Ensures x Q) {Q' : α → Prop} (hQ : ∀ a, Q a → Q' a) : Ensures x Q' :=
  fun a ha => hQ a (h a ha)

theorem Ensures.bind (hx : Ensures x Q) (hk : ∀ a, Q a → Ensures (k a) R) :
    Ensures (x >>= k) R := by
  intro b hb
  obtain ⟨a, ha, hkb⟩ := bind_eq_ok_iff.1 hb
  exact hk a (hx a ha) b hkb

/-- The first answer does not matter. -/
theorem ensures_bind (hk : ∀ a, Ensures (k a) R) : Ensures (x >>= k) R :=
  Ensures.bind (Q := fun _ => True) (fun _ _ => trivial) fun a _ => hk a

theorem ensures_ite {p : Prop} [Decidable p] (hx : Ensures x Q) (hy : Ensures y Q) :
    Ensures (if p then x else y) Q := by
  split <;> assumption

theorem ensures_foldlM {ι : Type} {step : α → ι → Except ε α} {a : α} (ha : Q a) {is : List ι}
    (hstep : ∀ b, ∀ i ∈ is, Q b → Ensures (step b i) Q) :
    Ensures (is.foldlM step a) Q := by
  induction is generalizing a with
  | nil => exact ensures_ok ha
  | cons i is ih =>
    rw [List.foldlM_cons]
    exact (hstep a i (.head _) ha).bind fun b hb =>
      ih hb fun b' j hj => hstep b' j (.tail _ hj)

end

namespace Stop

@[simp] theorem ofViolation_ok {ε : Type} {α : Type} (a : α) :
    (ofViolation (.ok a) : Except (Stop ε) α) = .ok a := rfl

@[simp] theorem ofViolation_error {ε : Type} {α : Type} (v : Violation) :
    (ofViolation (.error v) : Except (Stop ε) α) = .error (.violation v) := rfl

@[simp] theorem ofError_ok {ε : Type} {α : Type} (a : α) :
    (ofError (.ok a) : Except (Stop ε) α) = .ok a := rfl

@[simp] theorem ofError_error {ε : Type} {α : Type} (e : ε) :
    (ofError (.error e) : Except (Stop ε) α) = .error (.error e) := rfl

@[simp] theorem liftM_violation {ε : Type} {α : Type} (x : Except Violation α) :
    (liftM x : Except (Stop ε) α) = ofViolation x := rfl

theorem ofViolation_eq_ok_iff {ε : Type} {α : Type} {x : Except Violation α} {a : α} :
    (ofViolation x : Except (Stop ε) α) = .ok a ↔ x = .ok a := by
  cases x <;> simp

theorem ofError_eq_ok_iff {ε : Type} {α : Type} {x : Except ε α} {a : α} :
    (ofError x : Except (Stop ε) α) = .ok a ↔ x = .ok a := by
  cases x <;> simp

theorem ensures_ofViolation {ε : Type} {α : Type} {x : Except Violation α} {Q : α → Prop}
    (h : Ensures x Q) : Ensures (ofViolation x : Except (Stop ε) α) Q :=
  fun a ha => h a (ofViolation_eq_ok_iff.1 ha)

/-- No precondition was broken on the way. -/
def Unbroken {ε : Type} {α : Type} (x : Except (Stop ε) α) : Prop := ∀ v, x ≠ .error (.violation v)

theorem unbroken_ok {ε : Type} {α : Type} (a : α) : Unbroken (.ok a : Except (Stop ε) α) := nofun

theorem unbroken_error {ε : Type} {α : Type} (e : ε) :
    Unbroken (.error (.error e) : Except (Stop ε) α) := nofun

theorem Unbroken.bind {ε : Type} {α β : Type} {x : Except (Stop ε) α} {k : α → Except (Stop ε) β}
    (hx : Unbroken x) (hk : ∀ a, x = .ok a → Unbroken (k a)) : Unbroken (x >>= k) := by
  intro v hv
  rcases bind_eq_error_iff.1 hv with h | ⟨a, ha, h⟩
  · exact hx v h
  · exact hk a ha v h

/-- No error is reported. -/
def Errorless {ε : Type} {α : Type} (x : Except (Stop ε) α) : Prop := ∀ e, x ≠ .error (.error e)

theorem errorless_ok {ε : Type} {α : Type} (a : α) : Errorless (.ok a : Except (Stop ε) α) := nofun

theorem errorless_ofViolation {ε : Type} {α : Type} (x : Except Violation α) :
    Errorless (ofViolation x : Except (Stop ε) α) := by
  cases x <;> exact nofun

theorem Errorless.bind {ε : Type} {α β : Type} {x : Except (Stop ε) α} {k : α → Except (Stop ε) β}
    (hx : Errorless x) (hk : ∀ a, Errorless (k a)) : Errorless (x >>= k) := by
  intro e he
  rcases bind_eq_error_iff.1 he with h | ⟨a, -, h⟩
  · exact hx e h
  · exact hk a e h

end Stop

end HandleForms
