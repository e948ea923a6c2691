import HandleForms.Form.Basic

/-!
# Operands of a name

The names that a name refers to, and what a renaming of operands depends on: two renamings that
agree on the operands of a name do the same to it.
-/

namespace HandleForms

namespace Name

variable {φ : Type}

theorem mem_operands {n : Name φ} {a : Nat} : a ∈ n.operands ↔ Arg.name a ∈ n.args := by
  simp only [operands, List.mem_filterMap]
  constructor
  · rintro ⟨b, hb, ha⟩
    cases b with
    | name i => obtain rfl : i = a := by simpa [Arg.name?] using ha
                exact hb
    | const c => simp [Arg.name?] at ha
  · exact fun h => ⟨_, h, rfl⟩

theorem operands_param {n : Name φ} (h : n.isParam = true) : n.operands = [] := by
  have hn : n.expr = none := by simpa [isParam] using h
  simp [operands, args, hn]

@[simp] theorem operands_apply [FormLike φ] (f : Function φ) (args : List Arg) :
    (apply f args).operands = args.filterMap Arg.name? := rfl

@[simp] theorem isParam_apply [FormLike φ] (f : Function φ) (args : List Arg) :
    (apply f args).isParam = false := rfl

@[simp] theorem isParam_param (t : BasicType) : (param t : Name φ).isParam = true := rfl

@[simp] theorem isParam_carrier (s : Species) : (carrier s : Name φ).isParam = true := rfl

theorem mapArgs_congr {n : Name φ} {f g : Nat → Nat} (h : ∀ a ∈ n.operands, f a = g a) :
    n.mapArgs f = n.mapArgs g := by
  obtain ⟨t, s, _ | e⟩ := n
  · rfl
  · have : e.args.map (Arg.map f) = e.args.map (Arg.map g) := by
      refine List.map_congr_left fun a ha => ?_
      cases a with
      | name i => simpa [Arg.map] using h i (mem_operands.2 ha)
      | const c => rfl
    simp [mapArgs, this]

@[simp] theorem mapArgs_id (n : Name φ) : n.mapArgs (fun a => a) = n := by
  obtain ⟨t, s, _ | ⟨f, as⟩⟩ := n
  · rfl
  · have : as.map (Arg.map fun a => a) = as := by
      simpa using List.map_congr_left (g := id) fun a _ => Arg.map_id a
    simp [mapArgs, this]

theorem mapArgs_eq_self {n : Name φ} {f : Nat → Nat} (h : ∀ a ∈ n.operands, f a = a) :
    n.mapArgs f = n :=
  (mapArgs_congr h).trans (mapArgs_id n)

@[simp] theorem mapArgs_mapArgs (n : Name φ) (f g : Nat → Nat) :
    (n.mapArgs f).mapArgs g = n.mapArgs fun a => g (f a) := by
  obtain ⟨t, s, _ | e⟩ := n <;> simp [mapArgs]

@[simp] theorem operands_mapArgs (n : Name φ) (f : Nat → Nat) :
    (n.mapArgs f).operands = n.operands.map f := by
  rw [operands, args_mapArgs, operands]
  induction n.args with
  | nil => rfl
  | cons a as ih => cases a <;> simp [List.filterMap_cons, Arg.map, Arg.name?, ih]

theorem movedBy_eq_false_iff {n : Name φ} {f : Nat → Nat} :
    n.movedBy f = false ↔ ∀ a ∈ n.operands, f a = a := by
  simp only [movedBy, List.any_eq_false]
  constructor
  · intro h a ha
    simpa using h _ (mem_operands.1 ha)
  · intro h b hb
    cases b with
    | name i => simpa using h i (mem_operands.2 hb)
    | const c => simp

end Name

end HandleForms
