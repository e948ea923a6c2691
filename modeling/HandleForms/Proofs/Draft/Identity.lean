import HandleForms.Edit.Derive
import HandleForms.Proofs.Outcome

/-!
# Forms without identities

Forms and species are objects with identities, and a form that is derived twice is another object
each time. `Form.plain` forgets the identity of a form and of the species that its names mention; two
forms with the same plain form have the same names, arity, result and kind. Nothing that an edit does
looks at what is forgotten: every operation on drafts commutes with `Draft.plain`, so plain bases
have plain derived forms (`Edit.plain_derive`).
-/

namespace HandleForms

/-! ## Names and forms -/

/-- The layout alone. -/
def Species.plain (s : Species) : Species := ⟨0, s.fields⟩

namespace Function

/-- The same function; a species is told apart by its layout alone. -/
def plain : Function Form → Function Form
  | .intrinsic (.boundField s i) => getter s.plain i
  | f => f

variable (f g : Function Form)

@[simp] theorem params_plain : f.plain.params = f.params := by
  match f with
  | .intrinsic op => cases op <;> rfl
  | .external _ _ | .form _ => rfl

@[simp] theorem ret_plain : f.plain.ret = f.ret := by
  match f with
  | .intrinsic op => cases op <;> rfl
  | .external _ _ | .form _ => rfl

@[simp] theorem text_plain : f.plain.text = f.text := by
  match f with
  | .intrinsic op => cases op <;> rfl
  | .external _ _ | .form _ => rfl

@[simp] theorem same_plain : f.plain.same g.plain = f.same g := by
  match f, g with
  | .intrinsic a, .intrinsic b => cases a <;> cases b <;> rfl
  | .intrinsic a, .external _ _ | .intrinsic a, .form _ => cases a <;> rfl
  | .external _ _, .intrinsic b | .form _, .intrinsic b => cases b <;> rfl
  | .external _ _, .external _ _ | .external _ _, .form _ => rfl
  | .form _, .external _ _ | .form _, .form _ => rfl

@[simp] theorem plain_getter (s : Species) (i : Nat) : (getter s i).plain = getter s.plain i := rfl

@[simp] theorem plain_getters (s : Species) :
    (getters s).map plain = getters s.plain := by
  simp [getters, Species.plain, Function.comp_def]

end Function

namespace Name

/-- The same name; species are told apart by their layout alone. -/
def plain (n : Name Form) : Name Form :=
  ⟨n.type, n.species.map Species.plain, n.expr.map fun e => ⟨e.function.plain, e.args⟩⟩

variable (n : Name Form)

@[simp] theorem type_plain : n.plain.type = n.type := rfl

@[simp] theorem species_plain : n.plain.species = n.species.map Species.plain := rfl

@[simp] theorem isParam_plain : n.plain.isParam = n.isParam := by
  cases n with | mk t s e => cases e <;> rfl

@[simp] theorem args_plain : n.plain.args = n.args := by
  cases n with | mk t s e => cases e <;> rfl

@[simp] theorem operands_plain : n.plain.operands = n.operands := by simp [operands]

@[simp] theorem function?_plain : n.plain.function? = n.function?.map Function.plain := by
  cases n with | mk t s e => cases e <;> rfl

@[simp] theorem plain_mapArgs (f : Nat → Nat) : (n.mapArgs f).plain = n.plain.mapArgs f := by
  cases n with | mk t s e => cases e <;> rfl

@[simp] theorem movedBy_plain (f : Nat → Nat) : n.plain.movedBy f = n.movedBy f := by
  simp [movedBy]

@[simp] theorem plain_param (t : BasicType) : (param t : Name Form).plain = param t := rfl

@[simp] theorem plain_carrier (s : Species) : (carrier s : Name Form).plain = carrier s.plain := rfl

@[simp] theorem plain_apply (f : Function Form) (args : List Arg) :
    (apply f args).plain = apply f.plain args := by
  simp [apply, plain]

end Name

namespace Form

/-- The same form; identities are forgotten. -/
def plain (f : Form) : Form := ⟨0, f.arity, f.names.map Name.plain, f.result, f.kind⟩

/-- The same names, arity, result and kind; forms and species may be other objects. -/
def Matches (f g : Form) : Prop := f.plain = g.plain

variable (f : Form)

@[simp] theorem arity_plain : f.plain.arity = f.arity := rfl

@[simp] theorem names_plain : f.plain.names = f.names.map Name.plain := rfl

@[simp] theorem result_plain : f.plain.result = f.result := rfl

@[simp] theorem size_plain : f.plain.size = f.size := by simp [size]

theorem type_names_plain (i : Nat) :
    ((f.names.map Name.plain)[i]?.map Name.type) = f.names[i]?.map Name.type := by
  simp [Function.comp_def]

@[simp] theorem params_plain : f.plain.params = f.params := by
  simp [params, ← List.map_take, Function.comp_def]

@[simp] theorem ret_plain : f.plain.ret = f.ret := by
  simp only [ret, names_plain, result_plain, type_names_plain]

@[simp] theorem param?_plain (i : Nat) : f.plain.param? i = f.param? i := by simp [param?]

@[simp] theorem slots_plain : f.plain.slots = f.slots := by simp [slots]

@[simp] theorem species?_plain (i : Nat) : f.plain.species? i = (f.species? i).map Species.plain := by
  simp only [species?, names_plain, List.getElem?_map]
  cases f.names[i]? <;> rfl

theorem keptResult_plain (names : List (Name Form)) (result : Option Nat) :
    keptResult (names.map Name.plain) result = keptResult names result := by
  simp [keptResult, Function.comp_def]

theorem operandDefect?_plain (index operand : Nat) (function : String) (a : Arg) (t : BasicType) :
    f.plain.operandDefect? index operand function a t =
      f.operandDefect? index operand function a t := by
  cases a with
  | name j => simp only [operandDefect?, names_plain, type_names_plain]
  | const c => rfl

theorem operandsDefect?_plain (index : Nat) (function : String) (operand : Nat) (args : List Arg)
    (ts : List BasicType) : f.plain.operandsDefect? index function operand args ts =
      f.operandsDefect? index function operand args ts := by
  induction args generalizing operand ts with
  | nil => rfl
  | cons a args ih =>
    cases ts with
    | nil => rfl
    | cons t ts => simp only [operandsDefect?, operandDefect?_plain, ih]

theorem nameDefect?_plain (index : Nat) (n : Name Form) :
    f.plain.nameDefect? index n.plain = f.nameDefect? index n := by
  simp only [nameDefect?, arity_plain, Name.isParam_plain, Name.type_plain, Name.species_plain,
    Option.isSome_map]
  obtain ⟨t, s, _ | e⟩ := n
  · rfl
  · simp only [Name.plain, Option.map_some, Function.params_plain, Function.text_plain,
      operandsDefect?_plain]
    rfl

theorem namesDefect?_plain (index : Nat) (ns : List (Name Form)) :
    f.plain.namesDefect? index (ns.map Name.plain) = f.namesDefect? index ns := by
  induction ns generalizing index with
  | nil => rfl
  | cons n ns ih => simp only [List.map_cons, namesDefect?, nameDefect?_plain, ih]

/-- What is wrong with a form does not depend on identities. -/
@[simp] theorem defect?_plain : f.plain.defect? = f.defect? := by
  simp only [defect?, size_plain, arity_plain, slots_plain, names_plain, namesDefect?_plain,
    result_plain]

end Form

/-! ## Outcomes -/

/-- The same violation; the identity of a malformed form is forgotten. -/
def Violation.plain : Violation → Violation
  | .malformed f d => .malformed f.plain d
  | v => v

/-- The answer translated by `f`, or the same violation, whatever the identities. -/
def forget {α β : Type} (f : α → β) : Except Violation α → Except Violation β
  | .ok a => .ok (f a)
  | .error v => .error v.plain

/-- The same form, the same error or the same violation, whatever the identities. -/
def Edit.plainOutcome : Except (Stop FormError) Form → Except (Stop FormError) Form
  | .ok f => .ok f.plain
  | .error (.error e) => .error (.error e)
  | .error (.violation v) => .error (.violation v.plain)

theorem Edit.plainOutcome_ofViolation (x : Except Violation Form) :
    plainOutcome (Stop.ofViolation x) = Stop.ofViolation (forget Form.plain x) := by
  cases x <;> rfl

namespace Form

theorem plain_verified (f : Form) : forget plain (verified f) = verified f.plain := by
  unfold verified
  rw [defect?_plain]
  cases f.defect? <;> rfl

theorem plain_assemble (id arity : Nat) (names : List (Name Form)) (result : Option Nat)
    (kind : FormKind) : forget plain (assemble id arity names result kind) =
      assemble 0 arity (names.map Name.plain) result kind := by
  rw [assemble, plain_verified, assemble, keptResult_plain]
  rfl

end Form

/-! ## Drafts -/

namespace Draft

/-- The same draft over names without identities. -/
def plain (d : Draft) : Draft := { d with arena := d.arena.map Name.plain }

variable {α β γ δ : Type} (d : Draft) (n : Name Form) (pos id : Nat)

@[simp] theorem arity_plain : d.plain.arity = d.arity := rfl

@[simp] theorem names_plain : d.plain.names = d.names := rfl

@[simp] theorem initial_plain : d.plain.initial = d.initial := rfl

@[simp] theorem firstChange_plain : d.plain.firstChange = d.firstChange := rfl

@[simp] theorem result_plain : d.plain.result = d.result := rfl

@[simp] theorem dups_plain : d.plain.dups = d.dups := rfl

@[simp] theorem editing_plain : d.plain.editing = d.editing := rfl

@[simp] theorem lastIndexOf?_plain : d.plain.lastIndexOf? id = d.lastIndexOf? id := rfl

/-- Two computations that go on alike after answers that `f` translates. -/
theorem bind_eq_map {x : Except Violation α} {y : Except Violation γ} {k : α → Except Violation β}
    {l : γ → Except Violation δ} {f : α → γ} {g : β → δ} (hx : y = forget f x)
    (hk : ∀ a, l (f a) = forget g (k a)) : y >>= l = forget g (x >>= k) := by
  subst hx
  cases x with
  | error v => rfl
  | ok a => exact hk a

theorem name_plain : d.plain.name id = forget Name.plain (d.name id) := by
  unfold name plain
  rw [Array.getElem?_map]
  cases d.arena[id]? <;> rfl

theorem idAt_plain : d.plain.idAt pos = forget (fun i => i) (d.idAt pos) := by
  unfold idAt
  rw [names_plain]
  cases d.names[pos]? with
  | none => rfl
  | some slot => cases slot <;> rfl

/-- A choice between computations that answer alike. -/
theorem ite_eq_map {p q : Prop} [Decidable p] [Decidable q] {x y : Except Violation α}
    {x' y' : Except Violation β} {g : α → β} (hpq : p ↔ q) (hx : x' = forget g x)
    (hy : y' = forget g y) : (if p then x' else y') = forget g (if q then x else y) := by
  by_cases h : q
  · rw [if_pos (hpq.2 h), if_pos h, hx]
  · rw [if_neg (mt hpq.1 h), if_neg h, hy]

theorem nameAt_plain : d.plain.nameAt pos = forget Name.plain (d.nameAt pos) :=
  bind_eq_map (d.idAt_plain pos) d.name_plain

theorem alloc_plain : d.plain.alloc n.plain = ((d.alloc n).1, (d.alloc n).2.plain) := by
  simp [alloc, plain]

theorem alloc_plain_param (t : BasicType) :
    d.plain.alloc (.param t) = ((d.alloc (.param t)).1, (d.alloc (.param t)).2.plain) :=
  d.alloc_plain (.param t)

theorem alloc_plain_carrier (s : Species) : d.plain.alloc (.carrier s.plain) =
    ((d.alloc (.carrier s)).1, (d.alloc (.carrier s)).2.plain) :=
  d.alloc_plain (.carrier s)

theorem alloc_plain_apply (f : Function Form) (args : List Arg) :
    d.plain.alloc (.apply f.plain args) =
      ((d.alloc (.apply f args)).1, (d.alloc (.apply f args)).2.plain) := by
  rw [← Name.plain_apply, alloc_plain]

/-- Functions that mention no species. -/
theorem alloc_plain_apply_of {f : Function Form} (hf : f.plain = f) (args : List Arg) :
    d.plain.alloc (.apply f args) =
      ((d.alloc (.apply f args)).1, (d.alloc (.apply f args)).2.plain) := by
  rw [← alloc_plain_apply, hf]

theorem checkArity_plain : d.plain.checkArity = forget (fun u => u) d.checkArity := by
  have hgo : ∀ (names : List (Option Nat)) (pos : Nat),
      checkArity.go d.plain pos names = forget (fun u => u) (checkArity.go d pos names) := by
    intro names
    induction names with
    | nil => exact fun _ => rfl
    | cons slot names ih =>
      intro pos
      cases slot with
      | none => exact ih (pos + 1)
      | some id => exact bind_eq_map (d.name_plain id) fun _ =>
          ite_eq_map (by rw [Name.isParam_plain, arity_plain]) rfl (ih (pos + 1))
  exact hgo d.names 0

theorem start_plain : d.plain.start = forget plain d.start :=
  ite_eq_map Iff.rfl rfl <| bind_eq_map d.checkArity_plain fun _ => rfl

theorem changeName_plain : d.plain.changeName pos id = forget plain (d.changeName pos id) := by
  refine ite_eq_map Iff.rfl rfl ?_
  simp only [names_plain, initial_plain]
  cases d.names[pos]? with
  | none => rfl
  | some old =>
    cases d.initial[pos]? with
    | none => rfl
    | some initial => exact ite_eq_map Iff.rfl rfl rfl

theorem setResult_plain (result : Option Nat) :
    d.plain.setResult result = forget plain (d.setResult result) := by
  cases result with
  | none => rfl
  | some i => exact ite_eq_map Iff.rfl rfl rfl

theorem replaceName_plain : d.plain.replaceName pos id = forget plain (d.replaceName pos id) :=
  ite_eq_map Iff.rfl rfl <| bind_eq_map (d.nameAt_plain pos) fun old =>
    ite_eq_map (by rw [Name.isParam_plain]) rfl <| bind_eq_map (d.name_plain id) fun _ =>
      ite_eq_map Iff.rfl rfl (d.changeName_plain pos id)

theorem renameParameter_plain :
    d.plain.renameParameter pos id = forget plain (d.renameParameter pos id) :=
  bind_eq_map (d.name_plain id) fun _ =>
    ite_eq_map (by rw [Name.isParam_plain]) (d.replaceName_plain pos id) rfl

theorem replaceByExpression_plain :
    d.plain.replaceByExpression pos id = forget plain (d.replaceByExpression pos id) :=
  bind_eq_map (d.name_plain id) fun _ => ite_eq_map (by rw [Name.isParam_plain]) rfl <|
    ite_eq_map Iff.rfl rfl (d.replaceName_plain pos id)

theorem replaceByCopy_plain (source : Nat) :
    d.plain.replaceByCopy pos source = forget plain (d.replaceByCopy pos source) :=
  ite_eq_map Iff.rfl rfl <| bind_eq_map (d.idAt_plain source) fun i =>
    bind_eq_map (d.replaceName_plain pos i) fun _ => rfl

theorem insertName_plain (param : Bool) :
    d.plain.insertName pos id param = forget plain (d.insertName pos id param) :=
  ite_eq_map Iff.rfl rfl <| ite_eq_map Iff.rfl rfl <| ite_eq_map Iff.rfl rfl <|
    ite_eq_map Iff.rfl rfl <| changeName_plain { d with
      names := d.names.insertIdx pos none
      initial := d.initial.insertIdx pos none
      firstChange := if pos ≤ d.firstChange then d.firstChange + 1 else d.firstChange
      arity := if param then d.arity + 1 else d.arity } pos id

theorem insertParameter_plain :
    d.plain.insertParameter pos id = forget plain (d.insertParameter pos id) :=
  bind_eq_map (d.name_plain id) fun _ =>
    ite_eq_map (by rw [Name.isParam_plain]) (d.insertName_plain pos id true) rfl

theorem insertExpression_plain :
    d.plain.insertExpression pos id = forget plain (d.insertExpression pos id) :=
  bind_eq_map (d.name_plain id) fun _ =>
    ite_eq_map (by rw [Name.isParam_plain]) rfl (d.insertName_plain pos id false)

theorem functionIndex?_plain (f : Function Form) (fs : List (Function Form)) :
    functionIndex? f.plain (fs.map Function.plain) = functionIndex? f fs := by
  simp [functionIndex?, List.findIdx?_map, Function.comp_def]

theorem replaceFunctionAt_plain (old new : List (Function Form)) (args : List Arg) :
    d.plain.replaceFunctionAt (old.map Function.plain) (new.map Function.plain) args pos =
      forget plain (d.replaceFunctionAt old new args pos) := by
  unfold replaceFunctionAt
  rw [names_plain]
  cases d.names[pos]? with
  | none => rfl
  | some slot =>
    cases slot with
    | none => rfl
    | some id =>
      refine bind_eq_map (d.name_plain id) fun n => ?_
      rw [Name.function?_plain, Name.args_plain]
      cases n.function? with
      | none => rfl
      | some f =>
        refine ite_eq_map Iff.rfl rfl ?_
        rw [functionIndex?_plain]
        cases functionIndex? f old with
        | none => rfl
        | some k =>
          simp only [List.getElem?_map]
          cases new[k]? with
          | none => rfl
          | some g =>
            simp only [Option.map_some, ← Name.plain_apply, alloc_plain]
            exact changeName_plain _ pos _

theorem foldlM_plain {ι : Type} {step step' : Draft → ι → Except Violation Draft}
    (h : ∀ d i, step' d.plain i = forget plain (step d i)) (is : List ι) (d : Draft) :
    is.foldlM step' d.plain = forget plain (is.foldlM step d) := by
  induction is generalizing d with
  | nil => rfl
  | cons i is ih => exact bind_eq_map (h d i) ih

theorem replaceFunctions_plain (old new : List (Function Form)) (args : List Arg) :
    d.plain.replaceFunctions (old.map Function.plain) (new.map Function.plain) args =
      forget plain (d.replaceFunctions old new args) := by
  refine ite_eq_map (by simp) rfl ?_
  exact foldlM_plain (fun d pos => d.replaceFunctionAt_plain pos old new args) _ d

/-! ## Finishing -/

/-- A draft without identities beside the replacements so far. -/
def plainState (s : Draft × Redirects) : Draft × Redirects := (s.1.plain, s.2)

/-- The last step of the repair at a position: the name that stands there takes the place of the one
that stood there at the start. -/
theorem noteReplaced_plain (current : Nat) (redirects : Redirects) :
    (match d.plain.initial[pos]? with
      | some (some old) =>
        pure (d.plain, if old = current then redirects else (old, current) :: redirects)
      | some none => pure (d.plain, redirects)
      | none => .error .outOfBounds : Except Violation (Draft × Redirects)) =
    forget plainState (match d.initial[pos]? with
      | some (some old) => pure (d, if old = current then redirects else (old, current) :: redirects)
      | some none => pure (d, redirects)
      | none => .error .outOfBounds : Except Violation (Draft × Redirects)) := by
  rw [initial_plain]
  cases d.initial[pos]? with
  | none => rfl
  | some initial => cases initial <;> rfl

theorem repairAt_plain (redirects : Redirects) :
    d.plain.repairAt redirects pos = forget plainState (d.repairAt redirects pos) := by
  unfold repairAt
  rw [names_plain]
  cases d.names[pos]? with
  | none => rfl
  | some slot =>
    cases slot with
    | none => rfl
    | some id =>
      refine bind_eq_map (d.name_plain id) fun n => ?_
      refine ite_eq_map (by rw [n.operands_plain]; rfl) rfl ?_
      have hmoved : n.plain.movedBy redirects.resolve = n.movedBy redirects.resolve :=
        n.movedBy_plain _
      by_cases h : d.arity ≤ pos ∧ (!redirects.isEmpty) = true ∧
          n.movedBy redirects.resolve = true
      · rw [if_pos h, if_pos (hmoved ▸ h), ← Name.plain_mapArgs, alloc_plain]
        exact noteReplaced_plain { (d.alloc (n.mapArgs redirects.resolve)).2 with
          names := d.names.set pos (some (d.alloc (n.mapArgs redirects.resolve)).1)
          result := if d.result = some id then some (d.alloc (n.mapArgs redirects.resolve)).1
            else d.result } pos _ _
      · rw [if_neg h, if_neg (hmoved ▸ h)]
        exact d.noteReplaced_plain pos id redirects

theorem repair_plain : d.plain.repair = forget plain d.repair := by
  have hfold : ∀ (ps : List Nat) (s : Draft × Redirects),
      ps.foldlM (fun (s : Draft × Redirects) pos => s.1.repairAt s.2 pos) (plainState s) =
        forget plainState (ps.foldlM (fun (s : Draft × Redirects) pos => s.1.repairAt s.2 pos) s) := by
    intro ps
    induction ps with
    | nil => exact fun _ => rfl
    | cons p ps ih => exact fun s => bind_eq_map (s.1.repairAt_plain p s.2) ih
  exact bind_eq_map (hfold _ (d, [])) fun _ => rfl

theorem clearDuplicate_plain : d.plain.clearDuplicate id = forget plain (d.clearDuplicate id) := by
  unfold clearDuplicate
  simp only [names_plain, initial_plain, firstChange_plain]
  cases List.find? _ _ <;> rfl

theorem clearDuplicates_plain : d.plain.clearDuplicates = forget plain d.clearDuplicates :=
  bind_eq_map (foldlM_plain clearDuplicate_plain d.dups d) fun _ => rfl

theorem holdsParam_plain : d.plain.holdsParam = d.holdsParam := by
  funext slot
  cases slot with
  | none => rfl
  | some id => simp [holdsParam, plain, Function.comp_def]

theorem partitionParameters_plain : d.plain.partitionParameters = d.partitionParameters.plain := by
  unfold partitionParameters
  rw [holdsParam_plain]
  by_cases h : d.arity ≤ d.firstChange
  · rw [if_pos h, if_pos (show d.plain.arity ≤ d.plain.firstChange from h)]
  · rw [if_neg h, if_neg (show ¬d.plain.arity ≤ d.plain.firstChange from h)]
    rfl

/-- Published names without identities. -/
def plainNames (r : List (Name Form) × List (Nat × Nat)) : List (Name Form) × List (Nat × Nat) :=
  (r.1.map Name.plain, r.2)

theorem publishNames_plain (placed : List (Nat × Nat)) (slots : List (Option Nat)) :
    d.plain.publishNames placed pos slots = forget plainNames (d.publishNames placed pos slots) := by
  induction slots generalizing placed pos with
  | nil => rfl
  | cons slot slots ih =>
    cases slot with
    | none => rfl
    | some id =>
      refine bind_eq_map (d.name_plain id) fun n => ?_
      rw [Name.operands_plain]
      cases List.find? _ _ with
      | some a => rfl
      | none =>
        refine bind_eq_map (ih _ _) fun r => ?_
        rw [← Name.plain_mapArgs]
        rfl

theorem publish_plain : d.plain.publish 0 = forget Form.plain (d.publish id) := by
  refine bind_eq_map (d.publishNames_plain 0 [] d.names) fun r => ?_
  rw [result_plain]
  cases d.result with
  | none => exact (Form.plain_assemble ..).symm
  | some i =>
    simp only [plainNames]
    cases r.2.lookup i with
    | none => rfl
    | some pos => exact (Form.plain_assemble ..).symm

theorem finish_plain : d.plain.finish 0 = forget Form.plain (d.finish id) :=
  ite_eq_map Iff.rfl rfl <| bind_eq_map d.repair_plain fun d =>
    bind_eq_map (clearDuplicates_plain { d with editing := false }) fun d => by
      rw [partitionParameters_plain]
      exact bind_eq_map (checkArity_plain _) fun _ => publish_plain _ id

theorem plain_ofForm (f : Form) : (ofForm f).plain = ofForm f.plain := by
  simp [plain, ofForm]

theorem allocParams_plain (types : List BasicType) :
    d.plain.allocParams types = ((d.allocParams types).1, (d.allocParams types).2.plain) := by
  induction types generalizing d with
  | nil => rfl
  | cons t ts ih => simp only [allocParams, alloc_plain_param, ih]

theorem insertParameters_plain (ids : List Nat) :
    d.plain.insertParameters pos ids = forget plain (d.insertParameters pos ids) := by
  induction ids generalizing d pos with
  | nil => rfl
  | cons id ids ih => exact bind_eq_map (d.insertParameter_plain pos id) fun d => ih d (pos + 1)

theorem mapM_idAt_plain (ps : List Nat) :
    ps.mapM d.plain.idAt = forget (fun is => is) (ps.mapM d.idAt) := by
  induction ps with
  | nil => rfl
  | cons p ps ih =>
    rw [List.mapM_cons, List.mapM_cons]
    exact bind_eq_map (d.idAt_plain p) fun _ => bind_eq_map ih fun _ => rfl

end Draft

/-! ## Derived forms -/

namespace CarrierGrowth

/-- The growth of layouts. -/
def plain (g : CarrierGrowth) : CarrierGrowth := ⟨g.old.plain, g.new.plain⟩

theorem getter_plain (g : CarrierGrowth) : g.plain.getter = forget Function.plain g.getter :=
  Draft.ite_eq_map Iff.rfl rfl rfl

end CarrierGrowth

namespace Draft

/-- The number of the new carrier, beside the draft without identities. -/
def plainCarrier (r : Nat × Draft) : Nat × Draft := (r.1, r.2.plain)

theorem switchCarrier_plain (d : Draft) (g : CarrierGrowth) :
    d.plain.switchCarrier g.plain = forget plainCarrier (d.switchCarrier g) := by
  refine bind_eq_map (d.idAt_plain 0) fun old => ?_
  have hreplace := d.replaceFunctions_plain (Function.getters g.old) (Function.getters g.new)
    [.name old]
  rw [Function.plain_getters, Function.plain_getters] at hreplace
  refine bind_eq_map hreplace fun d => ?_
  simp only [CarrierGrowth.plain, alloc_plain_carrier]
  exact bind_eq_map (renameParameter_plain _ 0 _) fun _ => rfl

end Draft

namespace Edit

open Draft (bind_eq_map ite_eq_map)

variable (base : Form) (g : CarrierGrowth) (pos id : Nat)

theorem start_ofForm_plain :
    (Draft.ofForm base.plain).start = forget Draft.plain (Draft.ofForm base).start := by
  rw [← Draft.plain_ofForm, Draft.start_plain]

theorem deriveBind_plain :
    deriveBind base.plain g.plain pos 0 = forget Form.plain (deriveBind base g pos id) := by
  refine bind_eq_map (start_ofForm_plain base) fun d => bind_eq_map g.getter_plain fun read =>
    ite_eq_map Iff.rfl (ite_eq_map Iff.rfl rfl ?_) (bind_eq_map (d.switchCarrier_plain g) fun r => ?_)
  · simp only [CarrierGrowth.plain, Draft.alloc_plain_carrier, Draft.alloc_plain_apply]
    exact bind_eq_map (Draft.replaceByExpression_plain _ _ _) fun d =>
      bind_eq_map (d.insertParameter_plain _ _) fun d => d.finish_plain id
  · simp only [Draft.plainCarrier, Draft.alloc_plain_apply]
    exact bind_eq_map (Draft.replaceByExpression_plain _ _ _) fun d => d.finish_plain id

theorem deriveAdd_plain (type : BasicType) :
    deriveAdd base.plain pos type 0 = forget Form.plain (deriveAdd base pos type id) := by
  refine bind_eq_map (start_ofForm_plain base) fun d => ?_
  simp only [Draft.alloc_plain_param]
  exact bind_eq_map (Draft.insertParameter_plain _ _ _) fun d => d.finish_plain id

theorem deriveDup_plain (src dst : Nat) :
    deriveDup base.plain src dst 0 = forget Form.plain (deriveDup base src dst id) :=
  bind_eq_map (start_ofForm_plain base) fun d =>
    bind_eq_map (d.replaceByCopy_plain dst src) fun d => d.finish_plain id

theorem loadElement_plain (element : Ty) (array exprPos : Nat) (d : Draft) (index : Nat) :
    loadElement element array pos exprPos d.plain index =
      forget Draft.plain (loadElement element array pos exprPos d index) := by
  unfold loadElement
  simp only [d.alloc_plain_apply_of (f := .intrinsic (.arrayLoad element)) rfl]
  exact bind_eq_map (Draft.insertExpression_plain _ _ _) fun d => d.replaceByCopy_plain _ _

theorem deriveSpread_plain (element : Ty) (count : Nat) :
    deriveSpread base.plain pos element count 0 =
      forget Form.plain (deriveSpread base pos element count id) := by
  refine bind_eq_map (start_ofForm_plain base) fun d => ?_
  simp only [Draft.alloc_plain_param, Form.arity_plain,
    Draft.alloc_plain_apply_of _ (f := .intrinsic .checkSpreadLength) rfl]
  exact bind_eq_map (Draft.insertExpression_plain _ _ _) fun d =>
    bind_eq_map (Draft.foldlM_plain (fun d i => loadElement_plain pos element _ _ d i) _ d) fun d =>
      bind_eq_map (d.insertParameter_plain _ _) fun d => d.finish_plain id

theorem deriveCombination_plain (combiner : Signature) (keep drop : Bool) :
    deriveCombination base.plain g.plain pos combiner keep drop 0 =
      forget Form.plain (deriveCombination base g pos combiner keep drop id) := by
  refine ite_eq_map Iff.rfl rfl <| ite_eq_map Iff.rfl rfl <| ite_eq_map Iff.rfl rfl ?_
  refine bind_eq_map (start_ofForm_plain base) fun d =>
    bind_eq_map (d.switchCarrier_plain g) fun r => bind_eq_map g.getter_plain fun read => ?_
  simp only [Draft.alloc_plain_apply, Draft.allocParams_plain, Form.arity_plain]
  refine bind_eq_map (Draft.mapM_idAt_plain _ _) fun kept => ?_
  simp only [Draft.alloc_plain_apply_of _ (f := .invokeBasic combiner) rfl]
  refine bind_eq_map (Draft.insertExpression_plain _ _ _) fun d =>
    bind_eq_map (d.insertExpression_plain _ _) fun d =>
      bind_eq_map (d.insertParameters_plain _ _) fun d => ?_
  cases drop with
  | true => exact d.finish_plain id
  | false => exact bind_eq_map (d.replaceByCopy_plain _ _) fun d => d.finish_plain id

theorem deriveZeroReturn_plain (type : BasicType) :
    deriveZeroReturn base.plain type 0 = forget Form.plain (deriveZeroReturn base type id) := by
  refine bind_eq_map (start_ofForm_plain base) fun d => ite_eq_map Iff.rfl
    (bind_eq_map (d.setResult_plain none) fun d => d.finish_plain id) ?_
  simp only [Draft.alloc_plain_apply_of _ (f := .intrinsic (.zero type)) rfl, Form.size_plain]
  exact bind_eq_map (Draft.insertExpression_plain _ _ _) fun d =>
    bind_eq_map (d.setResult_plain _) fun d => d.finish_plain id

theorem derivePermute_plain (skip : Nat) (reorder : List Nat) :
    derivePermute base.plain skip reorder 0 =
      forget Form.plain (derivePermute base skip reorder id) := by
  unfold derivePermute
  rw [Form.plain_assemble]
  simp [← List.map_take, ← List.map_drop, Function.comp_def]

/-- `bind_eq_map` for an edit that may also be refused with an error. -/
theorem bind_eq_plainOutcome {α γ : Type} {x : Except Violation α} {y : Except Violation γ}
    {k : α → Except (Stop FormError) Form} {l : γ → Except (Stop FormError) Form} {f : α → γ}
    (hx : y = forget f x) (hk : ∀ a, l (f a) = plainOutcome (k a)) :
    Stop.ofViolation y >>= l = plainOutcome (Stop.ofViolation x >>= k) := by
  subst hx
  cases x with
  | error v => rfl
  | ok a => exact hk a

theorem deriveFilterReturn_plain (type : BasicType) :
    deriveFilterReturn base.plain g.plain type 0 =
      plainOutcome (deriveFilterReturn base g type id) := by
  refine bind_eq_plainOutcome (start_ofForm_plain base) fun d =>
    bind_eq_plainOutcome (d.switchCarrier_plain g) fun r =>
      bind_eq_plainOutcome g.getter_plain fun read => ?_
  simp only [Draft.alloc_plain_apply, Form.size_plain, Form.result_plain,
    Form.ret_plain]
  refine bind_eq_plainOutcome (Draft.insertExpression_plain _ _ _) fun d => ?_
  cases Signature.ofBasic type (base.result.toList.map fun _ => base.ret) with
  | error err => rfl
  | ok filter =>
    simp only [mapError_ok, Stop.ofError_ok, ok_bind,
      Draft.alloc_plain_apply_of _ (f := .invokeBasic filter) rfl]
    refine bind_eq_plainOutcome (Draft.insertExpression_plain _ _ _) fun d =>
      bind_eq_plainOutcome (d.setResult_plain _) fun d => ?_
    exact (congrArg Stop.ofViolation (d.finish_plain id)).trans (plainOutcome_ofViolation _).symm

theorem plainOutcome_of_forget {x y : Except Violation Form} (h : y = forget Form.plain x) :
    plainOutcome (Stop.ofViolation x) = Stop.ofViolation y := by
  rw [plainOutcome_ofViolation, h]

/-- What an edit derives from a form without identities is what it derives from the form, identities
forgotten. -/
theorem plain_derive (e : Edit) (growth : Option CarrierGrowth) :
    plainOutcome (e.derive base growth id) =
      e.derive base.plain (growth.map CarrierGrowth.plain) 0 := by
  cases e with
  | bind pos type =>
    cases growth with
    | none => rfl
    | some g => exact plainOutcome_of_forget (deriveBind_plain base g pos id)
  | add pos type => exact plainOutcome_of_forget (deriveAdd_plain base pos id type)
  | dup src dst => exact plainOutcome_of_forget (deriveDup_plain base id src dst)
  | spread pos array count => exact plainOutcome_of_forget (deriveSpread_plain base pos id _ count)
  | filter pos type =>
    cases growth with
    | none => rfl
    | some g =>
      simp only [derive, Option.map_some, Form.paramType, Form.param?_plain]
      cases base.param? pos with
      | none => rfl
      | some ret =>
        cases hfilter : Signature.ofBasic ret [type] with
        | error err => simp [hfilter, plainOutcome]
        | ok filter =>
          simp only [Stop.liftM_violation, Stop.ofViolation_ok, ok_bind, hfilter, mapError_ok,
            Stop.ofError_ok, plainOutcome_ofViolation]
          rw [deriveCombination_plain base g pos id]
  | collect pos collector =>
    cases growth with
    | none => rfl
    | some g => exact plainOutcome_of_forget (deriveCombination_plain base g pos id _ _ _)
  | filterReturn type =>
    cases growth with
    | none => rfl
    | some g => exact (deriveFilterReturn_plain base g id type).symm
  | zeroReturn type => exact plainOutcome_of_forget (deriveZeroReturn_plain base id type)
  | fold pos drop combiner =>
    cases growth with
    | none => rfl
    | some g => exact plainOutcome_of_forget (deriveCombination_plain base g pos id _ _ _)
  | permute skip reorder => exact plainOutcome_of_forget (derivePermute_plain base id skip reorder)

/-! ### Checks -/

@[simp] theorem paramType_plain : base.plain.paramType pos = base.paramType pos := by
  simp [Form.paramType]

@[simp] theorem expectParam_plain (t : BasicType) :
    base.plain.expectParam pos t = base.expectParam pos t := by
  simp [Form.expectParam]

@[simp] theorem expectParams_plain (ts : List BasicType) :
    base.plain.expectParams pos ts = base.expectParams pos ts := by
  induction ts generalizing pos with
  | nil => rfl
  | cons t ts ih => simp only [Form.expectParams, expectParam_plain, ih]

@[simp] theorem expectRun_plain (t : BasicType) (count : Nat) :
    base.plain.expectRun pos t count = base.expectRun pos t count := by
  induction count generalizing pos with
  | zero => rfl
  | succ count ih => simp only [Form.expectRun, expectParam_plain, ih]

@[simp] theorem checkSlots_plain (added removed : List BasicType) :
    base.plain.checkSlots added removed = base.checkSlots added removed := by
  simp [Form.checkSlots]

@[simp] theorem signature_plain : base.plain.signature = base.signature := by
  simp [Form.signature]

/-- An edit is let through or refused whatever the identities. -/
@[simp] theorem check_plain (e : Edit) : e.check base.plain = e.check base := by
  cases e <;> simp [check, require] <;> rfl

/-- The fields of the carrier of a form do not depend on its identity. -/
theorem carrier_plain : base.plain.carrier = forget Species.plain base.carrier := by
  simp only [Form.carrier, Form.paramType, Form.param?_plain, Form.species?_plain]
  cases base.param? 0 with
  | none => rfl
  | some t =>
    simp only [ok_bind]
    split
    · cases base.species? 0 <;> rfl
    · rfl

end Edit

end HandleForms
