import HandleForms.Proofs.Draft.Identity
import HandleForms.Proofs.Handle.Getters

/-!
# Values that mirror each other

Two runs of the same code in two worlds make arrays, objects, members and direct handles in the same
order, but under identities of their own. A `Pairing` says which identities stand for each other,
and `Value.Mirrors` that two values are the same up to it: the same content, the same types, and
handles over forms that match. The forms of two direct handles may differ in one thing: one of them
may have dropped its class barrier already, which shows to nobody once the class is initialized.
-/

namespace HandleForms

/-! ## Pairings -/

/-- Which identities of two worlds stand for each other. -/
structure Pairing where
  /-- All paired identities of the first world are below. -/
  left : Nat
  /-- All paired identities of the second world are below. -/
  right : Nat
  same : Nat → Nat → Prop
  /-- Direct handles that were made in both worlds at once; they drop their barriers together. -/
  level : Nat → Nat → Prop
  /-- The classes that are initialized in both worlds. -/
  ready : String → Prop
  lt : ∀ {i j}, same i j → i < left ∧ j < right
  right_unique : ∀ {i j k}, same i j → same i k → j = k
  left_unique : ∀ {i j k}, same i k → same j k → i = j
  same_of_level : ∀ {i j}, level i j → same i j

namespace Pairing

/-- Later on there are more pairs and more initialized classes. Handles are level from the start or
never. -/
structure Le (κ κ' : Pairing) : Prop where
  left : κ.left ≤ κ'.left
  right : κ.right ≤ κ'.right
  same : ∀ {i j}, κ.same i j → κ'.same i j
  level : ∀ {i j}, κ.level i j → κ'.level i j
  fresh : ∀ {i j}, κ'.level i j → κ.level i j ∨ κ.left ≤ i ∧ κ.right ≤ j
  ready : ∀ {cls}, κ.ready cls → κ'.ready cls

instance : Preorder Pairing where
  le := Le
  le_refl _ := ⟨Nat.le_refl _, Nat.le_refl _, id, id, .inl, id⟩
  le_trans _ _ _ h h' := {
    left := Nat.le_trans h.left h'.left
    right := Nat.le_trans h.right h'.right
    same := fun hij => h'.same (h.same hij)
    level := fun hij => h'.level (h.level hij)
    fresh := fun hij => (h'.fresh hij).elim h.fresh fun hfresh =>
      .inr ⟨Nat.le_trans h.left hfresh.1, Nat.le_trans h.right hfresh.2⟩
    ready := fun hcls => h'.ready (h.ready hcls) }

variable {κ κ' : Pairing}

/-- A pair of identities that were just given out. -/
def link (κ : Pairing) (i j : Nat) (lvl : Prop) (hi : κ.left ≤ i) (hj : κ.right ≤ j) : Pairing where
  left := i + 1
  right := j + 1
  same a b := κ.same a b ∨ a = i ∧ b = j
  level a b := κ.level a b ∨ lvl ∧ a = i ∧ b = j
  ready := κ.ready
  lt := by
    rintro a b (h | ⟨rfl, rfl⟩)
    · have := κ.lt h
      omega
    · omega
  right_unique := by
    rintro a b c (h | ⟨rfl, rfl⟩) (h' | ⟨h', rfl⟩)
    · exact κ.right_unique h h'
    · have := κ.lt h
      omega
    · have := κ.lt h'
      omega
    · rfl
  left_unique := by
    rintro a b c (h | ⟨rfl, rfl⟩) (h' | ⟨rfl, h'⟩)
    · exact κ.left_unique h h'
    · have := κ.lt h
      omega
    · have := κ.lt h'
      omega
    · rfl
  same_of_level := fun h => h.imp κ.same_of_level And.right

/-- Nothing is paired yet. -/
def start (ready : String → Prop) : Pairing where
  left := 0
  right := 0
  same _ _ := False
  level _ _ := False
  ready := ready
  lt := False.elim
  right_unique := False.elim
  left_unique := False.elim
  same_of_level := id

/-- Only what is paired with itself stays so; `lvl` says whether it is level. -/
def diagonal (κ : Pairing) (lvl : Prop) : Pairing where
  left := κ.left
  right := κ.right
  same i j := κ.same i i ∧ j = i
  level i j := lvl ∧ κ.same i i ∧ j = i
  ready := κ.ready
  lt := by
    rintro i _ ⟨hi, rfl⟩
    exact κ.lt hi
  right_unique := fun h h' => h.2.trans h'.2.symm
  left_unique := fun h h' => h.2.symm.trans h'.2
  same_of_level := And.right

/-- Identities below were given out that are not paired. -/
def upTo (κ : Pairing) (left right : Nat) (hleft : κ.left ≤ left)
    (hright : κ.right ≤ right) : Pairing :=
  { κ with
    left
    right
    lt := fun hij => (κ.lt hij).imp (Nat.lt_of_lt_of_le · hleft) (Nat.lt_of_lt_of_le · hright) }

/-- More classes are initialized. -/
def withReady (κ : Pairing) (ready : String → Prop) : Pairing :=
  { κ with ready := fun cls => κ.ready cls ∨ ready cls }

theorem le_link {i j : Nat} {lvl : Prop} (hi : κ.left ≤ i) (hj : κ.right ≤ j) :
    κ ≤ κ.link i j lvl hi hj where
  left := Nat.le_succ_of_le hi
  right := Nat.le_succ_of_le hj
  same := .inl
  level := .inl
  fresh := fun h => h.imp_right fun ⟨_, hi', hj'⟩ => ⟨hi' ▸ hi, hj' ▸ hj⟩
  ready := id

theorem le_upTo {left right : Nat} (hleft : κ.left ≤ left) (hright : κ.right ≤ right) :
    κ ≤ κ.upTo left right hleft hright where
  left := hleft
  right := hright
  same := id
  level := id
  fresh := .inl
  ready := id

theorem le_withReady (ready : String → Prop) : κ ≤ κ.withReady ready where
  left := Nat.le_refl _
  right := Nat.le_refl _
  same := id
  level := id
  fresh := .inl
  ready := .inl

end Pairing

/-! ## Handles and values -/

/-- A form that fits, and that reads no other handle. -/
structure HandleOf.Sane (h : Handle) : Prop where
  proper : h.Proper
  readsOwn : h.form.ReadsOwn

/-- The handles hold the same, where `R` says so of values. -/
inductive HandleData.Mirrors (κ : Pairing) (R : Value → Value → Prop) :
    HandleData Value → HandleData Value → Prop
  | simple : Mirrors κ R .simple .simple
  | bound {s s' : Species} {vs vs' : List Value} (hs : s.fields = s'.fields)
      (hvs : List.Forall₂ R vs vs') : Mirrors κ R (.bound s vs) (.bound s' vs')
  | direct {i j : Nat} {m : Member} (hij : κ.same i j) : Mirrors κ R (.direct i m) (.direct j m)

/-- The handles have the same type and forms that match; those of direct handles may differ in the
barrier of an initialized class. -/
structure HandleOf.Resembles (κ : Pairing) (h h' : Handle) : Prop where
  type : h.type = h'.type
  form : h.member? = none → h.form.Matches h'.form
  same : ∀ i m, h.data = .direct i m → κ.same h.id h'.id
  ready : ∀ i m, h.data = .direct i m → h.form.kind.hasBarrier ≠ h'.form.kind.hasBarrier →
    κ.ready m.cls
  level : ∀ i m, h.data = .direct i m → κ.level h.id h'.id →
    h.form.kind.hasBarrier = h'.form.kind.hasBarrier

/-- Whether a value is its content and nothing else. -/
def Value.isLiteral : Value → Bool
  | .array _ _ _ | .handle _ | .member _ _ | .object _ _ => false
  | _ => true

/-- The values are the same, up to identities. -/
inductive Value.Mirrors (κ : Pairing) : Value → Value → Prop
  | literal {v : Value} (hv : v.isLiteral = true) : Mirrors κ v v
  | array {i j : Nat} {element : Ty} {vs vs' : List Value} (hij : κ.same i j)
      (hvs : List.Forall₂ (Mirrors κ) vs vs') :
        Mirrors κ (.array i element vs) (.array j element vs')
  | handle {h h' : Handle} (hh : h.Resembles κ h') (hdata : h.data.Mirrors κ (Mirrors κ) h'.data)
      (hsane : h.Sane) (hsane' : h'.Sane) : Mirrors κ (.handle h) (.handle h')
  | member {i j : Nat} {m : Member} (hij : κ.same i j) : Mirrors κ (.member i m) (.member j m)
  | object {i j : Nat} {cls : String} (hij : κ.same i j) : Mirrors κ (.object i cls) (.object j cls)

/-- The handles are the same, up to identities. -/
structure HandleOf.Mirrors (κ : Pairing) (h h' : Handle) : Prop extends h.Resembles κ h' where
  data : h.data.Mirrors κ (Value.Mirrors κ) h'.data

/-- Handles that dispatch to no member. -/
theorem HandleOf.Mirrors.of_plain {κ : Pairing} {h h' : Handle} (htype : h.type = h'.type)
    (hform : h.form.Matches h'.form) (hplain : ∀ i m, h.data ≠ .direct i m)
    (hdata : h.data.Mirrors κ (Value.Mirrors κ) h'.data) : h.Mirrors κ h' where
  type := htype
  form _ := hform
  same i m hdirect := absurd hdirect (hplain i m)
  ready i m hdirect := absurd hdirect (hplain i m)
  level i m hdirect := absurd hdirect (hplain i m)
  data := hdata

/-- The values are the same one by one. -/
abbrev Value.MirrorAll (κ : Pairing) : List Value → List Value → Prop :=
  List.Forall₂ (Value.Mirrors κ)

/-! ## Later pairings -/

variable {κ κ' : Pairing} {h h' : Handle} {v v' : Value} {vs vs' : List Value}

theorem HandleOf.Resembles.mono (hh : h.Resembles κ h') (hκ : κ ≤ κ') : h.Resembles κ' h' where
  type := hh.type
  form := hh.form
  same i m hdata := hκ.same (hh.same i m hdata)
  ready i m hdata hne := hκ.ready (hh.ready i m hdata hne)
  level i m hdata hlevel := by
    -- Both identities were given out before, so they did not become level afterwards.
    have hlt := κ.lt (hh.same i m hdata)
    rcases hκ.fresh hlevel with hlevel | ⟨hleft, -⟩
    · exact hh.level i m hdata hlevel
    · exact absurd hlt.1 (Nat.not_lt.2 hleft)

theorem Value.Mirrors.mono (hv : v.Mirrors κ v') (hκ : κ ≤ κ') : v.Mirrors κ' v' := by
  -- Values nest in lists and in what handles hold, so the induction goes over all three.
  refine @Value.Mirrors.rec κ (fun v v' _ => v.Mirrors κ' v') (fun vs vs' _ => MirrorAll κ' vs vs')
    (fun data data' _ => data.Mirrors κ' (Value.Mirrors κ') data')
    ?_ ?_ ?_ ?_ ?_ ?_ ?_ ?_ ?_ ?_ v v' hv
  · exact .literal
  · exact fun hij _ ih => .array (hκ.same hij) ih
  · exact fun hh _ hsane hsane' ih => .handle (hh.mono hκ) ih hsane hsane'
  · exact fun hij => .member (hκ.same hij)
  · exact fun hij => .object (hκ.same hij)
  · exact .nil
  · exact fun _ _ ih ihs => .cons ih ihs
  · exact .simple
  · exact fun hs _ ih => .bound hs ih
  · exact fun hij => .direct (hκ.same hij)

/-- What mirrors itself only depends on which identities do. -/
theorem Value.Mirrors.self (hv : v.Mirrors κ v) (hself : ∀ i, κ.same i i → κ'.same i i) :
    v.Mirrors κ' v := by
  -- The recursor has two sides, so the induction assumes that they are equal.
  refine @Value.Mirrors.rec κ (fun v v' _ => v' = v → v.Mirrors κ' v)
    (fun vs vs' _ => vs' = vs → MirrorAll κ' vs vs)
    (fun data data' _ => data' = data → data.Mirrors κ' (Value.Mirrors κ') data)
    ?_ ?_ ?_ ?_ ?_ ?_ ?_ ?_ ?_ ?_ v v hv rfl
  · exact fun hv _ => .literal hv
  · rintro i j element vs vs' hij _ ih heq
    obtain ⟨rfl, -, rfl⟩ := Value.array.inj heq
    exact .array (hself _ hij) (ih rfl)
  · rintro h h' hh _ hsane _ ih heq
    obtain rfl := Value.handle.inj heq
    exact .handle ⟨rfl, fun _ => rfl, fun i m hdata => hself _ (hh.same i m hdata),
      fun _ _ _ hne => absurd rfl hne, fun _ _ _ _ => rfl⟩ (ih rfl) hsane hsane
  · rintro i j m hij heq
    obtain ⟨rfl, -⟩ := Value.member.inj heq
    exact .member (hself _ hij)
  · rintro i j cls hij heq
    obtain ⟨rfl, -⟩ := Value.object.inj heq
    exact .object (hself _ hij)
  · exact fun _ => .nil
  · rintro v v' vs vs' _ _ ih ihs heq
    obtain ⟨hhead, htail⟩ := List.cons.inj heq
    exact .cons (hhead ▸ ih hhead) (htail ▸ ihs htail)
  · exact fun _ => .simple
  · rintro s s' vs vs' hs _ ih heq
    obtain ⟨rfl, rfl⟩ := HandleData.bound.inj heq
    exact .bound rfl (ih rfl)
  · rintro i j m hij heq
    obtain ⟨rfl, -⟩ := HandleData.direct.inj heq
    exact .direct (hself _ hij)

theorem Value.MirrorAll.self (hvs : MirrorAll κ vs vs) (hself : ∀ i, κ.same i i → κ'.same i i) :
    MirrorAll κ' vs vs :=
  List.forall₂_same.2 fun v hv => (List.forall₂_same.1 hvs v hv).self hself

theorem Value.MirrorAll.mono (hvs : MirrorAll κ vs vs') (hκ : κ ≤ κ') : MirrorAll κ' vs vs' :=
  hvs.imp fun _ _ h => h.mono hκ

theorem HandleData.Mirrors.mono {data data' : HandleData Value}
    (hdata : data.Mirrors κ (Value.Mirrors κ) data') (hκ : κ ≤ κ') :
    data.Mirrors κ' (Value.Mirrors κ') data' := by
  cases hdata with
  | simple => exact .simple
  | bound hs hvs => exact .bound hs (Value.MirrorAll.mono hvs hκ)
  | direct hij => exact .direct (hκ.same hij)

theorem HandleOf.Mirrors.mono (hh : h.Mirrors κ h') (hκ : κ ≤ κ') : h.Mirrors κ' h' :=
  ⟨hh.toResembles.mono hκ, hh.data.mono hκ⟩

/-! ## What mirrored handles and values have in common -/

namespace HandleOf.Mirrors

/-- Both hold nothing, both hold values, or both dispatch to the same member. -/
theorem data_cases (hh : h.Mirrors κ h') : (h.data = .simple ∧ h'.data = .simple) ∨
    (∃ s s' vs vs', h.data = .bound s vs ∧ h'.data = .bound s' vs' ∧ s.fields = s'.fields ∧
      Value.MirrorAll κ vs vs') ∨
    ∃ i j m, h.data = .direct i m ∧ h'.data = .direct j m ∧ κ.same i j := by
  obtain ⟨id, type, form, data⟩ := h
  obtain ⟨id', type', form', data'⟩ := h'
  obtain ⟨-, hdata⟩ := hh
  cases hdata with
  | simple => exact .inl ⟨rfl, rfl⟩
  | bound hs hvs => exact .inr (.inl ⟨_, _, _, _, rfl, rfl, hs, hvs⟩)
  | direct hij => exact .inr (.inr ⟨_, _, _, rfl, rfl, hij⟩)

/-- Neither dispatches to a member, or both to the same one. -/
theorem plain_or_direct (hh : h.Mirrors κ h') : (h.member? = none ∧ h'.member? = none) ∨
    ∃ i j m, h.data = .direct i m ∧ h'.data = .direct j m ∧ κ.same i j := by
  rcases hh.data_cases with ⟨hd, hd'⟩ | ⟨s, s', vs, vs', hd, hd', -⟩ | hdirect
  · exact .inl ⟨by simp [member?, hd], by simp [member?, hd']⟩
  · exact .inl ⟨by simp [member?, hd], by simp [member?, hd']⟩
  · exact .inr hdirect

theorem isSome (hh : h.Mirrors κ h') : h.species?.isSome = h'.species?.isSome := by
  rcases hh.data_cases with ⟨hd, hd'⟩ | ⟨s, s', vs, vs', hd, hd', -⟩ | ⟨i, j, m, hd, hd', -⟩ <;>
    simp [species?, hd, hd']

theorem bound (hh : h.Mirrors κ h') : Value.MirrorAll κ h.bound h'.bound := by
  unfold HandleOf.bound
  rcases hh.data_cases with ⟨hd, hd'⟩ | ⟨s, s', vs, vs', hd, hd', -, hvs⟩ |
    ⟨i, j, m, hd, hd', -⟩ <;>
    rw [hd, hd']
  · exact .nil
  · exact hvs
  · exact .nil

end HandleOf.Mirrors

namespace Value

/-- Handles that are values. -/
theorem mirrors_handle_iff : (Value.handle h).Mirrors κ (.handle h') ↔
    h.Mirrors κ h' ∧ h.Sane ∧ h'.Sane := by
  refine ⟨fun hv => ?_, fun ⟨hh, hsane, hsane'⟩ => .handle hh.toResembles hh.data hsane hsane'⟩
  cases hv with
  | literal hv => cases hv
  | handle hh hdata hsane hsane' => exact ⟨⟨hh, hdata⟩, hsane, hsane'⟩

namespace Mirrors

theorem basicType (hv : v.Mirrors κ v') : v.basicType = v'.basicType := by
  cases hv <;> rfl

theorem sort (hv : v.Mirrors κ v') : v.sort = v'.sort := by
  cases hv <;> rfl

theorem isNull (hv : v.Mirrors κ v') : v.isNull = v'.isNull := by
  cases hv <;> rfl

theorem castError (hv : v.Mirrors κ v') (expected : String) :
    Value.castError expected v = Value.castError expected v' := by
  rw [Value.castError, hv.isNull, hv.sort]
  rfl

theorem asInt (hv : v.Mirrors κ v') : v.asInt = v'.asInt := by
  cases hv <;> rfl

theorem asSignature (hv : v.Mirrors κ v') : v.asSignature = v'.asSignature := by
  cases hv <;> rfl

/-- What is no handle in one world is none in the other one. -/
theorem asHandle (hv : v.Mirrors κ v') :
    (∃ e, v.asHandle = .error e ∧ v'.asHandle = .error e) ∨
      ∃ h h', v = .handle h ∧ v' = .handle h' ∧ h.Mirrors κ h' ∧ h.Sane ∧ h'.Sane := by
  cases hv with
  | @literal v hv =>
    refine .inl ?_
    cases v <;> first | exact ⟨_, rfl, rfl⟩ | cases hv
  | @handle h h' hh hdata hsane hsane' =>
    exact .inr ⟨h, h', rfl, rfl, ⟨hh, hdata⟩, hsane, hsane'⟩
  | array | member | object => exact .inl ⟨_, rfl, rfl⟩

end Mirrors

theorem mirrors_zero (t : BasicType) : (zero t).Mirrors κ (zero t) := .literal (by cases t <;> rfl)

theorem mirrors_ofConstant (c : Constant) : (ofConstant c).Mirrors κ (ofConstant c) :=
  .literal (by cases c <;> rfl)

theorem MirrorAll.basicTypes (hvs : MirrorAll κ vs vs') :
    vs.map Value.basicType = vs'.map Value.basicType := by
  induction hvs with
  | nil => rfl
  | cons hv _ ih => rw [List.map_cons, List.map_cons, hv.basicType, ih]

theorem MirrorAll.getElem? (hvs : MirrorAll κ vs vs') (i : Nat) :
    (vs[i]? = none ∧ vs'[i]? = none) ∨ ∃ v v',
      vs[i]? = some v ∧ vs'[i]? = some v' ∧ v.Mirrors κ v' := by
  induction hvs generalizing i with
  | nil => exact .inl ⟨rfl, rfl⟩
  | @cons v v' vs vs' hv hvs ih =>
    cases i with
    | zero => exact .inr ⟨v, v', rfl, rfl, hv⟩
    | succ i => exact ih i

theorem MirrorAll.dropLast (hvs : MirrorAll κ vs vs') : MirrorAll κ vs.dropLast vs'.dropLast := by
  rw [List.dropLast_eq_take, List.dropLast_eq_take, hvs.length_eq]
  exact List.forall₂_take _ hvs

theorem MirrorAll.getLast? (hvs : MirrorAll κ vs vs') :
    (vs.getLast? = none ∧ vs'.getLast? = none) ∨
      ∃ v v', vs.getLast? = some v ∧ vs'.getLast? = some v' ∧ v.Mirrors κ v' := by
  rw [List.getLast?_eq_getElem?, List.getLast?_eq_getElem?, hvs.length_eq]
  exact hvs.getElem? _

theorem MirrorAll.append {us us' : List Value} (hus : MirrorAll κ us us')
    (hvs : MirrorAll κ vs vs') :
    MirrorAll κ (us ++ vs) (us' ++ vs') :=
  List.rel_append hus hvs

mutual

/-- Mirrored values look the same. -/
theorem Mirrors.text {v v' : Value} (hv : v.Mirrors κ v') : v.text = v'.text := by
  cases hv with
  | literal => rfl
  | array hij hvs => rw [Value.text, Value.text, MirrorAll.listText hvs]
  | handle hh => rw [Value.text, Value.text, hh.type]
  | member | object => rfl

theorem MirrorAll.listText {vs vs' : List Value} (hvs : MirrorAll κ vs vs') :
    Value.listText vs = Value.listText vs' := by
  match hvs with
  | .nil => rfl
  | .cons hv .nil => exact hv.text
  | .cons hv (.cons hu hus) =>
    have hrest := MirrorAll.listText (.cons hu hus)
    show Value.text _ ++ ", " ++ Value.listText (_ :: _) =
      Value.text _ ++ ", " ++ Value.listText (_ :: _)
    rw [hv.text, hrest]

end

end Value

/-! ## Plans and operations -/

/-- The plans are the same, up to the identities of what is there already. -/
inductive Blueprint.Mirrors (κ : Pairing) : Blueprint → Blueprint → Prop
  | given {v v' : Value} (hv : v.Mirrors κ v') : Mirrors κ (.given v) (.given v')
  | array {element : Ty} {items items' : List Blueprint}
      (hitems : List.Forall₂ (Mirrors κ) items items') :
      Mirrors κ (.array element items) (.array element items')
  | object (cls : String) : Mirrors κ (.object cls) (.object cls)

theorem Blueprint.Mirrors.mono {plan plan' : Blueprint}
    (hplan : Blueprint.Mirrors κ plan plan') (hκ : κ ≤ κ') : Blueprint.Mirrors κ' plan plan' := by
  refine @Blueprint.Mirrors.rec κ (fun plan plan' _ => Blueprint.Mirrors κ' plan plan')
    (fun plans plans' _ => List.Forall₂ (Blueprint.Mirrors κ') plans plans')
    ?_ ?_ ?_ ?_ ?_ plan plan'
    hplan
  · exact fun hv => .given (hv.mono hκ)
  · exact fun _ ih => .array ih
  · exact fun cls => .object cls
  · exact .nil
  · exact fun _ _ ih ihs => .cons ih ihs

/-- The operations are the same, up to the identities of their operands. -/
inductive HandleOp.Mirrors (κ : Pairing) : HandleOp → HandleOp → Prop
  | external (name : String) (type : Signature) :
      Mirrors κ (.external name type) (.external name type)
  | empty (type : Signature) : Mirrors κ (.empty type) (.empty type)
  | direct (m : Member) : Mirrors κ (.direct m) (.direct m)
  | exactInvoker (type : Signature) : Mirrors κ (.exactInvoker type) (.exactInvoker type)
  | genericInvoker (type : Signature) : Mirrors κ (.genericInvoker type) (.genericInvoker type)
  | basicInvoker (type : Signature) : Mirrors κ (.basicInvoker type) (.basicInvoker type)
  | asType {h h' : Handle} (hh : (Value.handle h).Mirrors κ (.handle h')) (type : Signature) :
      Mirrors κ (.asType h type) (.asType h' type)
  | insert {h h' : Handle} (hh : (Value.handle h).Mirrors κ (.handle h')) (pos : Nat)
      {vs vs' : List Value} (hvs : Value.MirrorAll κ vs vs') :
      Mirrors κ (.insert h pos vs) (.insert h' pos vs')
  | drop {h h' : Handle} (hh : (Value.handle h).Mirrors κ (.handle h')) (pos : Nat)
      (types : List Ty) :
      Mirrors κ (.drop h pos types) (.drop h' pos types)
  | dup {h h' : Handle} (hh : (Value.handle h).Mirrors κ (.handle h')) (src dst : Nat) :
      Mirrors κ (.dup h src dst) (.dup h' src dst)
  | spread {h h' : Handle} (hh : (Value.handle h).Mirrors κ (.handle h')) (pos : Nat) (array : Ty)
      (count : Nat) : Mirrors κ (.spread h pos array count) (.spread h' pos array count)
  | filter {h h' f f' : Handle} (hh : (Value.handle h).Mirrors κ (.handle h')) (pos : Nat)
      (hf : (Value.handle f).Mirrors κ (.handle f')) :
        Mirrors κ (.filter h pos f) (.filter h' pos f')
  | collect {h h' c c' : Handle} (hh : (Value.handle h).Mirrors κ (.handle h')) (pos : Nat)
      (hc : (Value.handle c).Mirrors κ (.handle c')) :
        Mirrors κ (.collect h pos c) (.collect h' pos c')
  | filterReturn {h h' f f' : Handle} (hh : (Value.handle h).Mirrors κ (.handle h'))
      (hf : (Value.handle f).Mirrors κ (.handle f')) :
      Mirrors κ (.filterReturn h f) (.filterReturn h' f')
  | zeroReturn {h h' : Handle} (hh : (Value.handle h).Mirrors κ (.handle h')) (type : Ty) :
      Mirrors κ (.zeroReturn h type) (.zeroReturn h' type)
  | fold {h h' c c' : Handle} (hh : (Value.handle h).Mirrors κ (.handle h')) (pos : Nat)
      (hc : (Value.handle c).Mirrors κ (.handle c')) : Mirrors κ (.fold h pos c) (.fold h' pos c')
  | permute {h h' : Handle} (hh : (Value.handle h).Mirrors κ (.handle h')) (type : Signature)
      (reorder : List Nat) : Mirrors κ (.permute h type reorder) (.permute h' type reorder)

end HandleForms
