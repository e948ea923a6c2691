import HandleForms.Proofs.Draft.Denotes
import Mathlib.Data.List.Perm.Subperm

/-!
# Where replacements never end

Operands are followed from replacement to replacement without a bound, so an edit whose replacements
form a ring may have no answer. Only rings do that (`Draft.Known.ends_finish`), and a ring is closed
by a name that was itself replaced before, so an edit that puts in no such name has none
(`Draft.Accepted.acyclic`).
-/

namespace HandleForms

open Relation (TransGen ReflTransGen)

/-- No replacement leads back to where it started. -/
def Acyclic (R : Nat → Nat → Prop) : Prop := ∀ a, ¬ TransGen R a a

/-- A new replacement by a name that is not replaced closes no ring. -/
theorem Acyclic.insert {R R' : Nat → Nat → Prop} {a b : Nat} (h : Acyclic R)
    (hnew : ∀ x y, R' x y → R x y ∨ x = a ∧ y = b ∧ a ≠ b) (hfree : ∀ y, ¬ R b y) :
    Acyclic R' := by
  have hfree' : ∀ y, ¬ R' b y := fun y hy => by
    rcases hnew b y hy with hy | ⟨hba, -, hab⟩
    · exact hfree y hy
    · exact hab hba.symm
  -- A chain that uses the new replacement ends with it.
  have hchain : ∀ {x y}, TransGen R' x y → TransGen R x y ∨ y = b := by
    intro x y hxy
    induction hxy with
    | single hxy =>
      rcases hnew _ _ hxy with hxy | ⟨-, rfl, -⟩
      · exact .inl (.single hxy)
      · exact .inr rfl
    | tail hxy hyz ih =>
      rcases ih with hxy | rfl
      · rcases hnew _ _ hyz with hyz | ⟨-, rfl, -⟩
        · exact .inl (hxy.tail hyz)
        · exact .inr rfl
      · exact absurd hyz (hfree' _)
  intro x hx
  rcases hchain hx with hx' | rfl
  · exact h x hx'
  · obtain ⟨y, hy, -⟩ := TransGen.head'_iff.1 hx
    exact hfree' y hy

theorem Acyclic.mono {R R' : Nat → Nat → Prop} (h : Acyclic R) (hsub : ∀ x y, R' x y → R x y) :
    Acyclic R' := by
  have hchain : ∀ {a b}, TransGen R' a b → TransGen R a b := by
    intro a b hab
    induction hab with
    | single hab => exact .single (hsub _ _ hab)
    | tail _ hbc ih => exact ih.tail (hsub _ _ hbc)
  exact fun a ha => h a (hchain ha)

namespace Draft

namespace Redirects

variable {r : Redirects}

/-- One name is directly replaced by another. -/
def Next (r : Redirects) (a b : Nat) : Prop := r.lookup a = some b

/-- A chain that is not at its end has passed as many names as it made steps, none of them twice. -/
theorem exists_passed (h : Acyclic r.Next) {fuel a : Nat}
    (hend : (r.lookup (r.follow fuel a)).isSome = true) :
    ∃ passed : List Nat, passed.length = fuel ∧ (a :: passed).Nodup ∧
      (∀ x ∈ passed, TransGen r.Next a x) ∧ ∀ x ∈ a :: passed, (r.lookup x).isSome = true := by
  induction fuel generalizing a with
  | zero => exact ⟨[], rfl, List.nodup_singleton a, nofun, List.forall_mem_singleton.2 hend⟩
  | succ fuel ih =>
    cases hnext : r.lookup a with
    | none =>
      rw [follow_of_lookup_none hnext, hnext] at hend
      cases hend
    | some next =>
      simp only [follow, hnext] at hend
      obtain ⟨passed, hlen, hnodup, hreach, hkeys⟩ := ih hend
      have hfirst : TransGen r.Next a next := .single hnext
      have hall : ∀ x ∈ next :: passed, TransGen r.Next a x :=
        List.forall_mem_cons.2 ⟨hfirst, fun x hx => hfirst.trans (hreach x hx)⟩
      exact ⟨next :: passed, congrArg Nat.succ hlen,
        List.nodup_cons.2 ⟨fun ha => h a (hall a ha), hnodup⟩, hall,
        List.forall_mem_cons.2 ⟨by rw [hnext]; rfl, hkeys⟩⟩

/-- Where no replacement leads back, every chain ends. -/
theorem circles_eq_false (h : Acyclic r.Next) (a : Nat) : r.circles a = false := by
  by_contra hcircles
  obtain ⟨passed, hlen, hnodup, -, hkeys⟩ := exists_passed h (eq_true_of_ne_false hcircles)
  have hsub : a :: passed ⊆ r.map Prod.fst := fun x hx => by
    obtain ⟨y, hy⟩ := Option.isSome_iff_exists.1 (hkeys x hx)
    exact List.mem_map_of_mem (TypeForms.mem_of_lookup hy)
  have hle := (hnodup.subperm hsub).length_le
  rw [List.length_cons, hlen, List.length_map] at hle
  omega

end Redirects

/-! ## Computations that end -/

/-- The computation ends, and its answer has the property. -/
def Ends {α : Type} (x : Except Violation α) (Q : α → Prop) : Prop :=
  match x with
  | .ok a => Q a
  | .error v => v ≠ .endless

section Ends

variable {α β : Type} {x : Except Violation α} {k : α → Except Violation β} {Q : α → Prop}
  {R : β → Prop}

theorem Ends.bind (hx : Ends x Q) (hk : ∀ a, Q a → Ends (k a) R) : Ends (x >>= k) R := by
  cases x with
  | ok a => exact hk a hx
  | error v => exact hx

theorem Ends.foldlM {σ ι : Type} {step : σ → ι → Except Violation σ} {Q : σ → Prop}
    (hstep : ∀ s i, Q s → Ends (step s i) Q) (is : List ι) {s : σ} (hs : Q s) :
    Ends (is.foldlM step s) Q := by
  induction is generalizing s with
  | nil => exact hs
  | cons i is ih =>
    rw [List.foldlM_cons]
    exact (hstep s i hs).bind fun s hs => ih hs

theorem Ends.ne (h : Ends x Q) : x ≠ .error .endless := by
  rintro rfl
  exact h rfl

end Ends

variable {d d' : Draft} {r : Redirects} {pos id : Nat}

theorem ends_name (d : Draft) (id : Nat) : Ends (d.name id) fun n => d.name id = .ok n := by
  unfold Draft.name
  split
  · exact rfl
  · exact nofun

/-! ## Repairs -/

/-- Every name that stands or stood somewhere is in the arena. -/
structure Known (d : Draft) : Prop where
  names : ∀ id, some id ∈ d.names → id < d.arena.size
  initial : ∀ id, some id ∈ d.initial → id < d.arena.size

/-- A repair has come to a place: from there on the names are still those of the edit, and what was
noted is a replacement of the edit or a replacement by a copy. -/
structure Noted (d : Draft) (pos : Nat) (d' : Draft) (r : Redirects) : Prop where
  names : ∀ i, pos ≤ i → d'.names[i]? = d.names[i]?
  initial : d'.initial = d.initial
  size_le : d.arena.size ≤ d'.arena.size
  noted : ∀ e ∈ r, e.1 < d.arena.size ∧ (d.Replaces e.1 e.2 ∨ d.arena.size ≤ e.2)

namespace Noted

/-- Copies are not replaced, so only replacements of the edit lead back to where they started. -/
theorem acyclic (h : Noted d pos d' r) (hring : Acyclic d.Replaces) : Acyclic r.Next := by
  have hedge : ∀ {a b}, r.Next a b → a < d.arena.size ∧ (d.Replaces a b ∨ d.arena.size ≤ b) :=
    fun hab => h.noted _ (TypeForms.mem_of_lookup hab)
  have hchain : ∀ {a b}, TransGen r.Next a b → b < d.arena.size → TransGen d.Replaces a b := by
    intro a b hab
    induction hab with
    | single hab => exact fun hb => .single ((hedge hab).2.resolve_right (Nat.not_le.2 hb))
    | tail _ hbc ih =>
      exact fun hc => (ih (hedge hbc).1).tail ((hedge hbc).2.resolve_right (Nat.not_le.2 hc))
  intro a ha
  obtain ⟨b, hab, -⟩ := TransGen.head'_iff.1 ha
  exact hring a (hchain ha (hedge hab).1)

/-- Past a place that leaves everything as it is. -/
theorem pass (h : Noted d pos d' r) : Noted d (pos + 1) d' r :=
  { h with names := fun i hi => h.names i (by omega) }

/-- Past an expression that is copied. -/
theorem copy (h : Noted d pos d' r) (hid : id < d.arena.size) (n : Name Form) (result : Option Nat) :
    Noted d (pos + 1)
      { (d'.alloc n).2 with names := d'.names.set pos (some d'.arena.size), result := result }
      ((id, d'.arena.size) :: r) where
  names i hi := by
    rw [List.getElem?_set_ne (by omega)]
    exact h.names i (by omega)
  initial := h.initial
  size_le := Nat.le_trans h.size_le (by simp [Draft.alloc])
  noted := List.forall_mem_cons.2 ⟨⟨hid, .inr h.size_le⟩, h.noted⟩

/-- What stood at a place is noted. -/
theorem note (h : Noted d pos d' r) {old new : Nat} (hold : old < d.arena.size)
    (hnew : old ≠ new → d.Replaces old new ∨ d.arena.size ≤ new) :
    Noted d pos d' (if old = new then r else (old, new) :: r) := by
  split
  · exact h
  · next hne => exact { h with noted := List.forall_mem_cons.2 ⟨⟨hold, hnew hne⟩, h.noted⟩ }

theorem repairAt (h : Noted d pos d' r) (hd : d.Known) (hring : Acyclic d.Replaces) :
    Ends (d'.repairAt r pos) fun s => Noted d (pos + 1) s.1 s.2 := by
  unfold Draft.repairAt
  split
  · next id hid =>
    refine (ends_name d' id).bind fun n hn => ?_
    rw [if_neg (by simp [Redirects.circles_eq_false (h.acyclic hring)])]
    have hnow : d.names[pos]? = some (some id) := (h.names pos (Nat.le_refl pos)).symm.trans hid
    have hlt : id < d.arena.size := hd.names id (List.mem_of_getElem? hnow)
    by_cases hmove : d'.arity ≤ pos ∧ (!r.isEmpty) = true ∧ n.movedBy r.resolve = true
    · simp only [if_pos hmove]
      have hcopy := h.copy hlt (n.mapArgs r.resolve)
        (if d'.result = some id then some d'.arena.size else d'.result)
      split
      · next old hold =>
        have hold : d.initial[pos]? = some (some old) := h.initial ▸ hold
        exact hcopy.note (hd.initial old (List.mem_of_getElem? hold)) fun _ => .inr h.size_le
      · exact hcopy
      · exact nofun
    · simp only [if_neg hmove]
      split
      · next old hold =>
        have hold : d.initial[pos]? = some (some old) := h.initial ▸ hold
        exact h.pass.note (hd.initial old (List.mem_of_getElem? hold)) fun hne =>
          .inl ⟨pos, hold, hnow, hne⟩
      · exact h.pass
      · exact nofun
  · exact h.pass

/-- The loop of the repair. -/
theorem repairFrom (hd : d.Known) (hring : Acyclic d.Replaces) {count : Nat} :
    ∀ {pos : Nat} {d' : Draft} {r : Redirects}, Noted d pos d' r →
      Ends ((List.range' pos count).foldlM
        (fun (state : Draft × Redirects) pos => state.1.repairAt state.2 pos) (d', r))
        fun _ => True := by
  induction count with
  | zero => exact fun _ => trivial
  | succ count ih =>
    intro pos d' r h
    rw [List.range'_succ, List.foldlM_cons]
    exact (h.repairAt hd hring).bind fun _ hs => ih hs

end Noted

theorem Known.ends_repair (hd : d.Known) (hring : Acyclic d.Replaces) :
    Ends d.repair fun _ => True :=
  (Noted.repairFrom hd hring ⟨fun _ _ => rfl, rfl, Nat.le_refl _,
    fun _ he => absurd he List.not_mem_nil⟩).bind fun _ _ => trivial

/-! ## What follows the repair -/

theorem ends_clearDuplicates (d : Draft) : Ends d.clearDuplicates fun _ => True := by
  refine (Ends.foldlM (Q := fun _ => True) (fun d id _ => ?_) d.dups trivial).bind fun _ _ => trivial
  unfold clearDuplicate
  dsimp only
  split
  · exact nofun
  · trivial

theorem ends_checkArity (d : Draft) : Ends d.checkArity fun _ => True := by
  have hgo : ∀ names pos, Ends (checkArity.go d pos names) fun _ => True := by
    intro names
    induction names with
    | nil => exact fun _ => trivial
    | cons slot names ih =>
      intro pos
      cases slot with
      | none => exact ih _
      | some id =>
        refine (ends_name d id).bind fun n _ => ?_
        split
        · exact nofun
        · exact ih _
  exact hgo _ _

theorem ends_publishNames (d : Draft) (names : List (Option Nat)) (placed : List (Nat × Nat))
    (pos : Nat) : Ends (d.publishNames placed pos names) fun _ => True := by
  induction names generalizing placed pos with
  | nil => trivial
  | cons slot names ih =>
    cases slot with
    | none => exact nofun
    | some id =>
      refine (ends_name d id).bind fun n _ => ?_
      split
      · exact nofun
      · exact (ih _ _).bind fun _ _ => trivial

theorem ends_assemble (id arity : Nat) (names : List (Name Form)) (result : Option Nat)
    (kind : FormKind) : Ends (Form.assemble id arity names result kind) fun _ => True := by
  unfold Form.assemble Form.verified
  split
  · trivial
  · exact nofun

theorem ends_publish (d : Draft) (id : Nat) : Ends (d.publish id) fun _ => True := by
  refine (ends_publishNames d _ _ _).bind fun s _ => ?_
  dsimp only
  split
  · exact ends_assemble ..
  · split
    · exact nofun
    · exact ends_assemble ..

/-- Where no replacement leads back, an edit is finished. -/
theorem Known.ends_finish (hd : d.Known) (hring : Acyclic d.Replaces) (id : Nat) :
    Ends (d.finish id) fun _ => True := by
  unfold finish
  split
  · exact nofun
  refine (hd.ends_repair hring).bind fun d _ => (ends_clearDuplicates _).bind fun d _ => ?_
  exact (ends_checkArity _).bind fun _ _ => ends_publish _ _

/-! ## What an operation replaces -/

/-- The name that an operation puts into a place, if it does not allocate it itself. -/
def Op.brings (d : Draft) : Op → Option Nat
  | renameParameter _ id => some id
  | replaceByExpression _ id => some id
  | insertParameter _ id => some id
  | insertExpression _ id => some id
  | replaceByCopy _ source => d.names[source]?.join
  | alloc _ => none
  | replaceFunctions _ _ _ => none
  | setResult _ => none

/-- What the operation puts into a place was not replaced before. -/
def Op.Settled (d : Draft) (op : Op) : Prop :=
  ∀ id, op.brings d = some id → ∀ b, ¬ d.Replaces id b

/-- The draft comes out of the form by operations that went through, all of them of one sort. -/
inductive Accepted (sort : Draft → Op → Prop) (f : Form) : Draft → Prop
  | start {d : Draft} (opened : (ofForm f).start = .ok d) : Accepted sort f d
  | step {d d' : Draft} (before : Accepted sort f d) (op : Op) (ofSort : sort d op)
      (run : op.run d = .ok d') : Accepted sort f d'

theorem lt_of_name {n : Name Form} (h : d.name id = .ok n) : id < d.arena.size := by
  have := (List.getElem?_eq_some_iff.1 (name_eq_ok_iff.1 h)).1
  simpa using this

theorem of_changeName (h : d.changeName pos id = .ok d') :
    d'.arena = d.arena ∧ d'.initial = d.initial ∧ d'.names = d.names.set pos (some id) := by
  unfold changeName at h
  split at h
  · cases h
  split at h
  · split at h
    · cases h
    · obtain rfl := Except.ok.inj h
      exact ⟨rfl, rfl, rfl⟩
  · cases h

theorem Known.changeName (hd : d.Known) (hid : id < d.arena.size)
    (h : d.changeName pos id = .ok d') : d'.Known := by
  obtain ⟨harena, hinitial, hnames⟩ := of_changeName h
  refine ⟨fun b hb => ?_, by rw [harena, hinitial]; exact hd.initial⟩
  rw [hnames] at hb
  rw [harena]
  rcases List.mem_or_eq_of_mem_set hb with hb | hb
  · exact hd.names b hb
  · exact Option.some.inj hb ▸ hid

/-- The name that stands at a place replaces the one that stood there at the start. -/
theorem replaces_changeName (h : d.changeName pos id = .ok d') {a b : Nat} (hab : d'.Replaces a b) :
    d.Replaces a b ∨ d.initial[pos]? = some (some a) ∧ b = id ∧ a ≠ id := by
  obtain ⟨-, hinitial, hnames⟩ := of_changeName h
  obtain ⟨i, hi, hb, hne⟩ := hab
  rw [hinitial] at hi
  rw [hnames, List.getElem?_set] at hb
  split at hb
  · next hpos =>
    subst hpos
    split at hb
    · obtain rfl := Option.some.inj (Option.some.inj hb)
      exact .inr ⟨hi, rfl, hne⟩
    · cases hb
  · exact .inl ⟨i, hi, hb, hne⟩

theorem acyclic_changeName (h : d.changeName pos id = .ok d') (hfree : ∀ b, ¬ d.Replaces id b)
    (hring : Acyclic d.Replaces) : Acyclic d'.Replaces := by
  by_cases hplace : ∃ a, d.initial[pos]? = some (some a)
  · obtain ⟨a, ha⟩ := hplace
    refine hring.insert (a := a) (fun x y hxy => ?_) hfree
    refine (replaces_changeName h hxy).imp_right fun ⟨hx, hy, hne⟩ => ?_
    obtain rfl := Option.some.inj (Option.some.inj (ha.symm.trans hx))
    exact ⟨rfl, hy, hne⟩
  · refine hring.mono fun x y hxy => ?_
    exact (replaces_changeName h hxy).resolve_right fun hx => hplace ⟨x, hx.1⟩

/-- Makes room for a new name. -/
theorem replaces_insertIdx {e : Draft} (hnames : e.names = d.names.insertIdx pos none)
    (hinitial : e.initial = d.initial.insertIdx pos none) {a b : Nat} (hab : e.Replaces a b) :
    d.Replaces a b := by
  obtain ⟨i, ha, hb, hne⟩ := hab
  rw [hinitial, List.getElem?_insertIdx] at ha
  rw [hnames, List.getElem?_insertIdx] at hb
  split at ha
  · next hlt => exact ⟨i, ha, by rwa [if_pos hlt] at hb, hne⟩
  next hlt =>
  split at ha
  · split at ha <;> cases ha
  · next hat => exact ⟨i - 1, ha, by rwa [if_neg hlt, if_neg hat] at hb, hne⟩

/-- What an operation on a draft comes to: names stay known, and no ring is closed if what it brings
in was not replaced. -/
structure Keeps (d : Draft) (settled : Prop) (d' : Draft) : Prop where
  known : d'.Known
  acyclic : settled → Acyclic d.Replaces → Acyclic d'.Replaces

theorem Known.keeps_changeName (hd : d.Known) (hid : id < d.arena.size)
    (h : d.changeName pos id = .ok d') : Keeps d (∀ b, ¬ d.Replaces id b) d' :=
  ⟨hd.changeName hid h, acyclic_changeName h⟩

theorem Known.keeps_insertName {param : Bool} (hd : d.Known) (hid : id < d.arena.size)
    (h : d.insertName pos id param = .ok d') : Keeps d (∀ b, ¬ d.Replaces id b) d' := by
  unfold insertName at h
  split at h
  · cases h
  split at h
  · cases h
  split at h
  · cases h
  split at h
  · cases h
  have hmem {slots : List (Option Nat)} {b : Nat} (hb : some b ∈ slots.insertIdx pos none) :
      some b ∈ slots := (List.eq_or_mem_of_mem_insertIdx hb).resolve_left nofun
  generalize hroom : ({ d with
      names := d.names.insertIdx pos none
      initial := d.initial.insertIdx pos none
      firstChange := if pos ≤ d.firstChange then d.firstChange + 1 else d.firstChange
      arity := if param then d.arity + 1 else d.arity } : Draft) = e at h
  have hnames : e.names = d.names.insertIdx pos none := hroom ▸ rfl
  have hinitial : e.initial = d.initial.insertIdx pos none := hroom ▸ rfl
  have harena : e.arena = d.arena := hroom ▸ rfl
  have he : e.Known := ⟨fun b hb => harena ▸ hd.names b (hmem (hnames ▸ hb)),
    fun b hb => harena ▸ hd.initial b (hmem (hinitial ▸ hb))⟩
  have hput := he.keeps_changeName (harena ▸ hid) h
  refine ⟨hput.known, fun hfree hring => hput.acyclic (fun b hb => ?_) (hring.mono fun _ _ => ?_)⟩
  · exact hfree b (replaces_insertIdx hnames hinitial hb)
  · exact replaces_insertIdx hnames hinitial

/-- A draft with the same names stays as known as it was. -/
theorem Known.keeps_of_eq (hd : d.Known) (hnames : d'.names = d.names)
    (hinitial : d'.initial = d.initial) (hsize : d.arena.size ≤ d'.arena.size) : Keeps d True d' where
  known := ⟨fun b hb => Nat.lt_of_lt_of_le (hd.names b (hnames ▸ hb)) hsize,
    fun b hb => Nat.lt_of_lt_of_le (hd.initial b (hinitial ▸ hb)) hsize⟩
  acyclic _ hring := hring.mono fun _ _ ⟨i, hx, hy, hne⟩ => ⟨i, hinitial ▸ hx, hnames ▸ hy, hne⟩

theorem changeName_of_replaceName (h : d.replaceName pos id = .ok d') :
    (∃ n, d.name id = .ok n) ∧ d.changeName pos id = .ok d' := by
  unfold replaceName at h
  split at h
  · cases h
  obtain ⟨old, -, h⟩ := bind_eq_ok_iff.1 h
  split at h
  · cases h
  obtain ⟨n, hn, h⟩ := bind_eq_ok_iff.1 h
  split at h
  · cases h
  · exact ⟨⟨n, hn⟩, h⟩

theorem Known.keeps_replaceName (hd : d.Known) (h : d.replaceName pos id = .ok d') :
    Keeps d (∀ b, ¬ d.Replaces id b) d' := by
  obtain ⟨⟨n, hn⟩, hchange⟩ := changeName_of_replaceName h
  exact hd.keeps_changeName (lt_of_name hn) hchange

/-- A fresh name in the place of another replaces nothing that was replaced. -/
theorem Known.keeps_replaceFunctionAt {old new : List (Function Form)} {args : List Arg}
    (hd : d.Known) (h : d.replaceFunctionAt old new args pos = .ok d') : Keeps d True d' := by
  have hsame : Keeps d True d := hd.keeps_of_eq rfl rfl (Nat.le_refl _)
  unfold replaceFunctionAt at h
  split at h
  · obtain ⟨n, -, h⟩ := bind_eq_ok_iff.1 h
    split at h
    · exact Except.ok.inj h ▸ hsame
    next f _ =>
    split at h
    · exact Except.ok.inj h ▸ hsame
    split at h
    · exact Except.ok.inj h ▸ hsame
    split at h
    · cases h
    next g _ =>
    have halloc : Keeps d True (d.alloc (Name.apply g args)).2 :=
      hd.keeps_of_eq rfl rfl (by simp [Draft.alloc])
    have hchange := halloc.known.keeps_changeName (by simp [Draft.alloc]) h
    refine ⟨hchange.known, fun _ hring =>
      hchange.acyclic (fun b hb => ?_) (halloc.acyclic trivial hring)⟩
    obtain ⟨i, hi, -⟩ := hb
    exact Nat.lt_irrefl _ (hd.initial _ (List.mem_of_getElem? hi))
  · exact Except.ok.inj h ▸ hsame

theorem Known.keeps_replaceFunctions {old new : List (Function Form)} {args : List Arg}
    (hd : d.Known) (h : d.replaceFunctions old new args = .ok d') : Keeps d True d' := by
  unfold replaceFunctions at h
  split at h
  · cases h
  generalize List.range' d.arity (d.names.length - d.arity) = positions at h
  induction positions generalizing d with
  | nil => exact Except.ok.inj h ▸ hd.keeps_of_eq rfl rfl (Nat.le_refl _)
  | cons pos positions ih =>
    rw [List.foldlM_cons] at h
    obtain ⟨d₁, h₁, h⟩ := bind_eq_ok_iff.1 h
    have hfirst := hd.keeps_replaceFunctionAt h₁
    have hrest := ih hfirst.known h
    exact ⟨hrest.known, fun _ hring => hrest.acyclic trivial (hfirst.acyclic trivial hring)⟩

/-- What an operation that went through comes to. -/
theorem Known.keeps_run {op : Op} (hd : d.Known) (h : op.run d = .ok d') :
    Keeps d (op.Settled d) d' := by
  have hsettled {id : Nat} (hid : op.brings d = some id) (hkeeps : Keeps d (∀ b, ¬ d.Replaces id b) d') :
      Keeps d (op.Settled d) d' :=
    ⟨hkeeps.known, fun hs => hkeeps.acyclic (hs id hid)⟩
  have hfree (hkeeps : Keeps d True d') : Keeps d (op.Settled d) d' :=
    ⟨hkeeps.known, fun _ => hkeeps.acyclic trivial⟩
  cases op with
  | alloc n =>
    obtain rfl := Except.ok.inj h
    exact hfree (hd.keeps_of_eq rfl rfl (by simp [Draft.alloc]))
  | renameParameter pos id =>
    obtain ⟨n, -, h⟩ := bind_eq_ok_iff.1 h
    split at h
    · exact hsettled rfl (hd.keeps_replaceName h)
    · cases h
  | replaceByExpression pos id =>
    obtain ⟨n, -, h⟩ := bind_eq_ok_iff.1 h
    split at h
    · cases h
    split at h
    · cases h
    · exact hsettled rfl (hd.keeps_replaceName h)
  | replaceByCopy pos source =>
    simp only [Op.run, Draft.replaceByCopy] at h
    split at h
    · cases h
    obtain ⟨id, hid, h⟩ := bind_eq_ok_iff.1 h
    obtain ⟨d₁, h₁, h⟩ := bind_eq_ok_iff.1 h
    obtain rfl := Except.ok.inj h
    have hreplace := hd.keeps_replaceName h₁
    have hbrings : (Op.replaceByCopy pos source).brings d = some id := by
      unfold idAt at hid
      split at hid
      · next slot heq => rw [Op.brings, heq, Except.ok.inj hid]; rfl
      · cases hid
      · cases hid
    exact hsettled hbrings ⟨⟨hreplace.known.names, hreplace.known.initial⟩, hreplace.acyclic⟩
  | insertParameter pos id =>
    obtain ⟨n, hn, h⟩ := bind_eq_ok_iff.1 h
    split at h
    · exact hsettled rfl (hd.keeps_insertName (lt_of_name hn) h)
    · cases h
  | insertExpression pos id =>
    obtain ⟨n, hn, h⟩ := bind_eq_ok_iff.1 h
    split at h
    · cases h
    · exact hsettled rfl (hd.keeps_insertName (lt_of_name hn) h)
  | replaceFunctions old new args => exact hfree (hd.keeps_replaceFunctions h)
  | setResult id =>
    simp only [Op.run, Draft.setResult] at h
    split at h
    · split at h
      · obtain rfl := Except.ok.inj h
        exact hfree (hd.keeps_of_eq rfl rfl (Nat.le_refl _))
      · cases h
    · obtain rfl := Except.ok.inj h
      exact hfree (hd.keeps_of_eq rfl rfl (Nat.le_refl _))

/-! ## Whole edits -/

variable {f : Form} {sort : Draft → Op → Prop}

/-- At the start every name stands in its own place. -/
theorem of_start (h : (ofForm f).start = .ok d) : d.Known ∧ ∀ a b, ¬ d.Replaces a b := by
  unfold start at h
  split at h
  · cases h
  obtain ⟨-, -, h⟩ := bind_eq_ok_iff.1 h
  obtain rfl := Except.ok.inj h
  have hlt (id : Nat) (hid : some id ∈ (ofForm f).names) : id < (ofForm f).arena.size := by
    simpa [ofForm, Form.size] using hid
  refine ⟨⟨hlt, hlt⟩, ?_⟩
  rintro a b ⟨pos, ha, hb, hne⟩
  exact hne (Option.some.inj (Option.some.inj (ha.symm.trans hb)))

theorem Accepted.known (h : Accepted sort f d) : d.Known := by
  induction h with
  | start opened => exact (of_start opened).1
  | step _ op _ run ih => exact (ih.keeps_run run).known

/-- Names that were not replaced before close no ring. -/
theorem Accepted.acyclic (h : Accepted sort f d) (hsort : ∀ d op, sort d op → op.Settled d) :
    Acyclic d.Replaces := by
  induction h with
  | start opened =>
    intro a ha
    obtain ⟨b, hab, -⟩ := TransGen.head'_iff.1 ha
    exact (of_start opened).2 a b hab
  | step before op ofSort run ih =>
    exact (before.known.keeps_run run).acyclic (hsort _ op ofSort) ih

/-- **Only rings have no end.** When an edit out of accepted operations is not finished, some name was
replaced by one that leads back to it; so if no operation puts in a name that was replaced before,
every edit is finished, with a form or with a violation. -/
theorem Accepted.ring_of_endless (h : Accepted sort f d) (id : Nat) :
    (d.finish id = .error .endless → ∃ a, TransGen d.Replaces a a) ∧
      ((∀ d op, sort d op → op.Settled d) → d.finish id ≠ .error .endless) := by
  refine ⟨fun hend => ?_, fun hsort => (h.known.ends_finish (h.acyclic hsort) id).ne⟩
  by_contra hring
  exact (h.known.ends_finish (fun a ha => hring ⟨a, ha⟩) id).ne hend

/-- When both arguments of an addition are renamed to the other one, each replaces the other. -/
theorem Accepted.ring_of_renames : ∃ d, addition.WellFormed ∧
    Accepted (fun _ _ => True) addition d ∧ d.finish 1 = .error .endless ∧
      ∃ a, TransGen d.Replaces a a := by
  have hf : addition.WellFormed := Form.defect?_eq_none_iff.1 (by decide +kernel)
  have hstart : Accepted (fun _ _ => True) addition _ := .start rfl
  have hfirst := hstart.step (.renameParameter 1 2) trivial rfl
  have hsecond := hfirst.step (.renameParameter 2 1) trivial rfl
  exact ⟨_, hf, hsecond, rfl, (ring_of_endless hsecond 1).1 rfl⟩

end Draft

end HandleForms
