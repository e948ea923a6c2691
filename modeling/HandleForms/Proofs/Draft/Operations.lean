import HandleForms.Proofs.Draft.Layout
import Mathlib.Logic.Relation

/-!
# Edits as sequences of operations

An edit is a sequence of operations on an open draft. `Draft.Edited f given d` says that `d` comes
out of the form `f` by operations that all went through and that place only names of their own:
what replaces a parameter or is inserted was allocated in the edit and stands nowhere yet. `given` is
the name that the edit was last told to answer.

Seen as transactions there are few operations: a fresh name takes the place of another or gets a slot
of its own, a parameter becomes a second copy of a name, the arena grows, and a name is made the
result (`Transaction.Step`). `Shows.run` takes every operation that went through apart into such
steps.
-/

namespace HandleForms

/-- An operation on an open draft. -/
inductive Draft.Op where
  | alloc (n : Name Form)
  | renameParameter (pos id : Nat)
  | replaceByExpression (pos id : Nat)
  | replaceByCopy (pos source : Nat)
  | insertParameter (pos id : Nat)
  | insertExpression (pos id : Nat)
  | replaceFunctions (old new : List (Function Form)) (args : List Arg)
  | setResult (id : Option Nat)

namespace Draft

/-- What an operation makes of a draft. -/
def Op.run (d : Draft) : Op → Except Violation Draft
  | alloc n => .ok (d.alloc n).2
  | renameParameter pos id => d.renameParameter pos id
  | replaceByExpression pos id => d.replaceByExpression pos id
  | replaceByCopy pos source => d.replaceByCopy pos source
  | insertParameter pos id => d.insertParameter pos id
  | insertExpression pos id => d.insertExpression pos id
  | replaceFunctions old new args => d.replaceFunctions old new args
  | setResult id => d.setResult id

/-- The name `id` was allocated in the edit and stands nowhere. -/
def Fresh (size : Nat) (d : Draft) (id : Nat) : Prop := size ≤ id ∧ some id ∉ d.names

/-- An operation that places only names of its own in the edit of a form with `size` names, and
allocates only names whose operands are names. -/
def Op.Proper (size : Nat) (d : Draft) : Op → Prop
  | alloc n => ∀ a ∈ n.operands, a < d.arena.size
  | renameParameter _ id => d.Fresh size id
  | replaceByExpression _ id => d.Fresh size id
  | insertParameter _ id => d.Fresh size id
  | insertExpression _ id => d.Fresh size id
  | replaceByCopy _ _ => True
  | replaceFunctions _ _ _ => True
  | setResult _ => True

instance (size : Nat) (d : Draft) (id : Nat) : Decidable (d.Fresh size id) :=
  inferInstanceAs (Decidable (_ ∧ _))

instance (size : Nat) (d : Draft) (op : Op) : Decidable (op.Proper size d) :=
  match op with
  | .alloc n => inferInstanceAs (Decidable (∀ a ∈ n.operands, a < d.arena.size))
  | .renameParameter _ id => inferInstanceAs (Decidable (d.Fresh size id))
  | .replaceByExpression _ id => inferInstanceAs (Decidable (d.Fresh size id))
  | .insertParameter _ id => inferInstanceAs (Decidable (d.Fresh size id))
  | .insertExpression _ id => inferInstanceAs (Decidable (d.Fresh size id))
  | .replaceByCopy _ _ => .isTrue trivial
  | .replaceFunctions _ _ _ => .isTrue trivial
  | .setResult _ => .isTrue trivial

/-- What the edit is told to answer, after one more operation. -/
def Op.given (before : Option Nat) : Op → Option Nat
  | setResult id => id
  | _ => before

/-- The draft comes out of the form by operations that went through, and `given` is the name that
was last made the result. -/
inductive Edited (f : Form) : Option Nat → Draft → Prop where
  | start {d : Draft} (opened : (ofForm f).start = .ok d) : Edited f f.result d
  | step {given : Option Nat} {d d' : Draft} (before : Edited f given d) (op : Op)
      (proper : op.Proper f.size d) (run : op.run d = .ok d') : Edited f (op.given given) d'

end Draft

namespace Transaction

open Draft (follow)

/-- One step of an edit of a form with `size` names. -/
inductive Step (size : Nat) : Option Nat → Transaction → Option Nat → Transaction → Prop where
  | alloc {given : Option Nat} {t : Transaction} {n : Name Form}
      (operands : ∀ a ∈ n.operands, a < t.arena.length) :
      Step size given t given { t with arena := t.arena ++ [n] }
  /-- A fresh name takes the place of a parameter. -/
  | replace {given : Option Nat} {t : Transaction} {xs ys : List Slot} {s : Slot} {id : Nat}
      (front : t.front = xs ++ s :: ys) (unchanged : s.was = some s.now) (new : size ≤ id)
      (lt : id < t.arena.length) (unplaced : ∀ r ∈ t.slots, r.now ≠ id) :
      Step size given t given
        { t with front := xs ++ ⟨id, s.was⟩ :: ys, result := follow t.result s.now id }
  /-- A fresh name takes the place of an expression. -/
  | replaceBack {given : Option Nat} {t : Transaction} {xs ys : List Slot} {s : Slot} {id : Nat}
      (back : t.back = xs ++ s :: ys) (unchanged : s.was = some s.now) (new : size ≤ id)
      (lt : id < t.arena.length) (unplaced : ∀ r ∈ t.slots, r.now ≠ id) :
      Step size given t given
        { t with back := xs ++ ⟨id, s.was⟩ :: ys, result := follow t.result s.now id }
  /-- A parameter becomes a second copy of a name. -/
  | copy {given : Option Nat} {t : Transaction} {xs ys : List Slot} {s r : Slot}
      (front : t.front = xs ++ s :: ys) (unchanged : s.was = some s.now) (source : r ∈ t.slots) :
      Step size given t given
        { t with
          front := xs ++ ⟨r.now, s.was⟩ :: ys
          result := follow t.result s.now r.now
          dups := t.dups ++ [r.now] }
  /-- A fresh parameter gets a slot. -/
  | insert {given : Option Nat} {t : Transaction} {xs ys : List Slot} {id : Nat}
      (front : t.front = xs ++ ys) (new : size ≤ id) (lt : id < t.arena.length)
      (unplaced : ∀ r ∈ t.slots, r.now ≠ id) :
      Step size given t given { t with front := xs ++ Slot.added id :: ys }
  /-- A fresh expression gets a slot. -/
  | insertBack {given : Option Nat} {t : Transaction} {xs ys : List Slot} {id : Nat}
      (back : t.back = xs ++ ys) (new : size ≤ id) (lt : id < t.arena.length)
      (unplaced : ∀ r ∈ t.slots, r.now ≠ id) :
      Step size given t given { t with back := xs ++ Slot.added id :: ys }
  /-- A placed name, or nothing, becomes the result. -/
  | setResult {given new : Option Nat} {t : Transaction}
      (placed : ∀ i, new = some i → ∃ s ∈ t.slots, s.now = i) :
      Step size given t new { t with result := new }

/-- Some steps, one after the other. -/
inductive Steps (size : Nat) : Option Nat → Transaction → Option Nat → Transaction → Prop where
  | refl {given : Option Nat} {t : Transaction} : Steps size given t given t
  | tail {g₀ g₁ g₂ : Option Nat} {t₀ t₁ t₂ : Transaction} (before : Steps size g₀ t₀ g₁ t₁)
      (step : Step size g₁ t₁ g₂ t₂) : Steps size g₀ t₀ g₂ t₂

end Transaction

namespace Draft

open Transaction

variable {d d' : Draft} {t : Transaction} {pos id source size : Nat} {given : Option Nat}

/-! ## What an operation that went through did -/

theorem mem_of_name {n : Name Form} (h : d.name id = .ok n) (hd : d.Shows t) :
    t.arena[id]? = some n := by
  rw [← hd.arena]
  exact name_eq_ok_iff.1 h

theorem Shows.lt_of_name {n : Name Form} (hd : d.Shows t) (h : d.name id = .ok n) :
    id < t.arena.length :=
  (List.getElem?_eq_some_iff.1 (mem_of_name h hd)).1

/-- A fresh name stands in no slot. -/
theorem Shows.unplaced (hd : d.Shows t) (h : d.Fresh size id) : ∀ r ∈ t.slots, r.now ≠ id := by
  rintro r hr rfl
  refine h.2 ?_
  rw [hd.names]
  exact List.mem_map_of_mem hr

/-- The slot at a position whose name was changed held its name from the start. -/
theorem Shows.unchanged_of_changeName (hd : d.Shows t) (h : d.changeName pos id = .ok d')
    {s : Slot} (hs : t.slots[pos]? = some s) : s.was = some s.now := by
  have hnames : d.names[pos]? = some (some s.now) := by simp [hd.names, hs]
  have hinitial : d.initial[pos]? = some s.was := by simp [hd.initial, hs]
  simp only [changeName, hd.editing, hnames, hinitial] at h
  by_cases hne : s.was = some s.now
  · exact hne
  · simp [Ne.symm hne] at h

/-- A position in a list splits the list. -/
theorem exists_split {α : Type} {l : List α} {i : Nat} (h : i < l.length) :
    ∃ xs a ys, l = xs ++ a :: ys ∧ i = xs.length :=
  ⟨l.take i, l[i], l.drop (i + 1), by simp, by simp; omega⟩

/-- The parameter that was replaced, and what the draft shows then. -/
theorem Shows.of_replaceName (hd : d.Shows t) (h : d.replaceName pos id = .ok d') :
    ∃ xs s ys, t.front = xs ++ s :: ys ∧ pos = xs.length ∧ s.was = some s.now ∧
      id < t.arena.length ∧
      d'.Shows { t with front := xs ++ ⟨id, s.was⟩ :: ys, result := follow t.result s.now id } := by
  have hrun := h
  unfold Draft.replaceName at h
  split at h
  · cases h
  next hpos =>
  obtain ⟨old, hold, h⟩ := bind_eq_ok_iff.1 h
  split at h
  · cases h
  next hparam =>
  obtain ⟨n, hn, h⟩ := bind_eq_ok_iff.1 h
  split at h
  · cases h
  next htype =>
  obtain ⟨xs, s, ys, hfront, rfl⟩ := exists_split (l := t.front) (i := pos) (by
    rw [← hd.arity]
    exact Nat.not_le.1 hpos)
  have hplace : t.slots[xs.length]? = some s := by simp [slots, hfront]
  have hunchanged := hd.unchanged_of_changeName h hplace
  have hm : t.arena[s.now]? = some old := by
    obtain ⟨a, ha, hold⟩ := bind_eq_ok_iff.1 hold
    obtain rfl : s.now = a := by simpa [hd.idAt hplace] using ha
    exact mem_of_name hold hd
  obtain ⟨arena, front, back, result, dups⟩ := t
  subst hfront
  obtain ⟨d₁, hd₁, hshows⟩ := hd.replaceName hunchanged hm (by simpa using hparam)
    (mem_of_name hn hd) (by simpa using htype)
  obtain rfl : d₁ = d' := Except.ok.inj (hd₁.symm.trans hrun)
  exact ⟨xs, s, ys, rfl, rfl, hunchanged, hd.lt_of_name hn, hshows⟩

/-- A fresh name takes the place of a parameter. -/
theorem Shows.step_replaceName (hd : d.Shows t) (hfresh : d.Fresh size id)
    (h : d.replaceName pos id = .ok d') :
    ∃ t', Step size given t given t' ∧ d'.Shows t' := by
  obtain ⟨xs, s, ys, hfront, -, hunchanged, hlt, hd'⟩ := hd.of_replaceName h
  exact ⟨_, .replace hfront hunchanged hfresh.1 hlt (hd.unplaced hfresh), hd'⟩

theorem Shows.step_replaceByCopy (hd : d.Shows t) (h : d.replaceByCopy pos source = .ok d') :
    ∃ t', Step size given t given t' ∧ d'.Shows t' := by
  unfold Draft.replaceByCopy at h
  split at h
  · cases h
  obtain ⟨a, ha, h⟩ := bind_eq_ok_iff.1 h
  obtain ⟨d₁, hd₁, h⟩ := bind_eq_ok_iff.1 h
  obtain ⟨r, hr⟩ : ∃ r, t.slots[source]? = some r := by
    cases hr : t.slots[source]? with
    | none => simp [Draft.idAt, hd.names, hr] at ha
    | some r => exact ⟨r, rfl⟩
  obtain rfl : r.now = a := by simpa [hd.idAt hr] using ha
  obtain ⟨xs, s, ys, hfront, -, hunchanged, -, hshows⟩ := hd.of_replaceName hd₁
  refine ⟨_, .copy hfront hunchanged (List.mem_of_getElem? hr), ?_⟩
  obtain rfl := Except.ok.inj h
  exact { hshows with dups := by simp [hshows.dups] }

theorem Shows.step_insertParameter (hd : d.Shows t) (hfresh : d.Fresh size id)
    (h : d.insertParameter pos id = .ok d') :
    ∃ t', Step size given t given t' ∧ d'.Shows t' := by
  have hrun := h
  obtain ⟨n, hn, h⟩ := bind_eq_ok_iff.1 h
  split at h
  next hparam =>
    have hpos : pos ≤ t.front.length := by
      rw [← hd.arity]
      refine Nat.not_lt.1 fun hlt => ?_
      simp [insertName, hd.editing, hlt] at h
    obtain ⟨arena, front, back, result, dups⟩ := t
    rw [← List.take_append_drop pos front] at hd
    obtain ⟨d₁, hd₁, hshows⟩ := hd.insertParameter (mem_of_name hn hd) hparam
    rw [List.length_take, Nat.min_eq_left hpos] at hd₁
    obtain rfl : d₁ = d' := Except.ok.inj (hd₁.symm.trans hrun)
    rw [List.take_append_drop] at hd
    exact ⟨_, .insert (List.take_append_drop pos front).symm hfresh.1 (hd.lt_of_name hn)
      (hd.unplaced hfresh), hshows⟩
  · cases h

theorem Shows.step_insertExpression (hd : d.Shows t) (hfresh : d.Fresh size id)
    (h : d.insertExpression pos id = .ok d') :
    ∃ t', Step size given t given t' ∧ d'.Shows t' := by
  have hrun := h
  obtain ⟨n, hn, h⟩ := bind_eq_ok_iff.1 h
  split at h
  · cases h
  next hexpr =>
    obtain ⟨hge, hle⟩ : t.front.length ≤ pos ∧ pos ≤ t.slots.length := by
      simp only [insertName, hd.editing, hd.arity, hd.names, List.length_map] at h
      refine ⟨Nat.not_lt.1 fun hlt => ?_, Nat.not_lt.1 fun hlt => ?_⟩
      · simp [hlt] at h
      · by_cases hpos : pos < t.front.length <;> simp [hpos, hlt] at h
    obtain ⟨arena, front, back, result, dups⟩ := t
    obtain ⟨k, rfl⟩ : ∃ k, pos = front.length + k := ⟨pos - front.length, by simp at hge; omega⟩
    have hk : k ≤ back.length := by
      simp [slots] at hle
      omega
    rw [← List.take_append_drop k back] at hd
    obtain ⟨d₁, hd₁, hshows⟩ := hd.insertExpression (mem_of_name hn hd) (by simpa using hexpr)
    rw [List.length_take, Nat.min_eq_left hk] at hd₁
    obtain rfl : d₁ = d' := Except.ok.inj (hd₁.symm.trans hrun)
    rw [List.take_append_drop] at hd
    exact ⟨_, .insertBack (List.take_append_drop k back).symm hfresh.1 (hd.lt_of_name hn)
      (hd.unplaced hfresh), hshows⟩

theorem Shows.step_setResult {new : Option Nat} (hd : d.Shows t) (h : d.setResult new = .ok d') :
    ∃ t', Step size given t new t' ∧ d'.Shows t' := by
  have hplaced : ∀ i, new = some i → ∃ s ∈ t.slots, s.now = i := by
    rintro i rfl
    rw [← hd.isSome_lastIndexOf?]
    by_cases hi : (d.lastIndexOf? i).isSome
    · exact hi
    · simp [Draft.setResult, hi] at h
  obtain ⟨d₁, hd₁, hshows⟩ := hd.setResult hplaced
  obtain rfl : d₁ = d' := Except.ok.inj (hd₁.symm.trans h)
  exact ⟨_, .setResult hplaced, hshows⟩

/-! ## Replacing functions -/

theorem arity_changeName (h : d.changeName pos id = .ok d') : d'.arity = d.arity := by
  unfold changeName at h
  split at h
  · cases h
  split at h
  · split at h
    · cases h
    · exact (Except.ok.inj h) ▸ rfl
  · cases h

/-- The arity stays when an expression is looked at. -/
theorem arity_replaceFunctionAt {old new : List (Function Form)} {args : List Arg}
    (h : d.replaceFunctionAt old new args pos = .ok d') : d'.arity = d.arity := by
  unfold replaceFunctionAt at h
  split at h
  · obtain ⟨n, -, h⟩ := bind_eq_ok_iff.1 h
    split at h
    · exact (Except.ok.inj h) ▸ rfl
    split at h
    · exact (Except.ok.inj h) ▸ rfl
    split at h
    · exact (Except.ok.inj h) ▸ rfl
    split at h
    · cases h
    next g _ =>
      have halloc : (d.alloc (Name.apply g args)).2.arity = d.arity := rfl
      exact (arity_changeName h).trans halloc
  · exact (Except.ok.inj h) ▸ rfl

/-- One expression is looked at: it stays, or a call of another function with the same operands is
allocated and takes its place. -/
theorem Shows.steps_replaceFunctionAt (given : Option Nat) {old new : List (Function Form)}
    {args : List Arg} (hd : d.Shows t) (hpos : t.front.length ≤ pos) (hsize : size ≤ t.arena.length)
    (harena : ∀ n ∈ t.arena, ∀ a ∈ n.operands, a < t.arena.length)
    (hnow : ∀ s ∈ t.slots, s.now < t.arena.length)
    (h : d.replaceFunctionAt old new args pos = .ok d') :
    ∃ t', Steps size given t given t' ∧ d'.Shows t' := by
  have hstay : d = d' → ∃ t', Steps size given t given t' ∧ d'.Shows t' := by
    rintro rfl
    exact ⟨t, .refl, hd⟩
  unfold Draft.replaceFunctionAt at h
  split at h
  · next a hplace =>
    obtain ⟨n, hn, h⟩ := bind_eq_ok_iff.1 h
    split at h
    · exact hstay (Except.ok.inj h)
    next g hg =>
    split at h
    · exact hstay (Except.ok.inj h)
    next hargs =>
    split at h
    · exact hstay (Except.ok.inj h)
    next k hk =>
    split at h
    · cases h
    next g' hg' =>
    obtain ⟨hid, halloc⟩ := hd.alloc (Name.apply g' args)
    have hoperands : ∀ a ∈ (Name.apply g' args : Name Form).operands, a < t.arena.length := by
      have hargs : sameArgs n.args args = true := by simpa using hargs
      have hsame : n.operands = (Name.apply g' args : Name Form).operands :=
        operands_of_sameArgs hargs
      rw [← hsame]
      exact harena n (List.mem_of_getElem? (mem_of_name hn hd))
    have hlt : pos - t.front.length < t.back.length := by
      have := (List.getElem?_eq_some_iff.1 hplace).1
      simp [hd.names, slots] at this
      omega
    obtain ⟨xs, s, ys, hback, hxs⟩ := exists_split hlt
    obtain rfl : pos = t.front.length + xs.length := by omega
    have hplace' : t.slots[t.front.length + xs.length]? = some s := by
      simp [slots, hback]
    have hlists : (d.alloc (Name.apply g' args)).2.Lists ((t.front ++ xs) ++ s :: ys) := by
      simpa [slots, hback] using halloc.toLists
    have hunchanged := halloc.unchanged_of_changeName h hplace'
    obtain ⟨d₁, heq, hlists', hopen, harena', harity, hresult, hdups⟩ :=
      hlists.changeName halloc.editing hunchanged (d.alloc (Name.apply g' args)).1
    rw [List.length_append] at heq
    obtain rfl : d₁ = d' := Except.ok.inj (heq.symm.trans h)
    rw [hid] at hlists' hresult
    refine ⟨_, .tail (.tail .refl (.alloc hoperands)) (.replaceBack
      hback hunchanged hsize (by simp) fun r hr => ?_), ?_⟩
    · have := hnow r hr
      omega
    · constructor
      · simpa [slots] using hlists'
      · exact hopen
      · rw [harena', halloc.arena]
      · rw [harity, halloc.arity]
      · rw [hresult, halloc.result, follow]
      · rw [hdups, halloc.dups]
  · exact hstay (Except.ok.inj h)

end Draft

end HandleForms
