import HandleForms.Proofs.Form.WellFormed
import HandleForms.Proofs.Outcome
import HandleForms.Proofs.Draft.Redirects

/-!
# Drafts as transactions

A draft keeps its bookkeeping in parallel lists. `Draft.Shows d t` reads an open draft as a
transaction `t`: a list of slots, each with the name that stands in it and the one that stood there
at the start, split at the arity. Every operation on drafts is then one step on slots: a name is
replaced in the place of another (`Shows.replaceName`, `Shows.changeExpression`) or a slot is inserted
(`Shows.insertParameter`, `Shows.insertExpression`). The steps of an edit are proved with these lemmas
and no longer look at the bookkeeping.
-/

namespace HandleForms

/-- A place in the list of names: the name that stands there, and the one that stood there at the
start. -/
structure Slot where
  now : Nat
  was : Option Nat

namespace Slot

/-- A place that did not change. -/
def same (id : Nat) : Slot := ⟨id, some id⟩

/-- A place that was inserted. -/
def added (id : Nat) : Slot := ⟨id, none⟩

variable (id : Nat)

@[simp] theorem now_same : (same id).now = id := rfl

@[simp] theorem was_same : (same id).was = some id := rfl

@[simp] theorem now_added : (added id).now = id := rfl

@[simp] theorem was_added : (added id).was = none := rfl

end Slot

/-- What an open draft describes. -/
structure Transaction where
  arena : List (Name Form)
  /-- The places below the arity. -/
  front : List Slot
  /-- The other places. -/
  back : List Slot
  result : Option Nat
  dups : List Nat

namespace Transaction

/-- All places. -/
def slots (t : Transaction) : List Slot := t.front ++ t.back

/-- The edit of a form before anything changed. -/
def opening (f : Form) : Transaction where
  arena := f.names
  front := (List.range f.arity).map Slot.same
  back := (List.range' f.arity (f.size - f.arity)).map Slot.same
  result := f.result
  dups := []

theorem slots_opening {f : Form} (h : f.arity ≤ f.size) :
    (opening f).slots = (List.range f.size).map Slot.same := by
  have hsplit := List.range'_append_1 (s := 0) (m := f.arity) (n := f.size - f.arity)
  rw [Nat.zero_add, Nat.add_sub_cancel' h] at hsplit
  simp only [slots, opening, ← List.map_append, List.range_eq_range', hsplit]

end Transaction

namespace Draft

variable {d d' : Draft} {t : Transaction} {xs ys zs : List Slot} {s : Slot} {id : Nat}
  {n m : Name Form}

/-- The names of an open draft and how they changed. -/
structure Lists (d : Draft) (slots : List Slot) : Prop where
  names : d.names = slots.map fun s => some s.now
  initial : d.initial = slots.map Slot.was
  firstChange_le : d.firstChange ≤ slots.length
  unchanged : ∀ s ∈ slots.take d.firstChange, s.was = some s.now

/-- The draft is open and describes the transaction. -/
structure Shows (d : Draft) (t : Transaction) : Prop extends Lists d t.slots where
  editing : d.editing = true
  arena : d.arena.toList = t.arena
  arity : d.arity = t.front.length
  result : d.result = t.result
  dups : d.dups = t.dups

/-! ## Reading -/

theorem name_eq_ok_iff : d.name id = .ok n ↔ d.arena.toList[id]? = some n := by
  rw [name, Array.getElem?_toList]
  cases d.arena[id]? <;> simp

theorem Shows.name (h : d.Shows t) (hn : t.arena[id]? = some n) : d.name id = .ok n :=
  name_eq_ok_iff.2 (h.arena ▸ hn)

theorem Lists.getElem?_names (h : d.Lists (xs ++ s :: ys)) :
    d.names[xs.length]? = some (some s.now) := by
  simp [h.names]

theorem Lists.getElem?_initial (h : d.Lists (xs ++ s :: ys)) :
    d.initial[xs.length]? = some s.was := by
  simp [h.initial]

theorem Shows.idAt {pos : Nat} (h : d.Shows t) (hs : t.slots[pos]? = some s) :
    d.idAt pos = .ok s.now := by
  simp [Draft.idAt, h.names, hs]

theorem Shows.nameAt {pos : Nat} (h : d.Shows t) (hs : t.slots[pos]? = some s)
    (hn : t.arena[s.now]? = some n) : d.nameAt pos = .ok n := by
  simp [Draft.nameAt, h.idAt hs, h.name hn, bind, Except.bind]

theorem isSome_lastIndexOf? : (d.lastIndexOf? id).isSome ↔ some id ∈ d.names := by
  simp [lastIndexOf?, List.findIdx?_isSome]

theorem Shows.isSome_lastIndexOf? (h : d.Shows t) :
    (d.lastIndexOf? id).isSome ↔ ∃ s ∈ t.slots, s.now = id := by
  simp [Draft.isSome_lastIndexOf?, h.names]

/-! ## The arena -/

theorem Shows.alloc (h : d.Shows t) (n : Name Form) :
    (d.alloc n).1 = t.arena.length ∧ (d.alloc n).2.Shows { t with arena := t.arena ++ [n] } := by
  refine ⟨by simp [Draft.alloc, ← h.arena], ?_⟩
  constructor
  · exact ⟨h.names, h.initial, h.firstChange_le, h.unchanged⟩
  · exact h.editing
  · simp [Draft.alloc, h.arena]
  · exact h.arity
  · exact h.result
  · exact h.dups

/-! ## Opening an edit -/

theorem checkArity_go_eq_ok {names : List (Option Nat)} {pos : Nat}
    (h : ∀ i id, names[i]? = some (some id) →
      ∃ n, d.name id = .ok n ∧ (n.isParam = true ↔ pos + i < d.arity)) :
    checkArity.go d pos names = .ok () := by
  induction names generalizing pos with
  | nil => rfl
  | cons slot rest ih =>
    have hrest : checkArity.go d (pos + 1) rest = .ok () := by
      refine ih fun i id hi => ?_
      have := h (i + 1) id (by simpa using hi)
      rwa [Nat.add_assoc, Nat.add_comm 1]
    cases slot with
    | none => exact hrest
    | some id =>
      obtain ⟨n, hn, hp⟩ := h 0 id rfl
      have hplace : (n.isParam != decide (pos < d.arity)) = false := by
        by_cases hpos : pos < d.arity <;> simp_all
      simp [checkArity.go, hn, hplace, hrest, bind, Except.bind]

theorem checkArity_ofForm {f : Form} (hf : f.WellFormed) : (ofForm f).checkArity = .ok () := by
  refine checkArity_go_eq_ok fun i id hi => ?_
  obtain ⟨hlt, rfl⟩ : i < f.size ∧ i = id := by
    have hi : (List.range f.size)[i]? = some id := by simpa [ofForm] using hi
    obtain ⟨hlt, hi⟩ := List.getElem?_eq_some_iff.1 hi
    exact ⟨by simpa using hlt, by simpa using hi⟩
  have hn := List.getElem?_eq_getElem hlt
  refine ⟨_, name_eq_ok_iff.2 (by simpa [ofForm] using hn), ?_⟩
  rw [Nat.zero_add]
  exact hf.isParam_iff i _ hn

theorem start_ofForm {f : Form} (hf : f.WellFormed) :
    ∃ d, (ofForm f).start = .ok d ∧ d.Shows (Transaction.opening f) := by
  have hslots := Transaction.slots_opening hf.arity_le
  refine ⟨_, by rw [start, checkArity_ofForm hf]; rfl, ?_⟩
  constructor
  · constructor
    · simp [hslots, ofForm, Slot.same, Function.comp_def]
    · simp [hslots, ofForm, Slot.same, Function.comp_def]
    · simp [hslots, ofForm]
    · intro s hs
      have hs := List.mem_of_mem_take hs
      rw [hslots] at hs
      obtain ⟨i, -, rfl⟩ := List.mem_map.1 hs
      rfl
  · rfl
  · simp [ofForm, Transaction.opening]
  · simp [ofForm, Transaction.opening]
  · rfl
  · rfl

/-! ## Replacing names -/

/-- A name takes the place of another in a slot that did not change yet. -/
theorem Lists.changeName (h : d.Lists (xs ++ s :: ys)) (hopen : d.editing = true)
    (hs : s.was = some s.now) (id : Nat) :
    ∃ d', d.changeName xs.length id = .ok d' ∧ d'.Lists (xs ++ ⟨id, s.was⟩ :: ys) ∧
      d'.editing = true ∧ d'.arena = d.arena ∧ d'.arity = d.arity ∧
      d'.result = (if d.result = some s.now then some id else d.result) ∧ d'.dups = d.dups := by
  have heq : d.changeName xs.length id = .ok { d with
      names := d.names.set xs.length (some id)
      firstChange := min d.firstChange xs.length
      result := if d.result = some s.now then some id else d.result } := by
    simp [Draft.changeName, hopen, h.getElem?_names, h.getElem?_initial, hs]
  refine ⟨_, heq, ?_, hopen, rfl, rfl, rfl, rfl⟩
  constructor
  · simp [h.names]
  · simp [h.initial]
  · have := h.firstChange_le
    simp only [List.length_append, List.length_cons] at this ⊢
    omega
  · intro r hr
    refine h.unchanged r ?_
    have hle := Nat.min_le_right d.firstChange xs.length
    rw [List.take_append_of_le_length hle, ← List.take_append_of_le_length hle] at hr
    exact (List.take_subset_take_left _ (Nat.min_le_left _ _)) hr

/-- The result of the draft follows the name that is replaced. -/
def follow (result : Option Nat) (old new : Nat) : Option Nat :=
  if result = some old then some new else result

variable {arena : List (Name Form)} {result : Option Nat} {dups : List Nat}

/-- A parameter is replaced by a name of the same type. -/
theorem Shows.replaceName
    (h : d.Shows ⟨arena, xs ++ s :: ys, zs, result, dups⟩) (hs : s.was = some s.now)
    (hm : arena[s.now]? = some m) (hparam : m.isParam = true) (hn : arena[id]? = some n)
    (htype : m.type = n.type) :
    ∃ d', d.replaceName xs.length id = .ok d' ∧
      d'.Shows ⟨arena, xs ++ ⟨id, s.was⟩ :: ys, zs, follow result s.now id, dups⟩ := by
  have hlists : d.Lists (xs ++ s :: (ys ++ zs)) := by simpa [Transaction.slots] using h.toLists
  obtain ⟨d', heq, hlists', hopen, harena, harity, hresult, hdups⟩ :=
    hlists.changeName h.editing hs id
  have hlt : ¬ d.arity ≤ xs.length := by simp [h.arity]
  have hold : d.nameAt xs.length = .ok m := h.nameAt (by simp [Transaction.slots]) hm
  refine ⟨d', by simp [Draft.replaceName, hlt, hold, hparam, h.name hn, htype, heq], ?_⟩
  constructor
  · simpa [Transaction.slots] using hlists'
  · exact hopen
  · rw [harena, h.arena]
  · rw [harity, h.arity]
    simp
  · rw [hresult, h.result, follow]
  · rw [hdups, h.dups]

theorem Shows.renameParameter
    (h : d.Shows ⟨arena, xs ++ s :: ys, zs, result, dups⟩) (hs : s.was = some s.now)
    (hm : arena[s.now]? = some m) (hparam : m.isParam = true) (hn : arena[id]? = some n)
    (htype : m.type = n.type) (hnew : n.isParam = true) :
    ∃ d', d.renameParameter xs.length id = .ok d' ∧
      d'.Shows ⟨arena, xs ++ ⟨id, s.was⟩ :: ys, zs, follow result s.now id, dups⟩ := by
  simpa [Draft.renameParameter, h.name hn, hnew] using h.replaceName hs hm hparam hn htype

theorem Shows.replaceByExpression
    (h : d.Shows ⟨arena, xs ++ s :: ys, zs, result, dups⟩)
    (hs : s.was = some s.now) (hm : arena[s.now]? = some m) (hparam : m.isParam = true)
    (hn : arena[id]? = some n) (htype : m.type = n.type) (hnew : n.isParam = false)
    (hplaced : ∀ r ∈ xs ++ s :: ys ++ zs, r.now ≠ id) :
    ∃ d', d.replaceByExpression xs.length id = .ok d' ∧
      d'.Shows ⟨arena, xs ++ ⟨id, s.was⟩ :: ys, zs, follow result s.now id, dups⟩ := by
  have hplaced : ¬ (d.lastIndexOf? id).isSome := by
    rw [h.isSome_lastIndexOf?]
    rintro ⟨r, hr, rfl⟩
    exact hplaced r hr rfl
  simpa [Draft.replaceByExpression, h.name hn, hnew, hplaced] using
    h.replaceName hs hm hparam hn htype

/-- A parameter becomes a second copy of another name. -/
theorem Shows.replaceByCopy {source : Nat} {r : Slot}
    (h : d.Shows ⟨arena, xs ++ s :: ys, zs, result, dups⟩)
    (hs : s.was = some s.now) (hm : arena[s.now]? = some m) (hparam : m.isParam = true)
    (hr : (xs ++ s :: ys ++ zs)[source]? = some r) (hn : arena[r.now]? = some n)
    (htype : m.type = n.type) (hne : xs.length ≠ source) :
    ∃ d', d.replaceByCopy xs.length source = .ok d' ∧
      d'.Shows ⟨arena, xs ++ ⟨r.now, s.was⟩ :: ys, zs, follow result s.now r.now,
        dups ++ [r.now]⟩ := by
  obtain ⟨d', heq, hd'⟩ := h.replaceName hs hm hparam hn htype
  refine ⟨{ d' with dups := d'.dups ++ [r.now] }, ?_, ?_⟩
  · simp [Draft.replaceByCopy, hne, h.idAt hr, heq, pure, Except.pure]
  · exact { hd' with dups := by simp [hd'.dups] }

/-! ## Inserting names -/

theorem insertIdx_length_append {α : Type} (as bs : List α) (a : α) :
    (as ++ bs).insertIdx as.length a = as ++ a :: bs := by
  induction as with
  | nil => simp
  | cons b as ih => simp [ih]

/-- A name is put into a new slot. -/
theorem Lists.insertName (h : d.Lists (xs ++ ys)) (hopen : d.editing = true) (id : Nat)
    (param : Bool) (hparam : param = true → xs.length ≤ d.arity)
    (hexpr : param = false → d.arity ≤ xs.length) :
    ∃ d', d.insertName xs.length id param = .ok d' ∧ d'.Lists (xs ++ Slot.added id :: ys) ∧
      d'.editing = true ∧ d'.arena = d.arena ∧
      d'.arity = (if param then d.arity + 1 else d.arity) ∧ d'.result = d.result ∧
      d'.dups = d.dups := by
  have hnames : d.names.insertIdx xs.length none = xs.map (fun s => some s.now) ++
      none :: ys.map (fun s => some s.now) := by
    simpa [h.names] using insertIdx_length_append (xs.map fun s => some s.now) _ none
  have hinitial : d.initial.insertIdx xs.length none = xs.map Slot.was ++
      none :: ys.map Slot.was := by
    simpa [h.initial] using insertIdx_length_append (xs.map Slot.was) _ none
  have hlen : ¬ (d.names.length < xs.length ∨ d.initial.length < xs.length) := by
    simp [h.names, h.initial]
  have hargs : (param && decide (d.arity < xs.length)) = false ∧
      (!param && decide (xs.length < d.arity)) = false := by
    cases param <;> simp_all
  have heq : d.insertName xs.length id param = .ok { d with
      names := xs.map (fun s => some s.now) ++ some id :: ys.map (fun s => some s.now)
      initial := xs.map Slot.was ++ none :: ys.map Slot.was
      firstChange := min (if xs.length ≤ d.firstChange then d.firstChange + 1 else d.firstChange)
        xs.length
      arity := if param then d.arity + 1 else d.arity } := by
    simp [Draft.insertName, hopen, hargs, hlen, hnames, hinitial, Draft.changeName]
  refine ⟨_, heq, ?_, hopen, rfl, rfl, rfl, rfl⟩
  constructor
  · simp [Slot.added]
  · simp [Slot.added]
  · simp only [List.length_append, List.length_cons]
    omega
  · intro r hr
    have hle : min (if xs.length ≤ d.firstChange then d.firstChange + 1 else d.firstChange)
        xs.length = min d.firstChange xs.length := by
      split <;> omega
    have hmin := Nat.min_le_right d.firstChange xs.length
    rw [hle, List.take_append_of_le_length hmin] at hr
    refine h.unchanged r (List.take_subset_take_left _ (Nat.min_le_left _ xs.length) ?_)
    rwa [List.take_append_of_le_length hmin]

theorem Shows.insertParameter (h : d.Shows ⟨arena, xs ++ ys, zs, result, dups⟩)
    (hn : arena[id]? = some n) (hnew : n.isParam = true) :
    ∃ d', d.insertParameter xs.length id = .ok d' ∧
      d'.Shows ⟨arena, xs ++ Slot.added id :: ys, zs, result, dups⟩ := by
  have hlists : d.Lists (xs ++ (ys ++ zs)) := by simpa [Transaction.slots] using h.toLists
  obtain ⟨d', heq, hlists', hopen, harena, harity, hresult, hdups⟩ :=
    hlists.insertName h.editing id true (by simp [h.arity]) (by simp)
  refine ⟨d', by simp [Draft.insertParameter, h.name hn, hnew, heq], ?_⟩
  constructor
  · simpa [Transaction.slots] using hlists'
  · exact hopen
  · rw [harena, h.arena]
  · rw [harity, h.arity]
    simp
    omega
  · rw [hresult, h.result]
  · rw [hdups, h.dups]

theorem Shows.insertExpression (h : d.Shows ⟨arena, zs, xs ++ ys, result, dups⟩)
    (hn : arena[id]? = some n) (hnew : n.isParam = false) :
    ∃ d', d.insertExpression (zs.length + xs.length) id = .ok d' ∧
      d'.Shows ⟨arena, zs, xs ++ Slot.added id :: ys, result, dups⟩ := by
  have hlists : d.Lists ((zs ++ xs) ++ ys) := by simpa [Transaction.slots] using h.toLists
  obtain ⟨d', heq, hlists', hopen, harena, harity, hresult, hdups⟩ :=
    hlists.insertName h.editing id false (by simp) (by simp [h.arity])
  rw [List.length_append] at heq
  refine ⟨d', by simp [Draft.insertExpression, h.name hn, hnew, heq], ?_⟩
  constructor
  · simpa [Transaction.slots] using hlists'
  · exact hopen
  · rw [harena, h.arena]
  · rw [harity, h.arity]
    simp
  · rw [hresult, h.result]
  · rw [hdups, h.dups]

/-- A placed name, or nothing, becomes the result. -/
theorem Shows.setResult {t : Transaction} {new : Option Nat} (h : d.Shows t)
    (hnew : ∀ i, new = some i → ∃ s ∈ t.slots, s.now = i) :
    ∃ d', d.setResult new = .ok d' ∧ d'.Shows { t with result := new } := by
  refine ⟨{ d with result := new }, ?_, ?_⟩
  · cases new with
    | none => rfl
    | some i => simp [Draft.setResult, h.isSome_lastIndexOf?.2 (hnew i rfl)]
  · constructor
    · exact ⟨h.names, h.initial, h.firstChange_le, h.unchanged⟩
    · exact h.editing
    · exact h.arena
    · exact h.arity
    · rfl
    · exact h.dups

/-! ## Replacing functions -/

/-- A name with its function replaced, if `Draft.replaceFunctions` replaces it. -/
def replaced (old new : List (Function Form)) (args : List Arg) (n : Name Form) : Name Form :=
  match n.function? with
  | none => n
  | some f =>
    if sameArgs n.args args then
      match functionIndex? f old with
      | none => n
      | some k => (new[k]?.map fun g => Name.apply g args).getD n
    else n

theorem getElem?_of_isPrefix {α : Type} {as bs : List α} {i : Nat} {a : α} (h : as <+: bs)
    (ha : as[i]? = some a) : bs[i]? = some a := by
  obtain ⟨cs, rfl⟩ := h
  rw [List.getElem?_append_left (List.getElem?_eq_some_iff.1 ha).1, ha]

theorem functionIndex?_lt {f : Function Form} {fs : List (Function Form)} {k : Nat}
    (h : functionIndex? f fs = some k) : k < fs.length := by
  obtain ⟨hk, -⟩ := List.findIdx?_eq_some_iff_getElem.1 h
  exact hk

/-- One expression is looked at. It keeps its number or gets a new one. -/
theorem Shows.replaceFunctionAt {old new : List (Function Form)} (args : List Arg)
    (h : d.Shows ⟨arena, zs, xs ++ s :: ys, result, dups⟩) (hlen : old.length ≤ new.length)
    (hs : s.was = some s.now) (hm : arena[s.now]? = some m) :
    ∃ d' id more, d.replaceFunctionAt old new args (zs.length + xs.length) = .ok d' ∧
      d'.Shows ⟨arena ++ more, zs, xs ++ ⟨id, s.was⟩ :: ys, follow result s.now id, dups⟩ ∧
      (arena ++ more)[id]? = some (replaced old new args m) ∧
      (id = s.now ∨ id = arena.length) := by
  have hplace : d.names[zs.length + xs.length]? = some (some s.now) := by
    simp [h.names, Transaction.slots]
  have hself : follow result s.now s.now = result := by
    simp only [follow]
    split <;> simp_all
  have hkept : replaced old new args m = m → ∃ d' id more,
      .ok d = (.ok d' : Except Violation Draft) ∧
      d'.Shows ⟨arena ++ more, zs, xs ++ ⟨id, s.was⟩ :: ys, follow result s.now id, dups⟩ ∧
      (arena ++ more)[id]? = some (replaced old new args m) ∧
      (id = s.now ∨ id = arena.length) := by
    intro hr
    exact ⟨d, s.now, [], rfl, by simpa [hself] using h, by simp [hr, hm], .inl rfl⟩
  simp only [Draft.replaceFunctionAt, hplace, h.name hm, ok_bind]
  unfold replaced at hkept ⊢
  cases hf : m.function? with
  | none => simpa [hf, pure, Except.pure] using hkept
  | some f =>
    by_cases hargs : sameArgs m.args args
    · cases hk : functionIndex? f old with
      | none => simpa [hf, hargs, hk, pure, Except.pure] using hkept
      | some k =>
        have hkn : k < new.length := Nat.lt_of_lt_of_le (functionIndex?_lt hk) hlen
        have hnew := List.getElem?_eq_getElem hkn
        obtain ⟨hid, halloc⟩ := h.alloc (Name.apply new[k] args)
        have hlists : (d.alloc (Name.apply new[k] args)).2.Lists ((zs ++ xs) ++ s :: ys) := by
          simpa [Transaction.slots] using halloc.toLists
        obtain ⟨d', heq, hlists', hopen, harena, harity, hresult, hdups⟩ :=
          hlists.changeName halloc.editing hs arena.length
        rw [List.length_append] at heq
        refine ⟨d', arena.length, [Name.apply new[k] args], ?_, ?_, ?_, .inr rfl⟩
        · simpa [hargs, hk, hnew, hid] using heq
        · constructor
          · simpa [Transaction.slots] using hlists'
          · exact hopen
          · rw [harena, halloc.arena]
          · rw [harity, halloc.arity]
          · rw [hresult, halloc.result, follow]
          · rw [hdups, halloc.dups]
        · simp [hargs, hk, hnew]
    · simpa [hf, hargs, pure, Except.pure] using hkept

/-- What `Draft.replaceFunctions` does to the expressions from `start` on, which kept their
numbers until then: number `i` becomes `g i`. -/
structure Replacement (arena arena' : List (Name Form)) (old new : List (Function Form))
    (args : List Arg) (start count : Nat) (g : Nat → Nat) : Prop where
  arena_isPrefix : arena <+: arena'
  name : ∀ i, start ≤ i → i < start + count → ∀ n, arena[i]? = some n →
    arena'[g i]? = some (replaced old new args n)
  same_or_new : ∀ i, g i = i ∨ arena.length ≤ g i
  outside : ∀ i, i < start ∨ start + count ≤ i → g i = i
  injective : ∀ i j, i < arena.length → j < arena.length → g i = g j → i = j

theorem Shows.replaceFunctionsFrom {old new : List (Function Form)} (args : List Arg)
    {start count : Nat} (hlen : old.length ≤ new.length) :
    ∀ {d : Draft} {arena : List (Name Form)} {xs : List Slot} {result : Option Nat},
      d.Shows ⟨arena, zs, xs ++ (List.range' start count).map Slot.same, result, dups⟩ →
      zs.length + xs.length = start → start + count ≤ arena.length →
      ∃ d' arena' g, (List.range' start count).foldlM
          (fun d pos => d.replaceFunctionAt old new args pos) d = .ok d' ∧
        d'.Shows ⟨arena', zs, xs ++ (List.range' start count).map fun i => ⟨g i, some i⟩,
          result.map g, dups⟩ ∧
        Replacement arena arena' old new args start count g := by
  induction count generalizing start with
  | zero =>
    intro d arena xs result h hstart hle
    refine ⟨d, arena, id, rfl, by simpa using h, ⟨List.prefix_refl _, ?_, fun i => .inl rfl,
      fun i _ => rfl, fun i j _ _ hij => hij⟩⟩
    intro i h1 h2
    omega
  | succ count ih =>
    intro d arena xs result h hstart hle
    rw [List.range'_succ, List.map_cons] at h
    have hm := List.getElem?_eq_getElem (show start < arena.length by omega)
    obtain ⟨d1, id, more, heq, h1, hname, hid⟩ :=
      h.replaceFunctionAt args hlen rfl hm
    rw [hstart] at heq
    have h1' : d1.Shows ⟨arena ++ more, zs, (xs ++ [⟨id, some start⟩]) ++
        (List.range' (start + 1) count).map Slot.same, follow result start id, dups⟩ := by
      simpa [Slot.same] using h1
    obtain ⟨d2, arena2, g, heq2, h2, hg⟩ :=
      ih h1' (by simp; omega) (by simp; omega)
    have hgid : g id = id := by
      refine hg.outside id ?_
      have hid : id = start ∨ id = arena.length := hid
      omega
    refine ⟨d2, arena2, fun i => if i = start then id else g i, ?_, ?_, ?_⟩
    · simp [List.range'_succ, heq, heq2]
    · have hback : (List.range' (start + 1) count).map (fun i => (⟨g i, some i⟩ : Slot)) =
          (List.range' (start + 1) count).map
            fun i => ⟨if i = start then id else g i, some i⟩ := by
        refine List.map_congr_left fun i hi => ?_
        have : i ≠ start := by
          have := (List.mem_range'_1.1 hi).1
          omega
        simp [this]
      have hresult : (follow result start id).map g =
          result.map fun i => if i = start then id else g i := by
        cases result with
        | none => simp [follow]
        | some r => by_cases hr : r = start <;> simp [follow, hr, hgid]
      rw [← hresult]
      simpa [List.range'_succ, hback] using h2
    · have hidlt := (List.getElem?_eq_some_iff.1 hname).1
      rw [List.length_append] at hidlt
      have hid : id = start ∨ id = arena.length := hid
      constructor
      · exact (List.prefix_append _ _).trans hg.arena_isPrefix
      · intro i h1 h2 n hn
        by_cases hi : i = start
        · subst hi
          obtain rfl : arena[i] = n := by simpa [hm] using hn
          simpa using getElem?_of_isPrefix hg.arena_isPrefix hname
        · simp only [if_neg hi]
          exact hg.name i (by omega) (by omega) n (getElem?_of_isPrefix (List.prefix_append _ _) hn)
      · intro i
        by_cases hi : i = start
        · simp only [if_pos hi]
          omega
        · simp only [if_neg hi]
          have := hg.same_or_new i
          rw [List.length_append] at this
          omega
      · intro i hi
        have hne : i ≠ start := by omega
        simp only [if_neg hne]
        exact hg.outside i (by omega)
      · intro i j hi hj hij
        have hgi := hg.same_or_new i
        have hgj := hg.same_or_new j
        rw [List.length_append] at hgi hgj
        have hinj := hg.injective i j (by simp; omega) (by simp; omega)
        split at hij <;> split at hij <;> omega

/-- Every expression is looked at. -/
theorem Shows.replaceFunctions {old new : List (Function Form)} (args : List Arg)
    {start count : Nat}
    (h : d.Shows ⟨arena, zs, (List.range' start count).map Slot.same, result, dups⟩)
    (hlen : old.length ≤ new.length) (hstart : zs.length = start)
    (hle : start + count ≤ arena.length) :
    ∃ d' arena' g, d.replaceFunctions old new args = .ok d' ∧
      d'.Shows ⟨arena', zs, (List.range' start count).map fun i => ⟨g i, some i⟩,
        result.map g, dups⟩ ∧
      Replacement arena arena' old new args start count g := by
  obtain ⟨d', arena', g, heq, hd', hg⟩ :=
    Shows.replaceFunctionsFrom args hlen (by rwa [List.nil_append]) (by simpa) hle
  refine ⟨d', arena', g, ?_, by simpa using hd', hg⟩
  have harity : d.arity = start := h.arity.trans hstart
  have hnames : d.names.length - d.arity = count := by
    simp [harity, h.names, Transaction.slots, hstart]
  rw [Draft.replaceFunctions, if_neg (Nat.not_lt.2 hlen), hnames, harity]
  exact heq

end Draft

end HandleForms
