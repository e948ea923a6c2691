import HandleForms.Client
import HandleForms.Proofs.TypeForm.Slots

/-!
# What signatures of one erasure share

Clients look up type forms, store forms and handles through them and read them again, hold values
and let go of them, in any order. `Client.Ran` is that. Whatever they do, signatures share a type form
exactly if they have one erasure, and the slots answer as one weak map of basic types and purposes
does, `SlotMaps.perform`, which knows nothing of type forms (`Client.Ran.sharing`).
-/

namespace HandleForms

/-- A way to make a form that leaves the type forms as they are. -/
structure Context.Builder (η ε : Type) where
  run : Context η → Except ε Form × Context η
  types_run : ∀ c, (run c).2.types = c.types

namespace Client

/-! ## Calls -/

/-- What a client can do with type forms. A build that works on slots itself is a `getForm` that
finds nothing, what the build does, and a `setForm`. -/
inductive Call (ν η ε κ : Type) where
  | find (s : Signature)
  | setForm (t : TypeForm) (p : FormPurpose) (f : Form)
  | getForm (t : TypeForm) (p : FormPurpose)
  /-- Reads a form, which is built when there is none. -/
  | tryForm (t : TypeForm) (p : FormPurpose) (build : Context.Builder η ε)
  | setHandle (t : TypeForm) (p : HandlePurpose) (h : η)
  /-- Reads a handle of a sort. -/
  | getHandle (t : TypeForm) (p : HandlePurpose) (sort : κ)
  | holdForm (name : String) (f : Form)
  | dropForm (name : String)
  | holdHandle (name : ν) (make : Nat → η)
  | dropHandle (name : ν)
  | release

/-- What a call answers. -/
inductive Answer (η ε : Type) where
  | type (t : TypeForm)
  | form (f : Option Form)
  | built (result : Except ε Form)
  | handle (result : Except FormError (Option η))
  | done

variable {ν η ε κ : Type} [Identified η] [BEq ν] [DecidableEq κ]

/-- The type form whose slots a call works on. -/
def Call.typeForm? : Call ν η ε κ → Option TypeForm
  | .setForm t _ _ => some t
  | .getForm t _ => some t
  | .tryForm t _ _ => some t
  | .setHandle t _ _ => some t
  | .getHandle t _ _ => some t
  | _ => none

/-- Handles of a sort. -/
def ofSort (sort : η → κ) (k : κ) : η → Option η := Option.guard fun h => sort h = k

omit [Identified η] in
theorem ofSort_self {sort : η → κ} (h : η) : ofSort sort (sort h) h = some h := by
  simp [ofSort, Option.guard]

variable (sort : η → κ)

/-- Makes a call. -/
def perform (c : Client ν η) : Call ν η ε κ → Answer η ε × Client ν η
  | .find s => (c.inContext fun _ context => context.typeForm s).map .type id
  | .setForm t p f =>
    (c.inContext fun live context => context.setCachedForm live t p f).map (.form ∘ some) id
  | .getForm t p => (c.inContext fun live context => context.cachedForm live t p).map .form id
  | .tryForm t p build =>
    (c.inContext fun live context => context.cachedFormOrBuild live t p build.run).map .built id
  | .setHandle t p h =>
    (c.inContext fun live context =>
      context.setCachedHandle live (ofSort sort (sort h)) id t p h).map (.handle ∘ .map some) id
  | .getHandle t p k =>
    (c.inContext fun live context => context.cachedHandle live (ofSort sort k) t p).map
      (.handle ∘ .ok) id
  | .holdForm name f => (.done, c.holdForm name f)
  | .dropForm name => (.done, (c.dropForm name).2)
  | .holdHandle name make => (.done, (c.obtainHandle name make).2)
  | .dropHandle name => (.done, (c.dropHandle name).2)
  | .release => (.done, (c.inContext fun _ context => ((), context.release)).2)

end Client

/-! ## The map that the slots are -/

namespace SlotMaps

open Client

variable {ν η ε κ : Type} [Identified η] [DecidableEq κ] (sort : η → κ)

/-- Nothing is stored. -/
def empty : SlotMaps η := ⟨.empty, .empty⟩

/-- What a call does to the map of basic types and purposes, and what it answers if it works on the
map. -/
def perform (m : SlotMaps η) (c : Client ν η) : Call ν η ε κ → Option (Client.Answer η ε) × SlotMaps η
  | .setForm t p f =>
    let kept := m.forms.keep c.live.form (t.basic, p) f
    (some (.form (some kept.1)), { m with forms := kept.2 })
  | .getForm t p => (some (.form (m.forms.peek c.live.form (t.basic, p))), m)
  | .tryForm t p build =>
    match m.forms.peek c.live.form (t.basic, p) with
    | some found => (some (.built (.ok found)), m)
    | none =>
      match (build.run c.context).1 with
      | .error e => (some (.built (.error e)), m)
      | .ok f => (some (.built (.ok f)), { m with forms := m.forms.put (t.basic, p) f })
  | .setHandle t p h =>
    let kept := m.handles.keep c.live.handle (t.basic, p) h
    let answer := if sort kept.1 = sort h then .ok (some kept.1) else .error (.handleSlotConflict p)
    (some (.handle answer), { m with handles := kept.2 })
  | .getHandle t p k =>
    (some (.handle (.ok ((m.handles.peek c.live.handle (t.basic, p)).filter fun h => sort h = k))), m)
  | _ => (none, m)

end SlotMaps

namespace Client

variable {ν η ε κ : Type} [Identified η] [BEq ν] [DecidableEq κ] (sort : η → κ)

/-! ## One call -/

/-- What a call comes to. -/
structure Performs (c : Client ν η) (call : Call ν η ε κ) : Prop where
  registered : (c.perform sort call).2.context.types.Registered
  isPrefix : c.context.types.interned <+: (c.perform sort call).2.context.types.interned
  /-- The slots follow the map. -/
  slots : (c.perform sort call).2.context.types.slotMaps =
    (c.context.types.slotMaps.perform sort c call).2
  /-- What the map answers is answered. -/
  answers : ∀ a, (c.context.types.slotMaps.perform sort c call).1 = some a →
    (c.perform sort call).1 = a
  /-- Only lookups register anything. -/
  erasures : ∀ u, u ∈ (c.perform sort call).2.context.types.erasures ↔
    u ∈ c.context.types.erasures ∨ ∃ s, call = .find s ∧ (u = s.erase ∨ u = s.basic)
  found : ∀ s t, call = .find s → (c.perform sort call).1 = .type t →
    t ∈ (c.perform sort call).2.context.types.interned ∧ t.erased = s.erase

variable {sort} {c : Client ν η} {call : Call ν η ε κ}

/-- Calls other than lookups keep the type forms. -/
theorem performs_of_holds (hfind : ∀ s, call ≠ .find s)
    (hholds : c.context.types.Holds (c.perform sort call).2.context.types
      (c.context.types.slotMaps.perform sort c call).2)
    (hanswers : ∀ a, (c.context.types.slotMaps.perform sort c call).1 = some a →
      (c.perform sort call).1 = a) : Performs sort c call where
  registered := hholds.registered
  isPrefix := hholds.interned ▸ List.prefix_refl _
  slots := hholds.slots
  answers := hanswers
  erasures u := by
    have hsame : (c.perform sort call).2.context.types.erasures = c.context.types.erasures :=
      congrArg (List.map TypeForm.erased) hholds.interned
    rw [hsame]
    refine (or_iff_left ?_).symm
    rintro ⟨s, hs, -⟩
    exact hfind s hs
  found s t hs := absurd hs (hfind s)

theorem performs_find (h : c.context.types.Registered) (s : Signature) :
    Performs sort c (.find s : Call ν η ε κ) := by
  have hfinds := h.find s
  refine ⟨hfinds.registered, hfinds.isPrefix, hfinds.slotMaps_eq h, fun a ha => ?_, fun u => ?_,
    fun s' t hs ht => ?_⟩
  · exact absurd ha (by simp [SlotMaps.perform])
  · refine (hfinds.erasures u).trans (or_congr_right ?_)
    constructor
    · exact fun hu => ⟨s, rfl, hu⟩
    · rintro ⟨s', hs, hu⟩
      obtain rfl := Call.find.inj hs
      exact hu
  · obtain rfl := Call.find.inj hs
    obtain rfl := Answer.type.inj ht
    exact ⟨hfinds.mem, hfinds.erased⟩

theorem performs_tryForm (h : c.context.types.Registered) {t : TypeForm}
    (ht : t ∈ c.context.types.interned) (p : FormPurpose) (build : Context.Builder η ε) :
    Performs sort c (.tryForm t p build : Call ν η ε κ) := by
  cases hpeek : c.context.types.slotMaps.forms.peek c.live.form (t.basic, p) with
  | some f =>
    obtain ⟨hanswer, htypes⟩ :=
      Context.cachedFormOrBuild_of_some c.live build.run h ht hpeek
    have hmap : c.context.types.slotMaps.perform sort c (.tryForm t p build : Call ν η ε κ) =
        (some (.built (.ok f)), c.context.types.slotMaps) := by
      simp only [SlotMaps.perform, hpeek]
    refine performs_of_holds (by simp) ?_ fun a ha => ?_
    · show c.context.types.Holds (c.context.cachedFormOrBuild c.live t p build.run).2.types _
      rw [hmap, htypes]
      exact h.holds_self
    · rw [hmap] at ha
      exact (congrArg Answer.built hanswer).trans (Option.some.inj ha)
  | none =>
    cases hbuild : build.run c.context with
    | mk result c' =>
    have htypes : c'.types = c.context.types := by
      rw [← build.types_run c.context, hbuild]
    cases result with
    | error e =>
      have hrun := Context.cachedFormOrBuild_of_error c.live h ht hpeek hbuild
      have hmap : c.context.types.slotMaps.perform sort c (.tryForm t p build : Call ν η ε κ) =
          (some (.built (.error e)), c.context.types.slotMaps) := by
        simp only [SlotMaps.perform, hpeek, hbuild]
      refine performs_of_holds (by simp) ?_ fun a ha => ?_
      · show c.context.types.Holds (c.context.cachedFormOrBuild c.live t p build.run).2.types _
        rw [hmap, hrun, htypes]
        exact h.holds_self
      · rw [hmap] at ha
        exact (congrArg (fun x => Answer.built x.1) hrun).trans (Option.some.inj ha)
    | ok f =>
      obtain ⟨hanswer, hholds⟩ :=
        Context.cachedFormOrBuild_of_ok c.live h ht hpeek hbuild htypes
      have hmap : c.context.types.slotMaps.perform sort c (.tryForm t p build : Call ν η ε κ) =
          (some (.built (.ok f)), { c.context.types.slotMaps with
            forms := c.context.types.slotMaps.forms.put (t.basic, p) f }) := by
        simp only [SlotMaps.perform, hpeek, hbuild]
      refine performs_of_holds (by simp) ?_ fun a ha => ?_
      · rw [hmap]
        exact hholds
      · rw [hmap] at ha
        exact (congrArg Answer.built hanswer).trans (Option.some.inj ha)

theorem performs (h : c.context.types.Registered)
    (huses : ∀ t, call.typeForm? = some t → t ∈ c.context.types.interned) :
    Performs sort c call := by
  cases call with
  | find s => exact performs_find h s
  | setForm t p f =>
    obtain ⟨hanswer, hholds⟩ := Context.setCachedForm_eq c.live h (huses t rfl) p f
    refine performs_of_holds (by simp) hholds fun a ha => ?_
    rw [← Option.some.inj ha]
    exact congrArg (Answer.form ∘ some) hanswer
  | getForm t p =>
    obtain ⟨hanswer, htypes⟩ := Context.cachedForm_eq c.live h (huses t rfl) p
    refine performs_of_holds (by simp) ?_ fun a ha => ?_
    · show c.context.types.Holds (c.context.cachedForm c.live t p).2.types _
      rw [htypes]
      exact h.holds_self
    · rw [← Option.some.inj ha]
      exact congrArg Answer.form hanswer
  | tryForm t p build => exact performs_tryForm h (huses t rfl) p build
  | setHandle t p a =>
    obtain ⟨hanswer, hholds⟩ := Context.setCachedHandle_eq c.live (ofSort sort (sort a)) h
      (huses t rfl) p id (ofSort_self a)
    refine performs_of_holds (by simp) hholds fun b hb => ?_
    refine Eq.trans (congrArg (Answer.handle ∘ Except.map some) hanswer) ?_
    rw [← Option.some.inj hb]
    by_cases hsort : sort (c.context.types.slotMaps.handles.keep c.live.handle (t.basic, p) a).1 =
        sort a
    · rw [if_pos hsort, ← hsort, id_eq, ofSort_self]
      rfl
    · rw [if_neg hsort, ofSort, Option.guard, if_neg (by simpa using hsort)]
      rfl
  | getHandle t p k =>
    obtain ⟨hanswer, htypes⟩ := Context.cachedHandle_eq c.live (ofSort sort k) h (huses t rfl) p
    refine performs_of_holds (by simp) ?_ fun a ha => ?_
    · show c.context.types.Holds (c.context.cachedHandle c.live (ofSort sort k) t p).2.types _
      rw [htypes]
      exact h.holds_self
    · rw [← Option.some.inj ha]
      refine congrArg (Answer.handle ∘ Except.ok) (hanswer.trans ?_)
      exact Option.bind_guard _ _
  | holdForm name f => exact performs_of_holds (by simp) h.holds_self (by simp [SlotMaps.perform])
  | dropForm name => exact performs_of_holds (by simp) h.holds_self (by simp [SlotMaps.perform])
  | holdHandle name make =>
    exact performs_of_holds (by simp) h.holds_self (by simp [SlotMaps.perform])
  | dropHandle name => exact performs_of_holds (by simp) h.holds_self (by simp [SlotMaps.perform])
  | release => exact performs_of_holds (by simp) h.holds_self (by simp [SlotMaps.perform])

/-! ## Runs -/

/-- A call, with the client as it is then. -/
structure Entry (ν η ε κ : Type) where
  client : Client ν η
  call : Call ν η ε κ

variable (sort)

/-- What the call answers. -/
def Entry.answer (e : Entry ν η ε κ) : Answer η ε := (e.client.perform sort e.call).1

/-- The lookup of this signature answered this type form. -/
def Found (log : List (Entry ν η ε κ)) (s : Signature) (t : TypeForm) : Prop :=
  ∃ e ∈ log, e.call = .find s ∧ e.answer sort = .type t

/-- Slots are those of type forms that were found. -/
def Uses (log : List (Entry ν η ε κ)) (call : Call ν η ε κ) : Prop :=
  ∀ t, call.typeForm? = some t → ∃ s, Found sort log s t

/-- What a client did, from a new context on. -/
inductive Ran : List (Entry ν η ε κ) → Client ν η → Prop
  | start (config : CacheConfig) : Ran [] { context := .new config }
  | step {log : List (Entry ν η ε κ)} {c : Client ν η} {call : Call ν η ε κ} (h : Ran log c)
      (huses : Uses sort log call) : Ran (log ++ [⟨c, call⟩]) (c.perform sort call).2

/-- A form is stored under a key: it is the form that was to be stored there, or that was built to
be, and it is the one that is there afterwards. -/
inductive Entry.PutsForm : Entry ν η ε κ → Signature × FormPurpose → Form → Prop
  | set {c : Client ν η} {t : TypeForm} {p : FormPurpose} {f : Form}
      (h : Entry.answer sort (⟨c, .setForm t p f⟩ : Entry ν η ε κ) = .form (some f)) :
      PutsForm ⟨c, .setForm t p f⟩ (t.basic, p) f
  | build {c : Client ν η} {t : TypeForm} {p : FormPurpose} {build : Context.Builder η ε} {f : Form}
      (hbuild : (build.run c.context).1 = .ok f)
      (h : Entry.answer sort (⟨c, .tryForm t p build⟩ : Entry ν η ε κ) = .built (.ok f)) :
      PutsForm ⟨c, .tryForm t p build⟩ (t.basic, p) f

/-- A handle is stored under a key. -/
inductive Entry.PutsHandle : Entry ν η ε κ → Signature × HandlePurpose → η → Prop
  | set {c : Client ν η} {t : TypeForm} {p : HandlePurpose} {h : η}
      (hanswer : Entry.answer sort (⟨c, .setHandle t p h⟩ : Entry ν η ε κ) =
        .handle (.ok (some h))) :
      PutsHandle ⟨c, .setHandle t p h⟩ (t.basic, p) h

end Client

namespace SlotMaps

open Client

variable {ν η ε κ : Type} [Identified η] [BEq ν] [DecidableEq κ] (sort : η → κ)

/-- The map after some calls. -/
def run (m : SlotMaps η) (log : List (Entry ν η ε κ)) : SlotMaps η :=
  log.foldl (fun m e => (m.perform sort e.client e.call).2) m

omit [BEq ν] in
theorem run_concat (m : SlotMaps η) (log : List (Entry ν η ε κ)) (e : Entry ν η ε κ) :
    m.run sort (log ++ [e]) = ((m.run sort log).perform sort e.client e.call).2 := by
  rw [run, List.foldl_append]
  rfl

omit [BEq ν] in
theorem run_append (m : SlotMaps η) (log₁ log₂ : List (Entry ν η ε κ)) :
    m.run sort (log₁ ++ log₂) = (m.run sort log₁).run sort log₂ :=
  List.foldl_append

variable {m : SlotMaps η} {c : Client ν η} {call : Call ν η ε κ}

/-- What a call does to the map: nothing, or it offers a form or a handle to a key. When what it
offers is there afterwards, it was stored. -/
theorem perform_cases (m : SlotMaps η) (c : Client ν η) (call : Call ν η ε κ) :
    (m.perform sort c call).2 = m ∨
    (∃ key f, (m.perform sort c call).2 =
        { m with forms := (m.forms.keep c.live.form key f).2 } ∧
      ((∀ a, (m.perform sort c call).1 = some a → (c.perform sort call).1 = a) →
        (m.forms.keep c.live.form key f).1 = f → Entry.PutsForm sort ⟨c, call⟩ key f)) ∨
    ∃ key h, (m.perform sort c call).2 =
        { m with handles := (m.handles.keep c.live.handle key h).2 } ∧
      ((∀ a, (m.perform sort c call).1 = some a → (c.perform sort call).1 = a) →
        (m.handles.keep c.live.handle key h).1 = h → Entry.PutsHandle sort ⟨c, call⟩ key h) := by
  cases call with
  | setForm t p f =>
    refine .inr (.inl ⟨(t.basic, p), f, rfl, fun hanswers hkept => .set ?_⟩)
    rw [Entry.answer, hanswers _ rfl, hkept]
  | tryForm t p build =>
    cases hpeek : m.forms.peek c.live.form (t.basic, p) with
    | some found =>
      refine .inl ?_
      simp only [perform, hpeek]
    | none =>
      cases hbuild : (build.run c.context).1 with
      | error e =>
        refine .inl ?_
        simp only [perform, hpeek, hbuild]
      | ok f =>
        refine .inr (.inl ⟨(t.basic, p), f, ?_, fun hanswers _ => .build hbuild (hanswers _ ?_)⟩)
        · simp only [perform, hpeek, hbuild, WeakMap.keep_of_none hpeek]
        · simp only [perform, hpeek, hbuild]
  | setHandle t p h =>
    refine .inr (.inr ⟨(t.basic, p), h, rfl, fun hanswers hkept => .set ?_⟩)
    rw [Entry.answer, hanswers _ rfl, hkept, if_pos rfl]
  | _ => exact .inl rfl

/-- A live form is never replaced. -/
theorem form_perform_of_alive {key : Signature × FormPurpose} {f : Form}
    (hm : m.forms.entry key = some f) (halive : c.live.form f = true) :
    (m.perform sort c call).2.forms.entry key = some f := by
  rcases perform_cases sort m c call with heq | ⟨_, _, heq, _⟩ | ⟨_, _, heq, _⟩
  · rw [heq]
    exact hm
  · rw [heq]
    exact WeakMap.keep_of_alive hm halive
  · rw [heq]
    exact hm

/-- A live handle is never replaced. -/
theorem handle_perform_of_alive {key : Signature × HandlePurpose} {h : η}
    (hm : m.handles.entry key = some h) (halive : c.live.handle h = true) :
    (m.perform sort c call).2.handles.entry key = some h := by
  rcases perform_cases sort m c call with heq | ⟨_, _, heq, _⟩ | ⟨_, _, heq, _⟩
  · rw [heq]
    exact hm
  · rw [heq]
    exact hm
  · rw [heq]
    exact WeakMap.keep_of_alive hm halive

theorem form_run_of_alive {key : Signature × FormPurpose} {f : Form} {log : List (Entry ν η ε κ)}
    (hm : m.forms.entry key = some f) (halive : ∀ e ∈ log, e.client.live.form f = true) :
    (m.run sort log).forms.entry key = some f := by
  induction log generalizing m with
  | nil => exact hm
  | cons e log ih =>
    exact ih (form_perform_of_alive sort hm (halive e List.mem_cons_self))
      fun x hx => halive x (List.mem_cons_of_mem e hx)

theorem handle_run_of_alive {key : Signature × HandlePurpose} {h : η}
    {log : List (Entry ν η ε κ)} (hm : m.handles.entry key = some h)
    (halive : ∀ e ∈ log, e.client.live.handle h = true) :
    (m.run sort log).handles.entry key = some h := by
  induction log generalizing m with
  | nil => exact hm
  | cons e log ih =>
    exact ih (handle_perform_of_alive sort hm (halive e List.mem_cons_self))
      fun x hx => halive x (List.mem_cons_of_mem e hx)

end SlotMaps

namespace Client

variable {ν η ε κ : Type} [Identified η] [BEq ν] [DecidableEq κ] {sort : η → κ}
  {log : List (Entry ν η ε κ)} {c : Client ν η} {call : Call ν η ε κ}

variable (sort) in
/-- What is known of a client after a run. -/
structure Follows (log : List (Entry ν η ε κ)) (c : Client ν η) : Prop where
  registered : c.context.types.Registered
  slots : c.context.types.slotMaps = SlotMaps.empty.run sort log
  found : ∀ s t, Found sort log s t → t ∈ c.context.types.interned ∧ t.erased = s.erase
  erasures : ∀ u, u ∈ c.context.types.erasures ↔
    ∃ s, (∃ t, Found sort log s t) ∧ (u = s.erase ∨ u = s.basic)
  storedForm : ∀ key f, c.context.types.slotMaps.forms.entry key = some f →
    ∃ e ∈ log, Entry.PutsForm sort e key f
  storedHandle : ∀ key h, c.context.types.slotMaps.handles.entry key = some h →
    ∃ e ∈ log, Entry.PutsHandle sort e key h

theorem Follows.performs (h : Follows sort log c) (huses : Uses sort log call) :
    Performs sort c call := by
  refine Client.performs h.registered fun t ht => ?_
  obtain ⟨s, hs⟩ := huses t ht
  exact (h.found s t hs).1

theorem Follows.start (config : CacheConfig) :
    Follows sort ([] : List (Entry ν η ε κ)) ({ context := .new config } : Client ν η) where
  registered := .empty
  slots := rfl
  found s t ht := by
    obtain ⟨e, he, -⟩ := ht
    exact absurd he List.not_mem_nil
  erasures u := by
    refine iff_of_false List.not_mem_nil ?_
    rintro ⟨s, ⟨t, e, he, -⟩, -⟩
    exact absurd he List.not_mem_nil
  storedForm key f hf := absurd hf (Option.some_ne_none f).symm
  storedHandle key h hh := absurd hh (Option.some_ne_none h).symm

theorem found_concat {e : Entry ν η ε κ} {s : Signature} {t : TypeForm} :
    Found sort (log ++ [e]) s t ↔
      Found sort log s t ∨ e.call = .find s ∧ e.answer sort = .type t := by
  simp [Found, or_and_right, exists_or]

theorem Follows.step (h : Follows sort log c) (huses : Uses sort log call) :
    Follows sort (log ++ [⟨c, call⟩]) (c.perform sort call).2 := by
  have hperforms := h.performs huses
  refine ⟨hperforms.registered, ?_, fun s t hfound => ?_, fun u => ?_, fun key f hf => ?_,
    fun key a ha => ?_⟩
  · rw [SlotMaps.run_concat, ← h.slots]
    exact hperforms.slots
  · rcases found_concat.1 hfound with hfound | ⟨hcall, hanswer⟩
    · obtain ⟨hmem, herased⟩ := h.found s t hfound
      exact ⟨hperforms.isPrefix.subset hmem, herased⟩
    · exact hperforms.found s t hcall hanswer
  · rw [hperforms.erasures, h.erasures]
    constructor
    · rintro (⟨s, ⟨t, hfound⟩, hu⟩ | ⟨s, rfl, hu⟩)
      · exact ⟨s, ⟨t, found_concat.2 (.inl hfound)⟩, hu⟩
      · exact ⟨s, ⟨_, found_concat.2 (.inr ⟨rfl, rfl⟩)⟩, hu⟩
    · rintro ⟨s, ⟨t, hfound⟩, hu⟩
      rcases found_concat.1 hfound with hfound | ⟨hcall, -⟩
      · exact .inl ⟨s, ⟨t, hfound⟩, hu⟩
      · exact .inr ⟨s, hcall, hu⟩
  · have hold : c.context.types.slotMaps.forms.entry key = some f →
        ∃ e ∈ log ++ [⟨c, call⟩], Entry.PutsForm sort e key f := by
      intro hf
      obtain ⟨e, he, hputs⟩ := h.storedForm key f hf
      exact ⟨e, List.mem_append_left _ he, hputs⟩
    rw [hperforms.slots] at hf
    rcases SlotMaps.perform_cases sort c.context.types.slotMaps c call with
      heq | ⟨key', f', heq, hputs⟩ | ⟨_, _, heq, _⟩ <;> rw [heq] at hf
    · exact hold hf
    · rcases WeakMap.of_keep hf with hf | ⟨rfl, rfl, hkept⟩
      · exact hold hf
      · exact ⟨_, List.mem_append_right _ List.mem_cons_self, hputs hperforms.answers hkept⟩
    · exact hold hf
  · have hold : c.context.types.slotMaps.handles.entry key = some a →
        ∃ e ∈ log ++ [⟨c, call⟩], Entry.PutsHandle sort e key a := by
      intro ha
      obtain ⟨e, he, hputs⟩ := h.storedHandle key a ha
      exact ⟨e, List.mem_append_left _ he, hputs⟩
    rw [hperforms.slots] at ha
    rcases SlotMaps.perform_cases sort c.context.types.slotMaps c call with
      heq | ⟨_, _, heq, _⟩ | ⟨key', a', heq, hputs⟩ <;> rw [heq] at ha
    · exact hold ha
    · exact hold ha
    · rcases WeakMap.of_keep ha with ha | ⟨rfl, rfl, hkept⟩
      · exact hold ha
      · exact ⟨_, List.mem_append_right _ List.mem_cons_self, hputs hperforms.answers hkept⟩

theorem Ran.follows (h : Ran sort log c) : Follows sort log c := by
  induction h with
  | start config => exact .start config
  | step _ huses ih => exact ih.step huses

/-- What led up to a call is a run itself. -/
theorem Ran.before (h : Ran sort log c) {log₁ log₂ : List (Entry ν η ε κ)} {e : Entry ν η ε κ}
    (hlog : log = log₁ ++ e :: log₂) : Ran sort log₁ e.client ∧ Uses sort log₁ e.call := by
  induction h generalizing log₂ with
  | start config => exact absurd hlog.symm (by simp)
  | step h huses ih =>
    rcases List.eq_nil_or_concat log₂ with rfl | ⟨log₃, x, rfl⟩
    · obtain ⟨rfl, he⟩ := List.append_inj' hlog rfl
      obtain rfl := List.head_eq_of_cons_eq he
      exact ⟨h, huses⟩
    · rw [List.concat_eq_append, ← List.cons_append, ← List.append_assoc] at hlog
      exact ih (List.append_inj' hlog rfl).1

/-! ## What is shared -/

/-- A form that was stored is in the slot of its key. -/
theorem Follows.form_of_puts {e : Entry ν η ε κ} (h : Follows sort log e.client)
    (huses : Uses sort log e.call) {key : Signature × FormPurpose} {f : Form}
    (hputs : e.PutsForm sort key f) :
    (SlotMaps.empty.run sort (log ++ [e])).forms.entry key = some f := by
  rw [SlotMaps.run_concat, ← h.slots]
  have hanswers := (h.performs huses).answers
  cases hputs with
  | @set c t p f hanswer =>
    have hkept := Option.some.inj (Answer.form.inj ((hanswers _ rfl).symm.trans hanswer))
    exact WeakMap.keep_self.trans (congrArg some hkept)
  | @build c t p build f hbuild hanswer =>
    cases hpeek : c.context.types.slotMaps.forms.peek c.live.form (t.basic, p) with
    | some found =>
      simp only [SlotMaps.perform, hpeek] at hanswers ⊢
      have hfound := Except.ok.inj (Answer.built.inj ((hanswers _ rfl).symm.trans hanswer))
      exact hfound ▸ (WeakMap.peek_eq_some_iff.1 hpeek).1
    | none =>
      simp only [SlotMaps.perform, hpeek, hbuild]
      exact WeakMap.put_self

/-- A handle that was stored is in the slot of its key. -/
theorem Follows.handle_of_puts {e : Entry ν η ε κ} (h : Follows sort log e.client)
    (huses : Uses sort log e.call) {key : Signature × HandlePurpose} {a : η}
    (hputs : e.PutsHandle sort key a) :
    (SlotMaps.empty.run sort (log ++ [e])).handles.entry key = some a := by
  rw [SlotMaps.run_concat, ← h.slots]
  have hanswers := (h.performs huses).answers
  cases hputs with
  | @set c t p a hanswer =>
    have hresult := Answer.handle.inj ((hanswers _ rfl).symm.trans hanswer)
    split at hresult
    · exact WeakMap.keep_self.trans (congrArg some (Option.some.inj (Except.ok.inj hresult)))
    · exact absurd hresult (by simp)

variable (sort) in
/-- What signatures share after a run. -/
structure Sharing (log : List (Entry ν η ε κ)) (c : Client ν η) : Prop where
  /-- Lookups answer one object exactly if the signatures have one erasure. -/
  sameObject : ∀ a t b u, Found sort log a t → Found sort log b u →
    (t.id = u.id ↔ a.erase = b.erase) ∧ (t.id = u.id → t = u)
  /-- The basic form is what the lookup of the basic type answers, which makes nothing new, and it
  has the same counts and the same table. -/
  basicForm : ∀ a t, Found sort log a t →
    c.context.typeForm a.basic = (c.context.types.basicForm t, c.context) ∧
      (c.context.types.basicForm t).counts = t.counts ∧
      (c.context.types.basicForm t).slots = t.slots
  /-- Nothing but the erasures of what was looked up, and their basic types, is registered. -/
  registered : ∀ u, u ∈ c.context.types.erasures ↔
    ∃ a, (∃ t, Found sort log a t) ∧ (u = a.erase ∨ u = a.basic)
  /-- Each of them once. -/
  registeredOnce : c.context.types.erasures.Nodup
  /-- The slots answer as one map of basic types and purposes. -/
  answers : ∀ log₁ e log₂, log = log₁ ++ e :: log₂ → ∀ answer,
    ((SlotMaps.empty.run sort log₁).perform sort e.client e.call).1 = some answer →
      e.answer sort = answer
  /-- A form that was stored through any type is seen, while it is alive, through every type of the
  same basic type, -/
  formSeen : ∀ log₁ e log₂ key f, log = log₁ ++ e :: log₂ → Entry.PutsForm sort e key f →
    (∀ x ∈ log₂, x.client.live.form f = true) → c.live.form f = true →
    ∀ a t, Found sort log a t → a.basic = key.1 →
      (c.perform sort (.getForm t key.2 : Call ν η ε κ)).1 = .form (some f)
  /-- and through no other one. -/
  formStored : ∀ a t p f, Found sort log a t →
    (c.perform sort (.getForm t p : Call ν η ε κ)).1 = .form (some f) →
      ∃ e ∈ log, Entry.PutsForm sort e (a.basic, p) f
  /-- So is a handle, for those who ask for its sort, -/
  handleSeen : ∀ log₁ e log₂ key h, log = log₁ ++ e :: log₂ → Entry.PutsHandle sort e key h →
    (∀ x ∈ log₂, x.client.live.handle h = true) → c.live.handle h = true →
    ∀ a t, Found sort log a t → a.basic = key.1 →
      (c.perform sort (.getHandle t key.2 (sort h) : Call ν η ε κ)).1 = .handle (.ok (some h))
  /-- and for nobody else. -/
  handleStored : ∀ a t p k h, Found sort log a t →
    (c.perform sort (.getHandle t p k : Call ν η ε κ)).1 = .handle (.ok (some h)) →
      sort h = k ∧ ∃ e ∈ log, Entry.PutsHandle sort e (a.basic, p) h
  /-- No call replaces a live form -/
  formKept : ∀ call : Call ν η ε κ, Uses sort log call → ∀ a t p f, Found sort log a t →
    c.context.types.form? t p = some f → c.live.form f = true →
      (c.perform sort call).2.context.types.form? t p = some f
  /-- or a live handle. -/
  handleKept : ∀ call : Call ν η ε κ, Uses sort log call → ∀ a t p h, Found sort log a t →
    c.context.types.handle? t p = some h → c.live.handle h = true →
      (c.perform sort call).2.context.types.handle? t p = some h
  /-- A build that fails stores nothing. -/
  failedBuild : ∀ (t : TypeForm) (p : FormPurpose) (build : Context.Builder η ε) (error : ε),
    Uses sort log (.tryForm t p build) →
    (c.perform sort (.tryForm t p build : Call ν η ε κ)).1 = .built (.error error) →
      (c.perform sort (.tryForm t p build : Call ν η ε κ)).2.context.types = c.context.types

namespace Follows

variable {a b : Signature} {t u : TypeForm}

theorem sameObject (h : Follows sort log c) (ht : Found sort log a t) (hu : Found sort log b u) :
    (t.id = u.id ↔ a.erase = b.erase) ∧ (t.id = u.id → t = u) := by
  obtain ⟨htmem, hterased⟩ := h.found a t ht
  obtain ⟨humem, huerased⟩ := h.found b u hu
  have heq : t.id = u.id → t = u := h.registered.eq_of_id htmem humem
  refine ⟨?_, heq⟩
  rw [← hterased, ← huerased]
  constructor
  · exact fun hid => congrArg TypeForm.erased (heq hid)
  · exact fun herased => congrArg TypeForm.id (h.registered.eq_of_erased htmem humem herased)

theorem basic_eq (h : Follows sort log c) (ht : Found sort log a t) : t.basic = a.basic := by
  rw [TypeForm.basic, (h.found a t ht).2, Signature.basic_erase]

theorem basicForm (h : Follows sort log c) (ht : Found sort log a t) :
    c.context.typeForm a.basic = (c.context.types.basicForm t, c.context) ∧
      (c.context.types.basicForm t).counts = t.counts ∧
      (c.context.types.basicForm t).slots = t.slots := by
  obtain ⟨hmem, herased⟩ := h.found a t ht
  obtain ⟨hbmem, -, hberased⟩ := h.registered.basicForm_eq hmem
  have hlookup : c.context.types.lookup? a.basic.erase = some (c.context.types.basicForm t) := by
    rw [Signature.erase_basic, ← h.basic_eq ht, ← hberased]
    exact h.registered.lookup?_erased hbmem
  refine ⟨?_, ?_, ?_⟩
  · unfold Context.typeForm TypeForms.find
    rw [hlookup]
  · rw [h.registered.counts _ hbmem, h.registered.counts t hmem, hberased, TypeForm.basic,
      ArgCounts.of_basic]
  · rw [h.registered.slots _ hbmem, h.registered.slots t hmem, hberased, TypeForm.basic,
      SlotTable.of_basic]

theorem uses_getForm (ht : Found sort log a t) (p : FormPurpose) :
    Uses sort log (.getForm t p : Call ν η ε κ) := by
  intro u hu
  exact ⟨a, Option.some.inj hu ▸ ht⟩

theorem getForm_eq (h : Follows sort log c) (ht : Found sort log a t) (p : FormPurpose) :
    (c.perform sort (.getForm t p : Call ν η ε κ)).1 =
      .form (c.context.types.slotMaps.forms.peek c.live.form (a.basic, p)) := by
  rw [← h.basic_eq ht]
  exact (h.performs (uses_getForm ht p)).answers _ rfl

theorem getHandle_eq (h : Follows sort log c) (ht : Found sort log a t) (p : HandlePurpose) (k : κ) :
    (c.perform sort (.getHandle t p k : Call ν η ε κ)).1 =
      .handle (.ok ((c.context.types.slotMaps.handles.peek c.live.handle (a.basic, p)).filter
        fun g => sort g = k)) := by
  have huses : Uses sort log (.getHandle t p k : Call ν η ε κ) := by
    intro u hu
    exact ⟨a, Option.some.inj hu ▸ ht⟩
  rw [← h.basic_eq ht]
  exact (h.performs huses).answers _ rfl

/-- A form that was stored is seen while it is alive. -/
theorem formSeen (h : Follows sort log c) (hran : Ran sort log c) {log₁ log₂ : List (Entry ν η ε κ)}
    {e : Entry ν η ε κ} {key : Signature × FormPurpose} {f : Form} (hlog : log = log₁ ++ e :: log₂)
    (hputs : Entry.PutsForm sort e key f) (hbetween : ∀ x ∈ log₂, x.client.live.form f = true)
    (halive : c.live.form f = true) (ht : Found sort log a t) (hkey : a.basic = key.1) :
    (c.perform sort (.getForm t key.2 : Call ν η ε κ)).1 = .form (some f) := by
  obtain ⟨hbefore, huses⟩ := hran.before hlog
  have hstored := hbefore.follows.form_of_puts huses hputs
  have hentry : c.context.types.slotMaps.forms.entry key = some f := by
    rw [h.slots, hlog, List.append_cons, SlotMaps.run_append]
    exact SlotMaps.form_run_of_alive sort hstored hbetween
  rw [h.getForm_eq ht, hkey]
  exact congrArg Answer.form (WeakMap.peek_eq_some_iff.2 ⟨hentry, halive⟩)

/-- A handle that was stored is seen while it is alive. -/
theorem handleSeen (h : Follows sort log c) (hran : Ran sort log c)
    {log₁ log₂ : List (Entry ν η ε κ)} {e : Entry ν η ε κ} {key : Signature × HandlePurpose} {g : η}
    (hlog : log = log₁ ++ e :: log₂) (hputs : Entry.PutsHandle sort e key g)
    (hbetween : ∀ x ∈ log₂, x.client.live.handle g = true) (halive : c.live.handle g = true)
    (ht : Found sort log a t) (hkey : a.basic = key.1) :
    (c.perform sort (.getHandle t key.2 (sort g) : Call ν η ε κ)).1 = .handle (.ok (some g)) := by
  obtain ⟨hbefore, huses⟩ := hran.before hlog
  have hstored := hbefore.follows.handle_of_puts huses hputs
  have hentry : c.context.types.slotMaps.handles.entry key = some g := by
    rw [h.slots, hlog, List.append_cons, SlotMaps.run_append]
    exact SlotMaps.handle_run_of_alive sort hstored hbetween
  rw [h.getHandle_eq ht, hkey, WeakMap.peek_eq_some_iff.2 ⟨hentry, halive⟩]
  simp

/-- No call replaces a live form. -/
theorem formKept (h : Follows sort log c) (huses : Uses sort log call) (ht : Found sort log a t)
    {p : FormPurpose} {f : Form} (hform : c.context.types.form? t p = some f)
    (halive : c.live.form f = true) :
    (c.perform sort call).2.context.types.form? t p = some f := by
  have hperforms := h.performs huses
  have hmem := (h.found a t ht).1
  rw [hperforms.registered.form?_eq (hperforms.isPrefix.subset hmem), hperforms.slots]
  rw [h.registered.form?_eq hmem] at hform
  exact SlotMaps.form_perform_of_alive sort hform halive

/-- No call replaces a live handle. -/
theorem handleKept (h : Follows sort log c) (huses : Uses sort log call) (ht : Found sort log a t)
    {p : HandlePurpose} {g : η} (hhandle : c.context.types.handle? t p = some g)
    (halive : c.live.handle g = true) :
    (c.perform sort call).2.context.types.handle? t p = some g := by
  have hperforms := h.performs huses
  have hmem := (h.found a t ht).1
  rw [hperforms.registered.handle?_eq (hperforms.isPrefix.subset hmem), hperforms.slots]
  rw [h.registered.handle?_eq hmem] at hhandle
  exact SlotMaps.handle_perform_of_alive sort hhandle halive

end Follows

/-- A build fails only when nothing was there, and then nothing is stored. -/
theorem types_of_failed (h : c.context.types.Registered) {t : TypeForm}
    (ht : t ∈ c.context.types.interned) {p : FormPurpose} {build : Context.Builder η ε} {error : ε}
    (hanswer : (c.perform sort (.tryForm t p build : Call ν η ε κ)).1 = .built (.error error)) :
    (c.perform sort (.tryForm t p build : Call ν η ε κ)).2.context.types = c.context.types := by
  have herror : (c.context.cachedFormOrBuild c.live t p build.run).1 = .error error :=
    Answer.built.inj hanswer
  show (c.context.cachedFormOrBuild c.live t p build.run).2.types = c.context.types
  cases hpeek : c.context.types.slotMaps.forms.peek c.live.form (t.basic, p) with
  | some f => exact (Context.cachedFormOrBuild_of_some c.live _ h ht hpeek).2
  | none =>
    cases hbuild : build.run c.context with
    | mk result c' =>
    have htypes : c'.types = c.context.types := by
      rw [← build.types_run c.context, hbuild]
    cases result with
    | error e =>
      rw [Context.cachedFormOrBuild_of_error c.live h ht hpeek hbuild]
      exact htypes
    | ok f =>
      have hok := (Context.cachedFormOrBuild_of_ok c.live h ht hpeek hbuild htypes).1
      exact absurd (hok.symm.trans herror) (by simp)

/-- Whatever clients do: signatures share a type form exactly if they have one erasure, the type form
of the basic type goes with it, nothing else is registered, and the slots are one weak map of basic
types and purposes in which the first live entry wins. -/
theorem Ran.sharing (h : Ran sort log c) : Sharing sort log c where
  sameObject a t b u ht hu := h.follows.sameObject ht hu
  basicForm a t ht := h.follows.basicForm ht
  registered := h.follows.erasures
  registeredOnce := h.follows.registered.nodup
  answers log₁ e log₂ hlog answer := by
    obtain ⟨hbefore, huses⟩ := h.before hlog
    rw [← hbefore.follows.slots]
    exact (hbefore.follows.performs huses).answers answer
  formSeen log₁ e log₂ key f hlog hputs hbetween halive a t ht hkey :=
    h.follows.formSeen h hlog hputs hbetween halive ht hkey
  formStored a t p f ht hanswer := by
    rw [h.follows.getForm_eq ht] at hanswer
    exact h.follows.storedForm _ f (WeakMap.peek_eq_some_iff.1 (Answer.form.inj hanswer)).1
  handleSeen log₁ e log₂ key g hlog hputs hbetween halive a t ht hkey :=
    h.follows.handleSeen h hlog hputs hbetween halive ht hkey
  handleStored a t p k g ht hanswer := by
    rw [h.follows.getHandle_eq ht] at hanswer
    obtain ⟨hpeek, hsort⟩ := Option.filter_eq_some_iff.1 (Except.ok.inj (Answer.handle.inj hanswer))
    exact ⟨by simpa using hsort, h.follows.storedHandle _ g (WeakMap.peek_eq_some_iff.1 hpeek).1⟩
  formKept call huses a t p f ht hform halive := h.follows.formKept huses ht hform halive
  handleKept call huses a t p g ht hhandle halive := h.follows.handleKept huses ht hhandle halive
  failedBuild t p build error huses hanswer := by
    obtain ⟨s, hs⟩ := huses t rfl
    exact types_of_failed h.follows.registered (h.follows.found s t hs).1 hanswer

/-- A client that looks up `(short)void` and `(int)void` and stores a form through the first. -/
theorem Ran.sharing_narrow :
    ∃ (log : List (Entry String Form Unit Nat)) (c : Client String Form) (t u : TypeForm) (f : Form),
      Ran Form.arity log c ∧ Sharing Form.arity log c ∧
      Found Form.arity log ⟨[.short], .void, by decide, by decide⟩ t ∧
      Found Form.arity log ⟨[.int], .void, by decide, by decide⟩ u ∧ t.id ≠ u.id ∧
      (c.perform Form.arity (.getForm u .invokeStatic : Call String Form Unit Nat)).1 =
        .form (some f) := by
  have hstart : Ran Form.arity ([] : List (Entry String Form Unit Nat))
      { context := (Context.new {} : Context Form) } := .start {}
  have hshort := hstart.step (show Uses Form.arity _
    (.find ⟨[.short], .void, by decide, by decide⟩ : Call String Form Unit Nat) from
      fun t ht => absurd ht (Option.some_ne_none t).symm)
  have hint := hshort.step (show Uses Form.arity _
    (.find ⟨[.int], .void, by decide, by decide⟩ : Call String Form Unit Nat) from
      fun t ht => absurd ht (Option.some_ne_none t).symm)
  have hset := hint.step (show Uses Form.arity _
    (.setForm ((Context.new {} : Context Form).typeForm ⟨[.short], .void, by decide, by decide⟩).1
      .invokeStatic ⟨0, 0, [], none, .generic⟩ : Call String Form Unit Nat) from
      fun t ht => ⟨_, _, List.mem_cons_self, rfl, congrArg Answer.type (Option.some.inj ht)⟩)
  exact ⟨_, _, _, _, _, hset, hset.sharing, ⟨_, List.mem_cons_self, rfl, rfl⟩,
    ⟨_, List.mem_cons_of_mem _ List.mem_cons_self, rfl, rfl⟩, by decide, rfl⟩

end Client

end HandleForms
