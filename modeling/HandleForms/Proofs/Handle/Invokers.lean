import HandleForms.Handle.Make
import HandleForms.Proofs.Handle.Perform
import HandleForms.Proofs.Retainer.Ring
import Mathlib.Data.List.Infix
import Mathlib.Data.List.Perm.Subperm

/-!
# The table of invokers stays small

A table in use (`InvokerTable.Use`) is a table with the objects in it that somebody keeps alive. It
is asked for the invokers of a type, and in between any objects may be let go of. Live objects are
never swept out and are found again, and the table never grows past the next power of two above the
number of live objects (`InvokerTable.Use.run_bounded`): it grows by one entry at a time, so it meets
every power of two on its way, and is swept there.
-/

namespace HandleForms

theorem isPowerOfTwo_two_pow (k : Nat) : isPowerOfTwo (2 ^ k) = true := by
  simp [isPowerOfTwo, Nat.shiftLeft_eq, Nat.log2_two_pow]

namespace InvokerTable

variable {t : InvokerTable} {live : Invokers → Bool} {i e : Invokers} {type : Signature} {id : Nat}

/-- Every type has at most one entry. -/
def Distinct (t : InvokerTable) : Prop := (t.entries.map Invokers.type).Nodup

theorem Distinct.eq_of_type (h : t.Distinct) (hi : i ∈ t.entries) (he : e ∈ t.entries)
    (htype : i.type = e.type) : i = e :=
  List.inj_on_of_nodup_map h hi he htype

theorem Distinct.find?_of_mem (h : t.Distinct) (hi : i ∈ t.entries) :
    t.find? i.type = some i := by
  have hsome : (t.find? i.type).isSome := by
    rw [find?, List.find?_isSome]
    exact ⟨i, hi, by simp⟩
  obtain ⟨e, he⟩ := Option.isSome_iff_exists.1 hsome
  have htype : e.type = i.type := by simpa using List.find?_some he
  rw [he, h.eq_of_type (List.mem_of_find?_eq_some he) hi htype]

/-! ## One request -/

/-- A live object of the type is found, and nothing changes. -/
theorem Distinct.request_of_live (h : t.Distinct) (hi : i ∈ t.entries) (hlive : live i = true) :
    t.request live i.type id = (i, t) := by
  have hfound : (t.find? i.type).filter live = some i := by
    rw [h.find?_of_mem hi]
    simp [hlive]
  rw [request, hfound]

/-- The table after an object was made and put into it. -/
def publish (t : InvokerTable) (live : Invokers → Bool) (i : Invokers) : InvokerTable :=
  if isPowerOfTwo (t.put i).size then (t.put i).sweep fun e => e == i || live e else t.put i

/-- Without a live object of the type one is made. -/
theorem request_of_dead (hdead : ∀ e ∈ t.entries, e.type = type → live e = false) :
    t.request live type id = (⟨id, type⟩, t.publish live ⟨id, type⟩) := by
  have hnone : (t.find? type).filter live = none := by
    refine Option.filter_eq_none_iff.2 fun e he => ?_
    have htype : e.type = type := by simpa using List.find?_some he
    simp [hdead e (List.mem_of_find?_eq_some he) htype]
  rw [request, hnone]
  rfl

theorem Distinct.request_cases (h : t.Distinct) (live : Invokers → Bool) (type : Signature) (id : Nat) :
    (∃ i ∈ t.entries, i.type = type ∧ live i = true ∧ t.request live type id = (i, t)) ∨
      (∀ e ∈ t.entries, e.type = type → live e = false) ∧
        t.request live type id = (⟨id, type⟩, t.publish live ⟨id, type⟩) := by
  by_cases hlive : ∃ i ∈ t.entries, i.type = type ∧ live i = true
  · obtain ⟨i, hi, rfl, hlive⟩ := hlive
    exact .inl ⟨i, hi, rfl, hlive, h.request_of_live hi hlive⟩
  · have hdead : ∀ e ∈ t.entries, e.type = type → live e = false := by
      intro e he htype
      exact Bool.eq_false_iff.2 fun hl => hlive ⟨e, he, htype, hl⟩
    exact .inr ⟨hdead, request_of_dead hdead⟩

/-! ## Publishing -/

theorem mem_put : e ∈ (t.put i).entries ↔ e = i ∨ e ∈ t.entries ∧ e.type ≠ i.type := by
  simp [put]

theorem size_put_le (t : InvokerTable) (i : Invokers) : (t.put i).size ≤ t.size + 1 :=
  Nat.succ_le_succ (List.length_filter_le _ _)

theorem Distinct.put (h : t.Distinct) (i : Invokers) : (t.put i).Distinct := by
  refine List.nodup_cons.2 ⟨?_, h.sublist (List.filter_sublist.map _)⟩
  intro hmem
  obtain ⟨e, he, htype⟩ := List.mem_map.1 hmem
  exact absurd htype (by simpa using (List.mem_filter.1 he).2)

theorem Distinct.sweep (h : t.Distinct) (live : Invokers → Bool) : (t.sweep live).Distinct :=
  h.sublist (List.filter_sublist.map _)

theorem Distinct.publish (h : t.Distinct) (live : Invokers → Bool) (i : Invokers) :
    (t.publish live i).Distinct := by
  unfold InvokerTable.publish
  split
  · exact (h.put i).sweep _
  · exact h.put i

/-- Neither the new object nor a live one of another type is swept out. -/
theorem mem_publish (he : e = i ∨ e ∈ t.entries ∧ e.type ≠ i.type ∧ live e = true) :
    e ∈ (t.publish live i).entries := by
  have hput : e ∈ (t.put i).entries := mem_put.2 (he.imp_right fun he => ⟨he.1, he.2.1⟩)
  unfold publish
  split
  · refine List.mem_filter.2 ⟨hput, ?_⟩
    rcases he with rfl | ⟨-, -, hlive⟩
    · simp
    · simp [hlive]
  · exact hput

/-- A table below a power of two stays below it, unless that many objects are alive. -/
theorem Distinct.size_publish_lt (h : t.Distinct) {alive : List Invokers} {k : Nat}
    (hsize : t.size < 2 ^ k) (hself : i ∈ alive) (halive : ∀ e, live e = true → e ∈ alive)
    (hfew : alive.length < 2 ^ k) : (t.publish live i).size < 2 ^ k := by
  have hgrown : (t.put i).size ≤ 2 ^ k := (size_put_le t i).trans hsize
  unfold InvokerTable.publish
  split
  · -- Only live objects are left, each of them once.
    have hnodup : ((t.put i).sweep fun e => e == i || live e).entries.Nodup :=
      ((h.put i).sweep _).of_map _
    have hsub : ((t.put i).sweep fun e => e == i || live e).entries ⊆ alive := by
      intro e he
      have hkept := (List.mem_filter.1 he).2
      rcases (Bool.or_eq_true _ _).mp hkept with heq | hlive
      · rwa [beq_iff_eq.1 heq]
      · exact halive e hlive
    exact (hnodup.subperm hsub).length_le.trans_lt hfew
  · next hpower =>
    -- Growth by one does not jump over the power of two, and does not stop at it.
    refine hgrown.lt_of_ne fun heq => hpower ?_
    rw [heq]
    exact isPowerOfTwo_two_pow k

/-! ## A table in use -/

/-- What happens around a table. -/
inductive Event
  /-- The invokers of a type are asked for, and kept alive from then on. -/
  | request (type : Signature)
  /-- Nobody keeps these objects alive any more. -/
  | drop (gone : Invokers → Bool)

/-- A table and the objects in it that are alive. -/
structure Use where
  table : InvokerTable
  alive : List Invokers
  /-- The identity of the next object. -/
  nextId : Nat

namespace Use

/-- Nothing was asked for yet. -/
def start : Use := ⟨.empty, [], 0⟩

def isAlive (u : Use) (i : Invokers) : Bool := u.alive.contains i

/-- The invokers of a type, which are alive afterwards. -/
def request (u : Use) (type : Signature) : Invokers × Use :=
  let (i, table) := u.table.request u.isAlive type u.nextId
  (i, ⟨table, u.alive.insert i, u.nextId + 1⟩)

def step (u : Use) : Event → Use
  | .request type => (u.request type).2
  | .drop gone => { u with alive := u.alive.filter fun i => !gone i }

/-- What happens one after the other. -/
def run (u : Use) (events : List Event) : Use := events.foldl step u

/-- The table has one entry per type, and an entry for every live object. -/
structure Sound (u : Use) : Prop where
  distinct : u.table.Distinct
  nodup : u.alive.Nodup
  kept : ∀ i ∈ u.alive, i ∈ u.table.entries

variable {u : Use}

theorem isAlive_iff : u.isAlive i = true ↔ i ∈ u.alive := List.contains_iff_mem

theorem sound_start : start.Sound := ⟨List.nodup_nil, List.nodup_nil, nofun⟩

/-- A live object is what its type is asked for, and asking changes nothing. -/
theorem Sound.request_of_alive (h : u.Sound) (hi : i ∈ u.alive) :
    u.request i.type = (i, { u with nextId := u.nextId + 1 }) := by
  have htable : u.table.request u.isAlive i.type u.nextId = (i, u.table) :=
    h.distinct.request_of_live (h.kept i hi) (isAlive_iff.2 hi)
  simp only [request, htable, List.insert_of_mem hi]

theorem Sound.request (h : u.Sound) (type : Signature) : (u.request type).2.Sound := by
  rcases h.distinct.request_cases u.isAlive type u.nextId with
    ⟨i, hi, -, hlive, heq⟩ | ⟨hdead, heq⟩
  · have hmem : i ∈ u.alive := isAlive_iff.1 hlive
    simp only [Use.request, heq, List.insert_of_mem hmem]
    exact ⟨h.distinct, h.nodup, h.kept⟩
  · simp only [Use.request, heq]
    refine ⟨h.distinct.publish _ _, h.nodup.insert, fun e he => ?_⟩
    refine mem_publish ((List.mem_insert_iff.1 he).imp_right fun he => ?_)
    refine ⟨h.kept e he, fun htype => ?_, isAlive_iff.2 he⟩
    -- A live object of the type would have been found.
    exact Bool.false_ne_true ((hdead e (h.kept e he) htype).symm.trans (isAlive_iff.2 he))

theorem Sound.step (h : u.Sound) (event : Event) : (u.step event).Sound := by
  match event with
  | .request type => exact h.request type
  | .drop gone =>
    exact ⟨h.distinct, h.nodup.filter _, fun i hi => h.kept i (List.mem_of_mem_filter hi)⟩

theorem Sound.run (h : u.Sound) (events : List Event) : (u.run events).Sound := by
  induction events generalizing u with
  | nil => exact h
  | cons event events ih => exact ih (h.step event)

/-- One event keeps the table below a power of two that the live objects stay below. -/
theorem Sound.size_step_lt (h : u.Sound) {k : Nat} (hsize : u.table.size < 2 ^ k) {event : Event}
    (hfew : (u.step event).alive.length < 2 ^ k) : (u.step event).table.size < 2 ^ k := by
  match event with
  | .drop gone => exact hsize
  | .request type =>
    rcases h.distinct.request_cases u.isAlive type u.nextId with
      ⟨i, -, -, -, heq⟩ | ⟨-, heq⟩
    · simp only [Use.step, Use.request, heq]
      exact hsize
    · simp only [Use.step, Use.request, heq] at hfew ⊢
      exact h.distinct.size_publish_lt hsize List.mem_insert_self
        (fun e he => List.mem_insert_of_mem (isAlive_iff.1 he)) hfew

theorem Sound.size_run_lt (h : u.Sound) {k : Nat} (hsize : u.table.size < 2 ^ k)
    {events : List Event} (hfew : ∀ es, es <+: events → (u.run es).alive.length < 2 ^ k) :
    (u.run events).table.size < 2 ^ k := by
  induction events generalizing u with
  | nil => exact hsize
  | cons event events ih =>
    have hstep := hfew [event] (List.prefix_append [event] events)
    refine ih (h.step event) (h.size_step_lt hsize hstep) fun es hes => ?_
    exact hfew (event :: es) (List.cons_prefix_cons.2 ⟨rfl, hes⟩)

/-- **The table stays bounded.** Whatever is asked for and let go of, if at most `L` objects are alive
at any time, the table has fewer entries than every power of two above `L`, so at most `2 * L`. No
request sweeps out a live object, and a request for the type of a live object answers it. -/
theorem run_bounded {L : Nat} (hL : 1 ≤ L) (events : List Event)
    (hfew : ∀ es, es <+: events → (start.run es).alive.length ≤ L) :
    (∀ k, L < 2 ^ k → (start.run events).table.size < 2 ^ k) ∧
      (start.run events).table.size < 2 * L + 1 ∧
      ∀ i ∈ (start.run events).alive,
        (∀ type, i ∈ ((start.run events).request type).2.table.entries) ∧
          ((start.run events).request i.type).1 = i := by
  have hbound : ∀ k, L < 2 ^ k → (start.run events).table.size < 2 ^ k := by
    intro k hk
    exact sound_start.size_run_lt (Nat.two_pow_pos k) fun es hes => (hfew es hes).trans_lt hk
  have hsound := sound_start.run events
  refine ⟨hbound, ?_, fun i hi => ⟨fun type => ?_, ?_⟩⟩
  · have hleast : 2 ^ (L.log2 + 1) ≤ 2 * L := by
      rw [Nat.pow_succ, Nat.mul_comm]
      exact Nat.mul_le_mul_left 2 (Nat.log2_self_le (Nat.ne_of_gt hL))
    have := hbound (L.log2 + 1) Nat.lt_log2_self
    omega
  · exact (hsound.request type).kept i (List.mem_insert_of_mem hi)
  · exact congrArg Prod.fst (hsound.request_of_alive hi)

/-- One object is kept while three others come and go one at a time. -/
def churn : List Event :=
  let nullary (ret : Ty) : Signature := (default : Signature).withRet ret
  [.request (nullary .int), .request (nullary .long), .drop fun i => i.type == nullary .long,
    .request (nullary .float), .drop fun i => i.type == nullary .float, .request (nullary .double)]

/-- Dead entries pile up beside the live ones, and the fourth entry sweeps them out. -/
theorem run_bounded_churn :
    ((churn.inits.map fun es => (start.run es).table.size) = [0, 1, 2, 2, 3, 3, 2]) ∧
      (start.run churn).table.size < 2 * 2 + 1 :=
  ⟨by decide +kernel, (run_bounded (by decide) churn fun es hes =>
    (by decide +kernel : ∀ es ∈ churn.inits, (start.run es).alive.length ≤ 2) es
      ((List.mem_inits es churn).2 hes)).2.1⟩

end Use

end InvokerTable

/-! ## The table of a world -/

/-- Only the liveness of its entries matters to a table. -/
theorem InvokerTable.request_congr {t : InvokerTable} {live live' : Invokers → Bool}
    (h : ∀ e ∈ t.entries, live e = live' e) (type : Signature) (id : Nat) :
    t.request live type id = t.request live' type id := by
  have hfound : (t.find? type).filter live = (t.find? type).filter live' := by
    cases hf : t.find? type with
    | none => rfl
    | some e => simp only [Option.filter_some, h e (List.mem_of_find?_eq_some hf)]
  have hpublish : t.publish live ⟨id, type⟩ = t.publish live' ⟨id, type⟩ := by
    have hsweep : ((t.put ⟨id, type⟩).sweep fun e => e == ⟨id, type⟩ || live e) =
        (t.put ⟨id, type⟩).sweep fun e => e == ⟨id, type⟩ || live' e := by
      refine congrArg (InvokerTable.mk · _) (List.filter_congr fun e he => ?_)
      rcases mem_put.1 he with rfl | ⟨he, -⟩
      · rw [beq_self_eq_true, Bool.true_or, Bool.true_or]
      · rw [h e he]
    unfold publish
    rw [hsweep]
  unfold request
  rw [hfound]
  cases (t.find? type).filter live' with
  | none => exact congrArg (Prod.mk _) hpublish
  | some i => rfl

namespace World

variable {σ : Type}

/-- The table of a world, in use by what the handle retainer keeps alive. -/
def invokersUse (w : World σ) : InvokerTable.Use where
  table := w.invokers
  alive := w.invokers.entries.filter fun i => w.context.handleRetainer.holds i.id
  nextId := w.nextId

theorem request_invokersUse (w : World σ) (type : Signature) :
    w.invokers.request (fun i => w.context.handleRetainer.holds i.id) type w.nextId =
      w.invokers.request w.invokersUse.isAlive type w.nextId := by
  refine InvokerTable.request_congr (fun e he => ?_) type w.nextId
  refine Bool.eq_iff_iff.2 (Iff.trans ?_ InvokerTable.Use.isAlive_iff.symm)
  exact ⟨fun hheld => List.mem_filter.2 ⟨he, hheld⟩, fun hmem => (List.mem_filter.1 hmem).2⟩

end World

/-- Asking a world for the invokers of a type is a request to its table, and the handle retainer keeps
the answer alive. -/
theorem Act.invokers_apply {σ : Type} (type : Signature) (w : World σ) :
    (Act.invokers type : Act σ Invokers) w =
      (.ok (w.invokersUse.request type).1,
        { w with
          nextId := w.nextId + 1
          invokers := (w.invokersUse.request type).2.table
          context := w.context.retainHandle (.invokers (w.invokersUse.request type).1) }) := by
  unfold InvokerTable.Use.request
  show _ = (Except.ok (w.invokers.request w.invokersUse.isAlive type w.nextId).1, { w with
    nextId := w.nextId + 1
    invokers := (w.invokers.request w.invokersUse.isAlive type w.nextId).2
    context := w.context.retainHandle
      (.invokers (w.invokers.request w.invokersUse.isAlive type w.nextId).1) })
  rw [← w.request_invokersUse type]
  rfl

end HandleForms
