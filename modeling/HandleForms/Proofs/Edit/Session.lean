import HandleForms.Proofs.Edit.Refused
import HandleForms.Proofs.Form.Reach
import HandleForms.Proofs.Retainer.Ring

/-!
# One live form for an edit

A session is a client with what was made and answered so far. While the form that an edit derived is
alive, its entry in the cache of the base is never displaced, so the same edit finds it again
(`Session.Intact.current`); whether the client, a form that calls it or the retainer keeps it alive
does not matter. `Session.Reachable.one_live` puts together what this means for a client.
-/

namespace HandleForms

namespace Holdings

variable {ν α : Type} {h : Holdings ν α} {name : ν} {a : α}

variable [BEq ν]

theorem mem_values_of_find? (hfind : h.find? name = some a) : a ∈ h.values := by
  obtain ⟨e, he, rfl⟩ := Option.map_eq_some_iff.1 hfind
  have hheld := List.find?_some he
  refine List.mem_map_of_mem (List.mem_filter.2 ⟨List.mem_of_find?_eq_some he, ?_⟩)
  exact (Bool.and_eq_true_iff.1 hheld).1

theorem mem_of_mem_values_drop (ha : a ∈ (h.drop name).values) : a ∈ h.values := by
  obtain ⟨e, he, rfl⟩ := List.mem_map.1 ha
  obtain ⟨hmem, hheld⟩ := List.mem_filter.1 he
  obtain ⟨e', he', rfl⟩ := List.mem_map.1 hmem
  refine List.mem_map.2 ⟨e', List.mem_filter.2 ⟨he', ?_⟩, rfl⟩
  exact (Bool.and_eq_true_iff.1 hheld).1

end Holdings

/-! ## Sessions -/

/-- What the editor answered for an edit of a form. -/
structure Answer where
  base : Form
  key : EditKey
  form : Form

/-- A client, with what was made and answered so far. -/
structure Session (ν η : Type) where
  client : Client ν η
  /-- The forms that were made, the latest first. -/
  made : List Form := []
  /-- The answers to edits that leave no form as it is, the latest first. -/
  answers : List Answer := []
  /-- How many edits passed every check and were refused while they were carried out. -/
  refused : Nat := 0

namespace Session

variable {ν η : Type}

/-- A client of a new context. -/
def start (config : CacheConfig) : Session ν η where
  client := { context := .new config }

/-- The client builds a form. -/
def make (s : Session ν η) (name : String) (f : Form) : Session ν η :=
  { s with
    client := { s.client with context := s.client.context.freshForm.2 }.holdForm name f
    made := f :: s.made }

/-- A form that is alive is held under one more name. -/
def hold (s : Session ν η) (name : String) (f : Form) : Session ν η :=
  { s with client := s.client.holdForm name f }

/-- Another cache retains a form. -/
def keep (s : Session ν η) (f : Form) : Session ν η :=
  { s with client := { s.client with context := s.client.context.retainForm f } }

/-- Notes the outcome of an edit. -/
def note (s : Session ν η) (base : Form) (e : Edit) :
    Except (Stop FormError) Form → Session ν η
  | .ok f =>
    match e.isTrivial, e.normal.key with
    | false, .ok key => { s with made := f :: s.made, answers := ⟨base, key, f⟩ :: s.answers }
    | _, _ => s
  | .error _ =>
    match e.check base with
    | .ok () => { s with refused := s.refused + 1 }
    | .error _ => s

theorem client_note (s : Session ν η) (base : Form) (e : Edit)
    (outcome : Except (Stop FormError) Form) : (s.note base e outcome).client = s.client := by
  cases outcome <;> simp only [note] <;> split <;> rfl

variable [Identified η]

/-- What an edit answers now, and the context that it leaves behind. -/
def answer (s : Session ν η) (base : Form) (e : Edit) :
    Except (Stop FormError) Form × Context η :=
  s.client.context.edit s.client.live base e

/-- The client edits the form that it holds under `source`. -/
def edit (s : Session ν η) (source target : String) (e : Edit) : Session ν η :=
  match s.client.forms.find? source with
  | none => s
  | some base =>
    { s with client := (s.client.step (.edit source target e)).2 }.note base e (s.answer base e).1

/-- The client lets go of a form, or the context of what it retains. -/
def step (s : Session ν η) (step : Client.Step) : Session ν η :=
  { s with client := (s.client.step step).2 }

/-- Whether somebody keeps a form alive: the client, a form that calls it, or the retainer. -/
def Alive (s : Session ν η) (f : Form) : Prop := s.client.live.form f = true

/-- The sessions of one client with one context. A form that the client builds calls forms that it
holds. An edit that breaks a precondition ends the session. -/
inductive Reachable : Session ν η → Prop
  | start (config : CacheConfig) : Reachable (start config)
  | make {s : Session ν η} (h : Reachable s) (name : String) {arity : Nat}
      {names : List (Name Form)} {result : Option Nat} {kind : FormKind} {f : Form}
      (hcallees : ∀ n ∈ names, n.Calls (· ∈ s.client.forms.values))
      (hbuild : Form.build s.client.context.nextForm arity names result kind = .ok f) :
      Reachable (s.make name f)
  | hold {s : Session ν η} (h : Reachable s) (name : String) {f : Form} (hmade : f ∈ s.made)
      (halive : s.Alive f) : Reachable (s.hold name f)
  | keep {s : Session ν η} (h : Reachable s) {f : Form} (hmade : f ∈ s.made)
      (halive : s.Alive f) : Reachable (s.keep f)
  | edit {s : Session ν η} (h : Reachable s) (source target : String) (e : Edit)
      (hkept : ∀ base, s.client.forms.find? source = some base →
        Stop.Unbroken (s.answer base e).1) : Reachable (s.edit source target e)
  | drop {s : Session ν η} (h : Reachable s) (name : String) : Reachable (s.step (.drop name))
  | release {s : Session ν η} (h : Reachable s) : Reachable (s.step .release)

/-! ## Who keeps forms alive -/

/-- The forms that the client holds or the context retains. -/
def holders (s : Session ν η) : List Form :=
  s.client.forms.values ++ s.client.context.formRetainer.values

theorem alive_iff {s : Session ν η} {f : Form} :
    s.Alive f ↔ ∃ g ∈ s.holders, g.reaches f.id = true := by
  simp [Alive, Client.live, Context.liveWith, holders, or_and_right, exists_or]

/-- The context remembers what is alive, and counts what it is asked. -/
structure Intact (s : Session ν η) : Prop where
  objects : Form.Objects s.made
  id_lt : ∀ f ∈ s.made, f.id < s.client.context.nextForm
  holders : ∀ f ∈ s.holders, f ∈ s.made
  /-- Every entry is an answer. -/
  cached : ∀ base key f, (key, f) ∈ (s.client.context.cacheOf base).entries →
    (⟨base, key, f⟩ : Answer) ∈ s.answers
  made : ∀ a ∈ s.answers, a.form ∈ s.made
  remembered : ∀ a ∈ s.answers, Context.Remembers a.base a.key a.form
  /-- The entry of a live answer is in its place. -/
  current : ∀ a ∈ s.answers, s.Alive a.form →
    (s.client.context.cacheOf a.base).entries.lookup a.key = some a.form
  lookups : s.client.context.stats.lookups =
    s.client.context.stats.hits + s.client.context.stats.published + s.refused
  lostRaces : s.client.context.stats.lostRaces = 0

namespace Intact

variable {s s' : Session ν η} {f g : Form}

/-- What a live form reaches is alive. -/
theorem alive_of_reaches (h : s.Intact) (hf : f ∈ s.made) (halive : s.Alive f)
    (hreaches : f.reaches g.id = true) : s.Alive g := by
  obtain ⟨k, hk, hkf⟩ := alive_iff.1 halive
  exact alive_iff.2 ⟨k, hk, h.objects.reaches_trans (h.holders k hk) hf hkf hreaches⟩

theorem alive_of_holder (hf : f ∈ s.holders) : s.Alive f := alive_iff.2 ⟨f, hf, f.reaches_self⟩

/-- When all holders were alive before, nothing comes to life. -/
theorem alive_of_shrunk (h : s.Intact) (hholders : ∀ k ∈ s'.holders, k ∈ s.made ∧ s.Alive k)
    (halive : s'.Alive g) : s.Alive g := by
  obtain ⟨k, hk, hkg⟩ := alive_iff.1 halive
  exact h.alive_of_reaches (hholders k hk).1 (hholders k hk).2 hkg

/-- A new holder that calls only what is alive brings nothing to life but itself. -/
theorem alive_of_grown (h : s.Intact)
    (hholders : ∀ k ∈ s'.holders, k = f ∨ k ∈ s.holders) (hid : s.client.context.nextForm ≤ f.id)
    (hcallees : ∀ c ∈ f.callees, c ∈ s.made ∧ s.Alive c) (hg : g ∈ s.made) (halive : s'.Alive g) :
    s.Alive g := by
  obtain ⟨k, hk, hkg⟩ := alive_iff.1 halive
  rcases hholders k hk with rfl | hk
  · rcases Form.reaches_iff.1 hkg with heq | ⟨c, hc, hcg⟩
    · exact absurd (h.id_lt g hg) (by omega)
    · exact h.alive_of_reaches (hcallees c hc).1 (hcallees c hc).2 hcg
  · exact alive_iff.2 ⟨k, hk, hkg⟩

/-- A change of the holders alone, by which nothing comes to life. -/
theorem shrunk (h : s.Intact) (hcaches : s'.client.context.caches = s.client.context.caches)
    (hstats : s'.client.context.stats = s.client.context.stats)
    (hnext : s'.client.context.nextForm = s.client.context.nextForm) (hmade : s'.made = s.made)
    (hanswers : s'.answers = s.answers) (hrefused : s'.refused = s.refused)
    (hholders : ∀ k ∈ s'.holders, k ∈ s.made ∧ s.Alive k) : s'.Intact := by
  have hcache : ∀ base, s'.client.context.cacheOf base = s.client.context.cacheOf base := by
    intro base
    simp only [Context.cacheOf, hcaches]
  constructor
  · exact hmade ▸ h.objects
  · rw [hmade, hnext]
    exact h.id_lt
  · intro k hk
    exact hmade ▸ (hholders k hk).1
  · intro base key f hf
    rw [hcache] at hf
    exact hanswers ▸ h.cached base key f hf
  · rw [hmade, hanswers]
    exact h.made
  · rw [hanswers]
    exact h.remembered
  · intro a ha halive
    rw [hcache]
    exact h.current a (hanswers ▸ ha) (h.alive_of_shrunk hholders halive)
  · rw [hstats, hrefused]
    exact h.lookups
  · rw [hstats]
    exact h.lostRaces

theorem start (config : CacheConfig) : (start config : Session ν η).Intact where
  objects := ⟨nofun, nofun⟩
  id_lt := nofun
  holders := nofun
  cached _ _ _ hf :=
    absurd hf (by simp [Session.start, Context.new, Context.cacheOf, EditCache.entries])
  made := nofun
  remembered := nofun
  current := nofun
  lookups := rfl
  lostRaces := rfl

theorem make (h : s.Intact) (name : String) {arity : Nat} {names : List (Name Form)}
    {result : Option Nat} {kind : FormKind}
    (hcallees : ∀ n ∈ names, n.Calls (· ∈ s.client.forms.values))
    (hbuild : Form.build s.client.context.nextForm arity names result kind = .ok f) :
    (s.make name f).Intact := by
  obtain ⟨hid, hsub⟩ : f.id = s.client.context.nextForm ∧
      ∀ c ∈ f.callees, c ∈ s.client.forms.values := by
    obtain ⟨-, rfl⟩ := Form.verified_eq_ok_iff.1 hbuild
    exact ⟨rfl, Form.callees_subset hcallees⟩
  have hheld : ∀ c ∈ f.callees, c ∈ s.made ∧ s.Alive c := fun c hc =>
    have hc : c ∈ s.holders := List.mem_append_left _ (hsub c hc)
    ⟨h.holders c hc, alive_of_holder hc⟩
  have hfresh : ∀ g ∈ s.made, g.id ≠ f.id := fun g hg => by
    have := h.id_lt g hg
    omega
  have hholders : ∀ k ∈ (s.make name f).holders, k = f ∨ k ∈ s.holders := fun k hk =>
    List.mem_cons.1 hk
  constructor
  · exact h.objects.cons hfresh fun c hc => (hheld c hc).1
  · refine List.forall_mem_cons.2 ⟨hid ▸ Nat.lt_succ_self _, fun g hg => ?_⟩
    exact Nat.lt_succ_of_lt (h.id_lt g hg)
  · exact fun k hk =>
      (hholders k hk).elim (fun heq => heq ▸ .head _) fun hk => .tail _ (h.holders k hk)
  · exact h.cached
  · exact fun a ha => .tail _ (h.made a ha)
  · exact h.remembered
  · exact fun a ha halive => h.current a ha
      (h.alive_of_grown hholders (Nat.le_of_eq hid.symm) hheld (h.made a ha) halive)
  · exact h.lookups
  · exact h.lostRaces

variable {base : Form} {key : EditKey}

/-- The live entry of a key is found, held and retained. -/
theorem found (h : s.Intact) (hfound :
      (s.client.context.cacheOf base).get? s.client.live.form key = some f) (target : String) :
    Intact { s with
      client := Client.holdForm { s.client with context := ({ s.client.context with
        stats := { s.client.context.stats with
          lookups := s.client.context.stats.lookups + 1
          hits := s.client.context.stats.hits + 1 } } : Context η).retainForm f } target f
      made := f :: s.made
      answers := ⟨base, key, f⟩ :: s.answers } := by
  obtain ⟨hlookup, hlive⟩ := Option.filter_eq_some_iff.1 hfound
  have hanswer := h.cached base key f (EditCache.mem_of_get? hfound)
  have hf : f ∈ s.made := h.made _ hanswer
  have halive : s.Alive f := hlive
  generalize hs' : (Session.mk _ _ _ _ : Session ν η) = s'
  have hholders : ∀ k ∈ s'.holders, k ∈ s.made ∧ s.Alive k := by
    subst hs'
    intro k hk
    have hk : k = f ∨ k ∈ s.holders := by
      rcases List.mem_append.1 hk with hk | hk
      · exact (List.mem_cons.1 hk).imp_right (List.mem_append_left _)
      · exact (Retainer.mem_values_retain hk).imp_right (List.mem_append_right _)
    rcases hk with rfl | hk
    · exact ⟨hf, halive⟩
    · exact ⟨h.holders k hk, alive_of_holder hk⟩
  have hcurrent : ∀ a ∈ s.answers, s'.Alive a.form →
      (s.client.context.cacheOf a.base).entries.lookup a.key = some a.form :=
    fun a ha hlive => h.current a ha (h.alive_of_shrunk hholders hlive)
  subst hs'
  constructor
  · exact h.objects.cons_of_mem hf
  · exact List.forall_mem_cons.2 ⟨h.id_lt f hf, h.id_lt⟩
  · exact fun k hk => .tail _ (hholders k hk).1
  · exact fun base key g hg => .tail _ (h.cached base key g hg)
  · exact List.forall_mem_cons.2 ⟨.head _, fun a ha => .tail _ (h.made a ha)⟩
  · exact List.forall_mem_cons.2 ⟨h.remembered _ hanswer, h.remembered⟩
  · exact List.forall_mem_cons.2 ⟨fun _ => hlookup, hcurrent⟩
  · have := h.lookups
    simp only [Client.holdForm, Context.retainForm]
    omega
  · exact h.lostRaces

/-- An edit that is refused while it is carried out counts a lookup and holds nothing. -/
theorem refuse (h : s.Intact) {context : Context η} {species : SpeciesTable}
    (hcontext : context = { s.client.context.lookedUp with
      species, nextForm := s.client.context.nextForm + 1 }) :
    Intact { s with client := { s.client with context }, refused := s.refused + 1 } := by
  subst hcontext
  constructor
  · exact h.objects
  · exact fun f hf => Nat.lt_succ_of_lt (h.id_lt f hf)
  · exact h.holders
  · exact h.cached
  · exact h.made
  · exact h.remembered
  · exact h.current
  · have := h.lookups
    simp only [Context.lookedUp]
    omega
  · exact h.lostRaces

/-- What is derived anew is published, held and retained. Nothing that was alive loses its entry. -/
theorem derived (h : s.Intact) (hbase : base ∈ s.holders)
    (hmissing : (s.client.context.cacheOf base).get? s.client.live.form key = none)
    (hobject : f.Object (· ∈ base.callees) s.client.context.nextForm)
    (hremembers : Context.Remembers base key f) {context : Context η} {species : SpeciesTable}
    (hcontext : context = { s.client.context.lookedUp with
      species, nextForm := s.client.context.nextForm + 1 }) (target : String) :
    Intact { s with
      client := Client.holdForm { s.client with context := (({ context with
        stats := { context.stats with published := context.stats.published + 1 } } :
          Context η).setCache base ((context.cacheOf base).accept s.client.live.form
            context.config.arraySize key f)).retainForm f } target f
      made := f :: s.made
      answers := ⟨base, key, f⟩ :: s.answers } := by
  subst hcontext
  have hcallees : ∀ c ∈ f.callees, c ∈ s.made ∧ s.Alive c := fun c hc =>
    have hc := hobject.callees c hc
    ⟨h.objects.callees base (h.holders base hbase) c hc,
      h.alive_of_reaches (h.holders base hbase) (alive_of_holder hbase)
        (Form.reaches_iff.2 (.inr ⟨c, hc, c.reaches_self⟩))⟩
  have hfresh : ∀ g ∈ s.made, g.id ≠ f.id := fun g hg => by
    have := h.id_lt g hg
    have := hobject.id_eq
    omega
  generalize hs' : (Session.mk _ _ _ _ : Session ν η) = s'
  have hholders : ∀ k ∈ s'.holders, k = f ∨ k ∈ s.holders := by
    subst hs'
    intro k hk
    rcases List.mem_append.1 hk with hk | hk
    · exact (List.mem_cons.1 hk).imp_right (List.mem_append_left _)
    · exact (Retainer.mem_values_retain hk).imp_right (List.mem_append_right _)
  have hcache : ∀ b, s'.client.context.cacheOf b =
      if base = b then (s.client.context.cacheOf base).accept s.client.live.form
        s.client.context.config.arraySize key f
      else s.client.context.cacheOf b := by
    subst hs'
    exact fun b => Context.cacheOf_setCache _ base b _
  have hcurrent : ∀ a ∈ s.answers, s'.Alive a.form →
      (s'.client.context.cacheOf a.base).entries.lookup a.key = some a.form := by
    intro a ha halive
    have halive := h.alive_of_grown hholders (Nat.le_of_eq hobject.id_eq.symm) hcallees
      (h.made a ha) halive
    have hlookup := h.current a ha halive
    rw [hcache]
    by_cases hb : base = a.base
    · subst hb
      rw [if_pos rfl]
      refine EditCache.lookup_accept_of_live ?_ halive hlookup
      -- A live entry under the key would have been found.
      rintro rfl
      rw [EditCache.get?, hlookup] at hmissing
      exact absurd (Option.filter_eq_none_iff.1 hmissing _ rfl) (not_not_intro halive)
    · rw [if_neg hb]
      exact hlookup
  have hnew : (s'.client.context.cacheOf base).entries.lookup key = some f := by
    rw [hcache, if_pos rfl]
    exact EditCache.lookup_accept_self _
  have hcached : ∀ b k g, (k, g) ∈ (s'.client.context.cacheOf b).entries →
      (⟨b, k, g⟩ : Answer) ∈ (⟨base, key, f⟩ : Answer) :: s.answers := by
    intro b k g hg
    rw [hcache] at hg
    split at hg
    · next hb =>
      subst hb
      rcases EditCache.mem_accept hg with heq | hg
      · obtain ⟨rfl, rfl⟩ := Prod.mk.inj heq
        exact .head _
      · exact .tail _ (h.cached _ _ _ hg)
    · exact .tail _ (h.cached _ _ _ hg)
  subst hs'
  constructor
  · exact h.objects.cons hfresh fun c hc => (hcallees c hc).1
  · refine List.forall_mem_cons.2 ⟨hobject.id_eq ▸ Nat.lt_succ_self _, fun g hg => ?_⟩
    exact Nat.lt_succ_of_lt (h.id_lt g hg)
  · exact fun k hk =>
      (hholders k hk).elim (fun heq => heq ▸ .head _) fun hk => .tail _ (h.holders k hk)
  · exact hcached
  · exact List.forall_mem_cons.2 ⟨.head _, fun a ha => .tail _ (h.made a ha)⟩
  · exact List.forall_mem_cons.2 ⟨hremembers, h.remembered⟩
  · exact List.forall_mem_cons.2 ⟨fun _ => hnew, hcurrent⟩
  · have := h.lookups
    simp only [Client.holdForm, Context.retainForm, Context.setCache, Context.lookedUp]
    omega
  · exact h.lostRaces

/-- What the edit of a held form leaves behind. -/
theorem edit (h : s.Intact) (hreach : s.client.context.Reachable) {source target : String}
    {e : Edit} (hkept : ∀ base, s.client.forms.find? source = some base → Stop.Unbroken (s.answer base e).1) :
    (s.edit source target e).Intact := by
  unfold Session.edit
  cases hfind : s.client.forms.find? source with
  | none => exact h
  | some base =>
    have hbase : base ∈ s.holders := List.mem_append_left _ (Holdings.mem_values_of_find? hfind)
    have hkept := hkept base hfind
    have hedits := s.client.context.edits_edit s.client.live base e
    simp only [Client.step, hfind, Client.inContext]
    change Stop.Unbroken (s.client.context.edit s.client.live base e).1 at hkept
    change Intact (note _ base e (s.client.context.edit s.client.live base e).1)
    generalize (s.client.context.edit s.client.live base e).1 = outcome at hedits hkept ⊢
    generalize (s.client.context.edit s.client.live base e).2 = context at hedits ⊢
    cases hedits with
    | unchecked hcheck =>
      simp only [note, hcheck]
      exact h
    | unkeyed hcheck htrivial hkey => exact absurd rfl (hkept _)
    | same hcheck htrivial =>
      simp only [note, htrivial]
      refine h.shrunk rfl rfl rfl rfl rfl rfl fun k hk => ?_
      have hk : k ∈ s.holders := (List.mem_cons.1 hk).elim (fun heq => heq ▸ hbase) id
      exact ⟨h.holders k hk, alive_of_holder hk⟩
    | @found key f hcheck htrivial hkey hfound =>
      simp only [note, htrivial, hkey]
      exact h.found hfound target
    | @refused key stop c' hcheck htrivial hkey hmissing hderive =>
      obtain ⟨species, hcontext⟩ := s.client.context.lookedUp.deriveAnew_frame base e.normal
      simp only [note, hcheck]
      exact h.refuse ((congrArg Prod.snd hderive).symm.trans hcontext)
    | @derived key f c' hcheck htrivial hkey hmissing hderive =>
      obtain ⟨species, hcontext⟩ := s.client.context.lookedUp.deriveAnew_frame base e.normal
      have hobject := s.client.context.lookedUp.object_deriveAnew base e.normal f
        (congrArg Prod.fst hderive)
      have hremembers := Context.remembers_of_deriveAnew (c := s.client.context.lookedUp)
        hreach.sound.species hcheck hkey (congrArg Prod.fst hderive)
      simp only [note, htrivial, hkey]
      exact h.derived hbase hmissing hobject hremembers
        ((congrArg Prod.snd hderive).symm.trans hcontext) target

theorem keep (h : s.Intact) (hmade : f ∈ s.made) (halive : s.Alive f) : (s.keep f).Intact := by
  refine h.shrunk rfl rfl rfl rfl rfl rfl fun k hk => ?_
  rcases List.mem_append.1 hk with hk | hk
  · have hk : k ∈ s.holders := List.mem_append_left _ hk
    exact ⟨h.holders k hk, alive_of_holder hk⟩
  · rcases Retainer.mem_values_retain hk with rfl | hk
    · exact ⟨hmade, halive⟩
    · have hk : k ∈ s.holders := List.mem_append_right _ hk
      exact ⟨h.holders k hk, alive_of_holder hk⟩

theorem hold (h : s.Intact) (name : String) (hmade : f ∈ s.made) (halive : s.Alive f) :
    (s.hold name f).Intact := by
  refine h.shrunk rfl rfl rfl rfl rfl rfl fun k hk => ?_
  have hk : k = f ∨ k ∈ s.holders := List.mem_cons.1 hk
  rcases hk with rfl | hk
  · exact ⟨hmade, halive⟩
  · exact ⟨h.holders k hk, alive_of_holder hk⟩

/-- Letting go brings nothing to life. -/
theorem letGo (h : s.Intact) {client : Client ν η}
    (hcaches : client.context.caches = s.client.context.caches)
    (hstats : client.context.stats = s.client.context.stats)
    (hnext : client.context.nextForm = s.client.context.nextForm)
    (hsub : ∀ k ∈ ({ s with client } : Session ν η).holders, k ∈ s.holders) :
    Intact { s with client } :=
  h.shrunk hcaches hstats hnext rfl rfl rfl fun k hk =>
    ⟨h.holders k (hsub k hk), alive_of_holder (hsub k hk)⟩

end Intact

variable {s : Session ν η}

theorem Reachable.context (h : s.Reachable) : s.client.context.Reachable := by
  induction h with
  | start config => exact .new config
  | make _ name _ _ ih => exact ih.freshForm
  | hold _ name _ _ ih => exact ih
  | keep _ _ _ ih => exact ih.retainForm _
  | @edit s _ source target e _ ih =>
    unfold Session.edit
    split
    · exact ih
    · next base hfind =>
      rw [client_note]
      exact Client.reachable_step ih (.edit source target e)
  | drop _ name ih => exact Client.reachable_step ih (.drop name)
  | release _ ih => exact Client.reachable_step ih .release

theorem Reachable.intact (h : s.Reachable) : s.Intact := by
  induction h with
  | start config => exact .start config
  | make _ name hcallees hbuild ih => exact ih.make name hcallees hbuild
  | hold _ name hmade halive ih => exact ih.hold name hmade halive
  | keep _ hmade halive ih => exact ih.keep hmade halive
  | edit hs source target e hkept ih => exact ih.edit hs.context hkept
  | drop _ name ih =>
    refine ih.letGo rfl rfl rfl fun k hk => ?_
    rcases List.mem_append.1 hk with hk | hk
    · exact List.mem_append_left _ (Holdings.mem_of_mem_values_drop hk)
    · exact List.mem_append_right _ hk
  | release _ ih =>
    refine ih.letGo rfl rfl rfl fun k hk => ?_
    rcases List.mem_append.1 hk with hk | hk
    · exact List.mem_append_left _ hk
    · cases hk

/-! ## What a client sees -/

/-- The edit finds a form that was derived before, and leaves the caches as they are. -/
structure Finds (s : Session ν η) (base : Form) (e : Edit) (f : Form) : Prop where
  answer : (s.answer base e).1 = .ok f
  caches : (s.answer base e).2.caches = s.client.context.caches
  stats : (s.answer base e).2.stats = { s.client.context.stats with
    lookups := s.client.context.stats.lookups + 1
    hits := s.client.context.stats.hits + 1 }

/-- The edit derives a new form and publishes it under the key. -/
structure Rebuilds (s : Session ν η) (base : Form) (e : Edit) (key : EditKey) (f : Form) :
    Prop where
  answer : (s.answer base e).1 = .ok f
  fresh : ∀ g ∈ s.made, g.id ≠ f.id
  published : ((s.answer base e).2.cacheOf base).entries.lookup key = some f
  stats : (s.answer base e).2.stats = { s.client.context.stats with
    lookups := s.client.context.stats.lookups + 1
    published := s.client.context.stats.published + 1 }

variable {a : Answer} {e : Edit}

/-- Answers that are alive are told apart by base and key. -/
theorem Intact.eq_of_alive (h : s.Intact) {b : Answer} (ha : a ∈ s.answers) (hb : b ∈ s.answers)
    (hbase : a.base = b.base) (hkey : a.key = b.key) (halive : s.Alive a.form)
    (halive' : s.Alive b.form) : a.form = b.form := by
  have hlookup := h.current a ha halive
  rw [hbase, hkey, h.current b hb halive'] at hlookup
  exact (Option.some.inj hlookup).symm

/-- The same edit finds an answer that is alive. -/
theorem Intact.finds (h : s.Intact) (ha : a ∈ s.answers) (hcheck : e.check a.base = .ok ())
    (htrivial : e.isTrivial = false) (hkey : e.normal.key = .ok a.key) (halive : s.Alive a.form) :
    s.Finds a.base e a.form := by
  have hget : (s.client.context.cacheOf a.base).get? s.client.live.form a.key = some a.form :=
    Option.filter_eq_some_iff.2 ⟨h.current a ha halive, halive⟩
  have hanswer : s.answer a.base e = (.ok a.form, ({ s.client.context with
      stats := { s.client.context.stats with
        lookups := s.client.context.stats.lookups + 1
        hits := s.client.context.stats.hits + 1 } } : Context η).retainForm a.form) := by
    simp only [answer, Context.edit, hcheck, htrivial, Bool.false_eq_true, if_false, hkey,
      Context.lookupDerived_eq, hget]
  constructor <;> rw [hanswer] <;> rfl

/-- When no answer under the key is alive, the same edit derives a matching form anew. -/
theorem Intact.rebuilds (h : s.Intact) (hreach : s.client.context.Reachable) (ha : a ∈ s.answers)
    (hcheck : e.check a.base = .ok ()) (htrivial : e.isTrivial = false)
    (hkey : e.normal.key = .ok a.key)
    (hdead : ∀ b ∈ s.answers, b.base = a.base → b.key = a.key → ¬ s.Alive b.form) :
    ∃ f, f.Matches a.form ∧ s.Rebuilds a.base e a.key f := by
  have hget : (s.client.context.cacheOf a.base).get? s.client.live.form a.key = none := by
    refine Option.eq_none_iff_forall_ne_some.2 fun f hf => ?_
    have hlive := (Option.filter_eq_some_iff.1 hf).2
    exact hdead _ (h.cached _ _ _ (EditCache.mem_of_get? hf)) rfl rfl hlive
  have hplain := (h.remembered a ha).deriveAnew_eq (c := s.client.context.lookedUp)
    hreach.sound.species hcheck hkey
  obtain ⟨species, hframe⟩ := s.client.context.lookedUp.deriveAnew_frame a.base e.normal
  have hobject := s.client.context.lookedUp.object_deriveAnew a.base e.normal
  rcases hderive : s.client.context.lookedUp.deriveAnew a.base e.normal with ⟨stop | f, c⟩
  · rw [hderive] at hplain
    cases stop <;> cases hplain
  rw [hderive] at hplain hframe hobject
  have hframe : c = { s.client.context.lookedUp with
    species, nextForm := s.client.context.nextForm + 1 } := hframe
  have hcache : (c.cacheOf a.base).get? s.client.live.form a.key = none := by
    rw [hframe]
    exact hget
  have hanswer : s.answer a.base e = (.ok f, (({ c with
      stats := { c.stats with published := c.stats.published + 1 } } : Context η).setCache a.base
        ((c.cacheOf a.base).accept s.client.live.form c.config.arraySize a.key f)).retainForm
          f) := by
    simp only [answer, Context.edit, hcheck, htrivial, Bool.false_eq_true, if_false, hkey,
      Context.lookupDerived_eq, hget, hderive, Context.publishDerived_of_missing hcache]
  refine ⟨f, Except.ok.inj hplain, ?_, fun g hg => ?_, ?_, ?_⟩
  · rw [hanswer]
  · have := h.id_lt g hg
    have : f.id = s.client.context.nextForm := (hobject f rfl).id_eq
    omega
  · rw [hanswer]
    refine Eq.trans (congrArg (fun cache => cache.entries.lookup a.key)
      (Context.cacheOf_setCache _ a.base a.base _)) ?_
    rw [if_pos rfl]
    exact EditCache.lookup_accept_self _
  · rw [hanswer, hframe]
    rfl

/-- A permutation that moves nothing answers its base and leaves the context as it is. -/
theorem answer_identity (s : Session ν η) {base : Form} {n : Nat} (harity : base.arity = n + 1) :
    s.answer base (.permute 1 (List.range n)) = (.ok base, s.client.context) := by
  have hcheck : (Edit.permute 1 (List.range n)).check base = .ok () := by
    simp only [Edit.check, bind_unit_eq_ok_iff, Edit.require_eq_ok_iff, List.length_range, true_and]
    exact ⟨by omega, Edit.isPermutation_of_perm (by rw [List.length_range])⟩
  have htrivial : (Edit.permute 1 (List.range n)).isTrivial = true := by
    simp [Edit.isTrivial, Edit.isIdentity]
  simp only [answer, Context.edit, hcheck, htrivial, if_true]

theorem client_edit (s : Session ν η) (source target : String) (e : Edit) :
    (s.edit source target e).client = (s.client.step (.edit source target e)).2 := by
  unfold Session.edit
  cases hfind : s.client.forms.find? source with
  | none => simp only [Client.step, hfind]
  | some base => exact client_note _ base e _

@[simp] theorem client_step (s : Session ν η) (step : Client.Step) :
    (s.step step).client = (s.client.step step).2 := rfl

@[simp] theorem answers_step (s : Session ν η) (step : Client.Step) :
    (s.step step).answers = s.answers := rfl

/-- What is answered is noted. -/
theorem answers_edit {source target : String} {base f : Form} {key : EditKey}
    (hfind : s.client.forms.find? source = some base) (hanswer : (s.answer base e).1 = .ok f)
    (htrivial : e.isTrivial = false) (hkey : e.normal.key = .ok key) :
    (s.edit source target e).answers = ⟨base, key, f⟩ :: s.answers := by
  simp only [Session.edit, hfind, hanswer, note, htrivial, hkey]

/-- One live form for an edit. Of what the editor answered for a form under a key, at most one form
is alive. While it is, whoever keeps it alive, the same edit answers it again; otherwise the edit
derives a matching form anew and publishes it. A permutation that moves nothing answers its base and
leaves the context as it is. Every lookup is a hit or ends in a publication, save for edits that are
refused while they are carried out, which are filters of a result that names nothing of value. -/
theorem Reachable.one_live (h : s.Reachable) :
    (∀ a ∈ s.answers, ∀ b ∈ s.answers, a.base = b.base → a.key = b.key →
      s.Alive a.form → s.Alive b.form → a.form = b.form) ∧
    (∀ a ∈ s.answers, ∀ e : Edit, e.check a.base = .ok () → e.isTrivial = false →
      e.normal.key = .ok a.key →
        (s.Alive a.form → s.Finds a.base e a.form) ∧
        ((∀ b ∈ s.answers, b.base = a.base → b.key = a.key → ¬ s.Alive b.form) →
          ∃ f, f.Matches a.form ∧ s.Rebuilds a.base e a.key f)) ∧
    (∀ (base : Form) (n : Nat), base.arity = n + 1 →
      s.answer base (.permute 1 (List.range n)) = (.ok base, s.client.context)) ∧
    (s.client.context.stats.lookups =
        s.client.context.stats.hits + s.client.context.stats.published + s.refused ∧
      s.client.context.stats.lostRaces = 0) ∧
    ∀ (base : Form) (e : Edit) (err : FormError), e.check base = .ok () →
      (s.answer base e).1 = .error (.error err) →
        ∃ type, e = .filterReturn type ∧ base.result.isSome = true ∧ base.ret = .void :=
  ⟨fun _ ha _ hb hbase hkey halive halive' => h.intact.eq_of_alive ha hb hbase hkey halive halive',
    fun _ ha _ hcheck htrivial hkey => ⟨h.intact.finds ha hcheck htrivial hkey,
      h.intact.rebuilds h.context ha hcheck htrivial hkey⟩,
    fun _ _ harity => s.answer_identity harity, ⟨h.intact.lookups, h.intact.lostRaces⟩,
    fun _ _ _ => Context.filterReturn_of_edit⟩

/-- A form that only the retainer keeps alive is found again, and once it was let go another one is
derived. -/
theorem Reachable.one_live_retained : ∃ (s : Session Unit Empty) (f g : Form) (key : EditKey),
    s.Reachable ∧ s.client.forms.values = [f] ∧ s.answers = [⟨f, key, g⟩] ∧
      s.Finds f (.add 1 .int) g ∧
      ∃ g', g'.Matches g ∧ (s.step .release).Rebuilds f (.add 1 .int) key g' := by
  let f : Form := ⟨0, 1, [.param .ref], none, .generic⟩
  let g : Form := ⟨1, 2, [.param .ref, .param .int], none, .generic⟩
  let made : Session Unit Empty := (Session.start {}).make "f" f
  have hbuild : Form.build 0 1 [.param .ref] none .generic = .ok f := rfl
  have hmade : made.Reachable := (Reachable.start {}).make "f"
    (List.forall_mem_singleton.2 (Name.calls_param .ref)) hbuild
  have hderived : (made.answer f (.add 1 .int)).1.toOption = some g := by decide +kernel
  have hanswer : (made.answer f (.add 1 .int)).1 = .ok g := by
    revert hderived
    cases (made.answer f (.add 1 .int)).1 with
    | error stop => exact nofun
    | ok f => exact fun hderived => congrArg Except.ok (Option.some.inj hderived)
  have hfind : made.client.forms.find? "f" = some f := rfl
  have hedit : (made.edit "f" "g" (.add 1 .int)).Reachable := by
    refine hmade.edit "f" "g" (.add 1 .int) fun base hbase => ?_
    rw [hfind] at hbase
    obtain rfl := Option.some.inj hbase
    rw [hanswer]
    exact nofun
  have hs : ((made.edit "f" "g" (.add 1 .int)).step (.drop "g")).Reachable := hedit.drop "g"
  obtain ⟨key, hkey⟩ : ∃ key, (Edit.add 1 .int).normal.key = .ok key := ⟨_, rfl⟩
  have hcheck : (Edit.add 1 .int).check f = .ok () := rfl
  have htrivial : (Edit.add 1 .int).isTrivial = false := rfl
  have hanswers : ((made.edit "f" "g" (.add 1 .int)).step (.drop "g")).answers =
      [⟨f, key, g⟩] := by
    rw [answers_step, answers_edit hfind hanswer htrivial hkey]
    rfl
  have halive : ((made.edit "f" "g" (.add 1 .int)).step (.drop "g")).Alive g := by
    rw [Alive, client_step, client_edit]
    decide +kernel
  have hvalues : ((made.edit "f" "g" (.add 1 .int)).step (.drop "g")).client.forms.values =
      [f] := by
    rw [client_step, client_edit]
    decide +kernel
  have hdead : ¬ (((made.edit "f" "g" (.add 1 .int)).step (.drop "g")).step .release).Alive g := by
    rw [Alive, client_step, client_step, client_edit]
    decide +kernel
  generalize (made.edit "f" "g" (.add 1 .int)).step (.drop "g") = s at *
  have hmem : (⟨f, key, g⟩ : Answer) ∈ s.answers := by
    rw [hanswers]
    exact .head _
  have hfound := (hs.one_live.2.1 _ hmem (.add 1 .int) hcheck htrivial hkey).1 halive
  have hanswers' : (s.step .release).answers = [⟨f, key, g⟩] := hanswers
  have hrebuilt := (hs.release.one_live.2.1 ⟨f, key, g⟩ hmem (.add 1 .int) hcheck htrivial hkey).2
    fun b hb _ _ => by
      rw [hanswers'] at hb
      exact List.mem_singleton.1 hb ▸ hdead
  exact ⟨s, f, g, key, hs, hvalues, hanswers, hfound, hrebuilt⟩

end Session

end HandleForms
