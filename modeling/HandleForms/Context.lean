import HandleForms.Edit.Cache
import HandleForms.Form.Parts
import HandleForms.TypeForm.Registry

/-!
# Contexts: the caches and tables behind derivation

A context owns everything that is shared between forms: the species table, the type forms, the
caches of derived forms, the two retainers and the counters of cache traffic. Caches hold their
values weakly, so its operations take a `Live`, which says what somebody keeps alive;
`Context.liveWith` is that for a client that holds nothing but forms.
-/

namespace HandleForms

/-- Sizes of the caches. -/
structure CacheConfig where
  /-- How many derived forms the retainer keeps alive. -/
  formRetention : Nat := 1024
  /-- How many handles the retainer keeps alive. -/
  handleRetention : Nat := 256
  /-- How many entries the cache of a form has before it becomes a map. -/
  arraySize : Nat := 16
  deriving Repr, DecidableEq

namespace CacheConfig

/-- Sets how many derived forms are retained; zero turns retention off. -/
def withFormRetention (c : CacheConfig) (n : Nat) : CacheConfig := { c with formRetention := n }

/-- Sets how many handles are retained. -/
def withHandleRetention (c : CacheConfig) (n : Nat) : CacheConfig := { c with handleRetention := n }

/-- Sets the size of the arrays; it is at least one. -/
def withArraySize (c : CacheConfig) (n : Nat) : CacheConfig := { c with arraySize := max n 1 }

end CacheConfig

/-- Why an edit of a form, or the caching of a handle, is refused. -/
inductive FormError where
  /-- The edit declares a type that the form does not have. -/
  | typeMismatch (position : Nat) (expected found : BasicType)
  /-- Only arrays can be spread. -/
  | notAnArray (type : Ty)
  /-- The type of a combiner or filter does not fit. -/
  | incompatibleCombiner (combiner form : Signature)
  /-- The derived form would need more slots than there are. -/
  | tooManySlots (slots limit : Nat)
  /-- A live handle of another sort is in the slot. -/
  | handleSlotConflict (purpose : HandlePurpose)
  | signature (e : SignatureError)
  deriving DecidableEq

/-- The name of the kind of a form error. -/
def FormError.kind : FormError → String
  | typeMismatch _ _ _ => "TypeMismatch"
  | notAnArray _ => "NotAnArray"
  | incompatibleCombiner _ _ => "IncompatibleCombiner"
  | tooManySlots _ _ => "TooManyArguments"
  | handleSlotConflict _ => "HandleSlotConflict"
  | signature e => causedBy "Type" e.kind

/-- The text of a form error. -/
def FormError.message : FormError → String
  | typeMismatch position expected found =>
    "type mismatch at position " ++ Text.decimal position ++ ": expected " ++
      String.singleton expected.letter ++ ", found " ++ String.singleton found.letter
  | notAnArray type => "cannot spread non-array type " ++ type.text
  | incompatibleCombiner combiner form =>
    "incompatible combiner " ++ combiner.text ++ " for " ++ form.text
  | tooManySlots slots limit => tooManySlotsText slots limit
  | handleSlotConflict purpose =>
    "handle slot " ++ purpose.name ++ " already holds a handle of another type"
  | signature e => e.message

instance : Identified Form := ⟨Form.id⟩

/-- Clients without handles. -/
instance : Identified Empty := ⟨nofun⟩

/-- What is kept alive. -/
structure Live (η : Type) where
  form : Form → Bool
  handle : η → Bool

/-- Counters of the traffic of the caches of derived forms. -/
structure EditStats where
  lookups : Nat := 0
  hits : Nat := 0
  published : Nat := 0
  lostRaces : Nat := 0
  deriving DecidableEq, Repr

/-- Everything that is shared between forms; `η` is what the handle slots hold. -/
structure Context (η : Type) where
  config : CacheConfig
  species : SpeciesTable
  types : TypeForms η
  /-- The cache of each form that has one. -/
  caches : List (Form × EditCache Form)
  formRetainer : Retainer Form
  handleRetainer : Retainer η
  stats : EditStats
  nextForm : Nat

namespace Context

variable {η : Type}

/-- A context in which nothing was made yet. -/
def new (config : CacheConfig) : Context η where
  config
  species := .empty
  types := .empty
  caches := []
  formRetainer := .empty config.formRetention
  handleRetainer := .empty config.handleRetention
  stats := {}
  nextForm := 0

/-- A new identity for a form. -/
def freshForm (c : Context η) : Nat × Context η :=
  (c.nextForm, { c with nextForm := c.nextForm + 1 })

/-- The species with these fields. -/
def internSpecies (c : Context η) (fields : List BasicType) : Species × Context η :=
  let (s, species) := c.species.intern fields
  (s, { c with species })

/-- Keeps a form alive. -/
def retainForm (c : Context η) (f : Form) : Context η :=
  { c with formRetainer := c.formRetainer.retain f }

/-- Keeps a handle alive. -/
def retainHandle [Identified η] (c : Context η) (h : η) : Context η :=
  { c with handleRetainer := c.handleRetainer.retain h }

/-- Lets go of every retained form and handle. -/
def release (c : Context η) : Context η :=
  { c with formRetainer := c.formRetainer.clear, handleRetainer := c.handleRetainer.clear }

/-- What a client that holds these forms, and the retainers, keep alive. A form also keeps alive the
forms it calls in place. -/
def liveWith [Identified η] (c : Context η) (held : List Form) : Live η where
  form f := held.any (Form.reaches f.id) || c.formRetainer.values.any (Form.reaches f.id)
  handle h := c.handleRetainer.holds (identity h)

/-! ## Caches of derived forms -/

/-- The cache of a form. -/
def cacheOf (c : Context η) (base : Form) : EditCache Form :=
  ((c.caches.find? fun e => e.1 = base).map Prod.snd).getD .empty

/-- Replaces the cache of a form. -/
def setCache (c : Context η) (base : Form) (cache : EditCache Form) : Context η :=
  { c with caches := (base, cache) :: c.caches.filter fun e => e.1 ≠ base }

/-- The number of live forms derived from a form. -/
def derivedCount (c : Context η) (live : Live η) (base : Form) : Nat :=
  (c.cacheOf base).size live.form

/-- Looks up a derived form, counts the lookup and keeps a form that is found alive. -/
def lookupDerived (c : Context η) (live : Live η) (base : Form) (key : EditKey) :
    Option Form × Context η :=
  let stats := { c.stats with lookups := c.stats.lookups + 1 }
  match (c.cacheOf base).get? live.form key with
  | some f => (some f, { c with stats := { stats with hits := stats.hits + 1 } }.retainForm f)
  | none => (none, { c with stats })

/-- Publishes a derived form unless a live one is there, and keeps alive the one that is there
afterwards. -/
def publishDerived (c : Context η) (live : Live η) (base : Form) (key : EditKey) (f : Form) :
    Form × Context η :=
  let (published, cache) := (c.cacheOf base).put live.form c.config.arraySize key f
  let stats :=
    if published == f then { c.stats with published := c.stats.published + 1 }
    else { c.stats with lostRaces := c.stats.lostRaces + 1 }
  (published, ({ c with stats }.setCache base cache).retainForm published)

/-! ## Type forms and their slots -/

/-- The type form of the erasure of a signature. -/
def typeForm (c : Context η) (s : Signature) : TypeForm × Context η :=
  let (t, types) := c.types.find s
  (t, { c with types })

/-- The live form in a slot, which is kept alive from now on. -/
def cachedForm (c : Context η) (live : Live η) (t : TypeForm) (p : FormPurpose) :
    Option Form × Context η :=
  match (c.types.form? t p).filter live.form with
  | some f => (some f, c.retainForm f)
  | none => (none, c)

/-- Publishes a form in a slot unless a live one is there. Answers the one that is there
afterwards. -/
def setCachedForm (c : Context η) (live : Live η) (t : TypeForm) (p : FormPurpose) (f : Form) :
    Form × Context η :=
  match (c.types.form? t p).filter live.form with
  | some found => (found, c)
  | none => (f, { c with types := c.types.setForm t p f }.retainForm f)

/-- The form in a slot, which `build` makes when no live one is there. A failed build leaves the
slot as it is. -/
def cachedFormOrBuild {ε : Type} (c : Context η) (live : Live η) (t : TypeForm) (p : FormPurpose)
    (build : Context η → Except ε Form × Context η) : Except ε Form × Context η :=
  match c.cachedForm live t p with
  | (some f, c) => (.ok f, c)
  | (none, c) =>
    match build c with
    | (.error e, c) => (.error e, c)
    | (.ok f, c) =>
      let (f, c) := c.setCachedForm live t p f
      (.ok f, c)

variable [Identified η] {τ : Type}

/-- The live handle in a slot, which is kept alive from now on; `select` picks handles of the sort
that is asked for. -/
def cachedHandle (c : Context η) (live : Live η) (select : η → Option τ) (t : TypeForm)
    (p : HandlePurpose) : Option τ × Context η :=
  match (c.types.handle? t p).filter live.handle with
  | some h => (select h, c.retainHandle h)
  | none => (none, c)

/-- Publishes a handle in a slot unless a live one is there. A live one of another sort is a
conflict. -/
def setCachedHandle (c : Context η) (live : Live η) (select : η → Option τ) (wrap : τ → η)
    (t : TypeForm) (p : HandlePurpose) (h : τ) : Except FormError τ × Context η :=
  match (c.types.handle? t p).filter live.handle with
  | some found =>
    match select found with
    | some found => (.ok found, c)
    | none => (.error (.handleSlotConflict p), c)
  | none => (.ok h, { c with types := c.types.setHandle t p (wrap h) }.retainHandle (wrap h))

end Context

end HandleForms
