import HandleForms.Edit.Key

/-!
# The cache of derived forms

Every form has a cache from edit keys to the forms that were derived from it. The cache holds the
derived forms weakly: an entry whose form nobody else keeps alive is stale, answers nothing and may
be overwritten. Who is alive is not for the cache to say, so its operations take `live`. It grows
through three shapes, a single entry, a short array and a map, but whatever the shape, a live form
under a key stays there until it dies.
-/

namespace HandleForms

/-- A cache of values derived by edits, in the shape it has reached. -/
inductive EditCache (φ : Type) where
  | empty
  | single (key : EditKey) (value : φ)
  | array (entries : List (EditKey × φ))
  | map (entries : List (EditKey × φ))

namespace EditCache

variable {φ : Type}

instance : Inhabited (EditCache φ) := ⟨empty⟩

/-- The entries, stale ones included. -/
def entries : EditCache φ → List (EditKey × φ)
  | empty => []
  | single key value => [(key, value)]
  | array es => es
  | map es => es

/-- The name of the shape. -/
def shape : EditCache φ → String
  | empty => "empty"
  | single _ _ => "single"
  | array _ => "array"
  | map _ => "map"

/-- The live value under a key. -/
def get? (live : φ → Bool) (c : EditCache φ) (key : EditKey) : Option φ :=
  (c.entries.lookup key).filter live

/-- The number of live entries. -/
def size (live : φ → Bool) (c : EditCache φ) : Nat := c.entries.countP fun e => live e.2

/-- Puts the value under a key that has an entry. -/
def replace (key : EditKey) (value : φ) : List (EditKey × φ) → List (EditKey × φ)
  | [] => []
  | e :: es => if e.1 = key then (key, value) :: es else e :: replace key value es

/-- Puts a new entry in the place of the first stale one; `none` when every entry is live. -/
def replaceStale? (live : φ → Bool) (key : EditKey) (value : φ) :
    List (EditKey × φ) → Option (List (EditKey × φ))
  | [] => none
  | e :: es =>
    if live e.2 then (replaceStale? live key value es).map (e :: ·) else some ((key, value) :: es)

/-- The cache after a new value was accepted under a key that has no live entry. -/
def accept (live : φ → Bool) (capacity : Nat) (key : EditKey) (value : φ) :
    EditCache φ → EditCache φ
  | empty => single key value
  | single k v =>
    if k = key ∨ live v = false then single key value else array [(k, v), (key, value)]
  | array es =>
    if (es.lookup key).isSome then array (replace key value es)
    else match replaceStale? live key value es with
      | some es => array es
      | none =>
        if es.length < capacity then array (es ++ [(key, value)])
        else map (es ++ [(key, value)])
  | map es =>
    if (es.lookup key).isSome then map (replace key value es) else map (es ++ [(key, value)])

/-- Puts a value under a key unless a live one is there. Answers the value that is there
afterwards. -/
def put (live : φ → Bool) (capacity : Nat) (key : EditKey) (value : φ) (c : EditCache φ) :
    φ × EditCache φ :=
  match c.get? live key with
  | some found => (found, c)
  | none => (value, c.accept live capacity key value)

end EditCache

end HandleForms
