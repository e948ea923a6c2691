import HandleForms.Violation

/-!
# Edit keys

The key of an edit is the kind of the edit followed by its operands, each a byte. Keys of at most
fifteen bytes that all fit in half a byte are packed into one word, with the length in the top half
byte; the others keep their bytes. Packing is canonical: it is decided by the bytes alone, so two
keys are equal exactly when their bytes are.
-/

namespace HandleForms

/-- The kinds of edits. -/
inductive EditKind where
  | bindArg
  | addArg
  | dupArg
  | spreadArgs
  | filterArg
  | filterReturn
  | filterReturnToZero
  | collectArgs
  | collectArgsToVoid
  | foldArgs
  | foldArgsToVoid
  | permuteArgs
  deriving DecidableEq, Repr, Inhabited

namespace EditKind

/-- All kinds, in the order of their ordinals. -/
def all : List EditKind :=
  [bindArg, addArg, dupArg, spreadArgs, filterArg, filterReturn, filterReturnToZero, collectArgs,
    collectArgsToVoid, foldArgs, foldArgsToVoid, permuteArgs]

/-- The ordinal of a kind; none is zero. -/
def ordinal : EditKind → Nat
  | bindArg => 1
  | addArg => 2
  | dupArg => 3
  | spreadArgs => 4
  | filterArg => 5
  | filterReturn => 6
  | filterReturnToZero => 7
  | collectArgs => 8
  | collectArgsToVoid => 9
  | foldArgs => 10
  | foldArgsToVoid => 11
  | permuteArgs => 12

/-- The kind with this ordinal. -/
def ofOrdinal? : Nat → Option EditKind
  | 0 => none
  | n + 1 => all[n]?

theorem ofOrdinal?_ordinal (k : EditKind) : ofOrdinal? k.ordinal = some k := by
  cases k <;> rfl

/-- The name of a kind. -/
def name : EditKind → String
  | bindArg => "BindArg"
  | addArg => "AddArg"
  | dupArg => "DupArg"
  | spreadArgs => "SpreadArgs"
  | filterArg => "FilterArg"
  | filterReturn => "FilterReturn"
  | filterReturnToZero => "FilterReturnToZero"
  | collectArgs => "CollectArgs"
  | collectArgsToVoid => "CollectArgsToVoid"
  | foldArgs => "FoldArgs"
  | foldArgsToVoid => "FoldArgsToVoid"
  | permuteArgs => "PermuteArgs"

end EditKind

/-- The key of an edit. -/
inductive EditKey where
  | packed (word : UInt64)
  | bytes (bs : List UInt8)
  deriving DecidableEq, Repr

namespace EditKey

/-- How many half bytes a packed key holds; the top one of the word holds the length. -/
def packedMax : Nat := 15

/-- Whether every byte of a key fits in half a byte and the key is short enough. -/
def fits (bs : List UInt8) : Bool := bs.length ≤ packedMax && bs.all (· < 16)

/-- Half bytes in one number, the first one lowest. -/
def nibbles : List UInt8 → Nat
  | [] => 0
  | b :: bs => b.toNat + 16 * nibbles bs

/-- The first `n` half bytes of a number. -/
def unpack : Nat → Nat → List UInt8
  | 0, _ => []
  | n + 1, w => UInt8.ofNat (w % 16) :: unpack n (w / 16)

/-- The key over these bytes. -/
def ofBytes (bs : List UInt8) : EditKey :=
  if fits bs then packed (UInt64.ofNat ((bs.length <<< (4 * packedMax)) + nibbles bs)) else bytes bs

/-- The bytes of a key, the kind first. -/
def toBytes : EditKey → List UInt8
  | packed word => unpack (word.toNat >>> (4 * packedMax)) word.toNat
  | bytes bs => bs

def isPacked : EditKey → Bool
  | packed _ => true
  | bytes _ => false

/-- The word of a packed key. -/
def word? : EditKey → Option UInt64
  | packed word => some word
  | bytes _ => none

/-- The kind of the edit a key describes. -/
def kind (k : EditKey) : EditKind :=
  match k with
  | packed word => (EditKind.ofOrdinal? (word.toNat % 16)).getD default
  | bytes bs => (bs.head?.bind fun b => EditKind.ofOrdinal? b.toNat).getD default

/-- The operands as bytes. -/
def operands? (kind : EditKind) : List Nat → Except Violation (List UInt8)
  | [] => .ok []
  | v :: vs =>
    if v < 256 then (operands? kind vs).map (UInt8.ofNat v :: ·)
    else .error (.keyOperand v kind.name)

/-- The key of an edit; its operands are positions and ordinals, which have to fit in a byte. -/
def of (kind : EditKind) (operands : List Nat) : Except Violation EditKey :=
  (operands? kind operands).map fun bs => ofBytes (UInt8.ofNat kind.ordinal :: bs)

/-- A key as diagnostics show it. -/
def text (k : EditKey) : String :=
  k.kind.name ++ Violation.listText (k.toBytes.tail.map UInt8.toNat)

end EditKey

end HandleForms
