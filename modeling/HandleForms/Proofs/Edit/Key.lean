import Mathlib.Algebra.Group.Nat.Defs
import HandleForms.Edit.Key
import HandleForms.Proofs.Outcome

/-!
# Keys are faithful

A key gives back the bytes that it was made over, packed or not (`toBytes_ofBytes`). So it tells
apart edits of different kinds and with different operands (`of_inj`).
-/

namespace HandleForms.EditKey

variable {bs : List UInt8} {kind : EditKind} {vs : List Nat} {key : EditKey}

theorem nibbles_lt (h : ∀ b ∈ bs, b < 16) : nibbles bs < 16 ^ bs.length := by
  induction bs with
  | nil => exact Nat.one_pos
  | cons b bs ih =>
    have hb : b.toNat < 16 := UInt8.lt_iff_toNat_lt.1 (h b (List.mem_cons_self ..))
    have hbs := ih fun c hc => h c (List.mem_cons_of_mem _ hc)
    simp only [nibbles, List.length_cons, Nat.pow_succ]
    omega

/-- Half bytes are read back, whatever stands above them. -/
theorem unpack_nibbles (h : ∀ b ∈ bs, b < 16) (above : Nat) :
    unpack bs.length (nibbles bs + 16 ^ bs.length * above) = bs := by
  induction bs with
  | nil => rfl
  | cons b bs ih =>
    have hb : b.toNat < 16 := UInt8.lt_iff_toNat_lt.1 (h b (List.mem_cons_self ..))
    -- The lowest half byte is the first byte, and above it stands the same with one byte less.
    have hsplit : nibbles (b :: bs) + 16 ^ (b :: bs).length * above =
        b.toNat + 16 * (nibbles bs + 16 ^ bs.length * above) := by
      rw [nibbles, List.length_cons, Nat.pow_succ, Nat.mul_add, ← Nat.mul_assoc 16,
        Nat.mul_comm 16 (16 ^ bs.length), Nat.add_assoc]
    have hlow : (b.toNat + 16 * (nibbles bs + 16 ^ bs.length * above)) % 16 = b.toNat := by omega
    have hhigh : (b.toNat + 16 * (nibbles bs + 16 ^ bs.length * above)) / 16 =
        nibbles bs + 16 ^ bs.length * above := by omega
    rw [hsplit, List.length_cons, unpack, hlow, hhigh, ih fun c hc => h c (List.mem_cons_of_mem _ hc)]
    simp

theorem fits_iff : fits bs = true ↔ bs.length ≤ packedMax ∧ ∀ b ∈ bs, b < 16 := by
  simp [fits]

/-- A key gives back the bytes that it was made over. -/
theorem toBytes_ofBytes (bs : List UInt8) : (ofBytes bs).toBytes = bs := by
  unfold ofBytes
  split
  · next h =>
    obtain ⟨hlen, hbs⟩ := fits_iff.1 h
    have hlt := nibbles_lt hbs
    have hpow : 16 ^ bs.length * 16 ^ (packedMax - bs.length) = 16 ^ packedMax := by
      rw [← Nat.pow_add, Nat.add_sub_cancel' hlen]
    have hle : 16 ^ bs.length ≤ 16 ^ packedMax := Nat.pow_le_pow_right (by omega) hlen
    have hword : bs.length * 16 ^ packedMax + nibbles bs < 2 ^ 64 := by
      have hlen : bs.length ≤ 15 := hlen
      have hpow : (16 : Nat) ^ packedMax = 2 ^ 60 := rfl
      rw [hpow] at hle ⊢
      omega
    -- What stands below the top half byte is too small to reach it.
    have htop : (bs.length * 16 ^ packedMax + nibbles bs) / 16 ^ packedMax = bs.length := by
      rw [Nat.mul_comm, Nat.mul_add_div (Nat.pow_pos (by omega)),
        Nat.div_eq_of_lt (Nat.lt_of_lt_of_le hlt hle), Nat.add_zero]
    have hshift : 2 ^ (4 * packedMax) = 16 ^ packedMax := rfl
    rw [toBytes, Nat.shiftLeft_eq, Nat.shiftRight_eq_div_pow, hshift,
      UInt64.toNat_ofNat_of_lt' hword, htop, Nat.add_comm, ← hpow, Nat.mul_left_comm]
    exact unpack_nibbles hbs _
  · rfl

theorem ofBytes_inj {as bs : List UInt8} (h : ofBytes as = ofBytes bs) : as = bs := by
  rw [← toBytes_ofBytes as, h, toBytes_ofBytes]

/-! ## The word of a packed key -/

/-- Ors bytes into a word, each at its own half byte, from half byte `i` on. -/
def orNibbles (word : UInt64) (i : Nat) : List UInt8 → UInt64
  | [] => word
  | b :: bs => orNibbles (word ||| b.toUInt64 <<< UInt64.ofNat (4 * i)) (i + 1) bs

/-- The word of a packed key as it is put together: the length in the top half byte, and below it
each byte at its own half byte. -/
def packWord (bs : List UInt8) : UInt64 :=
  orNibbles (UInt64.ofNat bs.length <<< UInt64.ofNat (4 * packedMax)) 0 bs

theorem add_nibble_lt {low b i : Nat} (hlow : low < 16 ^ i) (hb : b < 16) :
    low + 16 ^ i * b < 16 ^ (i + 1) := by
  have hle : 16 ^ i * b ≤ 16 ^ i * 15 := Nat.mul_le_mul_left _ (Nat.le_of_lt_succ hb)
  rw [Nat.pow_succ]
  omega

/-- A half byte in its place does not touch what stands above and below it. -/
theorem toNat_or_nibble {word : UInt64} {b : UInt8} {i top low : Nat} (hi : i < packedMax)
    (hb : b.toNat < 16) (hlow : low < 16 ^ i)
    (hword : word.toNat = top <<< (4 * packedMax) + low) :
    (word ||| b.toUInt64 <<< UInt64.ofNat (4 * i)).toNat =
      top <<< (4 * packedMax) + (low + 16 ^ i * b.toNat) := by
  have hpow : 2 ^ (4 * i) = 16 ^ i := Nat.pow_mul 2 4 i
  have hbelow : low + 16 ^ i * b.toNat < 2 ^ (4 * packedMax) :=
    Nat.lt_of_lt_of_le (add_nibble_lt hlow hb) (Nat.pow_le_pow_right (by omega) hi)
  have hplace : (b.toUInt64 <<< UInt64.ofNat (4 * i)).toNat = b.toNat <<< (4 * i) := by
    have hshift : 4 * i < 64 := by
      have : i < 15 := hi
      omega
    have hlt : b.toNat <<< (4 * i) < 2 ^ 64 := by
      have : 2 ^ (4 * packedMax) < 2 ^ 64 := by decide
      rw [Nat.shiftLeft_eq, hpow, Nat.mul_comm]
      omega
    rw [UInt64.toNat_shiftLeft, UInt64.toNat_ofNat_of_lt' (Nat.lt_trans hshift (by decide)),
      Nat.mod_eq_of_lt hshift, UInt8.toNat_toUInt64, Nat.mod_eq_of_lt hlt]
  -- The byte starts where `low` ends, so that an or is a sum.
  have hor : low ||| b.toNat <<< (4 * i) = low + 16 ^ i * b.toNat := by
    rw [Nat.or_comm, ← Nat.shiftLeft_add_eq_or_of_lt (by rw [hpow]; exact hlow), Nat.shiftLeft_eq,
      hpow, Nat.mul_comm, Nat.add_comm]
  have hlt : low < 2 ^ (4 * packedMax) := Nat.lt_of_le_of_lt (Nat.le_add_right ..) hbelow
  rw [UInt64.toNat_or, hword, hplace, Nat.shiftLeft_add_eq_or_of_lt hlt, Nat.or_assoc, hor,
    Nat.shiftLeft_add_eq_or_of_lt hbelow]

theorem toNat_orNibbles {word : UInt64} {i top low : Nat} (hlen : i + bs.length ≤ packedMax)
    (hbs : ∀ b ∈ bs, b < 16) (hlow : low < 16 ^ i)
    (hword : word.toNat = top <<< (4 * packedMax) + low) :
    (orNibbles word i bs).toNat = top <<< (4 * packedMax) + (low + 16 ^ i * nibbles bs) := by
  induction bs generalizing word i low with
  | nil => simpa [orNibbles, nibbles] using hword
  | cons b bs ih =>
    obtain ⟨hb, hbs⟩ := List.forall_mem_cons.1 hbs
    have hb : b.toNat < 16 := UInt8.lt_iff_toNat_lt.1 hb
    rw [List.length_cons] at hlen
    -- What is written so far and the byte are what is written for the rest.
    have hrest := ih (i := i + 1) (by omega) hbs (add_nibble_lt hlow hb)
      (toNat_or_nibble (by omega) hb hlow hword)
    rw [orNibbles, hrest, nibbles, Nat.pow_succ, Nat.mul_add, Nat.mul_assoc, Nat.add_assoc]

/-- The word of a packed key keeps every byte apart from the others and from the length. -/
theorem ofBytes_of_fits (h : fits bs = true) : ofBytes bs = packed (packWord bs) := by
  obtain ⟨hlen, hbs⟩ := fits_iff.1 h
  have hlength : (UInt64.ofNat bs.length <<< UInt64.ofNat (4 * packedMax)).toNat =
      bs.length <<< (4 * packedMax) + 0 := by
    have hlen : bs.length ≤ 15 := hlen
    rw [UInt64.toNat_shiftLeft, UInt64.toNat_ofNat_of_lt' (show bs.length < 2 ^ 64 by omega)]
    refine Nat.mod_eq_of_lt ?_
    show bs.length <<< 60 < 2 ^ 64
    rw [Nat.shiftLeft_eq]
    omega
  have hword := toNat_orNibbles (i := 0) (by rwa [Nat.zero_add]) hbs Nat.one_pos hlength
  rw [Nat.zero_add, Nat.pow_zero, Nat.one_mul] at hword
  rw [ofBytes, if_pos h, packWord, ← hword, UInt64.ofNat_toNat]

/-! ## What a key tells -/

@[simp] theorem isPacked_ofBytes (bs : List UInt8) : (ofBytes bs).isPacked = fits bs := by
  unfold ofBytes
  split
  · next h => rw [h, isPacked]
  · next h => rw [Bool.of_not_eq_true h, isPacked]

theorem word?_ofBytes {word : UInt64} (h : (ofBytes bs).word? = some word) : word = packWord bs := by
  by_cases hfits : fits bs
  · rw [ofBytes_of_fits hfits] at h
    exact (Option.some.inj h).symm
  · rw [ofBytes, if_neg hfits] at h
    cases h

/-- The kind of a key is read off its first byte, packed or not. -/
theorem kind_ofBytes (b : UInt8) (bs : List UInt8) :
    (ofBytes (b :: bs)).kind = (EditKind.ofOrdinal? b.toNat).getD default := by
  have hbytes := toBytes_ofBytes (b :: bs)
  by_cases h : fits (b :: bs)
  · rw [ofBytes_of_fits h] at hbytes ⊢
    rw [toBytes] at hbytes
    cases hlen : (packWord (b :: bs)).toNat >>> (4 * packedMax) with
    -- A key without bytes was not made over one.
    | zero => simp [hlen, unpack] at hbytes
    | succ n =>
      rw [hlen, unpack] at hbytes
      have hfirst := congrArg UInt8.toNat (List.cons_eq_cons.1 hbytes).1
      rw [UInt8.toNat_ofNat_of_lt' (Nat.lt_trans (Nat.mod_lt _ (by omega)) (by decide))] at hfirst
      rw [kind, hfirst]
  · rw [ofBytes, if_neg h]
    rfl

/-! ## Keys of kinds and operands -/

theorem operands?_eq_ok_iff {bs : List UInt8} :
    operands? kind vs = .ok bs ↔ (∀ v ∈ vs, v < 256) ∧ bs = vs.map UInt8.ofNat := by
  induction vs generalizing bs with
  | nil => simp [operands?, eq_comm]
  | cons v vs ih =>
    by_cases hv : v < 256
    · rw [operands?, if_pos hv, map_eq_ok_iff]
      simp only [ih, List.forall_mem_cons, hv, true_and, List.map_cons]
      constructor
      · rintro ⟨cs, ⟨hvs, rfl⟩, rfl⟩
        exact ⟨hvs, rfl⟩
      · rintro ⟨hvs, rfl⟩
        exact ⟨_, ⟨hvs, rfl⟩, rfl⟩
    · simp [operands?, hv]

/-- A key is made when every operand fits in a byte. -/
theorem of_eq_ok_iff : of kind vs = .ok key ↔
    (∀ v ∈ vs, v < 256) ∧ key = ofBytes (UInt8.ofNat kind.ordinal :: vs.map UInt8.ofNat) := by
  rw [of, map_eq_ok_iff]
  simp only [operands?_eq_ok_iff]
  constructor
  · rintro ⟨bs, ⟨hvs, rfl⟩, rfl⟩
    exact ⟨hvs, rfl⟩
  · rintro ⟨hvs, rfl⟩
    exact ⟨_, ⟨hvs, rfl⟩, rfl⟩

theorem map_ofNat_inj {vs ws : List Nat} (hvs : ∀ v ∈ vs, v < 256) (hws : ∀ w ∈ ws, w < 256)
    (h : vs.map UInt8.ofNat = ws.map UInt8.ofNat) : vs = ws := by
  induction vs generalizing ws with
  | nil =>
    cases ws with
    | nil => rfl
    | cons w ws => simp at h
  | cons v vs ih =>
    cases ws with
    | nil => simp at h
    | cons w ws =>
      obtain ⟨hv, hvs⟩ := List.forall_mem_cons.1 hvs
      obtain ⟨hw, hws⟩ := List.forall_mem_cons.1 hws
      obtain ⟨hhead, htail⟩ := List.cons_eq_cons.1 h
      have hhead := congrArg UInt8.toNat hhead
      rw [UInt8.toNat_ofNat_of_lt' hv, UInt8.toNat_ofNat_of_lt' hw] at hhead
      rw [hhead, ih hvs hws htail]

/-- Keys tell edits of different kinds and with different operands apart. -/
theorem of_inj {kind' : EditKind} {ws : List Nat} (h : of kind vs = .ok key)
    (h' : of kind' ws = .ok key) : kind = kind' ∧ vs = ws := by
  obtain ⟨hvs, rfl⟩ := of_eq_ok_iff.1 h
  obtain ⟨hws, heq⟩ := of_eq_ok_iff.1 h'
  obtain ⟨hkind, hops⟩ := List.cons_eq_cons.1 (ofBytes_inj heq)
  refine ⟨?_, map_ofNat_inj hvs hws hops⟩
  revert hkind
  cases kind <;> cases kind' <;> decide

end HandleForms.EditKey
