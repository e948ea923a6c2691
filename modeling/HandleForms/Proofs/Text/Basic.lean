import HandleForms.Text.Alphanumeric
import HandleForms.Text.Index
import HandleForms.Text.Split
import Mathlib.Data.List.Forall2

/-!
# Texts that are read back

What is written holds no blanks and no separators inside its parts. So trimming leaves it alone
(`trim_of_forall`), cutting it at the separators gives back the parts (`splitAll_join`), and a number
that fits in a machine word is read back from its digits (`index?_decimal`).
-/

namespace HandleForms.Text

variable {cs : List Char} {c sep : Char} {parts : List (List Char)}

/-! ## Blanks -/

/-- The code points of the blanks. -/
def blankPoints : List Nat :=
  List.range' 0x9 5 ++ [0x20, 0x85, 0xA0, 0x1680] ++ List.range' 0x2000 11 ++
    [0x2028, 0x2029, 0x202F, 0x205F, 0x3000]

theorem mem_blankPoints (h : isBlank c = true) : c.toNat ∈ blankPoints := by
  simp only [isBlank, Bool.or_eq_true, Bool.and_eq_true, decide_eq_true_eq, beq_iff_eq] at h
  simp only [blankPoints, List.mem_append, List.mem_range'_1, List.mem_cons, List.not_mem_nil]
  omega

theorem isAlphanumeric_blankPoints : ∀ n ∈ blankPoints, isAlphanumeric (Char.ofNat n) = false := by
  decide +kernel

theorem isBlank_of_isAlphanumeric (h : isAlphanumeric c = true) : isBlank c = false := by
  refine Bool.eq_false_iff.2 fun hblank => ?_
  have hfalse := isAlphanumeric_blankPoints _ (mem_blankPoints hblank)
  rw [Char.ofNat_toNat, h] at hfalse
  cases hfalse

theorem isBlank_of_isDigit (h : c.isDigit = true) : isBlank c = false :=
  isBlank_of_isAlphanumeric (isAlphanumeric_of_isAlphanum (by simp [Char.isAlphanum, h]))

/-! ## Trimming -/

theorem dropWhile_of_head {p : Char → Bool} (h : ∀ c, cs.head? = some c → p c = false) :
    cs.dropWhile p = cs := by
  cases cs with
  | nil => rfl
  | cons c cs => rw [List.dropWhile_cons, if_neg (by simp [h c rfl])]

theorem head?_dropWhile {p : Char → Bool} (h : (cs.dropWhile p).head? = some c) : p c = false := by
  have hnot := List.head?_dropWhile_not p cs
  rwa [h] at hnot

/-- A text with no blank at either end. -/
structure Trimmed (cs : List Char) : Prop where
  head : ∀ c, cs.head? = some c → isBlank c = false
  last : ∀ c, cs.getLast? = some c → isBlank c = false

theorem Trimmed.trim_eq (h : Trimmed cs) : trim cs = cs := by
  rw [trim, dropWhile_of_head h.head, trimEnd,
    dropWhile_of_head fun c hc => h.last c (by rwa [List.head?_reverse] at hc), List.reverse_reverse]

theorem trimmed_trim (cs : List Char) : Trimmed (trim cs) where
  head c hc := by
    -- What is left in front of the blanks at the end starts as the text does.
    obtain ⟨rest, hrest⟩ : trim cs <+: cs.dropWhile isBlank :=
      List.reverse_suffix.1 (by
        rw [trim, trimEnd, List.reverse_reverse]
        exact List.dropWhile_suffix isBlank)
    have hhead : (cs.dropWhile isBlank).head? = some c := by
      rw [← hrest, List.head?_append, hc]
      rfl
    exact head?_dropWhile hhead
  last c hc := by
    rw [trim, trimEnd, List.getLast?_reverse] at hc
    exact head?_dropWhile hc

@[simp] theorem trim_trim (cs : List Char) : trim (trim cs) = trim cs := (trimmed_trim cs).trim_eq

theorem trim_of_forall (h : ∀ c ∈ cs, isBlank c = false) : trim cs = cs :=
  Trimmed.trim_eq ⟨fun c hc => h c (List.mem_of_mem_head? hc),
    fun c hc => h c (List.mem_of_getLast? hc)⟩

/-! ## Cutting -/

theorem join_cons (sep part : List Char) (h : parts ≠ []) :
    join sep (part :: parts) = part ++ sep ++ join sep parts := by
  cases parts with
  | nil => exact absurd rfl h
  | cons _ _ => rfl

theorem join_eq_intercalate (sep : List Char) (parts : List (List Char)) :
    join sep parts = sep.intercalate parts := by
  induction parts with
  | nil => rfl
  | cons part parts ih =>
    cases parts with
    | nil => simp [join, List.intercalate]
    | cons next parts =>
      rw [join_cons _ _ (by simp), ih]
      simp [List.intercalate]

theorem mem_join {sep : List Char} (h : c ∈ join sep parts) :
    c ∈ sep ∨ ∃ part ∈ parts, c ∈ part := by
  induction parts with
  | nil => simp [join] at h
  | cons part parts ih =>
    cases parts with
    | nil => exact .inr ⟨part, List.mem_singleton_self _, h⟩
    | cons next parts =>
      rw [join_cons _ _ (by simp), List.mem_append, List.mem_append] at h
      rcases h with (h | h) | h
      · exact .inr ⟨part, List.mem_cons_self .., h⟩
      · exact .inl h
      · exact (ih h).imp_right fun ⟨p, hp, hc⟩ => ⟨p, List.mem_cons_of_mem _ hp, hc⟩

theorem splitAll_of_not_mem (h : sep ∉ cs) : splitAll sep cs = [cs] := by
  induction cs with
  | nil => rfl
  | cons c cs ih =>
    obtain ⟨hc, hcs⟩ := not_or.1 (mt List.mem_cons.2 h)
    rw [splitAll, if_neg (Ne.symm hc), ih hcs]

theorem splitAll_append (h : sep ∉ cs) (rest : List Char) :
    splitAll sep (cs ++ sep :: rest) = cs :: splitAll sep rest := by
  induction cs with
  | nil => simp [splitAll]
  | cons c cs ih =>
    obtain ⟨hc, hcs⟩ := not_or.1 (mt List.mem_cons.2 h)
    rw [List.cons_append, splitAll, if_neg (Ne.symm hc), ih hcs]

/-- The parts of a text that is put together are cut out again. -/
theorem splitAll_join (hne : parts ≠ []) (h : ∀ part ∈ parts, sep ∉ part) :
    splitAll sep (join [sep] parts) = parts := by
  induction parts with
  | nil => exact absurd rfl hne
  | cons part parts ih =>
    obtain ⟨hpart, hparts⟩ := List.forall_mem_cons.1 h
    cases parts with
    | nil => exact splitAll_of_not_mem hpart
    | cons next parts =>
      rw [join_cons _ _ (by simp), List.append_assoc, List.singleton_append, splitAll_append hpart,
        ih (by simp) hparts]

/-- A text that holds a separator has more than one part. -/
theorem one_lt_length_splitAll (h : sep ∈ cs) : 1 < (splitAll sep cs).length := by
  induction cs with
  | nil => cases h
  | cons c cs ih =>
    have hpos := List.length_pos_iff.2 (splitAll_ne_nil sep cs)
    by_cases hc : c = sep
    · rw [splitAll, if_pos hc, List.length_cons]
      omega
    · have hcs := ih ((List.mem_cons.1 h).resolve_left (Ne.symm hc))
      rw [splitAll, if_neg hc]
      split
      · next hnil => exact absurd hnil (splitAll_ne_nil sep cs)
      · next hparts => rwa [hparts, List.length_cons] at hcs

theorem mapM_eq_some_iff {α β : Type} {f : α → Option β} {as : List α} {bs : List β} :
    as.mapM f = some bs ↔ List.Forall₂ (fun a b => f a = some b) as bs := by
  induction as generalizing bs with
  | nil => simp [eq_comm]
  | cons a as ih =>
    simp only [List.mapM_cons, Option.bind_eq_bind, Option.bind_eq_some_iff, ih, Option.pure_def,
      Option.some.injEq]
    constructor
    · rintro ⟨b, hb, bs, hbs, rfl⟩
      exact .cons hb hbs
    · rintro (_ | ⟨hb, hbs⟩)
      exact ⟨_, hb, _, hbs, rfl⟩

/-! ## Numbers -/

theorem digitsFrom?_of_forall (h : ∀ c ∈ cs, c.isDigit = true) (acc : Nat) :
    digitsFrom? acc cs = some (Nat.ofDigitChars 10 cs acc) := by
  induction cs generalizing acc with
  | nil => rfl
  | cons c cs ih =>
    obtain ⟨hc, hcs⟩ := List.forall_mem_cons.1 h
    rw [digitsFrom?, if_pos hc, ih hcs, Nat.mul_comm]
    rfl

theorem isDigit_of_mem_decimal {n : Nat} (h : c ∈ (decimal n).toList) : c.isDigit = true := by
  rw [decimal, String.toList_ofList] at h
  exact Nat.isDigit_of_mem_toDigits (by omega) (by omega) h

theorem natural?_decimal (n : Nat) : natural? (decimal n).toList = some n := by
  have hdigits : ∀ c ∈ (decimal n).toList, c.isDigit = true := fun c => isDigit_of_mem_decimal
  have hread := digitsFrom?_of_forall hdigits 0
  have hvalue : Nat.ofDigitChars 10 (decimal n).toList 0 = n := by
    rw [decimal, String.toList_ofList, Nat.ofDigitChars_toDigits (by omega) (by omega)]
  rw [hvalue] at hread
  cases hcs : (decimal n).toList with
  | nil => simp [decimal] at hcs
  | cons c cs =>
    -- The first digit is not taken for a sign.
    have hplus : c ≠ '+' := by
      rintro rfl
      exact absurd (hdigits '+' (by simp [hcs])) (by decide)
    rw [hcs] at hread
    unfold natural?
    split
    · next heq => exact absurd (List.cons_eq_cons.1 heq).1 hplus
    · exact hread

/-- A number that fits in a machine word is read back. -/
theorem index?_decimal {n : Nat} (h : n < wordCount) : index? (decimal n).toList = some n := by
  rw [index?, trim_of_forall fun c hc => isBlank_of_isDigit (isDigit_of_mem_decimal hc),
    natural?_decimal, Option.filter_some, if_pos (by simpa using h)]

/-- A number that is read fits in a machine word. -/
theorem lt_wordCount_of_index? {n : Nat} (h : index? cs = some n) : n < wordCount := by
  simpa using (Option.filter_eq_some_iff.1 h).2

end HandleForms.Text
