import HandleForms.Proofs.Text.Basic
import HandleForms.Ty.Text

/-!
# Types that are read back

A type that was read from a word is `Ty.Legible`: its own word is read as the same type
(`Legible.ofWord?_chars`), although a class may be named like anything that is no primitive. Where
descriptors are read before words, a class with the name of a descriptor never comes out
(`Readable.ofChars?_chars`).
-/

namespace HandleForms.Ty

open Text (trim isBlank)

variable {cs w : List Char} {c : Char} {t : Ty}

/-! ## Characters of words -/

/-- A type that some word is read as. -/
inductive Legible : Ty → Prop
  | primitive {t : Ty} (h : t.isPrimitive = true) : Legible t
  | cls {name : String} (hne : name.toList ≠ [])
      (hchars : ∀ c ∈ name.toList, isNameChar c = true)
      (hfree : ∀ t : Ty, t.isPrimitive = true → name.toList ≠ t.chars) : Legible (cls name)
  | array {element : Ty} (hvoid : element ≠ .void) (helement : Legible element) :
      Legible (array element)

theorem isBlank_of_isNameChar (h : isNameChar c = true) : isBlank c = false := by
  simp only [isNameChar, Bool.or_eq_true, beq_iff_eq] at h
  obtain (h | rfl) | rfl := h
  · exact Text.isBlank_of_isAlphanumeric h
  · decide
  · decide

theorem isNameChar_of_isPrimitive (h : t.isPrimitive = true) : ∀ c ∈ t.chars, isNameChar c = true := by
  refine List.all_eq_true.1 ?_
  cases t with
  | cls | array => cases h
  | _ => decide +kernel

theorem Legible.chars_ne_nil (h : t.Legible) : t.chars ≠ [] := by
  cases h with
  | primitive h =>
    cases t with
    | cls | array => cases h
    | _ => simp [chars]
  | cls hne => exact hne
  | array => simp [chars]

/-- A word starts with a character of a name. -/
theorem Legible.head (h : t.Legible) : ∃ c rest, t.chars = c :: rest ∧ isNameChar c = true := by
  induction h with
  | @primitive t h =>
    obtain ⟨c, rest, heq⟩ := List.exists_cons_of_ne_nil (Legible.primitive h).chars_ne_nil
    exact ⟨c, rest, heq, isNameChar_of_isPrimitive h c (by simp [heq])⟩
  | @cls name hne hchars hfree =>
    obtain ⟨c, rest, heq⟩ := List.exists_cons_of_ne_nil hne
    exact ⟨c, rest, heq, hchars c (by simp [heq])⟩
  | array hvoid helement ih =>
    obtain ⟨c, rest, heq, hc⟩ := ih
    exact ⟨c, rest ++ ['[', ']'], by rw [chars, heq, List.cons_append], hc⟩

/-- Words consist of the characters of names and of brackets. -/
theorem Legible.isNameChar_of_mem (h : t.Legible) (hc : c ∈ t.chars) :
    isNameChar c = true ∨ c = '[' ∨ c = ']' := by
  induction h with
  | primitive h => exact .inl (isNameChar_of_isPrimitive h c hc)
  | cls hne hchars => exact .inl (hchars c hc)
  | array hvoid helement ih =>
    rw [chars, List.mem_append] at hc
    rcases hc with hc | hc
    · exact ih hc
    · exact .inr (by simpa using hc)

theorem Legible.isBlank_of_mem (h : t.Legible) (hc : c ∈ t.chars) : isBlank c = false := by
  rcases h.isNameChar_of_mem hc with hc | rfl | rfl
  · exact isBlank_of_isNameChar hc
  · decide
  · decide

theorem Legible.trim_chars (h : t.Legible) : trim t.chars = t.chars :=
  Text.trim_of_forall fun _ => h.isBlank_of_mem

/-- What separates words in a text is not in them. -/
theorem Legible.not_mem_chars (h : t.Legible) (hname : isNameChar c = false) (hopen : c ≠ '[')
    (hclose : c ≠ ']') : c ∉ t.chars := by
  intro hc
  rcases h.isNameChar_of_mem hc with hc | hc | hc
  · rw [hname] at hc
    cases hc
  · exact hopen hc
  · exact hclose hc

/-! ## Reading words -/

theorem beforeBrackets?_append (w : List Char) : beforeBrackets? (w ++ ['[', ']']) = some w := by
  simp [beforeBrackets?]

theorem beforeBrackets?_of_isNameChar (h : ∀ c ∈ w, isNameChar c = true) :
    beforeBrackets? w = none := by
  cases hw : beforeBrackets? w with
  | none => rfl
  | some stem =>
    rw [beforeBrackets?_eq_some hw] at h
    exact absurd (h ']' (by simp)) (by decide +kernel)

/-- How a word is read, without a word about why this ends. -/
theorem ofWord?_eq (cs : List Char) : ofWord? cs =
    if (trim cs).isEmpty then none
    else match beforeBrackets? (trim cs) with
      | some stem => (ofWord? stem).bind arrayOf?
      | none => ofPlainWord? (trim cs) := by
  rw [ofWord?]
  split
  · rfl
  · split <;> simp_all

theorem ofPlainWord?_chars (h : t.isPrimitive = true) : ofPlainWord? t.chars = some t := by
  cases t with
  | cls | array => cases h
  | _ => rfl

/-- A word that is that of no primitive is the name of a class. -/
theorem ofPlainWord?_of_free (hfree : ∀ t : Ty, t.isPrimitive = true → w ≠ t.chars) :
    ofPlainWord? w = if w.all isNameChar then some (cls (String.ofList w)) else none := by
  simp [ofPlainWord?, hfree void rfl, hfree boolean rfl, hfree byte rfl, hfree short rfl,
    hfree char rfl, hfree int rfl, hfree long rfl, hfree float rfl, hfree double rfl]

theorem arrayOf?_eq_some_iff {element : Ty} :
    arrayOf? element = some t ↔ element ≠ void ∧ t = array element := by
  unfold arrayOf?
  cases element <;> simp [isVoid, eq_comm]

/-- What is read from a word without brackets is legible, and a class has the word as its name. -/
theorem legible_of_ofPlainWord? (hne : w ≠ []) (h : ofPlainWord? w = some t) :
    t.Legible ∧ ∀ name, t = cls name → name.toList = w := by
  by_cases hfree : ∀ t : Ty, t.isPrimitive = true → w ≠ t.chars
  · rw [ofPlainWord?_of_free hfree, Option.ite_none_right_eq_some, List.all_eq_true] at h
    obtain ⟨hchars, heq⟩ := h
    obtain rfl := Option.some.inj heq
    refine ⟨.cls (by simpa using hne) (by simpa using hchars) (by simpa using hfree), ?_⟩
    rintro name heq
    rw [← cls.inj heq, String.toList_ofList]
  · push Not at hfree
    obtain ⟨u, hu, rfl⟩ := hfree
    obtain rfl := Option.some.inj ((ofPlainWord?_chars hu).symm.trans h)
    refine ⟨.primitive hu, ?_⟩
    rintro name rfl
    cases hu

/-- What is read from a word is legible, and a class has the word as its name. -/
theorem legible_of_ofWord? (h : ofWord? cs = some t) :
    t.Legible ∧ ∀ name, t = cls name → name.toList = trim cs := by
  induction hlen : cs.length using Nat.strongRecOn generalizing cs t with
  | ind n ih =>
    rw [ofWord?_eq, Option.ite_none_left_eq_some, List.isEmpty_iff] at h
    obtain ⟨hne, h⟩ := h
    split at h
    · next stem hstem =>
      obtain ⟨element, helement, harray⟩ := Option.bind_eq_some_iff.1 h
      obtain ⟨hvoid, rfl⟩ := arrayOf?_eq_some_iff.1 harray
      -- The word in front of the brackets is shorter, so it is legible by induction.
      have hlt : stem.length < n := by
        have hstem := congrArg List.length (beforeBrackets?_eq_some hstem)
        have htrim := Text.length_trim_le cs
        rw [List.length_append, List.length_cons] at hstem
        omega
      exact ⟨.array hvoid (ih _ hlt helement rfl).1, nofun⟩
    · exact legible_of_ofPlainWord? hne h

theorem Legible.ofWord?_chars (h : t.Legible) : ofWord? t.chars = some t := by
  induction h with
  | @primitive t h =>
    have hlegible := Legible.primitive h
    rw [ofWord?_eq, hlegible.trim_chars, if_neg (by simpa using hlegible.chars_ne_nil),
      beforeBrackets?_of_isNameChar (isNameChar_of_isPrimitive h)]
    exact ofPlainWord?_chars h
  | @cls name hne hchars hfree =>
    rw [ofWord?_eq, (Legible.cls hne hchars hfree).trim_chars, if_neg (by simpa [chars] using hne),
      chars, beforeBrackets?_of_isNameChar hchars]
    simp only [ofPlainWord?_of_free hfree, List.all_eq_true.2 hchars, if_true, String.ofList_toList]
  | @array element hvoid helement ih =>
    rw [ofWord?_eq, (Legible.array hvoid helement).trim_chars, if_neg (by simp [chars]), chars,
      beforeBrackets?_append]
    exact Option.bind_eq_some_iff.2 ⟨element, ih, arrayOf?_eq_some_iff.2 ⟨hvoid, rfl⟩⟩

/-! ## Reading descriptors before words -/

theorem isNameChar_open : isNameChar '[' = false := by decide +kernel

theorem legible_object : object.Legible :=
  .cls (by simp [objectName]) (List.all_eq_true.1 (by decide +kernel)) (by
    intro t ht
    cases t with
    | cls | array => cases ht
    | _ => decide)

theorem legible_of_ofLetter? (h : ofLetter? c = some t) :
    t.Legible ∧ ∀ name, t = cls name → name = objectName := by
  unfold ofLetter? at h
  split at h
  case h_1 =>
    obtain rfl := Option.some.inj h
    exact ⟨legible_object, fun name heq => (cls.inj heq).symm⟩
  case h_11 => cases h
  all_goals
    obtain rfl := Option.some.inj h
    exact ⟨.primitive rfl, nofun⟩

/-- What is read from a descriptor is legible, and the only class among them is `Object`. -/
theorem legible_of_ofDescriptor? (h : ofDescriptor? cs = some t) :
    t.Legible ∧ ∀ name, t = cls name → name = objectName := by
  induction cs using ofDescriptor?.induct generalizing t with
  | case1 rest ih =>
    obtain ⟨element, helement, harray⟩ := Option.bind_eq_some_iff.1 h
    obtain ⟨hvoid, rfl⟩ := arrayOf?_eq_some_iff.1 harray
    exact ⟨.array hvoid (ih helement).1, nofun⟩
  | case2 c hc => exact legible_of_ofLetter? (by rwa [ofDescriptor?.eq_2 _ hc] at h)
  | case3 cs hopen hone => rw [ofDescriptor?.eq_3 _ hopen hone] at h; cases h

theorem ofDescriptor?_cons {rest : List Char} (hc : c ≠ '[') (hrest : rest ≠ []) :
    ofDescriptor? (c :: rest) = none := by
  unfold ofDescriptor?
  split
  · next heq => exact absurd (List.cons_eq_cons.1 heq).1 hc
  · next heq => exact absurd (List.cons_eq_cons.1 heq).2 hrest
  · rfl

/-- The word of a type is a descriptor only for a class with such a name. -/
theorem Legible.ofDescriptor?_chars (h : t.Legible)
    (hclass : ∀ name, t = .cls name → ofDescriptor? name.toList = none) :
    ofDescriptor? t.chars = none := by
  cases h with
  | primitive h =>
    cases t with
    | cls | array => cases h
    | _ => exact ofDescriptor?_cons (by decide) (by simp)
  | cls => exact hclass _ rfl
  | array hvoid helement =>
    -- A descriptor of more than one character starts with a bracket, and a word does not.
    obtain ⟨c, rest, heq, hc⟩ := helement.head
    rw [chars, heq, List.cons_append]
    refine ofDescriptor?_cons ?_ (by simp)
    rintro rfl
    rw [isNameChar_open] at hc
    cases hc

/-- A type that some text is read as where descriptors are read before words. -/
structure Readable (t : Ty) : Prop where
  legible : t.Legible
  /-- The word of the type is not taken for a descriptor. -/
  noDescriptor : ofDescriptor? t.chars = none

theorem readable_of_ofChars? (h : ofChars? (trim cs) = some t) : t.Readable := by
  rcases Option.or_eq_some_iff.1 h with h | ⟨hnone, h⟩
  · obtain ⟨hlegible, hobject⟩ := legible_of_ofDescriptor? h
    refine ⟨hlegible, hlegible.ofDescriptor?_chars fun name heq => ?_⟩
    rw [hobject name heq]
    exact ofDescriptor?_cons (by decide) (by simp)
  · obtain ⟨hlegible, hname⟩ := legible_of_ofWord? h
    refine ⟨hlegible, hlegible.ofDescriptor?_chars fun name heq => ?_⟩
    rwa [hname name heq, Text.trim_trim]

theorem Readable.ofChars?_chars (h : t.Readable) : ofChars? (trim t.chars) = some t := by
  rw [h.legible.trim_chars, ofChars?, h.noDescriptor, Option.none_or, h.legible.ofWord?_chars]

end HandleForms.Ty
