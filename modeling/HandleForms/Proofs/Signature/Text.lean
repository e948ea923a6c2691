import HandleForms.Proofs.Signature.Basic
import HandleForms.Proofs.Ty.Text
import HandleForms.Signature.Text

/-!
# Signatures that are read back

A parameter list of one word is read as descriptors when it consists of nothing else, so a single
parameter with such a word never comes out of one (`readable_of_params?`). The text of a signature
that was read is read as the same signature (`Readable.parse_text`), and so is the shorthand of a
basic one (`parse_shorthand`).
-/

namespace HandleForms.Signature

open Text (trim join splitAll)
open Ty (isNameChar Legible)

variable {cs : List Char} {t : Ty} {ts : List Ty} {s : Signature}

/-! ## Parameter lists -/

/-- A type whose word is not taken for a list of descriptors. -/
def NoDescriptors (t : Ty) : Prop := t.chars.all isDescriptorChar = false

theorem noDescriptors_of_legible (h : t.Legible)
    (hclass : ∀ name, t = .cls name → name.toList.all isDescriptorChar = false) :
    NoDescriptors t := by
  cases h with
  | primitive h =>
    cases t with
    | cls | array => cases h
    | _ => rfl
  | cls => exact hclass _ rfl
  | array hvoid helement =>
    refine List.all_eq_false.2 ⟨']', by simp [Ty.chars], ?_⟩
    decide

/-- Types that a parameter list is read as. -/
structure ReadableParams (ts : List Ty) : Prop where
  legible : ∀ t ∈ ts, t.Legible
  single : ∀ t, ts = [t] → NoDescriptors t

/-- Descriptors name no class but `Object`, and its word is none of them. -/
theorem readable_of_descriptors? {brackets : List Char} (h : descriptors? brackets cs = some ts) :
    ∀ t ∈ ts, t.Legible ∧ NoDescriptors t := by
  induction brackets, cs using descriptors?.induct generalizing ts with
  | case1 brackets hempty =>
    rw [descriptors?, if_pos hempty] at h
    obtain rfl := Option.some.inj h
    exact nofun
  | case2 brackets hempty =>
    rw [descriptors?, if_neg hempty] at h
    cases h
  | case3 brackets rest ih => exact ih (by rwa [descriptors?] at h)
  | case4 brackets c rest hc t us hrest hfirst ih =>
    rw [descriptors?.eq_3 _ _ _ hc, hfirst, hrest] at h
    obtain rfl := Option.some.inj h
    obtain ⟨hlegible, hobject⟩ := Ty.legible_of_ofDescriptor? hfirst
    refine List.forall_mem_cons.2 ⟨⟨hlegible, noDescriptors_of_legible hlegible ?_⟩, ih hrest⟩
    intro name heq
    rw [hobject name heq]
    decide
  | case5 brackets c rest hc hnone ih =>
    rw [descriptors?.eq_3 _ _ _ hc] at h
    split at h
    · next t us hfirst hrest => exact absurd hrest (hnone t us hfirst)
    · cases h

theorem legible_of_mapM {parts : List (List Char)} (h : parts.mapM Ty.ofWord? = some ts) :
    ∀ t ∈ ts, t.Legible := by
  intro t ht
  obtain ⟨i, hi, rfl⟩ := List.mem_iff_getElem.1 ht
  have hforall := Text.mapM_eq_some_iff.1 h
  exact (Ty.legible_of_ofWord? ((List.forall₂_iff_get.1 hforall).2 i
    (by rw [hforall.length_eq]; exact hi) hi)).1

theorem readable_of_params? (h : params? cs = some ts) : ReadableParams ts := by
  unfold params? at h
  simp only at h
  split at h
  · obtain rfl := Option.some.inj h
    exact ⟨nofun, nofun⟩
  split at h
  · next hcomma =>
    refine ⟨legible_of_mapM h, ?_⟩
    rintro t rfl
    have hlen := (Text.mapM_eq_some_iff.1 h).length_eq
    have := Text.one_lt_length_splitAll (List.contains_iff_mem.1 hcomma)
    simp at hlen
    omega
  next hcomma =>
  split at h
  · have hall := readable_of_descriptors? h
    refine ⟨fun t ht => (hall t ht).1, ?_⟩
    rintro t rfl
    exact (hall t (List.mem_singleton_self t)).2
  · next hdescriptors =>
    obtain ⟨t, ht, rfl⟩ := Option.map_eq_some_iff.1 h
    obtain ⟨hlegible, hname⟩ := Ty.legible_of_ofWord? ht
    refine ⟨List.forall_mem_singleton.2 hlegible, ?_⟩
    rintro u heq
    obtain rfl := List.singleton_inj.1 heq
    refine noDescriptors_of_legible hlegible fun name heq => ?_
    rw [hname name heq, Text.trim_trim]
    exact Bool.eq_false_iff.2 hdescriptors

/-- Words between commas have no character that stands between them. -/
theorem isBlank_of_mem_join (h : ∀ t ∈ ts, t.Legible) {c : Char}
    (hc : c ∈ join [','] (ts.map Ty.chars)) : Text.isBlank c = false := by
  rcases Text.mem_join hc with hc | ⟨part, hpart, hc⟩
  · obtain rfl := List.mem_singleton.1 hc
    decide
  · obtain ⟨t, ht, rfl⟩ := List.mem_map.1 hpart
    exact (h t ht).isBlank_of_mem hc

theorem not_mem_join (h : ∀ t ∈ ts, t.Legible) : ')' ∉ join [','] (ts.map Ty.chars) := by
  intro hc
  rcases Text.mem_join hc with hc | ⟨part, hpart, hc⟩
  · cases List.mem_singleton.1 hc
  · obtain ⟨t, ht, rfl⟩ := List.mem_map.1 hpart
    exact (h t ht).not_mem_chars (by decide +kernel) (by decide) (by decide) hc

theorem not_comma_mem (h : t.Legible) : ',' ∉ t.chars :=
  h.not_mem_chars (by decide +kernel) (by decide) (by decide)

theorem ReadableParams.params?_join (h : ReadableParams ts) :
    params? (join [','] (ts.map Ty.chars)) = some ts := by
  have htrim := Text.trim_of_forall fun c => isBlank_of_mem_join h.legible (c := c)
  match ts, h with
  | [], _ => rfl
  | [t], h =>
    -- One word: neither a comma nor descriptors only.
    have hlegible := h.legible t (List.mem_singleton_self t)
    have hword : join [','] ([t].map Ty.chars) = t.chars := rfl
    rw [hword] at htrim ⊢
    have hcomma : t.chars.contains ',' = false := by simpa using not_comma_mem hlegible
    have hdescriptors : t.chars.all isDescriptorChar = false := h.single t rfl
    simp only [params?, htrim, List.isEmpty_iff, hlegible.chars_ne_nil, if_false, hcomma,
      Bool.false_eq_true, hdescriptors, hlegible.ofWord?_chars, Option.map_some]
  | t :: u :: ts, h =>
    -- Words between commas: the parts are the words again.
    have hcomma : (join [','] ((t :: u :: ts).map Ty.chars)).contains ',' = true := by
      simp [Text.join_cons]
    have hsplit : splitAll ',' (join [','] ((t :: u :: ts).map Ty.chars)) =
        (t :: u :: ts).map Ty.chars := by
      refine Text.splitAll_join (by simp) ?_
      intro part hpart
      obtain ⟨v, hv, rfl⟩ := List.mem_map.1 hpart
      exact not_comma_mem (h.legible v hv)
    have hread : ((t :: u :: ts).map Ty.chars).mapM Ty.ofWord? = some (t :: u :: ts) := by
      refine Text.mapM_eq_some_iff.2 (List.forall₂_map_left_iff.2 (List.forall₂_same.2 ?_))
      intro v hv
      exact (h.legible v hv).ofWord?_chars
    have hne : (join [','] ((t :: u :: ts).map Ty.chars)).isEmpty = false := by
      simp [Text.join_cons]
    simp only [params?, htrim, hne, hcomma, if_true, Bool.false_eq_true, if_false, hsplit, hread]

/-! ## Signatures -/

/-- A signature that some text is read as. -/
structure Readable (s : Signature) : Prop where
  params : ReadableParams s.params
  ret : s.ret.Readable

theorem readable_of_parse {input : String} (h : parse input = .ok s) : s.Readable := by
  unfold parse at h
  split at h
  · cases h
  next params ret htypes =>
  obtain ⟨rfl, rfl⟩ := ofTypes_eq_ok_iff.1 h
  unfold types? at htypes
  split at htypes
  · split at htypes
    · cases htypes
    split at htypes
    · cases htypes
    next params hparams =>
    split at htypes
    · cases htypes
    next ret hret =>
    cases htypes
    exact ⟨readable_of_params? hparams, Ty.readable_of_ofChars? hret⟩
  · cases htypes

theorem Readable.types?_chars (h : s.Readable) : types? s.chars = .ok (s.params, s.ret) := by
  have htrim : trim s.chars = s.chars := by
    refine Text.trim_of_forall ?_
    intro c hc
    simp only [chars, List.mem_cons, List.mem_append] at hc
    rcases hc with rfl | hc | rfl | hc
    · decide
    · exact isBlank_of_mem_join h.params.legible hc
    · decide
    · exact h.ret.legible.isBlank_of_mem hc
  rw [types?, htrim, chars]
  simp only [Text.splitOnce_append (not_mem_join h.params.legible), h.params.params?_join,
    h.ret.ofChars?_chars]

/-- The text of a signature that was read is read as it. -/
theorem Readable.parse_text (h : s.Readable) : parse s.text = .ok s := by
  rw [parse, text, String.toList_ofList, h.types?_chars]
  exact ofTypes_params_ret s

/-! ## Shorthand -/

/-- A type that stands for a basic type is the one that its letter is read as. -/
theorem ofLetter?_ty (b : BasicType) : Ty.ofLetter? b.letter = some b.ty := by
  cases b <;> rfl

/-- Letters are descriptors, and nothing else that separates the parts of a signature. -/
theorem letter_properties (b : BasicType) :
    b.letter ≠ '[' ∧ b.letter ≠ ',' ∧ b.letter ≠ ')' ∧ isDescriptorChar b.letter = true ∧
      Text.isBlank b.letter = false := by
  cases b <;> decide

theorem descriptors?_letters (bs : List BasicType) :
    descriptors? [] (bs.map BasicType.letter) = some (bs.map BasicType.ty) := by
  induction bs with
  | nil => rfl
  | cons b bs ih =>
    have hfirst : Ty.ofDescriptor? ([] ++ [b.letter]) = some b.ty := by
      rw [List.nil_append, Ty.ofDescriptor?.eq_2 _ (letter_properties b).1]
      exact ofLetter?_ty b
    rw [List.map_cons, descriptors?.eq_3 _ _ _ (letter_properties b).1, ih, hfirst]
    rfl

/-- A list of letters has no comma, so it is read one descriptor after the other. -/
theorem params?_letters (bs : List BasicType) :
    params? (bs.map BasicType.letter) = some (bs.map BasicType.ty) := by
  have hmem {p : Char → Prop} (hp : ∀ b : BasicType, p b.letter) :
      ∀ c ∈ bs.map BasicType.letter, p c := List.forall_mem_map.2 fun b _ => hp b
  have htrim : trim (bs.map BasicType.letter) = bs.map BasicType.letter :=
    Text.trim_of_forall (hmem fun b => (letter_properties b).2.2.2.2)
  have hcomma : (bs.map BasicType.letter).contains ',' = false := by
    refine Bool.eq_false_iff.2 fun hc => ?_
    exact hmem (p := (· ≠ ',')) (fun b => (letter_properties b).2.1) _
      (List.contains_iff_mem.1 hc) rfl
  have hall : (bs.map BasicType.letter).all isDescriptorChar = true :=
    List.all_eq_true.2 (hmem fun b => (letter_properties b).2.2.2.1)
  match bs with
  | [] => rfl
  | b :: bs =>
    have hne : ((b :: bs).map BasicType.letter).isEmpty = false := rfl
    simp only [params?, htrim, hne, hcomma, hall, Bool.false_eq_true, if_false, if_true]
    exact descriptors?_letters (b :: bs)

/-- The types of a basic signature stand for basic types. -/
theorem basic_of_isBasic (h : s.isBasic = true) : s.basic = s := by
  obtain ⟨herased, hwide⟩ := (Bool.and_eq_true _ _).mp h
  have hty : ∀ t ∈ s.types, t.basic = t := by
    intro t ht
    have hobject := List.all_eq_true.1 herased t ht
    have hsubword := List.all_eq_true.1 hwide t ht
    -- A class that is erased is `Object`, and an array is not erased.
    cases t with
    | cls name =>
      have hname : name = Ty.objectName := by simpa [Ty.isReference, Ty.isObject] using hobject
      rw [hname]
      rfl
    | array element => cases hobject
    | boolean | byte | short | char => cases hsubword
    | void | int | long | float | double => rfl
  refine ext' ?_ (hty _ (List.mem_append_right _ (List.mem_singleton_self _)))
  show s.params.map Ty.basic = s.params
  exact (List.map_congr_left fun t ht => hty t (List.mem_append_left _ ht)).trans (List.map_id _)

theorem types?_shorthand (s : Signature) :
    types? s.shorthand.toList = .ok (s.basicParams.map BasicType.ty, s.basicRet.ty) := by
  have hclose : ')' ∉ s.basicParams.map BasicType.letter := by
    intro hc
    obtain ⟨b, -, hb⟩ := List.mem_map.1 hc
    exact (letter_properties b).2.2.1 hb
  have hblank (b : BasicType) := (letter_properties b).2.2.2.2
  have htrim : trim s.shorthand.toList =
      '(' :: (s.basicParams.map BasicType.letter ++ ')' :: [s.basicRet.letter]) := by
    rw [shorthand, String.toList_ofList]
    refine Text.trim_of_forall ?_
    intro c hc
    simp only [List.mem_cons, List.mem_append, List.mem_map, List.not_mem_nil, or_false] at hc
    rcases hc with rfl | ⟨b, -, rfl⟩ | rfl | rfl
    · decide
    · exact hblank b
    · decide
    · exact hblank _
  have hret : Ty.ofChars? (trim [s.basicRet.letter]) = some s.basicRet.ty := by
    rw [Text.trim_of_forall (List.forall_mem_singleton.2 (hblank _)), Ty.ofChars?,
      Ty.ofDescriptor?.eq_2 _ (letter_properties _).1, ofLetter?_ty, Option.some_or]
  rw [types?, htrim]
  simp only [Text.splitOnce_append hclose, params?_letters, hret]

/-- The shorthand of a basic signature is read as it. -/
theorem parse_shorthand (h : s.isBasic = true) : parse s.shorthand = .ok s := by
  have hparams : s.basicParams.map BasicType.ty = s.params := by
    rw [basicParams, List.map_map]
    exact congrArg Signature.params (basic_of_isBasic h)
  have hret : s.basicRet.ty = s.ret := congrArg Signature.ret (basic_of_isBasic h)
  rw [parse, types?_shorthand, hparams, hret]
  exact ofTypes_params_ret s

/-! ## Both notations -/

/-- **Signatures are read back.** The words of a signature that was read, in whatever notation, are
read as the same signature, and so is the shorthand of every basic signature. -/
theorem texts_read_back :
    (∀ (input : String) (s : Signature), parse input = .ok s → parse s.text = .ok s) ∧
      ∀ s : Signature, s.isBasic = true → parse s.shorthand = .ok s :=
  ⟨fun _ _ h => (readable_of_parse h).parse_text, fun _ h => parse_shorthand h⟩

/-- A class `I` between commas stays a class and `L[]` an array of a class `L`, while in the shorthand
of a basic signature the letters are descriptors. -/
theorem texts_read_back_letters : ∃ words letters : Signature,
    (words.params = [.cls "I", .array (.array (.cls "L"))] ∧ words.ret = .array (.cls "FIB") ∧
      parse " ( I , L [] [] )FIB[] " = .ok words ∧ words.text = "(I,L[][])FIB[]" ∧
      parse words.text = .ok words) ∧
    letters.params = [.int, .object] ∧ letters.isBasic = true ∧ letters.shorthand = "(IL)V" ∧
      parse letters.shorthand = .ok letters := by
  let words : Signature :=
    ⟨[.cls "I", .array (.array (.cls "L"))], .array (.cls "FIB"), by decide, by decide⟩
  let letters : Signature := ⟨[.int, .object], .void, by decide, by decide⟩
  have hread : parse " ( I , L [] [] )FIB[] " = .ok words := by decide +kernel
  have htext : words.text = "(I,L[][])FIB[]" := by decide +kernel
  have hbasic : letters.isBasic = true := by decide
  exact ⟨words, letters, ⟨rfl, rfl, hread, htext, texts_read_back.1 _ _ hread⟩, rfl, hbasic,
    by decide +kernel, texts_read_back.2 letters hbasic⟩

end HandleForms.Signature
