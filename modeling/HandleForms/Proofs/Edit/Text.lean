import HandleForms.Edit.Text
import HandleForms.Proofs.Outcome
import HandleForms.Proofs.Signature.Text

/-!
# Edits that are read back

An edit that was read has positions and counts that fit in a machine word and types that were read
themselves (`readable_of_ofText`), so the canonical text of the edit is read as the same edit
(`ofText_text`), in whatever notation it was written first.
-/

namespace HandleForms.Edit

open Text (decimal index? join splitOnce trim wordCount)

variable {cs : List Char} {e : Edit} {pos : Nat}

/-! ## Texts of operations -/

theorem toList_operation (name : String) (operands : List String) :
    (operation name operands).toList = join [':'] (name.toList :: operands.map String.toList) := by
  rw [operation, String.toList_intercalate, Text.join_eq_intercalate]
  rfl

theorem toList_indexList (ns : List Nat) :
    (indexList ns).toList = join [','] (ns.map fun n => (decimal n).toList) := by
  rw [indexList, String.toList_intercalate, Text.join_eq_intercalate, List.map_map]
  rfl

/-- An operation is read by its name. -/
theorem ofText_operation {name : String} {operands : List String} (hname : ':' ∉ name.toList)
    (hne : operands ≠ []) :
    ofText (operation name operands) = ofOperands name (join [':'] (operands.map String.toList)) := by
  rw [ofText, toList_operation, Text.join_cons _ _ (by simpa using hne), List.append_assoc,
    List.singleton_append, Text.splitOnce_append hname]
  show ofOperands (String.ofList name.toList) _ = _
  rw [String.ofList_toList]

theorem not_mem_decimal {c : Char} (hc : c.isDigit = false) (n : Nat) : c ∉ (decimal n).toList := by
  intro hmem
  rw [Text.isDigit_of_mem_decimal hmem] at hc
  cases hc

/-! ## Operands that are read back -/

theorem readPosition_decimal (hpos : pos < wordCount) (rest : List Char) :
    readPosition ((decimal pos).toList ++ ':' :: rest) = .ok (pos, rest) := by
  rw [readPosition, Text.splitOnce_append (not_mem_decimal (by decide) pos)]
  show (do return (← orDefect .position (index? (decimal pos).toList), rest)) = _
  rw [Text.index?_decimal hpos]
  rfl

theorem readBasic_letter (type : BasicType) : readBasic type.letter.toString.toList = .ok type := by
  cases type <;> rfl

theorem readSignature_text {s : Signature} (h : s.Readable) :
    readSignature s.text.toList = .ok s := by
  rw [readSignature, String.ofList_toList, h.parse_text]
  rfl

theorem readIndexes_indexList {ns : List Nat} (h : ∀ n ∈ ns, n < wordCount) :
    readIndexes (indexList ns).toList = .ok ns := by
  cases ns with
  | nil => rfl
  | cons n ns =>
    have hparts : ∀ part ∈ (n :: ns).map fun n => (decimal n).toList, ',' ∉ part := by
      intro part hpart
      obtain ⟨m, -, rfl⟩ := List.mem_map.1 hpart
      exact not_mem_decimal (by decide) m
    have hblank : ∀ c ∈ join [','] ((n :: ns).map fun n => (decimal n).toList),
        Text.isBlank c = false := by
      intro c hc
      rcases Text.mem_join hc with hc | ⟨part, hpart, hc⟩
      · obtain rfl := List.mem_singleton.1 hc
        decide
      · obtain ⟨m, -, rfl⟩ := List.mem_map.1 hpart
        exact Text.isBlank_of_isDigit (Text.isDigit_of_mem_decimal hc)
    have hread : ((n :: ns).map fun n => (decimal n).toList).mapM index? = some (n :: ns) := by
      refine Text.mapM_eq_some_iff.2 (List.forall₂_map_left_iff.2 (List.forall₂_same.2 ?_))
      intro m hm
      exact Text.index?_decimal (h m hm)
    rw [readIndexes, toList_indexList, Text.trim_of_forall hblank, if_neg ?_,
      Text.splitAll_join (by simp) hparts, hread]
    · rfl
    · cases ns <;> simp [join, decimal]

theorem readElements_text {element : Ty} {count : Nat} (h : element.Readable)
    (hvoid : element ≠ .void) (hcount : count < wordCount) :
    readElements (element.text.toList ++ ':' :: (decimal count).toList) =
      .ok (.array element, count) := by
  have hcolon : ':' ∉ element.text.toList := by
    rw [Ty.text, String.toList_ofList]
    exact h.legible.not_mem_chars (by decide +kernel) (by decide) (by decide)
  have htype : (readType element.text.toList).bind Ty.arrayOf? = some (.array element) := by
    rw [Ty.text, String.toList_ofList, readType, h.ofChars?_chars]
    exact Ty.arrayOf?_eq_some_iff.2 ⟨hvoid, rfl⟩
  rw [readElements, Text.splitOnce_append hcolon]
  show (do
    let array ← orDefect .elementType ((readType element.text.toList).bind Ty.arrayOf?)
    return (array, ← orDefect .count (index? (decimal count).toList))) = _
  rw [htype, Text.index?_decimal hcount]
  rfl

/-! ## Edits -/

/-- An edit that some text is read as. -/
def Readable : Edit → Prop
  | bind pos _ | add pos _ | filter pos _ => pos < wordCount
  | dup src dst => src < wordCount ∧ dst < wordCount
  | spread pos array count => pos < wordCount ∧ count < wordCount ∧
      ∃ element, array = .array element ∧ element ≠ .void ∧ element.Readable
  | collect pos s | fold pos _ s => pos < wordCount ∧ s.Readable
  | filterReturn _ | zeroReturn _ => True
  | permute skip reorder => skip = 1 ∧ ∀ n ∈ reorder, n < wordCount

theorem orDefect_eq_ok_iff {α : Type} {d : TextDefect} {o : Option α} {a : α} :
    orDefect d o = .ok a ↔ o = some a := by
  cases o <;> simp [orDefect]

theorem lt_of_readPosition {rest : List Char} (h : readPosition cs = .ok (pos, rest)) :
    pos < wordCount := by
  obtain ⟨⟨before, after⟩, -, h⟩ := bind_eq_ok_iff.1 h
  obtain ⟨n, hn, h⟩ := bind_eq_ok_iff.1 h
  cases h
  exact Text.lt_wordCount_of_index? (orDefect_eq_ok_iff.1 hn)

theorem readable_of_readSignature {s : Signature} (h : readSignature cs = .ok s) : s.Readable := by
  unfold readSignature at h
  cases hparse : Signature.parse (String.ofList cs) with
  | error err => rw [hparse] at h; cases h
  | ok t =>
    rw [hparse] at h
    cases h
    exact Signature.readable_of_parse hparse

theorem readable_of_readElements {array : Ty} {count : Nat}
    (h : readElements cs = .ok (array, count)) : count < wordCount ∧
      ∃ element, array = .array element ∧ element ≠ .void ∧ element.Readable := by
  obtain ⟨⟨before, after⟩, -, h⟩ := bind_eq_ok_iff.1 h
  obtain ⟨type, htype, h⟩ := bind_eq_ok_iff.1 h
  obtain ⟨n, hn, h⟩ := bind_eq_ok_iff.1 h
  cases h
  obtain ⟨element, helement, harray⟩ := Option.bind_eq_some_iff.1 (orDefect_eq_ok_iff.1 htype)
  obtain ⟨hvoid, rfl⟩ := Ty.arrayOf?_eq_some_iff.1 harray
  exact ⟨Text.lt_wordCount_of_index? (orDefect_eq_ok_iff.1 hn), element, rfl, hvoid,
    Ty.readable_of_ofChars? helement⟩

theorem lt_of_readIndexes {ns : List Nat} (h : readIndexes cs = .ok ns) :
    ∀ n ∈ ns, n < wordCount := by
  unfold readIndexes at h
  split at h
  · cases h
    exact nofun
  · intro n hn
    have hall := Text.mapM_eq_some_iff.1 (orDefect_eq_ok_iff.1 h)
    obtain ⟨i, hi, rfl⟩ := List.mem_iff_getElem.1 hn
    exact Text.lt_wordCount_of_index?
      ((List.forall₂_iff_get.1 hall).2 i (by rw [hall.length_eq]; exact hi) hi)

theorem readable_of_ofOperands {name : String} (h : ofOperands name cs = .ok e) : e.Readable := by
  unfold ofOperands at h
  split at h
  case h_1 | h_2 | h_5 =>
    obtain ⟨⟨pos, rest⟩, hpos, h⟩ := bind_eq_ok_iff.1 h
    obtain ⟨type, -, h⟩ := bind_eq_ok_iff.1 h
    cases h
    exact lt_of_readPosition hpos
  case h_3 =>
    obtain ⟨⟨src, rest⟩, hsrc, h⟩ := bind_eq_ok_iff.1 h
    obtain ⟨dst, hdst, h⟩ := bind_eq_ok_iff.1 h
    cases h
    exact ⟨lt_of_readPosition hsrc, Text.lt_wordCount_of_index? (orDefect_eq_ok_iff.1 hdst)⟩
  case h_4 =>
    obtain ⟨⟨pos, rest⟩, hpos, h⟩ := bind_eq_ok_iff.1 h
    obtain ⟨⟨array, count⟩, helements, h⟩ := bind_eq_ok_iff.1 h
    cases h
    exact ⟨lt_of_readPosition hpos, readable_of_readElements helements⟩
  case h_6 | h_7 | h_8 =>
    obtain ⟨⟨pos, rest⟩, hpos, h⟩ := bind_eq_ok_iff.1 h
    obtain ⟨s, hs, h⟩ := bind_eq_ok_iff.1 h
    cases h
    exact ⟨lt_of_readPosition hpos, readable_of_readSignature hs⟩
  case h_9 | h_10 =>
    obtain ⟨type, -, h⟩ := bind_eq_ok_iff.1 h
    cases h
    trivial
  case h_11 =>
    obtain ⟨reorder, hreorder, h⟩ := bind_eq_ok_iff.1 h
    cases h
    exact ⟨rfl, lt_of_readIndexes hreorder⟩
  case h_12 => cases h

theorem readable_of_ofText {s : String} (h : ofText s = .ok e) : e.Readable := by
  obtain ⟨⟨name, rest⟩, -, h⟩ := bind_eq_ok_iff.1 h
  exact readable_of_ofOperands h

/-- The text of an operation at a position, up to the position. -/
theorem ofText_position {name operand : String} (hname : ':' ∉ name.toList) :
    ofText (operation name [decimal pos, operand]) =
      ofOperands name ((decimal pos).toList ++ ':' :: operand.toList) := by
  rw [ofText_operation hname (by simp), List.map_cons, Text.join_cons _ _ (by simp),
    List.append_assoc]
  rfl

section

variable {name : String} {type : BasicType} {s : Signature}

/-- Operations with a position and a basic type. -/
theorem ofText_basic {edit : Nat → BasicType → Edit} (hname : ':' ∉ name.toList)
    (hread : ∀ cs, ofOperands name cs = do
      let (pos, rest) ← readPosition cs
      return edit pos (← readBasic rest)) (hpos : pos < wordCount) :
    ofText (operation name [decimal pos, type.letter.toString]) = .ok (edit pos type) := by
  rw [ofText_position hname, hread, readPosition_decimal hpos, ok_bind]
  show (do return edit pos (← readBasic type.letter.toString.toList)) = _
  rw [readBasic_letter]
  rfl

/-- Operations with a position and a signature. -/
theorem ofText_signature (edit : Nat → Signature → Edit) (hname : ':' ∉ name.toList)
    (hread : ∀ cs, ofOperands name cs = do
      let (pos, rest) ← readPosition cs
      return edit pos (← readSignature rest)) (hpos : pos < wordCount) (hs : s.Readable) :
    ofText (operation name [decimal pos, s.text]) = .ok (edit pos s) := by
  rw [ofText_position hname, hread, readPosition_decimal hpos, ok_bind]
  show (do return edit pos (← readSignature s.text.toList)) = _
  rw [readSignature_text hs]
  rfl

/-- Operations on the result. -/
theorem ofText_result {edit : BasicType → Edit} (hname : ':' ∉ name.toList)
    (hread : ∀ cs, ofOperands name cs = do return edit (← readBasic cs)) :
    ofText (operation name [type.letter.toString]) = .ok (edit type) := by
  rw [ofText_operation hname (by simp), hread]
  show (do return edit (← readBasic type.letter.toString.toList)) = _
  rw [readBasic_letter]
  rfl

end

theorem ofText_dup {src dst : Nat} (hsrc : src < wordCount) (hdst : dst < wordCount) :
    ofText (dup src dst).text = .ok (dup src dst) := by
  rw [text, ofText_position (by decide), ofOperands, readPosition_decimal hsrc, ok_bind]
  show (do return Edit.dup src (← orDefect .position (index? (decimal dst).toList))) = _
  rw [Text.index?_decimal hdst]
  rfl

theorem ofText_spread {element : Ty} {count : Nat} (hpos : pos < wordCount)
    (hcount : count < wordCount) (hvoid : element ≠ .void) (h : element.Readable) :
    ofText (spread pos (.array element) count).text = .ok (spread pos (.array element) count) := by
  -- What follows the position is the element type and the count, with a colon between them.
  have hoperands : operation "spread" [decimal pos, element.text, decimal count] =
      operation "spread" [decimal pos, operation element.text [decimal count]] := by
    rw [← String.toList_inj]
    simp [toList_operation, join]
  have helements : (operation element.text [decimal count]).toList =
      element.text.toList ++ ':' :: (decimal count).toList := by
    simp [toList_operation, join]
  show ofText (operation "spread" [decimal pos, element.text, decimal count]) = _
  rw [hoperands, ofText_position (by decide), helements, ofOperands, readPosition_decimal hpos,
    ok_bind]
  show (do
    let read ← readElements (element.text.toList ++ ':' :: (decimal count).toList)
    return Edit.spread pos read.1 read.2) = _
  rw [readElements_text h hvoid hcount]
  rfl

theorem ofText_permute {reorder : List Nat} (h : ∀ n ∈ reorder, n < wordCount) :
    ofText (permute 1 reorder).text = .ok (permute 1 reorder) := by
  rw [text, ofText_operation (by decide) (by simp), ofOperands]
  show (do return Edit.permute 1 (← readIndexes (indexList reorder).toList)) = _
  rw [readIndexes_indexList h]
  rfl

theorem ofText_of_readable (h : e.Readable) : ofText e.text = .ok e := by
  cases e with
  | bind pos type => exact ofText_basic (by decide) (fun _ => rfl) h
  | add pos type => exact ofText_basic (by decide) (fun _ => rfl) h
  | dup src dst => exact ofText_dup h.1 h.2
  | spread pos array count =>
    obtain ⟨hpos, hcount, element, rfl, hvoid, helement⟩ := h
    exact ofText_spread hpos hcount hvoid helement
  | filter pos type => exact ofText_basic (by decide) (fun _ => rfl) h
  | collect pos s => exact ofText_signature collect (by decide) (fun _ => rfl) h.1 h.2
  | filterReturn type => exact ofText_result (by decide) fun _ => rfl
  | zeroReturn type => exact ofText_result (by decide) fun _ => rfl
  | fold pos drop s =>
    cases drop with
    | false =>
      exact ofText_signature (fun pos s => .fold pos false s) (by decide) (fun _ => rfl) h.1 h.2
    | true =>
      exact ofText_signature (fun pos s => .fold pos true s) (by decide) (fun _ => rfl) h.1 h.2
  | permute skip reorder =>
    obtain ⟨rfl, hreorder⟩ := h
    exact ofText_permute hreorder

/-- An edit that was read, in whatever notation, is read again from its own text. -/
theorem ofText_text {s : String} (h : ofText s = .ok e) : ofText e.text = .ok e :=
  ofText_of_readable (readable_of_ofText h)

/-- An element type that was written as a descriptor is read again as a word. -/
theorem ofText_spread_objects :
    ofText "spread: +2 :[L:3" = .ok (spread 2 (.array (.array .object)) 3) ∧
    (spread 2 (.array (.array .object)) 3).text = "spread:2:Object[]:3" ∧
    ofText "spread:2:Object[]:3" = .ok (spread 2 (.array (.array .object)) 3) := by
  have hread : ofText "spread: +2 :[L:3" = .ok (spread 2 (.array (.array .object)) 3) := by
    decide +kernel
  have htext : (spread 2 (.array (.array .object)) 3).text = "spread:2:Object[]:3" := by
    decide +kernel
  exact ⟨hread, htext, htext ▸ ofText_text hread⟩

end HandleForms.Edit
