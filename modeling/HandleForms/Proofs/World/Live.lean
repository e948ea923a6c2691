import HandleForms.World

/-!
# What frames keep alive

Which caches find what they hold depends on what is alive, and that depends on the frames of the
running forms. Two stacks of frames keep the same alive when what one of them keeps and the other
does not is inside the values that the client holds (`Frames.Same`, `World.live_congr`).
-/

namespace HandleForms

variable {p : Part} {v : Value}

/-! ## Parts -/

mutual

theorem Value.mem_addParts {ps : List Part} (v : Value) :
    p ∈ v.addParts ps ↔ p ∈ ps ∨ p ∈ v.addParts [] := by
  cases v with
  | array id element values => exact Value.mem_addPartsOf values
  | handle h => exact Value.mem_addPartsOfHandle h
  | object id cls => simp [Value.addParts, or_comm]
  | _ => simp [Value.addParts]

theorem Value.mem_addPartsOf {ps : List Part} (vs : List Value) :
    p ∈ Value.addPartsOf ps vs ↔ p ∈ ps ∨ p ∈ Value.addPartsOf [] vs := by
  cases vs with
  | nil => simp [Value.addPartsOf]
  | cons v vs =>
    rw [Value.addPartsOf, Value.mem_addParts v, Value.mem_addPartsOf vs, Value.addPartsOf,
      (Value.mem_addParts v : p ∈ v.addParts (Value.addPartsOf [] vs) ↔ _), or_assoc]

theorem Value.mem_addPartsOfHandle {ps : List Part} (h : HandleOf Value) :
    p ∈ Value.addPartsOfHandle ps h ↔ p ∈ ps ∨ p ∈ Value.addPartsOfHandle [] h := by
  cases h with
  | mk id type form data =>
    rw [Value.addPartsOfHandle, List.mem_cons, Value.mem_addPartsOfData data,
      Value.addPartsOfHandle, List.mem_cons, or_left_comm]

theorem Value.mem_addPartsOfData {ps : List Part} (data : HandleData Value) :
    p ∈ Value.addPartsOfData ps data ↔ p ∈ ps ∨ p ∈ Value.addPartsOfData [] data := by
  cases data with
  | bound species values => exact Value.mem_addPartsOf values
  | _ => simp [Value.addPartsOfData]

end

namespace Value

theorem mem_parts_cons {vs : List Value} : p ∈ parts (v :: vs) ↔ p ∈ parts [v] ∨ p ∈ parts vs := by
  simp only [parts, addPartsOf]
  rw [mem_addParts v, or_comm]

/-- What is inside some values is inside one of them. -/
theorem mem_parts {vs : List Value} : p ∈ parts vs ↔ ∃ v ∈ vs, p ∈ parts [v] := by
  induction vs with
  | nil => simp [parts, addPartsOf]
  | cons v vs ih =>
    rw [mem_parts_cons, ih]
    simp

/-- Everything inside a value is inside the held ones. -/
def Within (held : List Value) (v : Value) : Prop := ∀ p ∈ parts [v], p ∈ parts held

variable {held : List Value}

theorem within_of_mem (h : v ∈ held) : v.Within held := fun _ hp => mem_parts.2 ⟨v, h, hp⟩

theorem within_void : Value.void.Within held := fun _ hp => absurd hp (by simp [parts, addPartsOf, addParts])

theorem within_ofConstant (c : Constant) : (ofConstant c).Within held := fun _ hp =>
  absurd hp (by cases c <;> simp [parts, addPartsOf, addParts, ofConstant])

/-- The handle itself is inside a handle. -/
theorem handle_mem_parts (h : Handle) : .handle h ∈ parts [.handle h] := by
  cases h
  exact .head _

end Value

/-- A form of a bound handle inside the held values. No barrier takes its place. -/
def Form.KeptBy (held : List Value) (f : Form) : Prop :=
  ∃ h : Handle, .handle h ∈ Value.parts held ∧ h.species?.isSome ∧ h.form = f

theorem Form.keptBy_of_within {held : List Value} {h : Handle} (hh : (Value.handle h).Within held)
    (hbound : h.species?.isSome) : h.form.KeptBy held :=
  ⟨h, hh _ (Value.handle_mem_parts h), hbound, rfl⟩

/-- What the first frames keep alive is kept alive by the second ones or held. -/
structure Frames.Under (held : List Value) (fs gs : List Frame) : Prop where
  forms : ∀ f ∈ fs.flatMap Frame.forms, f ∈ gs.flatMap Frame.forms ∨ f.KeptBy held
  values : ∀ v ∈ fs.flatMap Frame.values, v ∈ gs.flatMap Frame.values ∨ v.Within held

namespace Frames.Under

variable {held : List Value} {fs gs : List Frame} {F G : Frame}

theorem refl (held : List Value) (fs : List Frame) : Under held fs fs :=
  ⟨fun _ h => .inl h, fun _ h => .inl h⟩

/-- The innermost frames may differ. -/
theorem cons (h : Under held fs gs) (hforms : ∀ f ∈ F.forms, f ∈ G.forms ∨ f.KeptBy held)
    (hvalues : ∀ v ∈ F.values, v ∈ G.values ∨ v.Within held) : Under held (F :: fs) (G :: gs) := by
  constructor
  · intro f hf
    rw [List.flatMap_cons, List.mem_append] at hf ⊢
    rcases hf with hf | hf
    · exact (hforms f hf).imp_left .inl
    · exact (h.forms f hf).imp_left .inr
  · intro v hv
    rw [List.flatMap_cons, List.mem_append] at hv ⊢
    rcases hv with hv | hv
    · exact (hvalues v hv).imp_left .inl
    · exact (h.values v hv).imp_left .inr

theorem push (h : Under held fs gs) (F : Frame) : Under held (F :: fs) (F :: gs) :=
  h.cons (fun _ hf => .inl hf) fun _ hv => .inl hv

/-- A frame that keeps nothing but what is held. -/
theorem cons_left (h : Under held fs gs) (hforms : ∀ f ∈ F.forms, f.KeptBy held)
    (hvalues : ∀ v ∈ F.values, v.Within held) : Under held (F :: fs) gs := by
  constructor
  · intro f hf
    rw [List.flatMap_cons, List.mem_append] at hf
    exact hf.elim (fun hf => .inr (hforms f hf)) (h.forms f)
  · intro v hv
    rw [List.flatMap_cons, List.mem_append] at hv
    exact hv.elim (fun hv => .inr (hvalues v hv)) (h.values v)

theorem cons_right (h : Under held fs gs) (G : Frame) : Under held fs (G :: gs) := by
  constructor
  · intro f hf
    rw [List.flatMap_cons, List.mem_append]
    exact (h.forms f hf).imp_left .inr
  · intro v hv
    rw [List.flatMap_cons, List.mem_append]
    exact (h.values v hv).imp_left .inr

end Frames.Under

/-- Two stacks of frames that keep the same alive, up to what is held. -/
structure Frames.Same (held : List Value) (fs gs : List Frame) : Prop where
  under : Frames.Under held fs gs
  above : Frames.Under held gs fs

namespace Frames.Same

variable {held : List Value} {fs gs : List Frame} {F G : Frame}

theorem refl (held : List Value) (fs : List Frame) : Same held fs fs := ⟨.refl held fs, .refl held fs⟩

theorem symm (h : Same held fs gs) : Same held gs fs := ⟨h.above, h.under⟩

theorem push (h : Same held fs gs) (F : Frame) : Same held (F :: fs) (F :: gs) :=
  ⟨h.under.push F, h.above.push F⟩

/-- A frame on one side that keeps nothing but what is held. -/
theorem cons_left (h : Same held fs gs) (hforms : ∀ f ∈ F.forms, f.KeptBy held)
    (hvalues : ∀ v ∈ F.values, v.Within held) : Same held (F :: fs) gs :=
  ⟨h.under.cons_left hforms hvalues, h.above.cons_right F⟩

end Frames.Same

namespace World

variable {σ : Type} {w : World σ} {fs gs : List Frame} {xs ys : List Nat}

/-! ## Reaching objects -/

theorem mem_objectsIn {vs : List Value} {o : Nat} :
    o ∈ objectsIn vs ↔ .object o ∈ Value.parts vs := by
  simp only [objectsIn, List.mem_filterMap]
  constructor
  · rintro ⟨p, hp, ho⟩
    cases p with
    | object id =>
      obtain rfl := Option.some.inj ho
      exact hp
    | handle h => cases ho
  · exact fun h => ⟨_, h, rfl⟩

/-- Frames are no part of the fields. -/
theorem closure_frames (n : Nat) (os : List Nat) :
    ({ w with frames := fs } : World σ).closure n os = w.closure n os := by
  induction n generalizing os with
  | zero => rfl
  | succ n ih => exact ih _

/-- What is reached depends on where one starts, not on the order. -/
theorem mem_closure_congr {o : Nat} (n : Nat) (h : ∀ o, o ∈ xs ↔ o ∈ ys) :
    o ∈ w.closure n xs ↔ o ∈ w.closure n ys := by
  induction n generalizing xs ys with
  | zero => exact h o
  | succ n ih =>
    refine ih fun o => ?_
    rw [List.mem_eraseDups, List.mem_eraseDups, List.mem_append, List.mem_append, h,
      List.mem_flatMap, List.mem_flatMap]
    simp only [h]

theorem mem_reachedObjects_congr {vs us : List Value} {o : Nat}
    (h : ∀ p, p ∈ Value.parts vs ↔ p ∈ Value.parts us) :
    o ∈ w.reachedObjects vs ↔ o ∈ w.reachedObjects us := by
  refine mem_closure_congr _ fun o => ?_
  rw [List.mem_eraseDups, List.mem_eraseDups, mem_objectsIn, mem_objectsIn, h]

/-- What is reached depends on what is inside the values alone. -/
theorem mem_reached_congr {vs us : List Value} (h : ∀ p, p ∈ Value.parts vs ↔ p ∈ Value.parts us) :
    p ∈ w.reached vs ↔ p ∈ w.reached us := by
  have hreach : ∀ vs, p ∈ w.reached vs ↔ p ∈ Value.parts vs ∨
      ∃ o ∈ w.reachedObjects vs, p ∈ Value.parts (w.fieldValues o) := by
    intro vs
    simp only [reached, @Value.mem_parts p (_ ++ _), List.mem_append, List.mem_flatMap,
      @Value.mem_parts p vs, @Value.mem_parts p (w.fieldValues _)]
    grind
  rw [hreach, hreach, h]
  simp only [mem_reachedObjects_congr h]

/-! ## What is alive -/

theorem mem_parts_roots_of_under (hunder : Frames.Under w.held fs gs)
    (hp : p ∈ Value.parts ({ w with frames := fs } : World σ).roots) :
    p ∈ Value.parts ({ w with frames := gs } : World σ).roots := by
  obtain ⟨v, hv, hp⟩ := Value.mem_parts.1 hp
  have hcyclic : ({ w with frames := fs } : World σ).isCyclic =
      ({ w with frames := gs } : World σ).isCyclic := by
    funext o
    simp only [isCyclic, reachedObjects, closure_frames]
    rfl
  simp only [roots, hcyclic, List.mem_append, or_assoc] at hv
  have hin : ∀ v, v ∈ w.held ∨ v ∈ gs.flatMap Frame.values ∨ _ → p ∈ Value.parts [v] →
      p ∈ Value.parts ({ w with frames := gs } : World σ).roots := fun v hv hp =>
    Value.mem_parts.2 ⟨v, by simpa only [roots, List.mem_append, or_assoc] using hv, hp⟩
  rcases hv with hv | hv | hv
  · exact hin v (.inl hv) hp
  · rcases hunder.values v hv with hv | hv
    · exact hin v (.inr (.inl hv)) hp
    · obtain ⟨u, hu, hp⟩ := Value.mem_parts.1 (hv p hp)
      exact hin u (.inl hu) hp
  · exact hin v (.inr (.inr hv)) hp

theorem reached_frames (vs : List Value) :
    ({ w with frames := fs } : World σ).reached vs = w.reached vs := by
  simp only [reached, reachedObjects, closure_frames]
  rfl

/-- The handles that are alive. -/
def liveHandles (w : World σ) : List Handle := (w.reached w.roots).filterMap Part.handle?

/-- The forms that keep others alive. -/
def liveForms (w : World σ) : List Form :=
  w.frames.flatMap Frame.forms ++ w.context.formRetainer.values ++ w.liveHandles.map w.currentForm

theorem mem_liveHandles_of_under {h : Handle} (hsame : Frames.Same w.held fs gs)
    (hh : h ∈ ({ w with frames := fs } : World σ).liveHandles) :
    h ∈ ({ w with frames := gs } : World σ).liveHandles := by
  obtain ⟨p, hp, hhandle⟩ := List.mem_filterMap.1 hh
  rw [reached_frames] at hp
  refine List.mem_filterMap.2 ⟨p, ?_, hhandle⟩
  rw [reached_frames]
  exact (mem_reached_congr fun p => ⟨mem_parts_roots_of_under hsame.under,
    mem_parts_roots_of_under hsame.above⟩).1 hp

/-- A handle inside the held values is alive. -/
theorem mem_liveHandles_of_held {h : Handle} (hh : .handle h ∈ Value.parts w.held) :
    h ∈ w.liveHandles := by
  obtain ⟨v, hv, hp⟩ := Value.mem_parts.1 hh
  refine List.mem_filterMap.2 ⟨.handle h, Value.mem_parts.2 ⟨v, ?_, hp⟩, rfl⟩
  simp [roots, hv]

theorem currentForm_of_bound {h : Handle} (hbound : h.species?.isSome) : w.currentForm h = h.form := by
  obtain ⟨id, type, form, data⟩ := h
  cases data with
  | bound species values => rfl
  | simple => cases hbound
  | direct id member => cases hbound

theorem currentForm_of_member? {h : Handle} {id : Nat} {m : Member} (hm : h.member? = some (id, m)) :
    w.currentForm h = (w.swapped.lookup (h.id, h.type, m)).getD h.form := by
  obtain ⟨handleId, type, form, data⟩ := h
  cases data with
  | direct id' m' =>
    cases hm
    rfl
  | simple => cases hm
  | bound species values => cases hm

theorem mem_liveForms_of_under {f : Form} (hsame : Frames.Same w.held fs gs)
    (hf : f ∈ ({ w with frames := fs } : World σ).liveForms) :
    f ∈ ({ w with frames := gs } : World σ).liveForms := by
  simp only [liveForms, List.mem_append, or_assoc] at hf ⊢
  rcases hf with hf | hf | hf
  · rcases hsame.under.forms f hf with hf | ⟨h, hh, hbound, rfl⟩
    · exact .inl hf
    · refine .inr (.inr (List.mem_map.2 ⟨h, mem_liveHandles_of_held hh, ?_⟩))
      exact currentForm_of_bound hbound
  · exact .inr (.inl hf)
  · obtain ⟨h, hh, rfl⟩ := List.mem_map.1 hf
    exact .inr (.inr (List.mem_map.2 ⟨h, mem_liveHandles_of_under hsame hh, rfl⟩))

/-- What is alive depends on the live handles and the forms that keep others alive. -/
theorem live_eq
    (hforms : ∀ f, f ∈ ({ w with frames := fs } : World σ).liveForms ↔
      f ∈ ({ w with frames := gs } : World σ).liveForms)
    (hhandles : ∀ h, h ∈ ({ w with frames := fs } : World σ).liveHandles ↔
      h ∈ ({ w with frames := gs } : World σ).liveHandles) :
    ({ w with frames := fs } : World σ).live = ({ w with frames := gs } : World σ).live := by
  show Live.mk (fun f => ({ w with frames := fs } : World σ).liveForms.any (Form.reaches f.id)) _ =
    Live.mk (fun f => ({ w with frames := gs } : World σ).liveForms.any (Form.reaches f.id)) _
  refine Live.mk.injEq .. ▸ ⟨?_, ?_⟩
  · funext f
    rw [Bool.eq_iff_iff, List.any_eq_true, List.any_eq_true]
    simp only [hforms]
  · funext k
    cases k with
    | handle h =>
      show ({ w with frames := fs } : World σ).liveHandles.any _ =
        ({ w with frames := gs } : World σ).liveHandles.any _
      rw [Bool.eq_iff_iff, List.any_eq_true, List.any_eq_true]
      simp only [hhandles]
    | invokers i => rfl

/-- Frames that keep the same alive show in nothing that is alive. -/
theorem live_congr (hsame : Frames.Same w.held fs gs) :
    ({ w with frames := fs } : World σ).live = ({ w with frames := gs } : World σ).live :=
  live_eq (fun _ => ⟨mem_liveForms_of_under hsame, mem_liveForms_of_under hsame.symm⟩)
    fun _ => ⟨mem_liveHandles_of_under hsame, mem_liveHandles_of_under hsame.symm⟩

/-! ## Frames that stay indistinct -/

/-- A handle that dropped its barrier in the first world has the same form in the second one. -/
def StaysDropped (w w' : World σ) : Prop :=
  ∀ key f, w.swapped.lookup key = some f → f.kind.hasBarrier = false →
    w'.swapped.lookup key = some f

theorem StaysDropped.of_eq {w w' : World σ} (h : w'.swapped = w.swapped) : w.StaysDropped w' :=
  fun _ _ hf _ => h ▸ hf

@[refl] theorem StaysDropped.refl (w : World σ) : w.StaysDropped w := .of_eq rfl

theorem StaysDropped.trans {w w' w'' : World σ} (h : w.StaysDropped w') (h' : w'.StaysDropped w'') :
    w.StaysDropped w'' := fun key f hf hfree => h' key f (h key f hf hfree) hfree

/-- The other frames keep the same alive as those of the world, and will go on to do so while the held
values stay and no barrier returns. -/
def Indistinct (w : World σ) (gs : List Frame) : Prop :=
  ∀ (w' : World σ) (pushed : List Frame), w'.held = w.held → w.StaysDropped w' →
    ({ w' with frames := pushed ++ w.frames } : World σ).live =
      ({ w' with frames := pushed ++ gs } : World σ).live

namespace Indistinct

variable {w w' : World σ} {gs : List Frame}

theorem live (h : w.Indistinct gs) : w.live = ({ w with frames := gs } : World σ).live :=
  h w [] rfl (.of_eq rfl)

theorem later (h : w.Indistinct gs) (hheld : w'.held = w.held) (hframes : w'.frames = w.frames)
    (hdropped : w.StaysDropped w') : w'.Indistinct gs := fun u pushed hu hud => by
  rw [hframes]
  exact h u pushed (hu.trans hheld) (hdropped.trans hud)

theorem push (h : w.Indistinct gs) (F : Frame) :
    ({ w with frames := F :: w.frames } : World σ).Indistinct (F :: gs) := fun u pushed hu hud => by
  simpa using h u (pushed ++ [F]) hu hud

end Indistinct

/-- Frames that keep the same alive, up to what is held, are indistinct. -/
theorem indistinct_of_same (h : Frames.Same w.held w.frames gs) : w.Indistinct gs := by
  intro u pushed hheld _
  have hsame : Frames.Same u.held (pushed ++ w.frames) (pushed ++ gs) := by
    rw [hheld]
    induction pushed with
    | nil => exact h
    | cons F pushed ih => exact ih.push F
  exact live_congr hsame

end World

end HandleForms
