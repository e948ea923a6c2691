import HandleForms.Proofs.Run.Blind

/-!
# Comparing runs up to their limits

`Exec.Refines held Q x y` says that whatever `x` does without hitting a limit, `y` does too once it
has enough fuel: the same changes of the world, the same error or answers related by `Q`. The two may
run under different frames as long as these keep the same alive, given the values `held` by the
client. A run with a greater depth is refined by none but itself, and every run refines itself, so
limits can be compared away (`refines_runForm`). Two computations that refine each other equate
(`Exec.Equates`).
-/

namespace HandleForms

variable {σ α β γ δ : Type}

/-! ## Frames -/

/-- Two frames that keep the same alive, up to what is held. -/
structure Frame.Alike (held : List Value) (F G : Frame) : Prop where
  forms : ∀ f ∈ F.forms, f ∈ G.forms ∨ f.KeptBy held
  forms' : ∀ f ∈ G.forms, f ∈ F.forms ∨ f.KeptBy held
  values : ∀ v ∈ F.values, v ∈ G.values ∨ v.Within held
  values' : ∀ v ∈ G.values, v ∈ F.values ∨ v.Within held

theorem Frame.Alike.refl (held : List Value) (F : Frame) : Alike held F F :=
  ⟨fun _ h => .inl h, fun _ h => .inl h, fun _ h => .inl h, fun _ h => .inl h⟩

theorem Frame.Alike.symm {held : List Value} {F G : Frame} (h : Alike held F G) :
    Alike held G F :=
  ⟨h.forms', h.forms, h.values', h.values⟩

theorem Frames.Same.cons {held : List Value} {fs gs : List Frame} {F G : Frame}
    (h : Same held fs gs) (hframe : F.Alike held G) : Same held (F :: fs) (G :: gs) :=
  ⟨h.under.cons hframe.forms hframe.values, h.above.cons hframe.forms' hframe.values'⟩

/-! ## Outcomes -/

/-- How a computation ends. -/
abbrev Outcome (α : Type) := Except (Stop RuntimeError) α

namespace Outcome

/-- A limit was hit. -/
def Limited (o : Outcome α) : Prop :=
  o = .error (.error .outOfFuel) ∨ o = .error (.error .recursionLimit)

instance decidableLimited : (o : Outcome α) → Decidable o.Limited
  | .ok _ => .isFalse (by simp [Limited])
  | .error (.error e) =>
    decidable_of_iff (e = .outOfFuel ∨ e = .recursionLimit) (by simp [Limited])
  | .error (.violation _) => .isFalse (by simp [Limited])

/-- The same error, or answers that are related. -/
inductive Agree (Q : α → β → Prop) : Outcome α → Outcome β → Prop
  | ok {a : α} {b : β} (h : Q a b) : Agree Q (.ok a) (.ok b)
  | stop (s : Stop RuntimeError) : Agree Q (.error s) (.error s)

variable {Q : α → β → Prop} {o : Outcome α} {o' : Outcome β}

theorem Agree.limited_iff (h : Agree Q o o') : o.Limited ↔ o'.Limited := by
  cases h with
  | ok h => exact ⟨fun h => by simp [Limited] at h, fun h => by simp [Limited] at h⟩
  | stop s => simp [Limited]

/-- Whether an error is a limit does not depend on what is computed. -/
theorem limited_error_iff (stop : Stop RuntimeError) :
    Limited (.error stop : Outcome α) ↔ Limited (.error stop : Outcome β) :=
  (Agree.stop (Q := fun _ _ => True) stop).limited_iff

theorem not_limited_ok (a : α) : ¬ Limited (.ok a : Outcome α) := by
  simp [Limited]

theorem Agree.eq {o o' : Outcome α} (h : Agree Eq o o') : o = o' := by
  cases h with
  | ok h => rw [h]
  | stop s => rfl

theorem Agree.of_eq {o o' : Outcome α} (h : o = o') : Agree Eq o o' := by
  subst h
  cases o with
  | ok a => exact .ok rfl
  | error s => exact .stop s

theorem Agree.comp {S : β → γ → Prop} {o'' : Outcome γ} (h : Agree Q o o') (h' : Agree S o' o'') :
    Agree (fun a c => ∃ b, Q a b ∧ S b c) o o'' := by
  cases h with
  | ok h =>
    cases h' with
    | ok h' => exact .ok ⟨_, h, h'⟩
  | stop s =>
    cases h' with
    | stop s => exact .stop s

theorem Agree.imp {S : α → β → Prop} (h : Agree Q o o') (himp : ∀ a b, Q a b → S a b) :
    Agree S o o' := by
  cases h with
  | ok h => exact .ok (himp _ _ h)
  | stop s => exact .stop s

end Outcome

namespace Exec

/-! ## Runs with enough fuel -/

/-- With enough fuel the computation ends like this. -/
def Ends (y : Exec σ β) (w : World σ) (o : Outcome β) (w' : World σ) : Prop :=
  ∃ cost, ∀ spare, y ⟨w, cost + spare, none⟩ = (o, ⟨w', spare, none⟩)

namespace Ends

variable {y : Exec σ β} {l : β → Exec σ γ} {w w₁ w₂ : World σ} {o : Outcome β} {o' : Outcome γ}

/-- There is only one end. -/
theorem unique {o₁ o₂ : Outcome β} (h₁ : y.Ends w o₁ w₁) (h₂ : y.Ends w o₂ w₂) :
    o₁ = o₂ ∧ w₁ = w₂ := by
  obtain ⟨c₁, h₁⟩ := h₁
  obtain ⟨c₂, h₂⟩ := h₂
  have heq := (h₁ c₂).symm.trans (Nat.add_comm c₁ c₂ ▸ h₂ c₁)
  exact ⟨congrArg Prod.fst heq, congrArg (fun r => r.2.world) heq⟩

theorem bind {b : β} (h₁ : y.Ends w (.ok b) w₁) (h₂ : (l b).Ends w₁ o' w₂) :
    (y >>= l).Ends w o' w₂ := by
  obtain ⟨c₁, h₁⟩ := h₁
  obtain ⟨c₂, h₂⟩ := h₂
  refine ⟨c₁ + c₂, fun spare => ?_⟩
  rw [bind_apply, Nat.add_assoc, h₁]
  exact h₂ spare

theorem bind_stop {s : Stop RuntimeError} (h : y.Ends w (.error s) w₁) :
    (y >>= l).Ends w (.error s) w₁ := by
  obtain ⟨c, h⟩ := h
  refine ⟨c, fun spare => ?_⟩
  rw [bind_apply, h]

/-- Paying for an expression changes nothing but the cost. -/
theorem pay (h : y.Ends w o w₁) : (consumeFuel >>= fun _ => y).Ends w o w₁ := by
  obtain ⟨c, h⟩ := h
  refine ⟨c + 1, fun spare => ?_⟩
  rw [bind_apply, consumeFuel_apply, show c + 1 + spare = (c + spare) + 1 by omega]
  exact h spare

end Ends

/-- Without a trace the step does nothing. -/
def Silent (x : Exec σ Unit) : Prop := ∀ w fuel, x ⟨w, fuel, none⟩ = (.ok (), ⟨w, fuel, none⟩)

theorem silent_tracing (f : Trace → Trace) : Silent (tracing f : Exec σ Unit) := fun _ _ => rfl

theorem silent_traceEnter (form : Form) (args : List Value) :
    Silent (traceEnter form args : Exec σ Unit) := fun _ _ => rfl

/-! ## Refinement -/

/-- What `x` does without hitting a limit, `y` does with enough fuel, when the two run under frames
that `R` relates. -/
def RefinesIn (R : List Frame → List Frame → Prop) (held : List Value) (Q : α → β → Prop)
    (x : Exec σ α) (y : Exec σ β) : Prop :=
  ∀ (w : World σ) (fs gs : List Frame) (fuel : Nat), w.held = held → R fs gs →
    Outcome.Limited (x ⟨w.withFrames fs, fuel, none⟩).1 ∨
    ∃ o o' rest, ∃ w' : World σ, x ⟨w.withFrames fs, fuel, none⟩ =
        (o, ⟨w'.withFrames fs, rest, none⟩) ∧
      w'.held = held ∧ Outcome.Agree Q o o' ∧ y.Ends (w.withFrames gs) o' (w'.withFrames gs)

namespace RefinesIn

variable {R : List Frame → List Frame → Prop} {held : List Value} {Q : α → β → Prop}
  {S : γ → δ → Prop} {x : Exec σ α} {y : Exec σ β}

theorem imp {Q' : α → β → Prop} (h : RefinesIn R held Q x y) (himp : ∀ a b, Q a b → Q' a b) :
    RefinesIn R held Q' x y := by
  intro w fs gs fuel hheld hsame
  refine (h w fs gs fuel hheld hsame).imp_right ?_
  rintro ⟨o, o', rest, w', hx, hheld', hagree, hy⟩
  exact ⟨o, o', rest, w', hx, hheld', hagree.imp himp, hy⟩

/-- The end of a computation that needs no world. -/
theorem ofOutcome {r : Outcome α} {r' : Outcome β} (h : r.Agree Q r') :
    RefinesIn (σ := σ) R held Q (Exec.act (Act.ofStop r)) (Exec.act (Act.ofStop r')) := by
  cases h with
  | ok h =>
    exact fun w fs gs fuel hheld _ =>
      .inr ⟨_, _, fuel, w, rfl, hheld, .ok h, 0, fun spare => by rw [Nat.zero_add]; rfl⟩
  | stop s =>
    exact fun w fs gs fuel hheld _ =>
      .inr ⟨_, _, fuel, w, rfl, hheld, .stop s, 0, fun spare => by rw [Nat.zero_add]; rfl⟩

theorem pure {a : α} {b : β} (h : Q a b) :
    RefinesIn (σ := σ) R held Q (Pure.pure a) (Pure.pure b) :=
  ofOutcome (.ok h)

theorem bind {k : α → Exec σ γ} {l : β → Exec σ δ} (hxy : RefinesIn R held Q x y)
    (hkl : ∀ a b, Q a b → RefinesIn R held S (k a) (l b)) : RefinesIn R held S (x >>= k) (y >>= l) := by
  intro w fs gs fuel hheld hsame
  rw [bind_apply]
  rcases hxy w fs gs fuel hheld hsame with hlimited | ⟨o, o', rest, w', hx, hheld', hagree, hy⟩
  · rcases hlimited with hlimited | hlimited <;> rw [hlimited]
    · exact .inl (.inl rfl)
    · exact .inl (.inr rfl)
  rw [hx]
  cases hagree with
  | stop s => exact .inr ⟨_, _, rest, w', rfl, hheld', .stop s, hy.bind_stop⟩
  | @ok a b hab =>
    rcases hkl a b hab w' fs gs rest hheld' hsame with hlimited | h
    · exact .inl hlimited
    · obtain ⟨o, o', rest', w'', hk, hheld'', hagree', hl⟩ := h
      exact .inr ⟨o, o', rest', w'', hk, hheld'', hagree', hy.bind hl⟩

/-- The first may pay for an expression. -/
theorem pay_left (h : RefinesIn R held Q x y) :
    RefinesIn R held Q (consumeFuel >>= fun _ => x) y := by
  intro w fs gs fuel hheld hsame
  rw [bind_apply, consumeFuel_apply]
  cases fuel with
  | zero => exact .inl (.inl rfl)
  | succ fuel => exact h w fs gs fuel hheld hsame

/-- The second may pay for an expression. -/
theorem pay_right (h : RefinesIn R held Q x y) :
    RefinesIn R held Q x (consumeFuel >>= fun _ => y) := by
  intro w fs gs fuel hheld hsame
  refine (h w fs gs fuel hheld hsame).imp id ?_
  rintro ⟨o, o', rest, w', hx, hheld', hagree, hy⟩
  exact ⟨o, o', rest, w', hx, hheld', hagree, hy.pay⟩

theorem silent_left {s : Exec σ Unit} (hs : Silent s) (h : RefinesIn R held Q x y) :
    RefinesIn R held Q (s >>= fun _ => x) y := by
  intro w fs gs fuel hheld hsame
  rw [bind_apply, hs]
  exact h w fs gs fuel hheld hsame

theorem silent_right {s : Exec σ Unit} (hs : Silent s) (h : RefinesIn R held Q x y) :
    RefinesIn R held Q x (s >>= fun _ => y) := by
  intro w fs gs fuel hheld hsame
  refine (h w fs gs fuel hheld hsame).imp id ?_
  rintro ⟨o, o', rest, w', hx, hheld', hagree, cost, hy⟩
  refine ⟨o, o', rest, w', hx, hheld', hagree, cost, fun spare => ?_⟩
  rw [bind_apply, hs]
  exact hy spare

/-- What hits a limit at once is refined by everything. -/
theorem of_limited {e : RuntimeError} (h : Outcome.Limited (.error (.error e) : Outcome α)) :
    RefinesIn R held Q (Exec.fail e) y :=
  fun _ _ _ _ _ _ => .inl h

/-- Frames around both. -/
theorem withFrame_of {R' : List Frame → List Frame → Prop} {F G : Frame}
    (hR : ∀ fs gs, R fs gs → R' (F :: fs) (G :: gs)) (h : RefinesIn R' held Q x y) :
    RefinesIn R held Q (Exec.withFrame F x) (Exec.withFrame G y) := by
  intro w fs gs fuel hheld hframes
  refine (h w (F :: fs) (G :: gs) fuel hheld (hR fs gs hframes)).imp id ?_
  rintro ⟨o, o', rest, w', hx, hheld', hagree, cost, hy⟩
  refine ⟨o, o', rest, w', ?_, hheld', hagree, cost, fun spare => ?_⟩
  · show ((x ⟨w.withFrames (F :: fs), fuel, none⟩).1, _) = _
    rw [hx]
  · show ((y ⟨w.withFrames (G :: gs), cost + spare, none⟩).1, _) = _
    rw [hy]

/-- A frame around the first. -/
theorem withFrame_left_of {R' : List Frame → List Frame → Prop} {F : Frame}
    (hR : ∀ fs gs, R fs gs → R' (F :: fs) gs) (h : RefinesIn R' held Q x y) :
    RefinesIn R held Q (Exec.withFrame F x) y := by
  intro w fs gs fuel hheld hframes
  refine (h w (F :: fs) gs fuel hheld (hR fs gs hframes)).imp id ?_
  rintro ⟨o, o', rest, w', hx, hheld', hagree, hy⟩
  refine ⟨o, o', rest, w', ?_, hheld', hagree, hy⟩
  show ((x ⟨w.withFrames (F :: fs), fuel, none⟩).1, _) = _
  rw [hx]

theorem trans {S : β → γ → Prop} {z : Exec σ γ} (hxy : RefinesIn R held Q x y)
    (hyz : RefinesIn (Frames.Same held) held S y z) :
    RefinesIn R held (fun a c => ∃ b, Q a b ∧ S b c) x z := by
  intro w fs gs fuel hheld hframes
  refine (hxy w fs gs fuel hheld hframes).elim .inl fun h => ?_
  obtain ⟨o, o', rest, w', hx, hheld', hagree, cost, hy⟩ := h
  rcases hyz w gs gs (cost + 0) hheld (.refl held gs) with hlimited | h
  · rw [hy] at hlimited
    exact .inl (by rwa [hx, hagree.limited_iff])
  · obtain ⟨o₁, o'', rest', w'', hy', -, hagree', hz⟩ := h
    obtain ⟨rfl, hstate⟩ := Prod.mk.inj (hy'.symm.trans (hy 0))
    have hworld : w''.withFrames gs = w'.withFrames gs := congrArg Execution.world hstate
    exact .inr ⟨o, o'', rest, w', hx, hheld', hagree.comp hagree', hworld ▸ hz⟩

theorem trans_eq {y' : Exec σ β} (hxy : RefinesIn R held Q x y)
    (hyz : RefinesIn (Frames.Same held) held Eq y y') : RefinesIn R held Q x y' :=
  (hxy.trans hyz).imp fun _ _ ⟨_, h, heq⟩ => heq ▸ h

end RefinesIn

/-- What `x` does without hitting a limit, `y` does with enough fuel. -/
abbrev Refines (held : List Value) (Q : α → β → Prop) (x : Exec σ α) (y : Exec σ β) : Prop :=
  RefinesIn (Frames.Same held) held Q x y

namespace Refines

variable {held : List Value} {Q : α → β → Prop} {S : γ → δ → Prop} {x : Exec σ α} {y : Exec σ β}

theorem trans_eq {y' : Exec σ β} (hxy : Refines held Q x y) (hyz : Refines held Eq y y') :
    Refines held Q x y' :=
  RefinesIn.trans_eq hxy hyz

theorem eq_trans {x' : Exec σ α} (hxx : Refines held Eq x x') (hxy : Refines held Q x' y) :
    Refines held Q x y :=
  (RefinesIn.trans hxx hxy).imp fun _ _ ⟨_, heq, h⟩ => heq ▸ h

theorem act {a : Act σ α} (ha : Act.Blind a) : Refines held Eq (Exec.act a) (Exec.act a) := by
  intro w fs gs fuel hheld hsame
  have hworld : (a (w.withFrames fs)).2 = (a (w.withFrames fs)).2.withFrames fs :=
    congrArg (fun frames => { (a (w.withFrames fs)).2 with frames }) (ha.frames (w.withFrames fs))
  have hfs : Exec.act a ⟨w.withFrames fs, fuel, none⟩ =
      ((a (w.withFrames fs)).1, ⟨(a (w.withFrames fs)).2.withFrames fs, fuel, none⟩) := by
    rw [← hworld]
    rfl
  have heq : a (w.withFrames gs) =
      ((a (w.withFrames fs)).1, (a (w.withFrames fs)).2.withFrames gs) :=
    ha.eq (w.withFrames fs) gs (World.indistinct_of_same (hheld ▸ hsame))
  have hgs : ∀ spare, Exec.act a ⟨w.withFrames gs, 0 + spare, none⟩ =
      ((a (w.withFrames fs)).1, ⟨(a (w.withFrames fs)).2.withFrames gs, spare, none⟩) := by
    intro spare
    rw [Nat.zero_add]
    show ((a (w.withFrames gs)).1, (⟨(a (w.withFrames gs)).2, spare, none⟩ : Execution σ)) = _
    rw [heq]
  exact .inr ⟨_, _, _, _, hfs, (ha.held _).trans hheld, .of_eq rfl, 0, hgs⟩

/-- Frames that keep the same alive may be put around both. -/
theorem withFrame {F G : Frame} (hframe : F.Alike held G) (h : Refines held Q x y) :
    Refines held Q (Exec.withFrame F x) (Exec.withFrame G y) :=
  RefinesIn.withFrame_of (fun _ _ hsame => hsame.cons hframe) h

/-- A frame that keeps nothing but what is held may be put around the first. -/
theorem withFrame_left {F : Frame} (hforms : ∀ f ∈ F.forms, f.KeptBy held)
    (hvalues : ∀ v ∈ F.values, v.Within held) (h : Refines held Q x y) :
    Refines held Q (Exec.withFrame F x) y :=
  RefinesIn.withFrame_left_of (fun _ _ hsame => hsame.cons_left hforms hvalues) h

/-- A frame that keeps nothing but what is held may be put around the second. -/
theorem withFrame_right {G : Frame} (hforms : ∀ f ∈ G.forms, f.KeptBy held)
    (hvalues : ∀ v ∈ G.values, v.Within held) (h : Refines held Q x y) :
    Refines held Q x (Exec.withFrame G y) := by
  intro w fs gs fuel hheld hsame
  refine (h w fs (G :: gs) fuel hheld (hsame.symm.cons_left hforms hvalues).symm).imp id ?_
  rintro ⟨o, o', rest, w', hx, hheld', hagree, cost, hy⟩
  refine ⟨o, o', rest, w', hx, hheld', hagree, cost, fun spare => ?_⟩
  show ((y ⟨w.withFrames (G :: gs), cost + spare, none⟩).1, _) = _
  rw [hy]

/-- A silent step refines itself. -/
theorem silent {s : Exec σ Unit} (hs : Silent s) : Refines held Eq s s := by
  have hpure : Refines (σ := σ) held Eq (Pure.pure ()) (Pure.pure ()) := .pure rfl
  simpa using (hpure.silent_left hs).silent_right hs

/-- Refinement is a congruence. -/
theorem congruence (held : List Value) :
    Congruence (σ := σ) (fun _ => Act.Blind) fun _ => Refines held Eq where
  act := act
  bind hxy hkl := hxy.bind fun a _ hab => hab ▸ hkl a
  withFrame F _ _ h := h.withFrame (.refl held F)
  consumeFuel := by
    have hpure : Refines (σ := σ) held Eq (Pure.pure ()) (Pure.pure ()) := .pure rfl
    simpa using hpure.pay_left.pay_right
  tracing f := silent (silent_tracing f)
  traceEnter form args := silent (silent_traceEnter form args)

end Refines

/-- A run does the same when more forms may run inside each other. -/
theorem refines_runForm {host : Host σ} {re : Reentry σ} (hre : re.Blind) (held : List Value)
    {depth depth' : Nat} (hle : depth ≤ depth') (form : Form) (args : List Value) :
    Refines held Eq (runForm host re depth form args) (runForm host re depth' form args) :=
  (Refines.congruence held).runForm_le (blind_serves host hre) (fun _ _ => .of_limited (.inr rfl)) hle
    form args

/-- So does an invocation. -/
theorem refines_invokeHandle {host : Host σ} {re : Reentry σ} (hre : re.Blind) (held : List Value)
    {depth depth' : Nat} (hle : depth ≤ depth') (h : Handle) (args : List Value) :
    Refines held Eq (invokeHandle (runForm host re depth) h args)
      (invokeHandle (runForm host re depth') h args) :=
  (Refines.congruence held).invokeHandle _ _ (blind_serves host hre) (refines_runForm hre held hle) h
    args

/-! ## Refinement in one world -/

/-- What `x` does in this world without hitting a limit, `y` does there with enough fuel. -/
def RefinesFrom (held : List Value) (Q : α → β → Prop) (x : Exec σ α) (y : Exec σ β)
    (w : World σ) : Prop :=
  ∀ fuel, Outcome.Limited (x ⟨w, fuel, none⟩).1 ∨
    ∃ o o' rest, ∃ w' : World σ, x ⟨w, fuel, none⟩ = (o, ⟨w', rest, none⟩) ∧ w'.held = held ∧
      Outcome.Agree Q o o' ∧ y.Ends w o' w'

section RefinesFrom

variable {held : List Value} {Q : α → β → Prop} {S : γ → δ → Prop} {x : Exec σ α} {y : Exec σ β}
  {w : World σ}

theorem Refines.refinesFrom (h : Refines held Q x y) (hw : w.held = held) :
    RefinesFrom held Q x y w := by
  intro fuel
  refine (h w w.frames w.frames fuel hw (.refl held w.frames)).imp_right ?_
  rintro ⟨o, o', rest, w', hx, hheld, hagree, hy⟩
  exact ⟨o, o', rest, w'.withFrames w.frames, hx, hheld, hagree, hy⟩

/-- What comes next may depend on how the second computation ends in this world. -/
theorem RefinesFrom.bind {k : α → Exec σ γ} {l : β → Exec σ δ} (hxy : RefinesFrom held Q x y w)
    (hkl : ∀ a b w', Q a b → w'.held = held → y.Ends w (.ok b) w' →
      RefinesFrom held S (k a) (l b) w') : RefinesFrom held S (x >>= k) (y >>= l) w := by
  intro fuel
  rw [bind_apply]
  rcases hxy fuel with hlimited | ⟨o, o', rest, w', hx, hheld, hagree, hy⟩
  · rcases hlimited with hlimited | hlimited <;> rw [hlimited]
    · exact .inl (.inl rfl)
    · exact .inl (.inr rfl)
  rw [hx]
  cases hagree with
  | stop s => exact .inr ⟨_, _, rest, w', rfl, hheld, .stop s, hy.bind_stop⟩
  | @ok a b hab =>
    rcases hkl a b w' hab hheld hy rest with hlimited | h
    · exact .inl hlimited
    · obtain ⟨o, o', rest', w'', hk, hheld', hagree', hl⟩ := h
      exact .inr ⟨o, o', rest', w'', hk, hheld', hagree', hy.bind hl⟩

/-- What is refined everywhere is refined in this world. -/
theorem Refines.trans_from {x' : Exec σ α} (hxx : Refines held Eq x x')
    (hxy : RefinesFrom held Q x' y w) (hw : w.held = held) : RefinesFrom held Q x y w := by
  intro fuel
  rcases hxx.refinesFrom hw fuel with hlimited | ⟨o, o', rest, w', hx, hheld, hagree, cost, hx'⟩
  · exact .inl hlimited
  obtain rfl := hagree.eq
  rcases hxy (cost + 0) with hlimited | ⟨o₁, o₂, rest', w'', hx'', -, hagree', hy⟩
  · rw [hx'] at hlimited
    exact .inl (by rwa [hx])
  · obtain ⟨rfl, hstate⟩ := Prod.mk.inj (hx''.symm.trans (hx' 0))
    obtain rfl : w'' = w' := congrArg Execution.world hstate
    exact .inr ⟨_, o₂, rest, w'', hx, hheld, hagree', hy⟩

end RefinesFrom

/-! ## Computations that do the same -/

/-- Two computations that do the same when neither hits a limit. -/
structure Equates (held : List Value) (Q : α → β → Prop) (x : Exec σ α) (y : Exec σ β) : Prop where
  le : Refines held Q x y
  ge : Refines held (fun b a => Q a b) y x

namespace Equates

variable {held : List Value} {Q : α → β → Prop} {S : γ → δ → Prop} {x : Exec σ α} {y : Exec σ β}

theorem ofOutcome {r : Outcome α} {r' : Outcome β} (h : r.Agree Q r') :
    Equates (σ := σ) held Q (Exec.act (Act.ofStop r)) (Exec.act (Act.ofStop r')) := by
  refine ⟨.ofOutcome h, .ofOutcome ?_⟩
  cases h with
  | ok h => exact .ok h
  | stop s => exact .stop s

theorem pure {a : α} {b : β} (h : Q a b) : Equates (σ := σ) held Q (Pure.pure a) (Pure.pure b) :=
  ⟨.pure h, .pure h⟩

theorem bind {k : α → Exec σ γ} {l : β → Exec σ δ} (hxy : Equates held Q x y)
    (hkl : ∀ a b, Q a b → Equates held S (k a) (l b)) : Equates held S (x >>= k) (y >>= l) :=
  ⟨hxy.le.bind fun a b h => (hkl a b h).le, hxy.ge.bind fun b a h => (hkl a b h).ge⟩

theorem withFrame {F G : Frame} (hframe : F.Alike held G) (h : Equates held Q x y) :
    Equates held Q (Exec.withFrame F x) (Exec.withFrame G y) :=
  ⟨h.le.withFrame hframe, h.ge.withFrame hframe.symm⟩

theorem withFrame_left {F : Frame} (hforms : ∀ f ∈ F.forms, f.KeptBy held)
    (hvalues : ∀ v ∈ F.values, v.Within held) (h : Equates held Q x y) :
    Equates held Q (Exec.withFrame F x) y :=
  ⟨h.le.withFrame_left hforms hvalues, h.ge.withFrame_right hforms hvalues⟩

theorem pay_left (h : Equates held Q x y) : Equates held Q (consumeFuel >>= fun _ => x) y :=
  ⟨h.le.pay_left, h.ge.pay_right⟩

theorem silent_left {s : Exec σ Unit} (hs : Silent s) (h : Equates held Q x y) :
    Equates held Q (s >>= fun _ => x) y :=
  ⟨h.le.silent_left hs, h.ge.silent_right hs⟩

/-- The answer may be shown in the trace. -/
theorem shown {s : α → Exec σ Unit} (hs : ∀ a, Silent (s a)) (h : Equates held Q x y) :
    Equates held Q (x >>= fun a => s a >>= fun _ => Pure.pure a) y := by
  have hbind := h.bind (k := fun a => s a >>= fun _ => Pure.pure a) (l := Pure.pure) (S := Q)
    fun a b hab => silent_left (hs a) (pure hab)
  simpa using hbind

/-- What refines itself equates to itself. -/
theorem of_refines {x y : Exec σ α} (h : Refines held Eq x y) (h' : Refines held Eq y x) :
    Equates held Eq x y :=
  ⟨h, h'.imp fun _ _ h => h.symm⟩

end Equates

end Exec

end HandleForms
