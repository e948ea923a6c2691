import HandleForms.Host.Table
import HandleForms.Proofs.Guard.Steps

/-!
# Tables are honest hosts

A table marks a class initialized when its initializer has succeeded and never takes that back, and
its bodies hand on what they were given. So a table whose plans hold no handles is an honest host
(`HostTable.honest`).
-/

namespace HandleForms

variable {σ ε δ α β : Type}

namespace Value

variable {known known' values : List Value} {v : Value}

theorem DrawnFrom.refl (known : List Value) : DrawnFrom known known := fun _ hh => hh

theorem DrawnFrom.trans (h : DrawnFrom known' known) (h' : DrawnFrom known values) :
    DrawnFrom known' values := fun g hg => h g (h' g hg)

theorem drawnFrom_cons (v : Value) (known : List Value) : DrawnFrom (v :: known) known :=
  fun _ hh => mem_parts_cons.2 (.inr hh)

theorem drawnFrom_of_mem (hv : v ∈ known) : DrawnFrom known [v] := fun h hh => by
  rw [mem_parts] at hh ⊢
  obtain ⟨u, hu, hh⟩ := hh
  obtain rfl := List.mem_singleton.1 hu
  exact ⟨u, hv, hh⟩

/-- Values without handles are drawn from whatever there is. -/
theorem drawnFrom_of_parts (h : ∀ g : Handle, .handle g ∉ parts values) : DrawnFrom known values :=
  fun g hg => absurd hg (h g)

end Value

namespace Script.Honest

variable {host : Host σ} {values : σ → List Value} {post : List Value → σ → Except ε α → Prop}
  {post' : List Value → σ → Except δ β → Prop} {known : List Value} {s : σ}

/-- Honest code goes on honestly. What it knew it still knows. -/
theorem andThen {code : Script σ ε α} {k : Except ε α → Script σ δ β}
    (hcode : code.Honest host values post known s)
    (hk : ∀ known' t r, Value.DrawnFrom known' known → post known' t r →
      (k r).Honest host values post' known' t) :
    (code.andThen k).Honest host values post' known s := by
  induction code generalizing known s with
  | done result => exact hk known s result (.refl known) hcode
  | panic => trivial
  | getState next ih =>
    exact ih s hcode fun known' t r hknown => hk known' t r (hknown.trans fun h hh =>
      Value.mem_parts_append.2 (.inr hh))
  | setState t next ih => exact ⟨hcode.1, hcode.2.1, ih hcode.2.2 hk⟩
  | create plan next ih => exact ⟨hcode.1, fun v hv => ih v (hcode.2 v hv) hk⟩
  | getField object name next ih =>
    exact fun v => ih v (hcode v) fun known' t r hknown =>
      hk known' t r (hknown.trans (Value.drawnFrom_cons v known))
  | setField object name value next ih => exact ⟨hcode.1, ih hcode.2 hk⟩
  | make op next ih =>
    refine ⟨hcode.1, fun e => ih _ (hcode.2.1 e) hk, fun h => ih _ (hcode.2.2 h) ?_⟩
    exact fun known' t r hknown => hk known' t r (hknown.trans (Value.drawnFrom_cons _ known))
  | formKind target next ih => exact ⟨hcode.1, fun kind => ih kind (hcode.2 kind) hk⟩
  | invoke target site args next ih =>
    refine ⟨hcode.1, fun t hst => ⟨fun e => ih _ ((hcode.2 t hst).1 e) hk, fun v => ?_⟩⟩
    exact ih _ ((hcode.2 t hst).2 v) fun known' u r hknown =>
      hk known' u r (hknown.trans (Value.drawnFrom_cons v known))
  | ensure cls next ih => exact fun t hst r => ih r (hcode t hst r) hk
  | hold value next ih => exact ih hcode hk
  | release next ih => exact ih hcode hk

end Script.Honest

/-! ## Bodies -/

mutual

/-- The values inside the plans of a body. -/
def Body.givens : Body → List Value
  | .const plan => plan.givens
  | .seq bodies => Body.givensOf bodies
  | _ => []

/-- The values inside the plans of some bodies. -/
def Body.givensOf : List Body → List Value
  | [] => []
  | b :: bs => b.givens ++ Body.givensOf bs

end

namespace Body

variable {t : HostTable} {known args : List Value} {s : TableState}

/-- Code of a table, as far as its answer goes. -/
abbrev Honest (t : HostTable) (code : Code α) (known : List Value) (s : TableState)
    (Q : List Value → α → Prop) : Prop :=
  Script.Honest t.host (fun _ => []) (fun known' _ r => ∀ a, r = .ok a → Q known' a) code known s

theorem Honest.bind {code : Code α} {k : α → Code β} {Q : List Value → α → Prop}
    {R : List Value → β → Prop} (hcode : Honest t code known s Q)
    (hk : ∀ known' u a, Value.DrawnFrom known' known → Q known' a → Honest t (k a) known' u R) :
    Honest t (code >>= k) known s R :=
  Script.Honest.andThen hcode fun known' u r hknown hr => by
    cases r with
    | error e => exact nofun
    | ok a => exact hk known' u a hknown (hr a rfl)

theorem honest_logText (text : String) : Honest t (logText text) known s fun _ _ => True :=
  ⟨fun _ h => h, Value.drawnFrom_of_parts nofun, fun _ _ => trivial⟩

theorem honest_setFields (object : Nat) {fields : List (String × Value)}
    (hfields : ∀ e ∈ fields, Value.DrawnFrom known [e.2]) :
    Honest t (setFields object fields) known s fun _ _ => True := by
  induction fields with
  | nil => exact fun _ _ => trivial
  | cons e fields ih =>
    exact ⟨hfields e (.head _), ih fun e he => hfields e (.tail _ he)⟩

/-- An answer that needs nothing of the world. -/
theorem honest_ofExcept {r : Except RuntimeError α} {Q : List Value → α → Prop}
    (hr : ∀ a, r = .ok a → Q known a) : Honest t (.ofExcept r) known s Q := hr

/-- An answer without handles. -/
theorem honest_pure {v : Value} (hv : ∀ h : Handle, .handle h ∉ Value.parts [v]) :
    Honest t (.pure v) known s fun known' v => Value.DrawnFrom known' [v] := fun u hu => by
  obtain rfl := Except.ok.inj hu
  exact Value.drawnFrom_of_parts hv

theorem honest_map {r : Except RuntimeError α} {f : α → Value}
    (hf : ∀ (a : α) (h : Handle), .handle h ∉ Value.parts [f a]) :
    Honest t (.ofExcept (r.map f)) known s fun known' v => Value.DrawnFrom known' [v] :=
  honest_ofExcept fun v hv => by
    cases r with
    | error e => cases hv
    | ok a =>
      obtain rfl := Except.ok.inj hv
      exact Value.drawnFrom_of_parts (hf a)

theorem honest_invoke {h : Handle} (hdrawn : Value.DrawnFrom known (.handle h :: args)) :
    Honest t (invoke h args) known s fun known' r => ∀ v, r = .ok v → Value.DrawnFrom known' [v] := by
  refine ⟨hdrawn, fun u _ => ⟨fun e r hr v hv => ?_, fun v r hr v' hv => ?_⟩⟩
  · obtain rfl := Except.ok.inj hr
    cases hv
  · obtain rfl := Except.ok.inj hr
    obtain rfl := Except.ok.inj hv
    exact Value.drawnFrom_of_mem (.head _)

/-- The first argument is one that was given. -/
theorem drawnFrom_first {v : Value} (hargs : Value.DrawnFrom known args) (hv : first args = .ok v) :
    Value.DrawnFrom known [v] := by
  cases args with
  | nil => cases hv
  | cons u us =>
    obtain rfl := Except.ok.inj hv
    exact hargs.trans (Value.drawnFrom_of_mem (.head _))

theorem honest_callStatic (cls name : String) (type : Signature)
    (hargs : Value.DrawnFrom known args) :
    Honest t (callStatic cls name type args) known s fun known' v => Value.DrawnFrom known' [v] := by
  refine ⟨Value.drawnFrom_of_parts nofun, fun _ => nofun, fun h => ?_⟩
  have hh : Value.DrawnFrom (.handle h :: known) [.handle h] := Value.drawnFrom_of_mem (.head _)
  refine ⟨hh, fun before => (honest_logText _).bind fun k₁ _ _ h₁ _ => ?_⟩
  have hcall : Value.DrawnFrom k₁ (.handle h :: args) := fun g hg =>
    (Value.mem_parts_cons.1 hg).elim (h₁.trans hh g)
      ((h₁.trans (Value.drawnFrom_cons _ known)).trans hargs g)
  refine (honest_invoke hcall).bind fun k₂ _ r h₂ hr => ?_
  refine Honest.bind (Q := fun _ _ => True) ⟨h₂.trans (h₁.trans hh), fun _ _ _ => trivial⟩
    fun k₃ _ _ h₃ _ => ?_
  refine (honest_logText _).bind fun k₄ _ _ h₄ _ => ?_
  exact fun v hv => (h₄.trans h₃).trans (hr v hv)

mutual

theorem honest_run {known : List Value} {s : TableState} (b : Body)
    (hgivens : ∀ h : Handle, .handle h ∉ Value.parts b.givens)
    (hargs : Value.DrawnFrom known args) :
    Honest t (run args b) known s fun known' v => Value.DrawnFrom known' [v] := by
  cases b with
  | const plan => 
    refine ⟨Value.drawnFrom_of_parts hgivens, fun v hv a ha => ?_⟩
    obtain rfl := Except.ok.inj ha
    exact fun h hh => absurd (hv h hh) (hgivens h)
  | concat => exact honest_pure nofun
  | upper => exact honest_map fun _ _ => nofun
  | length => exact honest_map fun _ _ => nofun
  | measure => exact honest_pure nofun
  | add => exact honest_map fun _ _ => nofun
  | log => exact (honest_logText _).bind fun _ _ _ _ _ => honest_pure nofun
  | say text => exact (honest_logText _).bind fun _ _ _ _ _ => honest_pure nofun
  | err text => exact nofun
  | panic text => trivial
  | set names =>
    refine (honest_ofExcept (Q := fun _ _ => True) fun _ _ => trivial).bind fun k₁ _ o h₁ _ => ?_
    refine (honest_setFields o.1 fun e he => ?_).bind fun _ _ _ _ _ => honest_pure nofun
    exact (h₁.trans hargs).trans (Value.drawnFrom_of_mem
      (List.mem_of_mem_tail (List.of_mem_zip he).2))
  | get name =>
    refine (honest_ofExcept (Q := fun _ _ => True) fun _ _ => trivial).bind fun _ _ o _ _ => ?_
    rintro v _ ⟨⟩
    exact Value.drawnFrom_of_mem (.head _)
  | apply =>
    refine (honest_ofExcept (Q := fun k h => Value.DrawnFrom k [.handle h]) fun h hh => ?_).bind
      fun k₁ _ h h₁ hh => ?_
    · obtain ⟨v, hv, hh⟩ := bind_eq_ok_iff.1 hh
      exact Value.eq_of_asHandle hh ▸ drawnFrom_first hargs hv
    · refine (honest_invoke fun g hg => ?_).bind fun _ _ r _ hr => honest_ofExcept hr
      refine (Value.mem_parts_cons.1 hg).elim (hh g) fun hg => h₁ g (hargs g ?_)
      obtain ⟨v, hv, hg⟩ := Value.mem_parts.1 hg
      exact Value.mem_parts.2 ⟨v, List.mem_of_mem_tail hv, hg⟩
  | types => exact honest_pure nofun
  | as view =>
    refine honest_ofExcept fun v hv => ?_
    obtain ⟨u, hu, hv⟩ := bind_eq_ok_iff.1 hv
    obtain rfl : u = v := by
      cases view <;> exact (map_eq_ok_iff.1 hv).elim fun _ h => h.2
    exact drawnFrom_first hargs hu
  | call cls name type => exact honest_callStatic cls name type hargs
  | seq bodies => exact honest_runAll bodies .void hgivens hargs (Value.drawnFrom_of_parts nofun)

theorem honest_runAll {known : List Value} {s : TableState} (bs : List Body) (last : Value)
    (hgivens : ∀ h : Handle, .handle h ∉ Value.parts (givensOf bs))
    (hargs : Value.DrawnFrom known args) (hlast : Value.DrawnFrom known [last]) :
    Honest t (runAll args last bs) known s fun known' v => Value.DrawnFrom known' [v] := by
  cases bs with
  | nil => 
    rintro v hv
    obtain rfl := Except.ok.inj hv
    exact hlast
  | cons b bs =>
    have hparts : ∀ h : Handle, .handle h ∉ Value.parts b.givens ∧
        .handle h ∉ Value.parts (givensOf bs) := fun h =>
      not_or.1 fun hh => hgivens h (Value.mem_parts_append.2 hh)
    exact (honest_run b (fun h => (hparts h).1) hargs).bind fun known' u v hknown hv =>
      honest_runAll bs v (fun h => (hparts h).2) (hknown.trans hargs) hv

end

end Body

/-! ## Tables -/

namespace HostTable

/-- The bodies of all functions. -/
def bodies (t : HostTable) : List Body :=
  t.primitives.map Prod.snd ++ t.members.map Prod.snd ++ t.initializers.map Prod.snd

/-- No plan of the table holds a handle. -/
def MakesUpNoHandles (t : HostTable) : Prop :=
  ∀ body ∈ t.bodies, ∀ h : Handle, .handle h ∉ Value.parts body.givens

variable {t : HostTable} {known : List Value} {s : TableState}

/-- After its initializer a class is marked. -/
theorem honest_markInitialized (cls : String) :
    (markInitialized cls).Honest t.host (fun _ => [])
      (fun _ u r => r = .ok () → t.host.isInitialized u cls = true) known s := by
  refine ⟨fun other hother => ?_, Value.drawnFrom_of_parts nofun, fun _ => ?_⟩
  · rcases Bool.or_eq_true_iff.1 hother with hother | hother
    · exact Bool.or_eq_true_iff.2 (.inl hother)
    · exact Bool.or_eq_true_iff.2 (.inr (by simp_all))
  · exact Bool.or_eq_true_iff.2 (.inr (by simp))

/-- A body of the table is honest about its arguments. -/
theorem honest_body (ht : t.MakesUpNoHandles) {body : Body} (hbody : body ∈ t.bodies)
    (args : List Value) (s : TableState) :
    Body.Honest t (body.run args) args s fun known v => Value.DrawnFrom known [v] :=
  Body.honest_run body (ht body hbody) (.refl args)

theorem mem_bodies_of_primitive {name : String} {body : Body}
    (h : t.primitives.lookup name = some body) : body ∈ t.bodies :=
  List.mem_append_left _ (List.mem_append_left _ (List.mem_map_of_mem (TypeForms.mem_of_lookup h)))

theorem mem_bodies_of_member {key : String × String} {body : Body}
    (h : t.members.lookup key = some body) : body ∈ t.bodies :=
  List.mem_append_left _ (List.mem_append_right _ (List.mem_map_of_mem (TypeForms.mem_of_lookup h)))

theorem mem_bodies_of_initializer {cls : String} {body : Body}
    (h : t.initializers.lookup cls = some body) : body ∈ t.bodies :=
  List.mem_append_right _ (List.mem_map_of_mem (TypeForms.mem_of_lookup h))

/-- A table without handles in its plans is an honest host. -/
theorem honest (ht : t.MakesUpNoHandles) : t.host.Honest fun _ => [] where
  primitive name args s := by
    cases hlookup : t.primitives.lookup name with
    | none =>
      have hcode : t.host.primitive name args = .fail (.unknownPrimitive name) := by
        simp only [host, hlookup]
      rw [hcode]
      rintro _ ⟨⟩
    | some body =>
      have hcode : t.host.primitive name args = body.run args := by simp only [host, hlookup]
      rw [hcode]
      exact honest_body ht (mem_bodies_of_primitive hlookup) args s
  member kind m args s := by
    cases hlookup : t.members.lookup (m.cls, m.name) with
    | none =>
      have hcode : t.host.member kind m args = .fail (.unknownMember m.cls m.name) := by
        simp only [host, hlookup]
      rw [hcode]
      rintro _ ⟨⟩
    | some body =>
      have hcode : t.host.member kind m args = body.run args := by simp only [host, hlookup]
      rw [hcode]
      exact honest_body ht (mem_bodies_of_member hlookup) args s
  allocate cls s := by
    refine ⟨Value.drawnFrom_of_parts fun _ h => (by cases h), fun v hv a ha => ?_⟩
    obtain rfl := Except.ok.inj ha
    intro h hh
    cases hv h hh
  initializer cls s := by
    cases hlookup : t.initializers.lookup cls with
    | none =>
      have hcode : t.host.initializer cls = markInitialized cls := by simp only [host, hlookup]
      rw [hcode]
      exact honest_markInitialized cls
    | some body =>
      obtain ⟨after, hcode, hok, herror⟩ : ∃ after,
          t.host.initializer cls = (body.run []).andThen after ∧
            (∀ v, after (.ok v) = markInitialized cls) ∧ ∀ e, after (.error e) = .fail e.message := by
        simp only [host, hlookup]
        exact ⟨_, rfl, fun _ => rfl, fun _ => rfl⟩
      rw [hcode]
      refine (honest_body ht (mem_bodies_of_initializer hlookup) [] s).andThen fun known u r _ _ => ?_
      cases r with
      | error e =>
        rw [herror]
        rintro ⟨⟩
      | ok v => exact hok v ▸ honest_markInitialized cls

end HostTable

end HandleForms
