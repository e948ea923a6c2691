import HandleForms.Proofs.Guard.Table
import HandleForms.Proofs.Mirror.Script

/-!
# Tables are discreet hosts

The bodies of a table show no identities: they look at their arguments through their texts, their
sorts and what they contain, and the handles that they make are made in both worlds at once. So a
table whose plans give nothing but literals is a discreet host (`HostTable.discreet`).
-/

namespace HandleForms

variable {σ α β γ δ ε ζ : Type}

/-! ## Code in a row -/

namespace Script.Mirrors

variable {host : Host σ} {M : host.Mirroring} {κ : Pairing} {s s' : σ}
  {post : Pairing → Except ε α → Except ε β → Prop}
  {post' : Pairing → Except ζ γ → Except ζ δ → Prop}

/-- Discreet code may go on in any discreet way. -/
theorem andThen {code : Script σ ε α} {code' : Script σ ε β} {k : Except ε α → Script σ ζ γ}
    {k' : Except ε β → Script σ ζ δ} (hstate : M.State κ s s')
    (hcode : Mirrors M post κ s s' code code')
    (hk : ∀ κ' t t' r r', κ ≤ κ' → M.State κ' t t' → post κ' r r' →
      Mirrors M post' κ' t t' (k r) (k' r')) :
    Mirrors M post' κ s s' (code.andThen k) (code'.andThen k') := by
  induction hcode with
  | done h => exact hk _ _ _ _ _ (le_refl _) hstate h
  | panic text => exact .panic text
  | getState _ ih => exact .getState (ih hstate hk)
  | setState hlater ht _ ih =>
    exact .setState hlater ht (ih ht fun κ' t t' r r' hle => hk κ' t t' r r'
      ((Pairing.le_withReady _).trans hle))
  | create hplan _ ih =>
    exact .create hplan fun κ₁ v v' hle hv => ih κ₁ v v' hle hv (M.mono hstate hle)
      fun κ' t t' r r' hle' => hk κ' t t' r r' (hle.trans hle')
  | getField hij name _ ih => exact .getField hij name fun v v' hv => ih v v' hv hstate hk
  | setField hij name hv _ ih => exact .setField hij name hv (ih hstate hk)
  | make hop _ ih =>
    exact .make hop fun κ₁ r r' hle hr => ih κ₁ r r' hle hr (M.mono hstate hle)
      fun κ' t t' r r' hle' => hk κ' t t' r r' (hle.trans hle')
  | makeDirect m _ ih =>
    exact .makeDirect m fun κ₁ r r' hle hr => ih κ₁ r r' hle hr (M.mono hstate hle)
      fun κ' t t' r r' hle' => hk κ' t t' r r' (hle.trans hle')
  | formKind hh hlevel _ ih => exact .formKind hh hlevel fun kind => ih kind hstate hk
  | invoke hh site hvs _ ih =>
    exact .invoke hh site hvs fun κ₁ t t' r r' hle hlater ht hr =>
      ih κ₁ t t' r r' hle hlater ht hr ht
      fun κ' t t' r r' hle' => hk κ' t t' r r' (hle.trans hle')
  | ensure cls _ ih =>
    exact .ensure cls fun κ₁ t t' r hle hlater ht => ih κ₁ t t' r hle hlater ht ht
      fun κ' t t' r r' hle' => hk κ' t t' r r' (hle.trans hle')
  | hold _ ih => exact .hold (ih hstate hk)
  | release _ ih => exact .release (ih hstate hk)

end Script.Mirrors

/-! ## What bodies look at -/

namespace Value.Mirrors

variable {κ : Pairing} {v v' : Value}

theorem textOf (hv : v.Mirrors κ v') : Body.textOf v = Body.textOf v' := by
  have htext := hv.text
  cases hv with
  | literal => rfl
  | array | handle | member | object => exact htext

theorem asObject (hv : v.Mirrors κ v') :
    Answer.Mirrors (fun o o' => κ.same o.1 o'.1) v.asObject v'.asObject := by
  cases hv with
  | @literal v hv => cases v <;> first | exact .error _ | cases hv
  | object hij => exact .ok hij
  | array | handle | member => exact .error _

/-- A view checks the sort. -/
theorem check (hv : v.Mirrors κ v') (view : View) :
    Answer.Mirrors (Value.Mirrors κ) (view.check v) (view.check v') := by
  cases hv with
  | @literal v hv =>
    cases view <;> cases v <;> first | exact .error _ | exact .ok (.literal hv)
  | array => cases view <;> exact .error _
  | handle hh hdata hsane hsane' =>
    cases view <;> first | exact .error _ | exact .ok (.handle hh hdata hsane hsane')
  | member hij => cases view <;> first | exact .error _ | exact .ok (.member hij)
  | object hij => cases view <;> first | exact .error _ | exact .ok (.object hij)

end Value.Mirrors

namespace Value.MirrorAll

variable {κ : Pairing} {vs vs' : List Value}

theorem map_eq {f : Value → α} (hvs : MirrorAll κ vs vs')
    (hf : ∀ {v v'}, v.Mirrors κ v' → f v = f v') :
    vs.map f = vs'.map f := by
  induction hvs with
  | nil => rfl
  | cons hv _ ih => rw [List.map_cons, List.map_cons, hf hv, ih]

theorem tail (hvs : MirrorAll κ vs vs') : MirrorAll κ vs.tail vs'.tail := by
  cases hvs with
  | nil => exact .nil
  | cons _ hvs => exact hvs

/-- The same names for the values. -/
theorem zip (hvs : MirrorAll κ vs vs') (names : List String) :
    World.MirrorFields κ (names.zip vs) (names.zip vs') := by
  induction hvs generalizing names with
  | nil =>
    rw [List.zip_nil_right]
    exact .nil
  | cons hv _ ih =>
    cases names with
    | nil => exact .nil
    | cons name names => exact .cons ⟨rfl, hv⟩ (ih names)

theorem first (hvs : MirrorAll κ vs vs') :
    Answer.Mirrors (Value.Mirrors κ) (Body.first vs) (Body.first vs') := by
  cases hvs with
  | nil => exact .error _
  | cons hv _ => exact .ok hv

theorem sum (hvs : MirrorAll κ vs vs') : Body.sum vs = Body.sum vs' := by
  induction hvs with
  | nil => rfl
  | cons hv _ ih => rw [Body.sum, Body.sum, hv.asInt, ih]

end Value.MirrorAll

namespace Answer.Mirrors

/-- One answer after another. -/
theorem bind {Q : α → β → Prop} {R : γ → δ → Prop} {r : Except ε α} {r' : Except ε β}
    {k : α → Except ε γ} {k' : β → Except ε δ} (hr : Mirrors Q r r')
    (hk : ∀ a b, Q a b → Mirrors R (k a) (k' b)) : Mirrors R (r.bind k) (r'.bind k') := by
  cases hr with
  | ok h => exact hk _ _ h
  | error e => exact .error e

/-- An answer that is worked up. -/
theorem map {Q : α → β → Prop} {R : γ → δ → Prop} {r : Except ε α} {r' : Except ε β} {f : α → γ}
    {f' : β → δ} (hr : Mirrors Q r r') (hf : ∀ a b, Q a b → R (f a) (f' b)) :
    Mirrors R (r.map f) (r'.map f') := by
  cases hr with
  | ok h => exact .ok (hf _ _ h)
  | error e => exact .error e

theorem refl {Q : α → α → Prop} (hQ : ∀ a, Q a a) (r : Except ε α) : Mirrors Q r r := by
  cases r with
  | ok a => exact .ok (hQ a)
  | error e => exact .error e

end Answer.Mirrors

mutual

/-- A plan of literals mirrors itself. -/
theorem Blueprint.mirrors_self {κ : Pairing} (plan : Blueprint)
    (hplan : ∀ v ∈ plan.givens, v.isLiteral = true) : plan.Mirrors κ plan := by
  cases plan with
  | given v => exact .given (.literal (hplan v (.head _)))
  | array element items => exact .array (mirrorAll_self items hplan)
  | object cls => exact .object cls

theorem Blueprint.mirrorAll_self {κ : Pairing} (plans : List Blueprint)
    (hplans : ∀ v ∈ Blueprint.givensOf plans, v.isLiteral = true) :
    List.Forall₂ (Blueprint.Mirrors κ) plans plans := by
  cases plans with
  | nil => exact .nil
  | cons plan plans =>
    exact .cons (mirrors_self plan fun v hv => hplans v (List.mem_append_left _ hv))
      (mirrorAll_self plans fun v hv => hplans v (List.mem_append_right _ hv))

end

/-! ## Bodies -/

/-- The states of a table stand for each other when they are the same. -/
def HostTable.mirroring (t : HostTable) : t.host.Mirroring where
  lockstep := False
  State _ s s' := s' = s
  mono h _ := h
  self h _ := h
  initialized h _ := h ▸ rfl

namespace Body

variable {t : HostTable} {κ : Pairing} {s : TableState} {args args' : List Value}

/-- Code of a table that shows no identities. -/
abbrev Discreet (t : HostTable) (κ : Pairing) (s : TableState) (code : Code α) (code' : Code β)
    (Q : Pairing → α → β → Prop) : Prop :=
  Script.Mirrors t.mirroring (fun κ' => Answer.Mirrors (Q κ')) κ s s code code'

theorem Discreet.bind {code : Code α} {code' : Code β} {k : α → Code γ} {k' : β → Code δ}
    {Q : Pairing → α → β → Prop} {R : Pairing → γ → δ → Prop} (hcode : Discreet t κ s code code' Q)
    (hk : ∀ κ' u a b, κ ≤ κ' → Q κ' a b → Discreet t κ' u (k a) (k' b) R) :
    Discreet t κ s (code >>= k) (code' >>= k') R :=
  Script.Mirrors.andThen rfl hcode fun κ' u u' r r' hle hu hr => by
    obtain rfl : u' = u := hu
    cases hr with
    | ok h => exact hk κ' u' _ _ hle h
    | error e => exact .done (.error e)

theorem discreet_logText (text : String) :
    Discreet t κ s (logText text) (logText text) fun _ _ _ => True := by
  refine .getState (.setState ?_ rfl (.done (.ok trivial)))
  exact fun _ h => h

theorem discreet_setFields {i j : Nat} (hij : κ.same i j) {fields fields' : List (String × Value)}
    (hfields : World.MirrorFields κ fields fields') :
    Discreet t κ s (setFields i fields) (setFields j fields') fun _ _ _ => True := by
  induction hfields with
  | nil => exact .done (.ok trivial)
  | @cons f f' fields fields' hf _ ih =>
    obtain ⟨name, v⟩ := f
    obtain ⟨name', v'⟩ := f'
    obtain rfl : name = name' := hf.1
    exact .setField hij name hf.2 ih

theorem discreet_invoke {h h' : Handle} (hh : (Value.handle h).Mirrors κ (.handle h'))
    (hargs : Value.MirrorAll κ args args') :
    Discreet t κ s (invoke h args) (invoke h' args')
      fun κ' => Answer.Mirrors (Value.Mirrors κ') :=
  .invoke hh .basic hargs fun _ _ _ _ _ _ _ hu hr => by
    subst hu
    exact .done (.ok hr)

theorem discreet_callStatic (cls name : String) (type : Signature)
    (hargs : Value.MirrorAll κ args args') :
    Discreet t κ s (callStatic cls name type args)
      (callStatic cls name type args') Value.Mirrors := by
  refine .makeDirect _ fun κ₁ r r' h₁ hr => ?_
  cases hr with
  | error e => exact .done (.error e)
  | @ok h h' hh =>
    refine .hold (.formKind hh.1 (fun _ _ _ => hh.2) fun before => ?_)
    refine (discreet_logText _).bind fun κ₂ _ _ _ h₂ _ => ?_
    refine (discreet_invoke (hh.1.mono h₂) ((hargs.mono h₁).mono h₂)).bind fun κ₃ u r r' h₃ hr => ?_
    have hle := h₂.trans h₃
    -- The handle was made in both worlds at once, so it may be looked at again after the call.
    have hkind : Discreet t κ₃ u (.formKind h .pure) (.formKind h' .pure) fun _ => Eq :=
      .formKind (hh.1.mono hle) (fun _ _ _ => hle.level hh.2) fun _ => .done (.ok rfl)
    refine hkind.bind fun κ₄ _ after after' h₄ hafter => ?_
    subst hafter
    refine (discreet_logText _).bind fun κ₅ _ _ _ h₅ _ => .release (.done ?_)
    cases hr with
    | ok hv => exact .ok (hv.mono (h₄.trans h₅))
    | error e => exact .error e

/-- Answers that are literals. -/
theorem discreet_literal {v : Value} (hv : v.isLiteral = true) :
    Discreet t κ s (.pure v) (.pure v) Value.Mirrors :=
  .done (.ok (.literal hv))

theorem discreet_ofExcept {Q : Pairing → α → β → Prop} {r : Except RuntimeError α}
    {r' : Except RuntimeError β} (hr : Answer.Mirrors (Q κ) r r') :
    Discreet t κ s (.ofExcept r) (.ofExcept r') Q :=
  .done hr

/-- The first argument as an object. -/
theorem discreet_object (hargs : Value.MirrorAll κ args args') :
    Discreet t κ s (.ofExcept ((first args).bind Value.asObject))
      (.ofExcept ((first args').bind Value.asObject)) fun κ' o o' => κ'.same o.1 o'.1 :=
  .done (hargs.first.bind fun _ _ hv => hv.asObject)

/-- The first argument as a handle. -/
theorem discreet_handle (hargs : Value.MirrorAll κ args args') :
    Discreet t κ s (.ofExcept ((first args).bind Value.asHandle))
      (.ofExcept ((first args').bind Value.asHandle))
      fun κ' h h' => (Value.handle h).Mirrors κ' (.handle h') :=
  .done (hargs.first.bind fun v v' hv => by
    rcases hv.asHandle with ⟨e, he, he'⟩ | ⟨h, h', rfl, rfl, -⟩
    · rw [he, he']
      exact .error e
    · exact .ok hv)

mutual

/-- Bodies do the same with mirrored arguments. -/
theorem discreet_run {κ : Pairing} {s : TableState} (b : Body)
    (hgivens : ∀ v ∈ b.givens, v.isLiteral = true) (hargs : Value.MirrorAll κ args args') :
    Discreet t κ s (run args b) (run args' b) Value.Mirrors := by
  have htexts := hargs.map_eq Value.Mirrors.textOf
  cases b with
  | const plan =>
    exact .create (plan.mirrors_self hgivens) fun _ _ _ _ hv => .done (.ok hv)
  | concat =>
    simp only [run, htexts]
    exact discreet_literal rfl
  | upper =>
    exact discreet_ofExcept (hargs.first.map fun _ _ hv => by rw [hv.textOf]; exact .literal rfl)
  | length =>
    exact discreet_ofExcept (hargs.first.map fun _ _ hv => by rw [hv.textOf]; exact .literal rfl)
  | measure =>
    have hsizes := hargs.map_eq fun hv => congrArg String.utf8ByteSize hv.textOf
    simp only [run, hsizes]
    exact discreet_literal rfl
  | add =>
    simp only [run, hargs.sum]
    exact discreet_ofExcept ((Answer.Mirrors.refl (fun _ => rfl) _).map fun _ _ hn =>
      hn ▸ .literal rfl)
  | log =>
    simp only [run, htexts]
    exact (discreet_logText _).bind fun _ _ _ _ _ _ => discreet_literal rfl
  | say text => exact (discreet_logText text).bind fun _ _ _ _ _ _ => discreet_literal rfl
  | err text => exact .done (.error _)
  | panic text => exact .panic text
  | set names =>
    exact (discreet_object hargs).bind fun _ _ _ _ hle hij =>
      (discreet_setFields hij ((hargs.tail.mono hle).zip names)).bind
        fun _ _ _ _ _ _ => discreet_literal rfl
  | get name =>
    exact (discreet_object hargs).bind fun _ _ _ _ _ hij =>
      .getField hij name fun _ _ hv => .done (.ok hv)
  | apply =>
    exact (discreet_handle hargs).bind fun _ _ _ _ hle hh =>
      (discreet_invoke hh (hargs.tail.mono hle)).bind fun _ _ _ _ _ hr => discreet_ofExcept hr
  | types =>
    simp only [run, hargs.map_eq Value.Mirrors.sort]
    exact discreet_literal rfl
  | as view => exact discreet_ofExcept (hargs.first.bind fun _ _ hv => hv.check view)
  | call cls name type => exact discreet_callStatic cls name type hargs
  | seq bodies => exact discreet_runAll bodies hgivens hargs (.literal rfl)

theorem discreet_runAll {κ : Pairing} {s : TableState} {last last' : Value} (bs : List Body)
    (hgivens : ∀ v ∈ givensOf bs, v.isLiteral = true) (hargs : Value.MirrorAll κ args args')
    (hlast : last.Mirrors κ last') :
    Discreet t κ s (runAll args last bs) (runAll args' last' bs) Value.Mirrors := by
  cases bs with
  | nil => exact .done (.ok hlast)
  | cons b bs =>
    exact (discreet_run b (fun v hv => hgivens v (List.mem_append_left _ hv)) hargs).bind
      fun κ' _ _ _ hle hv => discreet_runAll bs
        (fun v hv => hgivens v (List.mem_append_right _ hv)) (hargs.mono hle) hv

end

end Body

/-! ## Tables -/

namespace HostTable

variable {t : HostTable} {κ : Pairing} {s : TableState}

/-- The plans of the table give nothing but literals. -/
def GivesLiterals (t : HostTable) : Prop :=
  ∀ body ∈ t.bodies, ∀ v ∈ body.givens, v.isLiteral = true

/-- After its initializer a class is ready. -/
theorem discreet_markInitialized (cls : String) :
    Script.Mirrors t.mirroring (fun κ' r r' => r' = r ∧ (r = .ok () → κ'.ready cls)) κ s s
      (markInitialized cls) (markInitialized cls) := by
  refine .getState (.setState (fun other hother => ?_) rfl (.done ⟨rfl, fun _ => .inr ?_⟩))
  · rcases Bool.or_eq_true_iff.1 hother with hother | hother
    · exact Bool.or_eq_true_iff.2 (.inl hother)
    · exact Bool.or_eq_true_iff.2 (.inr (by simp_all))
  · exact Bool.or_eq_true_iff.2 (.inr (by simp))

/-- A table whose plans give nothing but literals is a discreet host. -/
theorem discreet (ht : t.GivesLiterals) : t.host.Discreet t.mirroring where
  primitive κ s s' name vs vs' hs hvs := by
    obtain rfl : s' = s := hs
    simp only [host]
    cases hlookup : t.primitives.lookup name with
    | none => exact .done (.error _)
    | some body => exact Body.discreet_run body (ht body (mem_bodies_of_primitive hlookup)) hvs
  member κ s s' kind m vs vs' hs hvs := by
    obtain rfl : s' = s := hs
    simp only [host]
    cases hlookup : t.members.lookup (m.cls, m.name) with
    | none => exact .done (.error _)
    | some body => exact Body.discreet_run body (ht body (mem_bodies_of_member hlookup)) hvs
  allocate κ s s' cls hs := .create (.object cls) fun _ _ _ _ hv => .done (.ok hv)
  initializer κ s s' cls hs := by
    obtain rfl : s' = s := hs
    simp only [host]
    cases hlookup : t.initializers.lookup cls with
    | none => exact discreet_markInitialized cls
    | some body =>
      refine Script.Mirrors.andThen rfl
        (Body.discreet_run body (ht body (mem_bodies_of_initializer hlookup)) .nil)
        fun κ' u u' r r' _ hu hr => ?_
      obtain rfl : u' = u := hu
      cases hr with
      | ok hv => exact discreet_markInitialized cls
      | error e => exact .done ⟨rfl, by simp⟩

end HostTable

end HandleForms
