import HandleForms.Proofs.Guard.Table
import HandleForms.Proofs.World.Limits

/-!
# Tables that invoke nothing

Two kinds of bodies invoke handles. A table without them is a host whose code never invokes anything
(`HostTable.neverInvokes`).
-/

namespace HandleForms

variable {σ ε δ α β : Type}

namespace Script.NeverInvokes

theorem andThen {code : Script σ ε α} {k : Except ε α → Script σ δ β} (hcode : code.NeverInvokes)
    (hk : ∀ r, (k r).NeverInvokes) : (code.andThen k).NeverInvokes := by
  induction code with
  | done result => exact hk result
  | panic => trivial
  | getState next ih | create plan next ih | getField object name next ih | make op next ih
  | formKind target next ih | ensure cls next ih => exact fun r => ih r (hcode r)
  | setState state next ih | setField object name value next ih | hold value next ih
  | release next ih => exact ih hcode
  | invoke => exact hcode.elim

theorem bind {code : Script σ ε α} {k : α → Script σ ε β} (hcode : code.NeverInvokes)
    (hk : ∀ a, (k a).NeverInvokes) : (code >>= k).NeverInvokes :=
  hcode.andThen fun
    | .ok a => hk a
    | .error _ => trivial

end Script.NeverInvokes

/-! ## Bodies -/

namespace Body

mutual

/-- The body invokes a handle. -/
def invokes : Body → Bool
  | apply | call _ _ _ => true
  | seq bodies => invokesAny bodies
  | _ => false

/-- One of the bodies invokes a handle. -/
def invokesAny : List Body → Bool
  | [] => false
  | b :: bs => b.invokes || invokesAny bs

end

variable {args : List Value}

theorem neverInvokes_logText (text : String) : (logText text).NeverInvokes := fun _ => trivial

theorem neverInvokes_setFields (object : Nat) (fields : List (String × Value)) :
    (setFields object fields).NeverInvokes := by
  induction fields with
  | nil => trivial
  | cons _ _ ih => exact ih

mutual

theorem neverInvokes_run (b : Body) (hb : b.invokes = false) : (run args b).NeverInvokes := by
  have hobject : (.ofExcept ((first args).bind Value.asObject) : Code _).NeverInvokes := trivial
  cases b with
  | const plan => exact fun _ => trivial
  | concat | upper | length | measure | add | err | panic | types | as => trivial
  | log => exact (neverInvokes_logText _).bind fun _ => trivial
  | say text => exact (neverInvokes_logText _).bind fun _ => trivial
  | set names => exact hobject.bind fun _ => (neverInvokes_setFields _ _).bind fun _ => trivial
  | get name => exact hobject.bind fun _ _ => trivial
  | apply | call => cases hb
  | seq bodies => exact neverInvokes_runAll bodies .void hb

theorem neverInvokes_runAll (bs : List Body) (last : Value) (hbs : invokesAny bs = false) :
    (runAll args last bs).NeverInvokes := by
  cases bs with
  | nil => trivial
  | cons b bs =>
    obtain ⟨hb, hbs⟩ := Bool.or_eq_false_iff.1 hbs
    exact (neverInvokes_run b hb).bind fun v => neverInvokes_runAll bs v hbs

end

end Body

/-! ## Tables -/

theorem HostTable.neverInvokes {t : HostTable} (ht : ∀ body ∈ t.bodies, body.invokes = false) :
    t.host.NeverInvokes where
  primitive name args := by
    unfold host
    dsimp only
    split
    · next body hlookup => exact Body.neverInvokes_run body (ht body (mem_bodies_of_primitive hlookup))
    · trivial
  member kind m args := by
    unfold host
    dsimp only
    split
    · next body hlookup => exact Body.neverInvokes_run body (ht body (mem_bodies_of_member hlookup))
    · trivial
  initializer cls := by
    have hmark : (markInitialized cls).NeverInvokes := fun _ => trivial
    unfold host
    dsimp only
    split
    · next body hlookup =>
      refine (Body.neverInvokes_run body (ht body (mem_bodies_of_initializer hlookup))).andThen ?_
      rintro (e | v)
      · trivial
      · exact hmark
    · exact hmark
  allocate cls := fun _ => trivial

/-- The primitives that are always there invoke nothing. -/
theorem HostTable.neverInvokes_standard : HostTable.standard.host.NeverInvokes :=
  neverInvokes (by decide)

end HandleForms
