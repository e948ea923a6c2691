import HandleForms.Proofs.Mirror.Direct
import HandleForms.Proofs.Mirror.Strict

/-!
# Invocations in worlds that mirror each other

An invocation of a handle mirrors one of a mirrored handle at the same call site, unless one of them
hits a limit. So does whatever discreet host code may ask for, however deeply host code and forms
call each other: without limits (`Host.mirrored_strict`), or in lockstep (`Host.mirrored_reenter`).
-/

namespace HandleForms

variable {σ α β : Type} {host : Host σ} {M : host.Mirroring} {κ κ' : Pairing} {w w' : World σ}
  {h h' : Handle} {args args' : List Value} {re : Reentry σ} {depth depth' : Nat}

/-! ## Arguments -/

/-- Whether arguments fit depends on their basic types alone. -/
theorem Act.checkArguments_congr (type : Signature)
    (h : args.map Value.basicType = args'.map Value.basicType) :
    checkArguments type args = checkArguments type args' := by
  -- The check, said of basic types.
  have heq : ∀ args : List Value, checkArguments type args =
      if (args.map Value.basicType).length ≠ type.arity then
        .error (.arityMismatch type.arity (args.map Value.basicType).length)
      else
        match ((args.map Value.basicType).zip type.params).zipIdx.find?
            fun e => e.1.1 != e.1.2.basicType with
        | some ((b, t), i) => .error (.argumentType i t.basicType b)
        | none => .ok () := fun args => by
    rw [List.length_map, List.zip_map_left, List.zipIdx_map, List.find?_map]
    have hmisfit : ((fun e : (BasicType × Ty) × Nat => e.1.1 != e.1.2.basicType) ∘
        Prod.map (Prod.map Value.basicType id) id) =
          fun e : (Value × Ty) × Nat => e.1.1.basicType != e.1.2.basicType := rfl
    rw [hmisfit]
    unfold checkArguments
    split
    · rfl
    · cases (args.zip type.params).zipIdx.find? fun e => e.1.1.basicType != e.1.2.basicType <;> rfl
  rw [heq, heq, h]

/-! ## Linkers -/

namespace Form

variable {f : Form} {basic : Signature} {generic : Bool} {id : Nat}

/-- A linker asks nothing of its target but to be checked and called. -/
theorem outward_linker (hf : linker generic basic id = .ok f) {n : Name Form} (hn : n ∈ f.names)
    {e : Expr Form} (he : n.expr = some e) : e.function.Outward := by
  obtain ⟨-, rfl⟩ := ofParts_eq_ok_iff.1 hf
  rcases List.mem_append.1 hn with hn | hn
  · obtain ⟨t, -, rfl⟩ := List.mem_map.1 hn
    cases he
  · unfold checkedCall at hn
    dsimp only at hn
    split at hn <;> simp only [List.mem_cons, List.not_mem_nil, or_false] at hn <;>
      rcases hn with rfl | rfl <;> obtain rfl := Option.some.inj he <;> exact .inl rfl

/-- It answers what comes of the call. -/
theorem result_linker_pos (hf : linker generic basic id = .ok f) {r : Nat}
    (hr : f.result = some r) :
    0 < r := by
  obtain ⟨-, rfl⟩ := ofParts_eq_ok_iff.1 hf
  have hkept : keptResult _ (some _) = some r := hr
  have hr' := Option.some.inj (Option.filter_eq_some_iff.1 hkept).1
  omega

end Form

/-- Both worlds find or make a linker, unless the type has too many slots. -/
theorem Act.Mirrors.linkerForm (hw : World.Mirrors M κ w w') (type : Signature) (generic : Bool) :
    Mirrors M κ w w' (Act.invokerForm type ⟨generic, true⟩) (Act.invokerForm type ⟨generic, true⟩)
      fun _ f f' => f.Matches f' ∧ ∃ id, Form.linker generic type.basic id = .ok f := by
  refine of_limited type.slots Signature.maxInvokerSlots hw
    (triple_invokerForm type ⟨generic, true⟩) (triple_invokerForm type ⟨generic, true⟩)
    (.invokerForm _ _) (.invokerForm _ _)
    (fun hle => ⟨completes_invokerForm _ hle, completes_invokerForm _ hle⟩)
    (fun hlt => ⟨.first (fails_checkSlots hlt), .first (fails_checkSlots hlt)⟩) fun f f' hf hf' =>
    ?_
  obtain ⟨id, hf⟩ := Form.links_linker.1 hf
  obtain ⟨id', hf'⟩ := Form.links_linker.1 hf'
  exact ⟨Form.matches_linker hf hf', id, hf⟩

/-! ## Invocations -/

namespace Exec.Mirrors

/-- The same call site calls mirrored handles alike. -/
theorem linkAndCall (hhost : host.Discreet M) (hre : re.Mirrored M)
    (hdepth : M.lockstep → depth' = depth) (hw : World.Mirrors M κ w w')
    (hh : (Value.handle h).Mirrors κ (.handle h')) (type : Signature) (generic : Bool)
    (hargs : Value.MirrorAll κ args args') :
    Mirrors M κ w w' (Exec.linkAndCall (Exec.runForm host re depth) h type generic args)
      (Exec.linkAndCall (Exec.runForm host re depth') h' type generic args') Value.Mirrors := by
  unfold Exec.linkAndCall
  rw [Act.checkArguments_congr type hargs.basicTypes]
  refine (ofError hw _).bind fun κ₁ w₁ w₁' _ _ hreach₁ _ =>
    (act (Act.Mirrors.linkerForm hreach₁.worlds type generic)).bind fun κ₂ w₂ w₂' f f' hreach₂ hf =>
    ?_
  obtain ⟨hmatches, id, hlinker⟩ := hf
  have hle := hreach₁.le.trans hreach₂.le
  refine withFrame (runForm_matching hhost hre hdepth (fun d d' hd hd' => runsAlike hhost hre
      fun hstep => Nat.succ.inj (hd'.symm.trans ((hdepth hstep).trans hd)))
    (hreach₂.worlds.withFrames _ _) hmatches (fun _ hr => Form.result_linker_pos hlinker hr)
    (fun n hn e he => .inl ⟨Form.outward_linker hlinker hn he, fun _ => hh.mono hle⟩) ?_)
  exact (hargs.mono hle).append (.cons (.literal rfl) .nil)

/-- The same invocation of mirrored handles comes to the same. -/
theorem invocation (hhost : host.Discreet M) (hre : re.Mirrored M)
    (hdepth : M.lockstep → depth' = depth) (hw : World.Mirrors M κ w w')
    (hh : (Value.handle h).Mirrors κ (.handle h')) (site : CallSite)
    (hargs : Value.MirrorAll κ args args') :
    Mirrors M κ w w' (Exec.invocation (Exec.runForm host re depth) h args site)
      (Exec.invocation (Exec.runForm host re depth') h' args' site) Value.Mirrors := by
  cases site with
  | basic =>
    unfold Exec.invocation
    obtain ⟨hmirrors, hsane, hsane'⟩ := Value.mirrors_handle_iff.1 hh
    dsimp only
    rw [← hmirrors.type, Act.checkArguments_congr h.type hargs.basicTypes]
    exact (ofError hw _).bind fun κ₁ w₁ w₁' _ _ hreach _ => runsAlike hhost hre hdepth
      hreach.worlds ((hmirrors.twins hsane hsane').mono hreach.le)
      (fun _ => hmirrors.mono hreach.le) (hargs.mono hreach.le)
  | exact type => exact linkAndCall hhost hre hdepth hw hh type false hargs
  | generic type => exact linkAndCall hhost hre hdepth hw hh type true hargs

end Exec.Mirrors

/-! ## Host code that asks again -/

/-- Invocations of mirrored handles end alike, unless one of them is barred. -/
theorem Act.mirrors_invoke (hhost : host.Discreet M) (hre : re.Mirrored M)
    (hw : World.Mirrors M κ w w') (hh : (Value.handle h).Mirrors κ (.handle h')) (site : CallSite)
    (hargs : Value.MirrorAll κ args args')
    (hbarred : ¬ Outcome.Barred M.lockstep (Act.invoke host re h site args w).1)
    (hbarred' : ¬ Outcome.Barred M.lockstep (Act.invoke host re h' site args' w').1) :
    ∃ κ', World.Reach M κ κ' w w' (Act.invoke host re h site args w).2
        (Act.invoke host re h' site args' w').2 ∧
      Outcome.Mirrors (Value.Mirrors κ') (Act.invoke host re h site args w).1
        (Act.invoke host re h' site args' w').1 := by
  rw [executes_invoke host re h args w.limits site w rfl] at hbarred ⊢
  rw [executes_invoke host re h' args' w'.limits site w' rfl] at hbarred' ⊢
  have hdepth : M.lockstep → w'.limits.depth = w.limits.depth := fun hstep =>
    congrArg ExecLimits.depth (hw.limits hstep)
  have hfuel : M.lockstep → w'.limits.fuel = w.limits.fuel := fun hstep =>
    congrArg ExecLimits.fuel (hw.limits hstep)
  rcases Exec.Mirrors.invocation hhost hre hdepth hw hh site hargs
      w.limits.fuel w'.limits.fuel hfuel with
    hno | hno | ⟨κ', o, o', v, v', rest, rest', hx, hx', -, hreach, ho⟩
  · exact absurd hno hbarred
  · exact absurd hno hbarred'
  · rw [hx, hx']
    exact ⟨κ', hreach, ho⟩

namespace Host

/-- Whatever discreet host code may ask for comes to the same, unless the run is cut off. -/
theorem mirrored_strict (hhost : host.Discreet M) (hstep : ¬ M.lockstep) (levels : Nat) :
    (host.strict levels).Mirrored M := by
  have hcut : ∀ {x : Act σ Value} {w : World σ}, Outcome.Barred M.lockstep (x w).1 →
      Outcome.Cut (Act.strictly x w).1 := fun {x w} hbarred => by
    unfold Act.strictly
    split
    · rfl
    · next hlimited => exact hbarred.resolve_right fun h => hlimited h.2
  have hsame : ∀ {x : Act σ Value} {w : World σ}, ¬ Outcome.Barred M.lockstep (x w).1 →
      Act.strictly x w = x w := fun hbarred => if_neg fun hlimited =>
        hbarred (.inr ⟨hstep, hlimited⟩)
  -- By induction on how often host code may ask again. A barred invocation is cut off, so it
  -- mirrors everything.
  induction levels with
  | zero => exact ⟨fun _ _ _ _ => .inl rfl, fun _ _ => .inl rfl⟩
  | succ levels ih =>
    refine ⟨fun {κ w w' h h' vs vs'} hw hh site hargs => ?_,
      fun hw cls => (Act.Mirrors.ensure hhost ih hw cls).imp fun _ _ _ _ hab => hab.1.symm⟩
    by_cases hbarred : Outcome.Barred M.lockstep
      (Act.invoke host (host.strict levels) h site vs w).1
    · exact .inl (hcut hbarred)
    by_cases hbarred' : Outcome.Barred M.lockstep
      (Act.invoke host (host.strict levels) h' site vs' w').1
    · exact .inr (.inl (hcut hbarred'))
    have hends := Act.mirrors_invoke hhost ih hw hh site hargs hbarred hbarred'
    rw [← hsame hbarred, ← hsame hbarred'] at hends
    exact .inr (.inr hends)

/-- In lockstep that is so even if limits are hit. -/
theorem mirrored_reenter (hhost : host.Discreet M) (hstep : M.lockstep) (levels : Nat) :
    (host.reenter levels).Mirrored M := by
  induction levels with
  | zero => exact ⟨fun _ _ _ _ => .inl rfl, fun _ _ => .inl rfl⟩
  | succ levels ih =>
    refine ⟨fun {κ w w' h h' vs vs'} hw hh site hargs => ?_,
      fun hw cls => (Act.Mirrors.ensure hhost ih hw cls).imp fun _ _ _ _ hab => hab.1.symm⟩
    have hbarred : ∀ {o : Outcome Value}, ¬ Outcome.Cut o → ¬ Outcome.Barred M.lockstep o :=
      fun hcut => not_or.2 ⟨hcut, fun h => h.1 hstep⟩
    by_cases hcut : Outcome.Cut (Act.invoke host (host.reenter levels) h site vs w).1
    · exact .inl hcut
    by_cases hcut' : Outcome.Cut (Act.invoke host (host.reenter levels) h' site vs' w').1
    · exact .inr (.inl hcut')
    exact .inr (.inr (Act.mirrors_invoke hhost ih hw hh site hargs (hbarred hcut) (hbarred hcut')))

end Host

end HandleForms
