import HandleForms.Proofs.Form.Carrier
import HandleForms.Proofs.Form.Linkage
import HandleForms.Value

/-!
# Forms that call what their carrier holds

The form of a handle that adapters made calls nothing but the handles that it reads from its carrier,
at their types, and reads nothing but fields that the carrier has. `Form.Wired` says so for a carrier
that holds some values; the linkage forms of handles that hold nothing call and read nothing.
-/

namespace HandleForms

/-- An intrinsic that neither calls a handle nor reads a field. -/
def Intrinsic.isPlain : Intrinsic → Bool
  | .invokeBasic _ | .boundField _ _ => false
  | _ => true

/-- An expression that calls only handles with the property `S` that are read from a carrier with
these values. -/
inductive Expr.Wired (S : Handle → Prop) (names : List (Name Form)) (values : List Value) :
    Expr Form → Prop
  | read {s : Species} {i : Nat} (hs : s.fields = values.map Value.basicType)
      (hi : i < values.length) : Wired S names values ⟨.intrinsic (.boundField s i), [.name 0]⟩
  | call {callee : Signature} {j i : Nat} {rest : List Arg} {m : Name Form} {c : Handle}
      (hm : names[j]? = some m) (hread : m.fieldRead? = some i)
      (hc : values[i]? = some (.handle c)) (htype : c.type.basic = callee) (hS : S c) :
      Wired S names values ⟨.intrinsic (.invokeBasic callee), .name j :: rest⟩
  | plain {op : Intrinsic} {args : List Arg} (hop : op.isPlain = true) :
      Wired S names values ⟨.intrinsic op, args⟩
  | external {name : String} {type : Signature} {args : List Arg} :
      Wired S names values ⟨.external name type, args⟩

/-- What reads a field of the carrier is a read. -/
theorem Expr.Wired.of_getter {S : Handle → Prop} {names : List (Name Form)} {values : List Value}
    {s : Species} {i : Nat} (h : Expr.Wired S names values ⟨.getter s i, [.name 0]⟩) :
    s.fields = values.map Value.basicType ∧ i < values.length := by
  cases h with
  | read hs hi => exact ⟨hs, hi⟩
  | plain hop => cases hop

/-- All expressions of a form do. -/
def Form.Wired (f : Form) (S : Handle → Prop) (values : List Value) : Prop :=
  ∀ n ∈ f.names, ∀ e, n.expr = some e → e.Wired S f.names values

namespace Form

variable {f : Form} {S : Handle → Prop} {id : Nat} {p : Name Form} {ts : List BasicType}
  {exprs : List (Name Form)} {result : Option Nat} {kind : FormKind} {values : List Value}
  {basic : Signature} {s : Species}

theorem wired_ofParts (h : ofParts id (p :: paramNames ts) exprs result kind = .ok f)
    (hp : p.expr = none)
    (hexprs : ∀ n ∈ exprs, ∀ e, n.expr = some e → e.Wired S ((p :: paramNames ts) ++ exprs) values) :
    f.Wired S values := by
  obtain ⟨-, rfl⟩ := ofParts_eq_ok_iff.1 h
  intro n hn e he
  rcases List.mem_append.1 hn with hn | hn
  · rcases List.mem_cons.1 hn with rfl | hn
    · cases hp.symm.trans he
    · obtain ⟨t, -, rfl⟩ := List.mem_map.1 hn
      cases he
  · exact hexprs n hn e he

theorem wired_external {name : String} {type : Signature} (h : external name type id = .ok f) :
    f.Wired S [] := by
  refine wired_ofParts h rfl fun n hn e he => ?_
  obtain rfl := List.mem_singleton.1 hn
  obtain rfl := Option.some.inj he
  exact .external

theorem wired_empty (h : empty basic id = .ok f) : f.Wired S [] := by
  unfold empty at h
  dsimp only at h
  split at h
  · exact wired_ofParts h rfl fun n hn => absurd hn (by simp)
  · refine wired_ofParts h rfl fun n hn e he => ?_
    obtain rfl := List.mem_singleton.1 hn
    obtain rfl := Option.some.inj he
    exact .plain rfl

theorem wired_direct {dispatch : DispatchKind} {barrier : Bool}
    (h : direct basic dispatch barrier id = .ok f) : f.Wired S [] := by
  obtain ⟨link, hlink, h⟩ := direct_eq_ok h
  refine wired_ofParts h rfl fun n hn => ?_
  have hplain : ∀ {op : Intrinsic} {args : List Arg} {e : Expr Form} {names : List (Name Form)},
      (Name.apply (.intrinsic op) args : Name Form).expr = some e → op.isPlain = true →
        e.Wired S names [] := by
    rintro op args e names he hop
    obtain rfl := Option.some.inj he
    exact .plain hop
  unfold directExprs at hn
  dsimp only at hn
  rcases List.mem_append.1 hn with hn | hn
  · split at hn
    · rw [List.mem_singleton.1 hn]
      exact fun e he => hplain he rfl
    · cases hn
  · split at hn <;> simp only [List.mem_cons, List.not_mem_nil, or_false] at hn
    · rcases hn with rfl | rfl | rfl <;> exact fun e he => hplain he rfl
    · rcases hn with rfl | rfl <;> exact fun e he => hplain he rfl

/-- What calls the field of a carrier calls what the carrier holds. -/
theorem wired_reinvoker {c : Handle} (hs : s.fields = [.ref])
    (h : reinvoker s c.type.basic id = .ok f) (hS : S c) : f.Wired S [.handle c] := by
  rw [reinvoker_eq hs] at h
  refine wired_ofParts h rfl fun n hn e he => ?_
  simp only [List.mem_cons, List.not_mem_nil, or_false] at hn
  rcases hn with rfl | rfl
  · obtain rfl := Option.some.inj he
    exact .read hs Nat.one_pos
  · obtain rfl := Option.some.inj he
    have hread : ((.carrier s :: paramNames c.type.basic.basicParams) ++
        [.apply (.getter s 0) [.name 0], .call c.type.basic ((c.type.basic.arity + 1) ::
          List.range' 1 c.type.basic.arity)])[c.type.basic.arity + 1]? =
        some (.apply (.getter s 0) [.name 0]) := by
      rw [List.getElem?_append_right (by simp [paramNames])]
      simp [paramNames]
    exact .call hread rfl rfl (Signature.basic_basic _).symm hS

end Form

end HandleForms
