import HandleForms.Proofs.Edit.Combines
import HandleForms.Proofs.Form.Wired

/-!
# Edits keep what a form calls

An edit moves the calls and reads of its base, puts reads of the appended field in front, and calls
nothing but what it appends. So the form that it derives calls only what the grown carrier holds when
the base does (`Edit.Adapts.wired`), for edits that call nothing as for those that put a handle in
front of the base or behind it.
-/

namespace HandleForms

namespace Adaptation

variable {A : Adaptation} {base : Form} {fields : List BasicType} {S : Handle → Prop}
  {values extra : List Value} {n : Name Form} {id j : Nat}

/-- An expression of the base is where it was moved to. -/
theorem getElem?_names_move (hj : base.arity ≤ j) (hn : base.names[j]? = some n) :
    (A.names base)[A.move base.arity j]? = some (A.moved base n) := by
  have hlt := (List.getElem?_eq_some_iff.1 hn).1
  rw [move, if_neg (Nat.not_lt.2 hj), names, List.append_assoc,
    List.getElem?_append_right (by simp), List.length_append, Nat.add_sub_cancel_left,
    List.getElem?_append_left (by simp; omega), List.getElem?_map, List.getElem?_drop,
    Nat.add_sub_cancel' hj, hn]
  rfl

/-- What has nothing to do with the handle calls what it called. -/
theorem wired_moved {m : Name Form} {e : Expr Form} (hA : A.Carries base fields)
    (hbase : base.Carrier fields) (hm : m ∈ base.names) (hzero : 0 ∉ m.operands)
    (hwired : base.Wired S values) (he : (A.moved base m).expr = some e) :
    e.Wired S (A.names base) (values ++ extra) := by
  rw [moved_of_plain hzero] at he
  obtain ⟨e', he', rfl⟩ : ∃ e', m.expr = some e' ∧
      e = ⟨e'.function, e'.args.map (Arg.map (A.move base.arity))⟩ := by
    obtain ⟨e', he', heq⟩ := Option.map_eq_some_iff.1 he
    exact ⟨e', he', heq.symm⟩
  cases hwired m hm e' he' with
  | read hs hi =>
    refine absurd ?_ hzero
    simp [Name.operands, Name.args, he', Arg.name?]
  | @call _ j i _ callee c hj hread hc htype hS =>
    have hcallee : callee ∈ base.names := List.mem_of_getElem? hj
    obtain ⟨k, hk, hread', hreads⟩ := (hbase.reads_or hcallee).resolve_right fun h => by
      rw [h.1] at hread
      cases hread
    obtain rfl := Option.some.inj (hread'.symm.trans hread)
    have hexpr : base.arity ≤ j := by
      refine Nat.not_lt.1 fun hlt => ?_
      have hparam := (hbase.editable.wellFormed.isParam_iff j callee hj).2 hlt
      obtain ⟨s, -, hexpr⟩ := hreads
      simp [Name.isParam, hexpr] at hparam
    refine .call (getElem?_names_move hexpr hj)
      (hA.fieldRead?_moved_of_reads hbase.editable.arity_pos hk hreads) ?_ htype hS
    rw [List.getElem?_append_left (List.getElem?_eq_some_iff.1 hc).1, hc]
  | plain hop => exact .plain hop
  | external => exact .external

/-- A form whose new names call what is appended calls only what the grown carrier holds. -/
theorem wired (hA : A.Carries base fields) (hbase : base.Carrier fields) (hfits : A.Fits base)
    (hvalues : values.map Value.basicType = fields)
    (hsame : A.growth = none → extra = [])
    (hgrown : ∀ g, A.growth = some g → g.new.fields = (values ++ extra).map Value.basicType)
    (hnew : ∀ n ∈ A.early ++ A.late, ∀ e, n.expr = some e → e.Wired S (A.names base) (values ++ extra))
    (hwired : base.Wired S values) : (A.form base id).Wired S (values ++ extra) := by
  intro n hn e he
  obtain ⟨k, hk⟩ := List.getElem?_of_mem hn
  rcases names_cases hk with ⟨-, hk⟩ | ⟨k, -, hk⟩ | ⟨k, m, -, hm, rfl⟩ | ⟨k, -, hk⟩
  · have hparam := (hfits.params_made n (List.mem_of_getElem? hk)).2
    simp [Name.isParam, he] at hparam
  · exact hnew n (List.mem_append_left _ (List.mem_of_getElem? hk)) e he
  · rcases hbase.reads_or (List.mem_of_getElem? hm) with ⟨i, hi, -, hreads⟩ | ⟨-, hzero⟩
    · obtain ⟨s, hexpr, hnone, hsome⟩ :=
        hA.expr_moved_of_reads hbase.editable.arity_pos hi hreads
      obtain rfl := Option.some.inj (hexpr.symm.trans he)
      have hlt : i < values.length := by simpa [← hvalues] using hi
      refine .read ?_ (by rw [List.length_append]; omega)
      cases hgrowth : A.growth with
      | none => rw [hnone hgrowth, hsame hgrowth, List.append_nil, hvalues]
      | some g => rw [hsome g hgrowth, hgrown g hgrowth]
    · exact wired_moved hA hbase (List.mem_of_getElem? hm) hzero hwired he
  · exact hnew n (List.mem_append_right _ (List.mem_of_getElem? hk)) e he

end Adaptation

namespace Edit

variable {base f : Form} {g : CarrierGrowth} {e : Edit} {es : List Edit} {A : Adaptation}
  {fields : List BasicType} {S : Handle → Prop} {values extra : List Value} {c : Handle} {id : Nat}

/-- The edit neither puts a handle in front of the base nor behind it. -/
def CallsNothing : Edit → Prop
  | .filter _ _ | .collect _ _ | .filterReturn _ | .fold _ _ _ => False
  | _ => True

namespace Adapts

/-- An edit whose new names call what is appended. -/
theorem wired (h : Adapts base g e A) (hbase : base.Carrier fields) (hg : Grows base e g)
    (hkeeps : e.KeepsHandle) (hvalues : values.map Value.basicType = fields)
    (hextra : extra.map Value.basicType = e.field?.toList)
    (hnew : ∀ n ∈ A.early ++ A.late, ∀ x, n.expr = some x → x.Wired S (A.names base) (values ++ extra))
    (hwired : base.Wired S values) : (A.form base id).Wired S (values ++ extra) := by
  have hgrowth := h.growth_iff hkeeps
  refine Adaptation.wired (h.carries hbase hg hkeeps) hbase (h.fits hbase.editable hg) hvalues
    (fun hnone => ?_) (fun g' hg' => ?_) hnew hwired
  · have hfield : e.field? = none := Option.map_eq_none_iff.1 (hgrowth.symm.trans hnone)
    simpa [hfield] using hextra
  · obtain ⟨field, hfield, rfl⟩ := Option.map_eq_some_iff.1 (hgrowth.symm.trans hg')
    rw [show g.new.fields = _ from hg.appends field hfield, hg.old, hbase.fields_eq,
      List.map_append, hvalues, hextra, hfield]
    rfl

/-- The read of the field that holds the appended value. -/
theorem wired_readOf {names : List (Name Form)} {x : Expr Form} {v : Value}
    (hbase : base.Carrier fields) (hg : Grows base e g) (hfield : e.field? = some v.basicType)
    (hvalues : values.map Value.basicType = fields) (hx : (g.readOf 0).expr = some x) :
    x.Wired S names (values ++ [v]) := by
  obtain rfl := Option.some.inj hx
  have hfields : g.old.fields = values.map Value.basicType := by rw [hg.old, hbase.fields_eq, hvalues]
  refine .read ?_ ?_
  · rw [show g.new.fields = _ from hg.appends _ hfield, hfields, List.map_append]
    rfl
  · simp [hfields]

/-- The call of the handle in the appended field. -/
theorem wired_call {names : List (Name Form)} {x : Expr Form} {sig : Signature} {j : Nat}
    {operands : List Nat} (hbase : base.Carrier fields) (hg : Grows base e g)
    (hvalues : values.map Value.basicType = fields) (hbasic : sig.basic = c.type.basic)
    (hj : names[j]? = some (g.readOf 0)) (hS : S c)
    (hx : (Name.call sig (j :: operands)).expr = some x) :
    x.Wired S names (values ++ [.handle c]) := by
  obtain rfl := Option.some.inj hx
  have hlen : g.old.fields.length = values.length := by
    rw [hg.old, hbase.fields_eq, ← hvalues, List.length_map]
  refine .call hj (Name.fieldRead?_of_expr rfl) ?_ hbasic.symm hS
  rw [hlen, List.getElem?_concat_length]

end Adapts

namespace Answers

theorem wired_of_callsNothing (hf : e.Answers base f) (hcalls : e.CallsNothing)
    (hbase : base.Carrier fields) (hkeeps : e.KeepsHandle)
    (hvalues : values.map Value.basicType = fields)
    (hextra : extra.map Value.basicType = e.field?.toList) (hwired : base.Wired S values) :
    f.Wired S (values ++ extra) := by
  have hnormal : e.normal = e := by
    cases e <;> first | rfl | exact hcalls.elim
  rcases hf.derives with ⟨htrivial, rfl⟩ | ⟨g, A, id, hadapts, hg, rfl⟩
  · have hnone : e.field? = none := by
      cases e <;> first | rfl | cases htrivial
    obtain rfl : extra = [] := by simpa [hnone] using hextra
    rwa [List.append_nil]
  rw [hnormal] at hadapts hg
  refine hadapts.wired hbase hg hkeeps hvalues hextra (fun n hn x hx => ?_) hwired
  cases hadapts with
  | @bind pos field hpos htype =>
    obtain ⟨v, rfl, hv⟩ := List.map_eq_singleton_iff.1 hextra
    obtain rfl : n = g.readOf 0 := by simpa [Adaptation.binding] using hn
    exact Adapts.wired_readOf hbase hg (congrArg some hv.symm) hvalues hx
  | bindHandle => exact absurd rfl (hkeeps _)
  | add | dup | permute => cases hn
  | spread =>
    simp only [Adaptation.spreading, List.append_nil, List.mem_cons, List.mem_map] at hn
    rcases hn with rfl | ⟨k, -, rfl⟩
    · obtain rfl := Option.some.inj hx
      exact .plain rfl
    · obtain rfl := Option.some.inj hx
      exact .plain rfl
  | zeroReturn =>
    simp only [Adaptation.zeroingReturn, List.nil_append] at hn
    split at hn
    · cases hn
    · rw [List.mem_singleton.1 hn] at hx
      obtain rfl := Option.some.inj hx
      exact .plain rfl
  | filter | collect | filterReturn | fold => exact hcalls.elim

/-- A handle behind the base. -/
theorem wired_filterReturn (hf : (filterReturn c.type.basicRet).Answers base f)
    (hbase : base.Carrier fields) (hvalues : values.map Value.basicType = fields)
    (hparams : c.type.basicParams = base.result.toList.map fun _ => base.ret) (hS : S c)
    (hwired : base.Wired S values) : f.Wired S (values ++ [.handle c]) := by
  obtain ⟨g, A, id, hadapts, hg, rfl⟩ := hf.derives.resolve_left fun h => nomatch h.1
  refine hadapts.wired hbase hg nofun hvalues rfl (fun n hn x hx => ?_) hwired
  cases hadapts with
  | @filterReturn _ sig hfilter =>
    obtain ⟨hsig, hsigRet⟩ := Adapts.basicParams_ofBasic hfilter
    have hbasic : sig.basic = c.type.basic := Adapts.basic_eq (hsig.trans hparams.symm) hsigRet
    have hlen : ((Adaptation.filteringReturn base g sig).params ++
        (base.names.drop base.arity).map ((Adaptation.filteringReturn base g sig).moved base)).length =
        base.size := by
      have hpos := hbase.editable.arity_pos
      have hle := hbase.editable.wellFormed.arity_le
      simp only [Form.size] at hle
      simp [Adaptation.filteringReturn, Form.size]
      omega
    have hread : ((Adaptation.filteringReturn base g sig).names base)[base.size]? =
        some (g.readOf 0) := by
      have hnames : (Adaptation.filteringReturn base g sig).names base =
          ((Adaptation.filteringReturn base g sig).params ++ (base.names.drop base.arity).map
            ((Adaptation.filteringReturn base g sig).moved base)) ++
            (Adaptation.filteringReturn base g sig).late := by
        simp [Adaptation.names, Adaptation.filteringReturn]
      rw [hnames, List.getElem?_append_right (Nat.le_of_eq hlen), hlen, Nat.sub_self]
      rfl
    simp only [Adaptation.filteringReturn, List.nil_append, List.mem_cons, List.not_mem_nil,
      or_false] at hn
    rcases hn with rfl | rfl
    · exact Adapts.wired_readOf (v := .handle c) hbase hg rfl hvalues hx
    · exact Adapts.wired_call hbase hg hvalues hbasic hread hS hx

end Answers

/-- A handle in front of the base. -/
theorem Combines.wired {pos : Nat} {keep : Bool} (hf : Combines base pos c.type keep f)
    (hbase : base.Carrier fields) (hvalues : values.map Value.basicType = fields) (hS : S c)
    (hwired : base.Wired S values) : f.Wired S (values ++ [.handle c]) := by
  have hpos := hf.pos_pos
  have hle := hf.le
  obtain ⟨g, sig, e, id, hadapts, hg, hkeeps, hfield, hbasic, rfl⟩ := hf.made
  refine hadapts.wired hbase hg hkeeps hvalues (by rw [hfield]; rfl) (fun n hn x hx => ?_) hwired
  have hread : ((Adaptation.combining base g pos sig keep (c.type.basicRet == .void)).names
      base)[base.arity - resultArity (c.type.basicRet == .void) +
        (Adaptation.combinationParams sig keep).length]? = some (g.readOf 0) := by
    have hlen : (Adaptation.combining base g pos sig keep (c.type.basicRet == .void)).params.length =
        base.arity - resultArity (c.type.basicRet == .void) +
          (Adaptation.combinationParams sig keep).length := by
      rw [← List.length_map (f := Name.type),
        Adaptation.types_combining hbase.editable hpos (Nat.le_trans (Nat.le_add_right _ _) hle)]
      have hlen := Form.length_params hbase.editable.wellFormed
      simp
      omega
    rw [Adaptation.names, List.append_assoc, List.append_assoc,
      List.getElem?_append_right (Nat.le_of_eq hlen), hlen, Nat.sub_self]
    rfl
  simp only [Adaptation.combining, List.append_nil, List.mem_cons, List.not_mem_nil, or_false] at hn
  rcases hn with rfl | rfl
  · exact Adapts.wired_readOf (v := .handle c) hbase hg hfield hvalues hx
  · exact Adapts.wired_call hbase hg hvalues hbasic hread hS hx

/-- Edits that call nothing, one after the other. -/
theorem Chain.wired (hf : Chain base es f) (hcalls : ∀ e ∈ es, e.CallsNothing)
    (hbase : base.Carrier fields) (hkeeps : ∀ e ∈ es, e.KeepsHandle)
    (hvalues : values.map Value.basicType = fields)
    (hextra : extra.map Value.basicType = es.filterMap field?) (hwired : base.Wired S values) :
    f.Wired S (values ++ extra) := by
  induction hf generalizing fields values extra with
  | nil f =>
    obtain rfl : extra = [] := by simpa using hextra
    rwa [List.append_nil]
  | @cons base g f e es hanswers _ ih =>
    have hfields : extra.map Value.basicType = e.field?.toList ++ es.filterMap field? := by
      rw [hextra, List.filterMap_cons]
      split <;> next heq => rw [heq]; rfl
    obtain ⟨first, rest, rfl, hfirst, hrest⟩ := List.map_eq_append_iff.1 hfields
    have hkeeps' := hkeeps e (.head _)
    have hwired' := hanswers.wired_of_callsNothing (hcalls e (.head _)) hbase hkeeps' hvalues hfirst
      hwired
    rw [← List.append_assoc]
    exact ih (fun e he => hcalls e (List.mem_cons_of_mem _ he)) (hanswers.carrier hbase hkeeps')
      (fun e he => hkeeps e (List.mem_cons_of_mem _ he)) (by rw [List.map_append, hvalues, hfirst])
      hrest hwired'

end Edit

end HandleForms
