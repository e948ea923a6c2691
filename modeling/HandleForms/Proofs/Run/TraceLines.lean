import HandleForms.Invoke

/-!
# What a trace says about a run

The lines of a run that returned are a grammar: the line at entry, the lines of the expressions of
the form in order, and the line at exit, which has the kind and the indentation of the line at entry
(`RunLines`). An expression has one line, behind those of the form that it ran (`StepLines`).

A run that an error cut short has a grammar of its own (`CutRun`). It ends inside of an expression,
perhaps inside of the form that this one runs, and nobody writes the lines that are missing: the forms
that were entered stay open, and the expressions that were started go on waiting.
-/

namespace HandleForms

namespace Trace

/-! ## Lines -/

/-- A line as it is written while so many forms are open. -/
def indented (depth : Nat) (line : String) : String :=
  String.join (List.replicate depth "  ") ++ line

/-- The lines at entry of a form. -/
def enterLines (v : Verbosity) (depth : Nat) (f : Form) (type : Signature) (args : List Value) :
    List String :=
  indented depth ("enter " ++ f.kind.name ++ " " ++ type.text) ::
    ((if v = .veryVerbose then args else []).mapIdx fun i a =>
      "  a" ++ Text.decimal i ++ " = " ++ a.text).map (indented depth)

/-- The line at exit of a form. -/
def exitLine (depth : Nat) (f : Form) (result : Value) : String :=
  indented depth ("exit " ++ f.kind.name ++ " -> " ++ result.text)

/-- The line of a barrier that was dropped. -/
def swapLine (depth : Nat) (old new : Form) : String :=
  indented depth ("swap " ++ old.kind.name ++ " -> " ++ new.kind.name)

/-- An expression as it waits for its value, if expressions are shown. -/
def waiting (v : Verbosity) (f : Form) (index : Nat) (e : Expr Form) : List String :=
  if v = .default then [] else [f.label index ++ " = " ++ f.callText e]

/-- The line of an expression that has its value. -/
def valueLines (v : Verbosity) (depth : Nat) (f : Form) (index : Nat) (e : Expr Form)
    (value : Value) : List String :=
  (waiting v f index e).map fun line => indented depth (line ++ " -> " ++ value.text)

/-! ## Longer traces -/

/-- The trace with these lines more, after which so many more forms are open and these expressions
wait in front of the others. -/
def extend (t : Trace) (opened : Nat) (stuck lines : List String) : Trace where
  verbosity := t.verbosity
  reversed := lines.reverse ++ t.reversed
  depth := t.depth + opened
  pending := stuck ++ t.pending

variable {t : Trace} {opened opened' : Nat} {stuck stuck' ls ls' : List String}

theorem lines_extend : (t.extend opened stuck ls).lines = t.lines ++ ls := by
  simp [lines, extend]

theorem extend_extend : (t.extend opened stuck ls).extend opened' stuck' ls' =
    t.extend (opened + opened') (stuck' ++ stuck) (ls ++ ls') := by
  simp [extend, Nat.add_assoc]

theorem push_eq (t : Trace) (line : String) : t.push line = t.extend 0 [] [indented t.depth line] :=
  rfl

theorem foldl_push (t : Trace) (texts : List String) :
    texts.foldl push t = t.extend 0 [] (texts.map (indented t.depth)) := by
  induction texts generalizing t with
  | nil => rfl
  | cons text texts ih => rw [List.foldl_cons, ih, push_eq, extend_extend]; rfl

theorem enter_eq (t : Trace) (f : Form) (args : List Value) :
    t.enter f args = f.signature.map fun type =>
      t.extend 1 [] (enterLines t.verbosity t.depth f type args) := by
  unfold enter
  cases f.signature with
  | error v => rfl
  | ok type =>
    refine congrArg Except.ok ?_
    rw [foldl_push, push_eq, extend_extend]
    rfl

/-- A form that was entered is left again. -/
theorem exit_extend (f : Form) (result : Value) :
    (t.extend 1 [] ls).exit f result = t.extend 0 [] (ls ++ [exitLine t.depth f result]) := by
  simp [exit, push, extend, exitLine, indented]

theorem expression_eq (f : Form) (index : Nat) (e : Expr Form) :
    t.expression f index e = t.extend 0 (waiting t.verbosity f index e) [] := by
  unfold expression waiting
  split <;> rfl

/-- Where expressions are not shown, none waits. -/
def Settled (t : Trace) : Prop := t.verbosity = .default → t.pending = []

theorem settled_empty (v : Verbosity) : (empty v).Settled := fun _ => rfl

theorem Settled.extend (h : t.Settled) (hstuck : t.verbosity = .default → stuck = []) :
    (t.extend opened stuck ls).Settled := fun hv => by
  show stuck ++ t.pending = []
  rw [hstuck hv, h hv]
  rfl

theorem waiting_eq_nil {v : Verbosity} (hv : v = .default) (f : Form) (index : Nat) (e : Expr Form) :
    waiting v f index e = [] := if_pos hv

/-- The expression that was started last gets its value. -/
theorem value_extend (h : t.Settled) (f : Form) (index : Nat) (e : Expr Form) (value : Value) :
    (t.extend 0 (waiting t.verbosity f index e) ls).value value =
      t.extend 0 [] (ls ++ valueLines t.verbosity t.depth f index e value) := by
  unfold valueLines waiting
  split
  · next hv =>
    -- No expression waits, so there is none to show.
    simp [Trace.value, Trace.extend, h hv]
  · simp [Trace.value, Trace.extend, push, indented]

end Trace

open Trace

/-! ## Runs that returned -/

/-- The result of a form, given the values of its names. -/
def Form.resultValue? (f : Form) (values : List Value) : Option Value :=
  match f.result with
  | none => some .void
  | some r => values[r]?

/-- Whether a function runs no form. -/
def Function.isSilent : Function Form → Bool
  | .form _ | .intrinsic (.invokeBasic _) => false
  | _ => true

mutual

/-- The lines of a run of a form that returned. -/
inductive RunLines (v : Verbosity) : Nat → Form → List Value → Value → List String → Prop
  | mk {depth : Nat} {f : Form} {args values : List Value} {result : Value} {type : Signature}
      {ls : List String} (htype : f.signature = .ok type)
      (hbody : BodyLines v (depth + 1) f (f.names.drop f.arity) args values ls)
      (hresult : f.resultValue? values = some result) :
      RunLines v depth f args result
        (enterLines v depth f type args ++ ls ++ [exitLine depth f result])

/-- The lines of expressions that were evaluated one after the other, and the values of all names. -/
inductive BodyLines (v : Verbosity) :
    Nat → Form → List (Name Form) → List Value → List Value → List String → Prop
  | nil {depth : Nat} {f : Form} {values : List Value} : BodyLines v depth f [] values values []
  | cons {depth : Nat} {f : Form} {n : Name Form} {ns : List (Name Form)} {values last : List Value}
      {value : Value} {ls ls' : List String} (hstep : StepLines v depth f n values value ls)
      (hrest : BodyLines v depth f ns (values ++ [value]) last ls') :
      BodyLines v depth f (n :: ns) values last (ls ++ ls')

/-- The lines of one expression: its own comes last. -/
inductive StepLines (v : Verbosity) :
    Nat → Form → Name Form → List Value → Value → List String → Prop
  | mk {depth : Nat} {f : Form} {n : Name Form} {values args : List Value} {value : Value}
      {e : Expr Form} {ls : List String} (hexpr : n.expr = some e)
      (hargs : e.args.mapM (Exec.operand values) = .ok args)
      (hcall : CallLines v depth e.function args value ls) :
      StepLines v depth f n values value (ls ++ valueLines v depth f values.length e value)

/-- The lines between the start of an expression and its value. -/
inductive CallLines (v : Verbosity) :
    Nat → Function Form → List Value → Value → List String → Prop
  | silent {depth : Nat} {function : Function Form} {args : List Value} {value : Value}
      (hsilent : function.isSilent = true) : CallLines v depth function args value []
  | swap {depth : Nat} {args : List Value} (old new : Form) :
      CallLines v depth (.intrinsic .ensureInitialized) args .void [swapLine depth old new]
  | form {depth : Nat} {callee : Form} {args : List Value} {value : Value} {ls : List String}
      (hrun : RunLines v depth callee args value ls) :
      CallLines v depth (.form callee) args value ls
  | handle {depth : Nat} {h : Handle} {callee : Form} {type : Signature} {args : List Value}
      {value : Value} {ls : List String} (hrun : RunLines v depth callee (.handle h :: args) value ls) :
      CallLines v depth (.intrinsic (.invokeBasic type)) (.handle h :: args) value ls

end

/-! ## Runs that an error cut short -/

mutual

/-- How many forms a run that did not return leaves open, the expressions that it leaves waiting, the
innermost first, and its lines. -/
inductive CutRun (v : Verbosity) :
    Nat → Form → List Value → Nat → List String → List String → Prop
  | refused {depth : Nat} {f : Form} {args : List Value} : CutRun v depth f args 0 [] []
  | entered {depth : Nat} {f : Form} {args : List Value} {type : Signature} {opened : Nat}
      {stuck ls : List String} (htype : f.signature = .ok type)
      (hbody : CutBody v (depth + 1) f (f.names.drop f.arity) args opened stuck ls) :
      CutRun v depth f args (opened + 1) stuck (enterLines v depth f type args ++ ls)

/-- The same of the expressions of a form. -/
inductive CutBody (v : Verbosity) :
    Nat → Form → List (Name Form) → List Value → Nat → List String → List String → Prop
  | first {depth : Nat} {f : Form} {n : Name Form} {ns : List (Name Form)} {values : List Value}
      {opened : Nat} {stuck ls : List String} (hstep : CutStep v depth f n values opened stuck ls) :
      CutBody v depth f (n :: ns) values opened stuck ls
  | later {depth : Nat} {f : Form} {n : Name Form} {ns : List (Name Form)} {values : List Value}
      {value : Value} {opened : Nat} {stuck ls ls' : List String}
      (hstep : StepLines v depth f n values value ls)
      (hrest : CutBody v depth f ns (values ++ [value]) opened stuck ls') :
      CutBody v depth f (n :: ns) values opened stuck (ls ++ ls')

/-- The same of one expression, which was not started without fuel. -/
inductive CutStep (v : Verbosity) :
    Nat → Form → Name Form → List Value → Nat → List String → List String → Prop
  | starved {depth : Nat} {f : Form} {n : Name Form} {values : List Value} :
      CutStep v depth f n values 0 [] []
  | started {depth : Nat} {f : Form} {n : Name Form} {values args : List Value} {e : Expr Form}
      {opened : Nat} {stuck ls : List String} (hexpr : n.expr = some e)
      (hargs : e.args.mapM (Exec.operand values) = .ok args)
      (hcall : CutCall v depth e.function args opened stuck ls) :
      CutStep v depth f n values opened (stuck ++ waiting v f values.length e) ls

/-- The same of a call that failed, by itself or in the form that it ran. -/
inductive CutCall (v : Verbosity) :
    Nat → Function Form → List Value → Nat → List String → List String → Prop
  | failed {depth : Nat} {function : Function Form} {args : List Value} :
      CutCall v depth function args 0 [] []
  | form {depth : Nat} {callee : Form} {args : List Value} {opened : Nat} {stuck ls : List String}
      (hrun : CutRun v depth callee args opened stuck ls) :
      CutCall v depth (.form callee) args opened stuck ls
  | handle {depth : Nat} {h : Handle} {callee : Form} {type : Signature} {args : List Value}
      {opened : Nat} {stuck ls : List String}
      (hrun : CutRun v depth callee (.handle h :: args) opened stuck ls) :
      CutCall v depth (.intrinsic (.invokeBasic type)) (.handle h :: args) opened stuck ls

end

/-! ## What the grammars say -/

/-- The depth of a trace is what it was before a run that did not return if the run wrote nothing, and
only then. -/
theorem CutRun.opened_eq_zero_iff {v : Verbosity} {depth opened : Nat} {f : Form} {args : List Value}
    {stuck ls : List String} (h : CutRun v depth f args opened stuck ls) : opened = 0 ↔ ls = [] := by
  cases h with
  | refused => exact iff_of_true rfl rfl
  | entered htype hbody => exact iff_of_false (Nat.succ_ne_zero _) (List.cons_ne_nil _ _)

mutual

/-- One expression waits in every form that was left open, except that the innermost form may have
been between two of them. Where expressions are not shown, none waits. -/
theorem CutRun.length_stuck {v : Verbosity} {depth opened : Nat} {f : Form} {args : List Value}
    {stuck ls : List String} (h : CutRun v depth f args opened stuck ls) :
    (v = .default → stuck = []) ∧
      (v ≠ .default → stuck.length ≤ opened ∧ opened ≤ stuck.length + 1) :=
  match h with
  | .refused => ⟨fun _ => rfl, fun _ => ⟨Nat.le_refl 0, Nat.zero_le 1⟩⟩
  | .entered _ hbody => by
    obtain ⟨hdefault, hshown⟩ := hbody.length_stuck
    refine ⟨hdefault, fun hv => ?_⟩
    have hshown := hshown hv
    omega

theorem CutBody.length_stuck {v : Verbosity} {depth opened : Nat} {f : Form} {ns : List (Name Form)}
    {values : List Value} {stuck ls : List String}
    (h : CutBody v depth f ns values opened stuck ls) :
    (v = .default → stuck = []) ∧
      (v ≠ .default → stuck.length ≤ opened + 1 ∧ opened ≤ stuck.length) :=
  match h with
  | .first hstep => hstep.length_stuck
  | .later _ hrest => hrest.length_stuck

theorem CutStep.length_stuck {v : Verbosity} {depth opened : Nat} {f : Form} {n : Name Form}
    {values : List Value} {stuck ls : List String} (h : CutStep v depth f n values opened stuck ls) :
    (v = .default → stuck = []) ∧
      (v ≠ .default → stuck.length ≤ opened + 1 ∧ opened ≤ stuck.length) :=
  match h with
  | .starved => ⟨fun _ => rfl, fun _ => ⟨Nat.zero_le 1, Nat.le_refl 0⟩⟩
  | .started _ _ hcall => by
    obtain ⟨hdefault, hshown⟩ := hcall.length_stuck
    refine ⟨fun hv => ?_, fun hv => ?_⟩
    · rw [hdefault hv, waiting_eq_nil hv]
      rfl
    · have hshown := hshown hv
      rw [List.length_append, waiting, if_neg hv, List.length_singleton]
      omega

theorem CutCall.length_stuck {v : Verbosity} {depth opened : Nat} {function : Function Form}
    {args : List Value} {stuck ls : List String}
    (h : CutCall v depth function args opened stuck ls) :
    (v = .default → stuck = []) ∧
      (v ≠ .default → stuck.length ≤ opened ∧ opened ≤ stuck.length + 1) :=
  match h with
  | .failed => ⟨fun _ => rfl, fun _ => ⟨Nat.le_refl 0, Nat.zero_le 1⟩⟩
  | .form hrun => hrun.length_stuck
  | .handle hrun => hrun.length_stuck

end

namespace Trace

/-- The lines are indented by so many levels at least. -/
def IndentedBy (depth : Nat) (ls : List String) : Prop :=
  ∀ line ∈ ls, ∃ text, line = indented depth text

namespace IndentedBy

variable {depth : Nat} {ls ls' : List String}

theorem nil : IndentedBy depth [] := nofun

theorem singleton (text : String) : IndentedBy depth [indented depth text] := by
  intro line hline
  exact ⟨text, List.mem_singleton.1 hline⟩

theorem map {α : Type} (texts : List α) (text : α → String) :
    IndentedBy depth (texts.map fun a => indented depth (text a)) := by
  intro line hline
  obtain ⟨a, -, rfl⟩ := List.mem_map.1 hline
  exact ⟨text a, rfl⟩

theorem append (h : IndentedBy depth ls) (h' : IndentedBy depth ls') :
    IndentedBy depth (ls ++ ls') := fun line hline =>
  (List.mem_append.1 hline).elim (h line) (h' line)

theorem of_succ (h : IndentedBy (depth + 1) ls) : IndentedBy depth ls := by
  intro line hline
  obtain ⟨text, rfl⟩ := h line hline
  refine ⟨"  " ++ text, ?_⟩
  simp [indented, List.replicate_succ', String.append_assoc]

end IndentedBy

end Trace

mutual

/-- Lines are indented at least as the form is that they belong to. -/
theorem BodyLines.indented {v : Verbosity} {depth : Nat} {f : Form} {ns : List (Name Form)}
    {values last : List Value} {ls : List String} (h : BodyLines v depth f ns values last ls) :
    IndentedBy depth ls :=
  match h with
  | .nil => .nil
  | .cons hstep hrest => hstep.indented.append hrest.indented

theorem StepLines.indented {v : Verbosity} {depth : Nat} {f : Form} {n : Name Form}
    {values : List Value} {value : Value} {ls : List String}
    (h : StepLines v depth f n values value ls) : IndentedBy depth ls :=
  match h with
  | .mk _ _ hcall => hcall.indented.append (.map _ _)

theorem CallLines.indented {v : Verbosity} {depth : Nat} {function : Function Form}
    {args : List Value} {value : Value} {ls : List String}
    (h : CallLines v depth function args value ls) : IndentedBy depth ls :=
  match h with
  | .silent _ => .nil
  | .swap _ _ => .singleton _
  | .form hrun => hrun.indented
  | .handle hrun => hrun.indented

theorem RunLines.indented {v : Verbosity} {depth : Nat} {f : Form} {args : List Value}
    {result : Value} {ls : List String} (h : RunLines v depth f args result ls) :
    IndentedBy depth ls :=
  match h with
  | .mk _ hbody _ =>
    ((IndentedBy.singleton _).append (.map _ _)).append hbody.indented.of_succ |>.append (.singleton _)

end

/-- The line at exit has the kind and the indentation of the line at entry, and behind the arguments
all lines between them are indented deeper. -/
theorem RunLines.framed {v : Verbosity} {depth : Nat} {f : Form} {args : List Value} {result : Value}
    {ls : List String} (h : RunLines v depth f args result ls) :
    ∃ type inner, f.signature = .ok type ∧
      ls = enterLines v depth f type args ++ inner ++ [exitLine depth f result] ∧
      IndentedBy (depth + 1) inner := by
  obtain ⟨htype, hbody, -⟩ := h
  exact ⟨_, _, htype, rfl, hbody.indented⟩

end HandleForms
