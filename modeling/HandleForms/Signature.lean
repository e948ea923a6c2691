import HandleForms.Ty

/-!
# Signatures

A signature is a list of parameter types and a return type. Its parameters take at most
`Signature.maxSlots` interpreter slots and none of them is `void`; both facts are part of the type,
so whoever holds a signature need not check them again. Operations that could break them
(`Signature.ofTypes`, `insert`, `changeParam`) answer an error instead.
-/

namespace HandleForms

/-- Why a list of types or a text makes no signature. -/
inductive SignatureError where
  /-- The parameters need more slots than there are. -/
  | tooManySlots (slots limit : Nat)
  /-- The parameter at `index` is `void`. -/
  | voidParameter (index : Nat)
  /-- The text cannot be read. -/
  | unreadable (input reason : String)
  deriving DecidableEq, Repr, Inhabited

namespace Ty

/-- The slots of a parameter list. -/
def slotSum (ts : List Ty) : Nat := BasicType.slotSum (ts.map basicType)

@[simp] theorem slotSum_map_basic (ts : List Ty) : slotSum (ts.map basic) = slotSum ts := by
  simp [slotSum, Function.comp_def]

@[simp] theorem slotSum_map_erase (ts : List Ty) : slotSum (ts.map erase) = slotSum ts := by
  simp [slotSum, Function.comp_def]

@[simp] theorem slotSum_nil : slotSum [] = 0 := rfl

@[simp] theorem slotSum_cons (t : Ty) (ts : List Ty) :
    slotSum (t :: ts) = t.basicType.slots + slotSum ts := by
  simp [slotSum]

@[simp] theorem slotSum_append (ss ts : List Ty) :
    slotSum (ss ++ ts) = slotSum ss + slotSum ts := by
  simp [slotSum]

end Ty

namespace Signature

/-- The most slots the parameters of any method take. -/
def maxSlots : Nat := 255

/-- The most slots of a handle's type: the handle itself takes one. -/
def maxHandleSlots : Nat := maxSlots - 1

/-- The most slots of a type that is called through an invoker: handle and invoker take two. -/
def maxInvokerSlots : Nat := maxHandleSlots - 1

end Signature

/-- Parameter types and a return type. -/
structure Signature where
  params : List Ty
  ret : Ty
  params_ne_void : ∀ t ∈ params, t ≠ .void
  slots_le : Ty.slotSum params ≤ Signature.maxSlots
  deriving DecidableEq

namespace Signature

theorem ext' {s t : Signature} (hp : s.params = t.params) (hr : s.ret = t.ret) : s = t := by
  cases s; cases t; simp_all

instance : Inhabited Signature := ⟨⟨[], .void, by simp, by simp⟩⟩

/-- The first `void` among the parameters. -/
def voidIndex? (params : List Ty) : Option Nat := params.findIdx? (·.isVoid)

theorem ne_void_of_voidIndex? {params : List Ty} (h : voidIndex? params = none) :
    ∀ t ∈ params, t ≠ .void := by
  intro t ht hv
  have := List.findIdx?_eq_none_iff.1 h t ht
  simp [hv, Ty.isVoid] at this

/-- The signature with these types; a `void` parameter is reported before an excess of slots. -/
def ofTypes (ret : Ty) (params : List Ty) : Except SignatureError Signature :=
  match h : voidIndex? params with
  | some index => .error (.voidParameter index)
  | none =>
    if hs : Ty.slotSum params ≤ maxSlots then .ok ⟨params, ret, ne_void_of_voidIndex? h, hs⟩
    else .error (.tooManySlots (Ty.slotSum params) maxSlots)

theorem ofTypes_params_ret (s : Signature) : ofTypes s.ret s.params = .ok s := by
  unfold ofTypes
  split
  · next i h =>
    obtain ⟨t, ht, hv⟩ : ∃ t ∈ s.params, t.isVoid = true := by
      have hs : (List.findIdx? (·.isVoid) s.params).isSome := by simp [voidIndex?] at h; simp [h]
      simpa [List.findIdx?_isSome] using hs
    exact absurd (by cases t <;> simp_all [Ty.isVoid]) (s.params_ne_void t ht)
  · simp [s.slots_le]

/-- The signature over basic types. -/
def ofBasic (ret : BasicType) (params : List BasicType) : Except SignatureError Signature :=
  ofTypes ret.ty (params.map BasicType.ty)

/-- `arity` parameters and a result, all of type `Object`. -/
def generic (arity : Nat) : Except SignatureError Signature :=
  if maxSlots < arity then .error (.tooManySlots arity maxSlots)
  else ofTypes Ty.object (List.replicate arity Ty.object)

/-- Each parameter of type `Object` takes one slot. -/
theorem slotSum_replicate_object (n : Nat) : Ty.slotSum (List.replicate n Ty.object) = n := by
  induction n with
  | zero => rfl
  | succ n ih =>
    rw [List.replicate_succ, Ty.slotSum_cons, ih, Nat.add_comm]
    rfl

theorem generic_eq_ofTypes (arity : Nat) :
    generic arity = ofTypes Ty.object (List.replicate arity Ty.object) := by
  unfold generic
  split
  · next h =>
    have hv : voidIndex? (List.replicate arity Ty.object) = none := by
      simp [voidIndex?, Ty.object, Ty.isVoid]
    unfold ofTypes
    split
    · simp_all
    · simp [slotSum_replicate_object, Nat.not_le.2 h]
  · rfl

/-- The most parameters that memory can address; each takes three words of eight bytes. -/
def maxAddressable : Nat := ((1 <<< 63) - 1) / 24

/-- The generic signature, if its parameters can be addressed at all. -/
def generic? (arity : Nat) : Option (Except SignatureError Signature) :=
  if maxAddressable < arity then none else some (generic arity)

/-! ## Views -/

/-- The number of parameters. -/
def arity (s : Signature) : Nat := s.params.length

/-- The slots of the parameters. -/
def slots (s : Signature) : Nat := Ty.slotSum s.params

/-- The basic types of the parameters. -/
def basicParams (s : Signature) : List BasicType := s.params.map Ty.basicType

/-- The basic type of the result. -/
def basicRet (s : Signature) : BasicType := s.ret.basicType

@[simp] theorem length_basicParams (s : Signature) : s.basicParams.length = s.arity := by
  simp [basicParams, arity]

theorem slotSum_basicParams (s : Signature) : BasicType.slotSum s.basicParams = s.slots := rfl

/-- The types of a signature, parameters first. -/
def types (s : Signature) : List Ty := s.params ++ [s.ret]

/-- Whether every reference type is `Object`. -/
def isErased (s : Signature) : Bool := s.types.all fun t => !t.isReference || t.isObject

/-- Whether the signature is erased and has no narrow primitive. -/
def isBasic (s : Signature) : Bool := s.isErased && s.types.all fun t => !t.isSubword

/-! ## Folding types -/

/-- Folds every reference type to `Object`. -/
def erase (s : Signature) : Signature where
  params := s.params.map Ty.erase
  ret := s.ret.erase
  params_ne_void := by
    intro t ht
    obtain ⟨u, hu, rfl⟩ := List.mem_map.1 ht
    exact fun h => s.params_ne_void u hu ((Ty.erase_eq_void_iff u).1 h)
  slots_le := by simpa using s.slots_le

/-- Erases, then folds the narrow primitives to `int`. -/
def basic (s : Signature) : Signature where
  params := s.params.map Ty.basic
  ret := s.ret.basic
  params_ne_void := by
    intro t ht
    obtain ⟨u, hu, rfl⟩ := List.mem_map.1 ht
    exact fun h => s.params_ne_void u hu ((Ty.basic_eq_void_iff u).1 h)
  slots_le := by simpa using s.slots_le

@[simp] theorem basic_basic (s : Signature) : s.basic.basic = s.basic :=
  ext' (by simp [basic, Function.comp_def]) (by simp [basic])

@[simp] theorem erase_erase (s : Signature) : s.erase.erase = s.erase :=
  ext' (by simp [erase, Function.comp_def]) (by simp [erase])

@[simp] theorem basic_erase (s : Signature) : s.erase.basic = s.basic :=
  ext' (by simp [erase, basic, Function.comp_def]) (by simp [erase, basic])

@[simp] theorem erase_basic (s : Signature) : s.basic.erase = s.basic :=
  ext' (by simp [erase, basic, Function.comp_def]) (by simp [erase, basic])

@[simp] theorem slots_basic (s : Signature) : s.basic.slots = s.slots := by
  simp [slots, basic]

@[simp] theorem slots_erase (s : Signature) : s.erase.slots = s.slots := by
  simp [slots, erase]

/-! ## Changing parameters and the result -/

/-- Puts `types` before the parameter at `pos`; `none` when there is no such position. -/
def insert? (s : Signature) (pos : Nat) (types : List Ty) :
    Option (Except SignatureError Signature) :=
  if pos ≤ s.arity then some (ofTypes s.ret (s.params.take pos ++ types ++ s.params.drop pos))
  else none

/-- Adds parameters at the end. -/
def append (s : Signature) (types : List Ty) : Except SignatureError Signature :=
  ofTypes s.ret (s.params ++ types)

theorem slotSum_sublist {ts us : List Ty} (h : ts.Sublist us) : Ty.slotSum ts ≤ Ty.slotSum us := by
  induction h with
  | slnil => simp
  | cons a _ ih => simp; omega
  | cons_cons a _ ih => simp; omega

theorem take_append_drop_sublist (ts : List Ty) {start stop : Nat} (h : start ≤ stop) :
    (ts.take start ++ ts.drop stop).Sublist ts := by
  have hd : (ts.drop stop).Sublist (ts.drop start) := List.drop_sublist_drop_left ts h
  have := (List.Sublist.refl (ts.take start)).append hd
  simpa using this

/-- Removes the parameters from `start` up to `stop`; `none` when that is no range of them. -/
def drop? (s : Signature) (start stop : Nat) : Option Signature :=
  if h : start ≤ stop ∧ stop ≤ s.arity then
    some {
      params := s.params.take start ++ s.params.drop stop
      ret := s.ret
      params_ne_void := fun t ht =>
        s.params_ne_void t ((take_append_drop_sublist s.params h.1).subset ht)
      slots_le :=
        Nat.le_trans (slotSum_sublist (take_append_drop_sublist s.params h.1)) s.slots_le }
  else none

/-- The same parameters with another result. -/
def withRet (s : Signature) (ret : Ty) : Signature := { s with ret }

/-- Changes the type of the parameter at `index`; `none` when there is no such parameter. -/
def changeParam? (s : Signature) (index : Nat) (t : Ty) :
    Option (Except SignatureError Signature) :=
  if index < s.arity then some (ofTypes s.ret (s.params.set index t)) else none

/-- The class of handles, as the first parameter of an invoker names it. -/
def handleClass : Ty := .cls "MethodHandle"

/-- The type of an invoker: the handle it calls comes first. -/
def invoker (s : Signature) : Except SignatureError Signature :=
  if s.slots ≤ maxInvokerSlots then ofTypes s.ret (handleClass :: s.params)
  else .error (.tooManySlots s.slots maxInvokerSlots)

end Signature

end HandleForms
