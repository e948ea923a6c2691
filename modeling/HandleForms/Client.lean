import HandleForms.Context
import HandleForms.Holdings

/-!
# Clients

A client works with a context. It holds forms by name, and handles by names of any type. What it
holds, and what the retainers of the context hold, is alive; everything else that the caches refer
to is stale.
-/

namespace HandleForms

/-- A context with what its client holds. -/
structure Client (ν η : Type) where
  context : Context η
  forms : Holdings String Form := {}
  handles : Holdings ν η := {}

namespace Client

variable {ν η α : Type} [Identified η]

/-- What is alive. -/
def live (c : Client ν η) : Live η where
  form := (c.context.liveWith c.forms.values).form
  handle h := (c.context.liveWith []).handle h || c.handles.holds h

/-- A computation in the context of the client. -/
def inContext (c : Client ν η) (f : Live η → Context η → α × Context η) : α × Client ν η :=
  let (a, context) := f c.live c.context
  (a, { c with context })

/-- Whether a live form is in a slot. -/
def hasForm (c : Client ν η) (t : TypeForm) (p : FormPurpose) : Bool :=
  ((c.context.types.form? t p).filter c.live.form).isSome

/-- Holds a form under a name. -/
def holdForm (c : Client ν η) (name : String) (f : Form) : Client ν η :=
  { c with forms := c.forms.hold name f }

/-- Lets go of the form of a name. Answers whether it was held. -/
def dropForm (c : Client ν η) (name : String) : Bool × Client ν η :=
  ((c.forms.find? name).isSome, { c with forms := c.forms.drop name })

variable [BEq ν]

/-- The handle that is held under a name, which is made when there is none. -/
def obtainHandle (c : Client ν η) (name : ν) (make : Nat → η) : η × Client ν η :=
  let (h, handles) := c.handles.obtain name make
  (h, { c with handles })

/-- Lets go of the handle of a name. Answers whether it was held. -/
def dropHandle (c : Client ν η) (name : ν) : Bool × Client ν η :=
  ((c.handles.find? name).isSome, { c with handles := c.handles.drop name })

end Client

end HandleForms
