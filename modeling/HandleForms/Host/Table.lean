import HandleForms.Host.Body

/-!
# Hosts made of tables

A host whose primitives, members and initializers are looked up by name. A class without a
registered initializer counts as initialized; one with an initializer starts uninitialized.
-/

namespace HandleForms

/-- The registered functions, in the order of their first registration. -/
structure HostTable where
  primitives : List (String × Body)
  members : List ((String × String) × Body)
  initializers : List (String × Body)

namespace HostTable

/-- A table without functions. -/
def empty : HostTable := ⟨[], [], []⟩

/-- Registers a body under a key. A later registration replaces the body and keeps the place. -/
def register {κ : Type} [BEq κ] (key : κ) (body : Body) : List (κ × Body) → List (κ × Body)
  | [] => [(key, body)]
  | (k, b) :: rest => if k == key then (key, body) :: rest else (k, b) :: register key body rest

/-- Registers a primitive. -/
def primitive (t : HostTable) (name : String) (body : Body) : HostTable :=
  { t with primitives := register name body t.primitives }

/-- Registers the body of a member, whatever its kind of dispatch. -/
def member (t : HostTable) (cls name : String) (body : Body) : HostTable :=
  { t with members := register (cls, name) body t.members }

/-- Registers the initializer of a class. -/
def initializer (t : HostTable) (cls : String) (body : Body) : HostTable :=
  { t with initializers := register cls body t.initializers }

/-- The table with the primitives that are always there. -/
def standard : HostTable :=
  (((((empty.primitive "concat" .concat).primitive "concat3" .concat).primitive "upper"
    .upper).primitive "length" .length).primitive "add" .add).primitive "log" .log

/-- The state of a host before any class was initialized. -/
def start : TableState := ⟨[], []⟩

/-- The names of the primitives. -/
def primitiveNames (t : HostTable) : List String := t.primitives.map Prod.fst

/-- The table as diagnostics show it. -/
def describe (t : HostTable) : String :=
  let list (items : List String) := "[" ++ ", ".intercalate items ++ "]"
  "SimpleHost \x7b primitives: " ++ list (t.primitiveNames.map Text.quoted) ++
    ", members: " ++
    list (t.members.map fun m => "(" ++ m.1.1 ++ ", " ++ Text.quoted m.1.2 ++ ")") ++
    ", initializers: " ++ list (t.initializers.map Prod.fst) ++ " \x7d"

/-- Marks a class initialized. -/
def markInitialized (cls : String) : Script TableState String Unit :=
  .getState fun s => .setState { s with initialized := cls :: s.initialized } (.pure ())

/-- The host that looks its functions up in a table. -/
def host (t : HostTable) : Host TableState where
  isInitialized s cls := (t.initializers.lookup cls).isNone || s.initialized.contains cls
  primitive name args :=
    match t.primitives.lookup name with
    | some body => body.run args
    | none => .fail (.unknownPrimitive name)
  member _ m args :=
    match t.members.lookup (m.cls, m.name) with
    | some body => body.run args
    | none => .fail (.unknownMember m.cls m.name)
  initializer cls :=
    match t.initializers.lookup cls with
    | some body => (body.run []).andThen fun
      | .ok _ => markInitialized cls
      | .error e => .fail e.message
    | none => markInitialized cls

end HostTable

end HandleForms
