import ScriptTyping.Guess
import ScriptTyping.Registry

/-! # What inference knows

While a script is read, a context collects the names bound so far and the interfaces found so far.
A single expression is judged in an environment: the names, and the name that a promoted shape is
given.
-/
namespace ScriptTyping

/-- Names with their guesses, the latest binding first. -/
structure Scope (κ : Type) where
  bindings : List (String × Guess κ) := []

namespace Scope

variable {κ : Type}

def bind (s : Scope κ) (name : String) (g : Guess κ) : Scope κ := ⟨(name, g) :: s.bindings⟩

def lookup? (s : Scope κ) (name : String) : Option (Guess κ) := s.bindings.lookup name

@[simp] theorem lookup?_bind_self (s : Scope κ) (name : String) (g : Guess κ) :
    (s.bind name g).lookup? name = some g := by
  simp [bind, lookup?]

theorem lookup?_bind_of_ne (s : Scope κ) {name other : String} (g : Guess κ) (h : other ≠ name) :
    (s.bind name g).lookup? other = s.lookup? other := by
  have hb : (other == name) = false := by simpa using h
  simp [bind, lookup?, List.lookup_cons, hb]

/-- The bound names in code point order. -/
def names (s : Scope κ) : List String :=
  (s.bindings.map Prod.fst).eraseDups.mergeSort fun a b => a ≤ b

end Scope

structure Env (κ : Type) where
  scope : Scope κ
  /-- The name for a shape that is promoted to an interface. -/
  freshName : String
  /-- Whether object literals are described by their properties. -/
  describesObjects : Bool := true

structure Context (κ : Type) where
  scope : Scope κ := {}
  registry : Registry := {}

namespace Context

variable {κ : Type}

def env (ctx : Context κ) : Env κ := { scope := ctx.scope, freshName := ctx.registry.nextName }

def bind (ctx : Context κ) (name : String) (g : Guess κ) : Context κ :=
  { ctx with scope := ctx.scope.bind name g }

/-- Registers the interface of a promoted shape. The shape takes the name of the interface that is
now held for it. -/
def register (ctx : Context κ) (g : Guess κ) : Context κ × Guess κ :=
  match g.interfaceName with
  | some name =>
    if g.needsInterface && !name.isEmpty then
      let (registry, held) := ctx.registry.register (Interface.ofShape name g.properties)
      ({ ctx with registry }, { g with interfaceName := some held.name })
    else (ctx, g)
  | none => (ctx, g)

end Context

end ScriptTyping
