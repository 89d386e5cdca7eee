import ImpCompiler.Ssa.Module

/-! # Scopes

The variables that are visible at a point of a program, innermost scope first.  A block
sees what is around it.  The body of a function does not: the slots of the function
around it live in another frame, so looking a name up ends at the scope of the
function. -/

namespace ImpCompiler

open Ssa (Ty Value)

/-- The slot of a variable, and the type that it was made for. -/
structure Binding where
  slot : Value
  ty : Ty
deriving DecidableEq

inductive ScopeKind where
  /-- The body of a function, or the whole program. -/
  | function
  | block
deriving DecidableEq

/-- The variables declared in one scope, the latest first. -/
structure Scope where
  kind : ScopeKind
  bindings : List (String × Binding)

/-- The open scopes; there is always at least one. -/
structure Scopes where
  innermost : Scope
  outer : List Scope

namespace Scopes

/-- The scope of the whole program. -/
def start : Scopes := ⟨⟨.function, []⟩, []⟩

/-- Opens a scope. -/
def push (s : Scopes) (kind : ScopeKind) : Scopes :=
  ⟨⟨kind, []⟩, s.innermost :: s.outer⟩

/-- Closes the innermost scope; that of the whole program stays open. -/
def pop (s : Scopes) : Scopes :=
  match s.outer with
  | [] => s
  | scope :: outer => ⟨scope, outer⟩

/-- Declares a variable in the innermost scope, where it hides any other of its name. -/
def define (s : Scopes) (name : String) (slot : Value) (ty : Ty) : Scopes :=
  { s with innermost := { s.innermost with
      bindings := (name, ⟨slot, ty⟩) :: s.innermost.bindings } }

/-- Looks a name up in `scope` and, up to the scope of the function, in those around it. -/
def lookupFrom (name : String) (scope : Scope) (outer : List Scope) : Option Binding :=
  match scope.bindings.lookup name with
  | some binding => some binding
  | none =>
    match scope.kind, outer with
    | .block, next :: outer => lookupFrom name next outer
    | _, _ => none

/-- The variable that a name stands for. -/
def lookup (s : Scopes) (name : String) : Option Binding :=
  lookupFrom name s.innermost s.outer

end Scopes

end ImpCompiler
