import ImpCompiler.Proofs.Lowering.Actions

/-! # Scopes as snapshots

A stack of scopes can be thought of as one flat map from names to variables.  Opening a scope saves the
map, closing it restores the map that was saved last, and the body of a function starts with an empty
map.  Nothing is searched then: a name is read off the map.

The flat map of a stack is what looking names up in it gives, and the saved maps are those of the parts of
the stack without its innermost scopes (`Scopes.snapshots`).  Each operation on the stack is the one on
these maps, so that whatever is done, opened and closed in any order, all names stand for the same
variables (`answers_eq_snapshots`). -/

namespace ImpCompiler

open Ssa (Ty Value)

/-- The variables that names stand for. -/
abbrev NameMap := String → Option Binding

/-- One flat map, and the maps that were saved, the latest first. -/
structure Snapshots where
  current : NameMap
  saved : List NameMap

namespace Snapshots

def start : Snapshots := ⟨fun _ => none, []⟩

/-- Saves the map; the body of a function goes on with an empty one. -/
def push (s : Snapshots) : ScopeKind → Snapshots
  | .block => ⟨s.current, s.current :: s.saved⟩
  | .function => ⟨fun _ => none, s.current :: s.saved⟩

/-- Restores the map that was saved last, if there is one. -/
def pop (s : Snapshots) : Snapshots :=
  match s.saved with
  | [] => s
  | last :: saved => ⟨last, saved⟩

def define (s : Snapshots) (name : String) (slot : Value) (ty : Ty) : Snapshots :=
  { s with current := fun other => if other = name then some ⟨slot, ty⟩ else s.current other }

def lookup (s : Snapshots) (name : String) : Option Binding :=
  s.current name

end Snapshots

/-! ## Calls -/

/-- What can be asked of a stack of scopes. -/
inductive ScopeCall where
  | push (kind : ScopeKind)
  | pop
  | define (name : String) (slot : Value) (ty : Ty)
  | lookup (name : String)

/-- What the calls that look a name up find, in order. -/
def Scopes.answers (s : Scopes) : List ScopeCall → List (Option Binding)
  | [] => []
  | .push kind :: calls => (s.push kind).answers calls
  | .pop :: calls => s.pop.answers calls
  | .define name slot ty :: calls => (s.define name slot ty).answers calls
  | .lookup name :: calls => s.lookup name :: s.answers calls

/-- What the same calls find in flat maps. -/
def Snapshots.answers (s : Snapshots) : List ScopeCall → List (Option Binding)
  | [] => []
  | .push kind :: calls => (s.push kind).answers calls
  | .pop :: calls => s.pop.answers calls
  | .define name slot ty :: calls => (s.define name slot ty).answers calls
  | .lookup name :: calls => s.lookup name :: s.answers calls

/-! ## The flat maps of a stack -/

namespace Scopes

/-- What names stand for in each of the scopes in turn, with those around it. -/
def savedMaps : List Scope → List NameMap
  | [] => []
  | scope :: outer => lookup ⟨scope, outer⟩ :: savedMaps outer

def snapshots (s : Scopes) : Snapshots :=
  ⟨s.lookup, savedMaps s.outer⟩

theorem snapshots_start : start.snapshots = Snapshots.start := rfl

theorem snapshots_push (s : Scopes) (kind : ScopeKind) : (s.push kind).snapshots = s.snapshots.push kind := by
  -- the scopes that were open are the ones around the new scope
  have saved : savedMaps (s.push kind).outer = s.lookup :: savedMaps s.outer := rfl
  rw [snapshots, saved]
  cases kind with
  | block => rw [funext s.lookup_push_block]; rfl
  | function => rw [funext s.lookup_push_function]; rfl

theorem snapshots_pop (s : Scopes) : s.pop.snapshots = s.snapshots.pop := by
  obtain ⟨scope, outer⟩ := s
  cases outer with
  | nil => rfl
  | cons next outer => rfl

theorem snapshots_define (s : Scopes) (name : String) (slot : Value) (ty : Ty) :
    (s.define name slot ty).snapshots = s.snapshots.define name slot ty := by
  rw [snapshots, funext (s.lookup_define name slot ty)]
  rfl

/-- Whatever scopes are open, calls find in them what they find in their flat maps. -/
theorem answers_eq (calls : List ScopeCall) (s : Scopes) : s.answers calls = s.snapshots.answers calls := by
  induction calls generalizing s with
  | nil => rfl
  | cons call calls ih =>
    cases call with
    | push kind => rw [answers, Snapshots.answers, ih, snapshots_push]
    | pop => rw [answers, Snapshots.answers, ih, snapshots_pop]
    | define name slot ty => rw [answers, Snapshots.answers, ih, snapshots_define]
    | lookup name => rw [answers, Snapshots.answers, ih]; rfl

end Scopes

/-- From the scope of the whole program on, every name that is looked up stands for the variable that it
    stands for in the flat map. -/
theorem answers_eq_snapshots (calls : List ScopeCall) :
    Scopes.start.answers calls = Snapshots.start.answers calls := by
  rw [Scopes.answers_eq, Scopes.snapshots_start]

/-- A variable is hidden in a block, cannot be seen in a function, and is back behind both; one more
    scope is closed than was opened. -/
example :
    let slot (id : Nat) : Value := .result id .ptr
    Scopes.start.answers [.define "x" (slot 0) .i32, .push .block, .define "x" (slot 1) .i1, .lookup "x",
        .push .function, .push .block, .lookup "x", .pop, .pop, .lookup "x", .pop, .pop, .lookup "x"] =
      [some ⟨slot 1, .i1⟩, none, some ⟨slot 1, .i1⟩, some ⟨slot 0, .i32⟩] := by
  decide

end ImpCompiler
