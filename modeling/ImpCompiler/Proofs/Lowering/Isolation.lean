import ImpCompiler.Proofs.Typing.Agreement

/-! # Functions are lowered alike wherever they are defined

All that the definition of a function can see of the state around it is an outline: the signatures of
the functions and the number of the string constants.  What is written for it does not depend on
anything else, and the state around it stays as it is (`stmt_function_isolated`).

A state within the definition is a `Body`, which holds what has been made since the definition was
entered, put into the state around it (`Body.within`).  `Lower.Isolated` says that an action turns a
body into another, in the same way whatever is around them, which holds of all that lowering is put together
from (`Built.isolated`).  A definition within a definition is no exception: to it, the body of the outer one
is a part of what is around it. -/

namespace ImpCompiler

open Ssa Typing

/-! ## What is around a definition -/

/-- What a definition can see of the state around it. -/
structure Outline where
  functions : List Signature
  globals : Nat

namespace LowerState

def outline (s : LowerState) : Outline where
  functions := s.emitter.module.functions.toList.map Func.signature
  globals := s.emitter.module.globals.size

/-- The state with more functions and string constants in its module. -/
def grow (s : LowerState) (functions : Array Func) (globals : Array Global) : LowerState :=
  { s with emitter := { s.emitter with module := { s.emitter.module with
      functions := s.emitter.module.functions ++ functions
      globals := s.emitter.module.globals ++ globals } } }

theorem findFunction?_eq (s : LowerState) (name : String) :
    s.emitter.module.findFunction? name = s.outline.functions.findIdx? fun f => f.name == name := by
  rw [Module.findFunction?, outline, List.findIdx?_map, ← List.findIdx?_toArray, Array.toArray_toList]
  rfl

theorem signature_eq (s : LowerState) (id : Nat) :
    s.emitter.module.functions[id]?.map Func.signature = s.outline.functions[id]? := by
  rw [outline, List.getElem?_map, Array.getElem?_toList]

theorem size_functions_eq (s : LowerState) : s.emitter.module.functions.size = s.outline.functions.length := by
  simp [outline]

end LowerState

/-- The kinds of the open scopes, innermost first. -/
def Scopes.kinds (s : Scopes) : List ScopeKind :=
  (s.innermost :: s.outer).map Scope.kind

/-- Looking a name up does not go past the scope of a function. -/
theorem Scopes.lookupFrom_append (name : String) (scope : Scope) (outer around : List Scope)
    (bounded : .function ∈ (scope :: outer).map Scope.kind) :
    lookupFrom name scope (outer ++ around) = lookupFrom name scope outer := by
  induction outer generalizing scope with
  | nil =>
    -- this scope is the one that the search does not go past
    have kind : scope.kind = .function := by simpa [eq_comm] using bounded
    unfold lookupFrom
    rw [kind]
  | cons next outer ih =>
    rw [List.cons_append]
    unfold lookupFrom
    cases kind : scope.kind with
    | function => rfl
    | block =>
      dsimp only
      rw [ih next (by simpa [kind] using bounded)]

/-! ## Within a definition -/

/-- What has been made since a definition was entered: the function itself, the functions and string
    constants behind it, and the scopes. -/
structure Body where
  cursor : Cursor
  functions : Array Func
  globals : Array Global
  scopes : Scopes

namespace Body

/-- The state with a body in it. -/
def within (b : Body) (around : LowerState) : LowerState where
  emitter :=
    { module :=
        { name := around.emitter.module.name
          functions := around.emitter.module.functions.push b.cursor.func ++ b.functions
          globals := around.emitter.module.globals ++ b.globals }
      point := some ⟨around.emitter.module.functions.size, b.cursor.block⟩ }
  scopes := ⟨b.scopes.innermost, b.scopes.outer ++ around.scopes.innermost :: around.scopes.outer⟩

/-- What can be seen within a body. -/
def outline (b : Body) (around : Outline) : Outline where
  functions := around.functions ++ b.cursor.func.signature :: b.functions.toList.map Func.signature
  globals := around.globals + b.globals.size

theorem outline_within (b : Body) (around : LowerState) :
    (b.within around).outline = b.outline around.outline := by
  simp [within, outline, LowerState.outline]

/-- The body can be written to, and is in the scope of a function. -/
structure Proper (b : Body) : Prop where
  inside : b.cursor.block < b.cursor.func.blocks.size
  bounded : .function ∈ b.scopes.kinds

theorem lookup_within {b : Body} (proper : b.Proper) (around : LowerState) (name : String) :
    (b.within around).scopes.lookup name = b.scopes.lookup name :=
  Scopes.lookupFrom_append name _ _ _ proper.bounded

theorem at_within {b : Body} (proper : b.Proper) (around : LowerState) :
    (b.within around).emitter.At around.emitter.module.functions.size b.cursor where
  point := rfl
  function := by simp [within, Array.getElem?_append]
  inside := proper.inside

theorem put_within (b : Body) (around : LowerState) (c : Cursor) :
    (b.within around).put around.emitter.module.functions.size c = { b with cursor := c }.within around := by
  have functions : (around.emitter.module.functions.push b.cursor.func ++ b.functions).setIfInBounds
      around.emitter.module.functions.size c.func =
        around.emitter.module.functions.push c.func ++ b.functions := by
    apply Array.ext'
    simp
  simp only [LowerState.put, Emitter.put, within, functions]

theorem grow_within (b : Body) (around : LowerState) (functions : Array Func) (globals : Array Global) :
    (b.within around).grow functions globals =
      { b with functions := b.functions ++ functions, globals := b.globals ++ globals }.within around := by
  simp [within, LowerState.grow]

/-- What every action keeps: scopes are closed as they are opened, and blocks are never removed. -/
structure Leads (b b' : Body) : Prop where
  proper : b'.Proper
  outer : b'.scopes.outer = b.scopes.outer
  kind : b'.scopes.innermost.kind = b.scopes.innermost.kind
  size : b.cursor.func.blocks.size ≤ b'.cursor.func.blocks.size

theorem Leads.refl {b : Body} (proper : b.Proper) : b.Leads b :=
  ⟨proper, rfl, rfl, Nat.le_refl _⟩

theorem Leads.trans {b b₁ b₂ : Body} (first : b.Leads b₁) (second : b₁.Leads b₂) : b.Leads b₂ :=
  ⟨second.proper, second.outer.trans first.outer, second.kind.trans first.kind,
    Nat.le_trans first.size second.size⟩

/-- What is added behind the function does not change it. -/
theorem Leads.behind {b : Body} (proper : b.Proper) (functions : Array Func) (globals : Array Global) :
    b.Leads { b with functions := functions, globals := globals } :=
  ⟨⟨proper.inside, proper.bounded⟩, rfl, rfl, Nat.le_refl _⟩

end Body

/-! ## Changes of the cursor -/

namespace Ssa.Cursor

/-- The cursor has moved on within its function. -/
structure Precedes (c c' : Cursor) : Prop where
  inside : c'.block < c'.func.blocks.size
  size : c.func.blocks.size ≤ c'.func.blocks.size

variable {c : Cursor} (inside : c.block < c.func.blocks.size)

include inside

theorem precedes_push (i : Instr) : c.Precedes (c.push i) :=
  ⟨(isOpen_push inside).1, by simpa [push] using (extends_opened c).size⟩

theorem precedes_pushResult (ty : Ty) (name : String) (i : Instr) : c.Precedes (c.pushResult ty name i) :=
  ⟨(isOpen_pushResult inside ty name).1, by simpa [pushResult] using (extends_opened c).size⟩

theorem precedes_alloca (ty : Ty) (name : String) : c.Precedes (c.alloca ty name) :=
  ⟨by simpa [alloca] using inside, (extends_alloca inside ty name).size⟩

theorem precedes_terminate (t : Terminator) : c.Precedes (c.terminate t) :=
  ⟨by simpa [terminate] using (isOpen_opened inside).1, (extends_terminate inside t).size⟩

theorem precedes_close (t : Terminator) : c.Precedes (c.close t) := by
  rw [close]
  split
  · exact ⟨inside, Nat.le_refl _⟩
  · exact precedes_terminate inside t

theorem precedes_addBlock (label : String) : c.Precedes (c.addBlock label) :=
  ⟨inside_addBlock inside label, by simp [addBlock]⟩

omit inside

theorem precedes_moveTo {block : Nat} (known : block < c.func.blocks.size) : c.Precedes (c.moveTo block) :=
  ⟨known, Nat.le_refl _⟩

end Ssa.Cursor

theorem Body.Leads.of_precedes {b : Body} (proper : b.Proper) {c : Cursor} (later : b.cursor.Precedes c) :
    b.Leads { b with cursor := c } :=
  ⟨⟨later.inside, proper.bounded⟩, rfl, rfl, later.size⟩

namespace Lower

variable {α β : Type} {o : Outline} {b : Body}

/-! ## Isolated actions -/

/-- The action does the same to a body in all states with a given outline: it gives the same result or
    fails with the same error, and makes the same body, and the state around it stays as it is. -/
inductive Isolated (o : Outline) (action : Lower α) (b : Body) : Prop where
  | ok (a : α) (b' : Body) (leads : b.Leads b')
      (done : ∀ around : LowerState, around.outline = o →
        action (b.within around) = .ok a (b'.within around))
  | error (e : LoweringError) (b' : Body) (leads : b.Leads b')
      (failed : ∀ around : LowerState, around.outline = o →
        action (b.within around) = .error e (b'.within around))

namespace Isolated

variable {action : Lower α}

theorem pure (proper : b.Proper) (a : α) : Isolated o (Pure.pure a) b :=
  .ok a b (.refl proper) fun _ _ => rfl

theorem throw (proper : b.Proper) (e : LoweringError) : Isolated o (MonadExcept.throw e : Lower α) b :=
  .error e b (.refl proper) fun _ _ => rfl

theorem bind {next : α → Lower β} (first : Isolated o action b)
    (rest : ∀ a b', b.Leads b' → Isolated o (next a) b') : Isolated o (action >>= next) b := by
  cases first with
  | ok a b₁ leads done =>
    cases rest a b₁ leads with
    | ok a' b₂ leads' done' =>
      refine .ok a' b₂ (leads.trans leads') fun around same => ?_
      rw [bind_eq_of_ok (done around same), done' around same]
    | error e b₂ leads' failed =>
      refine .error e b₂ (leads.trans leads') fun around same => ?_
      rw [bind_eq_of_ok (done around same), failed around same]
  | error e b₁ leads failed =>
    exact .error e b₁ leads fun around same => bind_eq_of_error (failed around same)

/-- An action that does what another does from a later body. -/
theorem of_eq {other : Lower α} {b' : Body} (leads : b.Leads b')
    (same : ∀ around : LowerState, around.outline = o →
      action (b.within around) = other (b'.within around))
    (isolated : Isolated o other b') : Isolated o action b := by
  cases isolated with
  | ok a b₁ leads' done =>
    exact .ok a b₁ (leads.trans leads') fun around known => (same around known).trans (done around known)
  | error e b₁ leads' failed =>
    exact .error e b₁ (leads.trans leads') fun around known => (same around known).trans (failed around known)

/-- An action that changes the cursor only. -/
theorem of_cursor (proper : b.Proper) (a : α) {c : Cursor} (later : b.cursor.Precedes c)
    (done : ∀ around : LowerState, around.outline = o → ∀ id, (b.within around).emitter.At id b.cursor →
      action (b.within around) = .ok a ((b.within around).put id c)) : Isolated o action b := by
  refine .ok a _ (.of_precedes proper later) fun around known => ?_
  rw [done around known _ (Body.at_within proper around), Body.put_within]

end Isolated

/-! ## Instructions -/

section instructions

variable (proper : b.Proper)

include proper

theorem push_isolated (i : Instr) : Isolated o (emit (Emitter.push i)) b :=
  .of_cursor proper _ (Cursor.precedes_push proper.inside i) fun _ _ _ here => push_eq here i

theorem pushResult_isolated (ty : Ty) (name : String) (make : Nat → Instr) :
    Isolated o (emit (Emitter.pushResult ty name make)) b :=
  .of_cursor proper _ (Cursor.precedes_pushResult proper.inside ty name _)
    fun _ _ _ here => pushResult_eq here ty name make

theorem alloca_isolated (ty : Ty) (name : String) : Isolated o (emit (Emitter.alloca ty name)) b :=
  .of_cursor proper _ (Cursor.precedes_alloca proper.inside ty name) fun _ _ _ here => alloca_eq here ty name

theorem terminate_isolated (t : Terminator) : Isolated o (emit (Emitter.terminate t)) b :=
  .of_cursor proper _ (Cursor.precedes_terminate proper.inside t) fun _ _ _ here => terminate_eq here t

theorem terminateIfOpen_isolated (t : Terminator) : Isolated o (terminateIfOpen (Emitter.terminate t)) b :=
  .of_cursor proper _ (Cursor.precedes_close proper.inside t) fun _ _ _ here => terminateIfOpen_eq here t

theorem moveTo_isolated {block : Nat} (known : block < b.cursor.func.blocks.size) :
    Isolated o (moveTo block) b :=
  .of_cursor proper _ (Cursor.precedes_moveTo known) fun _ _ _ here => moveTo_eq here block

/-- Where a block is added, its number is that of the blocks before it. -/
theorem appendBlock_isolated (label : String) {next : Nat → Lower α}
    (rest : Isolated o (next b.cursor.func.blocks.size) { b with cursor := b.cursor.addBlock label }) :
    Isolated o (appendBlock label >>= next) b := by
  have later := Cursor.precedes_addBlock proper.inside label
  refine .of_eq (.of_precedes proper later) (fun around _ => ?_) rest
  rw [bind_eq_of_ok (appendBlock_eq (Body.at_within proper around) label), Body.put_within]

theorem param_isolated (index : Nat) : Isolated o (emit (Emitter.param index)) b := by
  cases found : b.cursor.func.params[index]? with
  | some p =>
    refine .ok (.param index p.ty) b (.refl proper) fun around _ => ?_
    exact emit_eq (Emitter.param_eq (Body.at_within proper around) found)
  | none =>
    refine .error (.emit (.unknownParameter b.cursor.func.name index)) b (.refl proper) fun around _ => ?_
    have here := Body.at_within proper around
    rw [emit, Emitter.param, bind_eq_of_ok (Emitter.currentFunction_eq here),
      bind_eq_of_ok (Emitter.function_eq here), found]
    rfl

theorem globalString_isolated (text : String) : Isolated o (emit (Emitter.globalString text)) b := by
  -- the number of a constant is the only thing about the others that shows
  refine .ok (.global (b.outline o).globals) _ (.behind proper b.functions
    (b.globals.push ⟨Module.globalName (b.outline o).globals, text.toUTF8.data.toList⟩)) fun around known => ?_
  have count : (b.within around).emitter.module.globals.size = (b.outline o).globals := by
    rw [← known, ← Body.outline_within]
    rfl
  simp only [emit, Emitter.globalString, Module.addGlobal, count]
  simp [Body.within]

end instructions

/-! ## Functions that are known -/

/-- The numbers of functions are those in the outline. -/
theorem findFunction_within {around : LowerState} (known : around.outline = o) (b : Body) (name : String) :
    emit (Emitter.findFunction name) (b.within around) =
      .ok ((b.outline o).functions.findIdx? fun f => f.name == name) (b.within around) := by
  rw [← known, ← Body.outline_within, ← LowerState.findFunction?_eq]
  rfl

/-- The signatures of functions are those in the outline. -/
theorem exists_function {around : LowerState} (known : around.outline = o) {id : Nat} {f : Signature}
    (found : (b.outline o).functions[id]? = some f) :
    ∃ g, (b.within around).emitter.module.functions[id]? = some g ∧ g.signature = f := by
  rw [← known, ← Body.outline_within, ← LowerState.signature_eq] at found
  exact Option.map_eq_some_iff.mp found

theorem function_absent {around : LowerState} (known : around.outline = o) {id : Nat}
    (absent : (b.outline o).functions[id]? = none) :
    Emitter.function id (b.within around).emitter =
      .error (.unknownFunction id) (b.within around).emitter := by
  rw [← known, ← Body.outline_within, ← LowerState.signature_eq] at absent
  simp only [Emitter.function, Option.map_eq_none_iff.mp absent]

section calls

variable (proper : b.Proper)

include proper

theorem emit_call_isolated (callee : Nat) (args : List Value) (name : String) :
    Isolated o (emit (Emitter.call callee args name)) b := by
  cases found : (b.outline o).functions[callee]? with
  | none =>
    refine .error (.emit (.unknownFunction callee)) b (.refl proper) fun around known => ?_
    rw [emit, Emitter.call, bind_eq_of_error (function_absent known found)]
  | some f =>
    by_cases void : f.returnType = .void
    · refine .of_cursor proper none (Cursor.precedes_push proper.inside (.call none callee args))
        fun around known id here => ?_
      obtain ⟨g, function, rfl⟩ := exists_function known found
      exact emit_eq ((Emitter.call_eq here function args name).trans (if_pos void))
    · refine .of_cursor proper (some (.result b.cursor.func.locals.size f.returnType))
        (Cursor.precedes_pushResult proper.inside f.returnType name
          (.call (some b.cursor.func.locals.size) callee args)) fun around known id here => ?_
      obtain ⟨g, function, rfl⟩ := exists_function known found
      exact emit_eq ((Emitter.call_eq here function args name).trans (if_neg void))

theorem findFunction_isolated (name : String) : Isolated o (emit (Emitter.findFunction name)) b :=
  .ok _ b (.refl proper) fun _ known => findFunction_within known b name

theorem addFunction_isolated (name : String) (params : List Param) (returnType : Ty) :
    Isolated o (emit (Emitter.addFunction name params returnType)) b := by
  refine .ok (b.outline o).functions.length _ (.behind proper
    (b.functions.push (.declare name params returnType)) b.globals) fun around known => ?_
  have count : (b.within around).emitter.module.functions.size = (b.outline o).functions.length := by
    rw [LowerState.size_functions_eq, Body.outline_within, known]
  simp only [emit, Emitter.addFunction, Module.addFunction, count]
  simp [Body.within]

/-- What is read of a function, which may be different in each state, is in its signature. -/
theorem signature_isolated (id : Nat) {next : Signature → Lower α} (rest : ∀ f, Isolated o (next f) b) :
    Isolated o (emit (Emitter.function id) >>= fun f => next f.signature) b := by
  cases found : (b.outline o).functions[id]? with
  | none =>
    refine .error (.emit (.unknownFunction id)) b (.refl proper) fun around known => bind_eq_of_error ?_
    rw [emit, function_absent known found]
  | some f =>
    refine .of_eq (.refl proper) (fun around known => ?_) (rest f)
    obtain ⟨g, function, rfl⟩ := exists_function known found
    exact bind_eq_of_ok (emit_eq (Emitter.function_eq_of_found function))

end calls

/-! ## Scopes -/

section scopes

variable (proper : b.Proper)

include proper

theorem lookup_isolated (name : Token) : Isolated o (lookup name) b := by
  have seen (around : LowerState) := Body.lookup_within proper around name.text
  cases found : b.scopes.lookup name.text with
  | some binding =>
    refine .ok binding b (.refl proper) fun around _ => ?_
    rw [lookup, bind_eq_of_ok (rfl : (get : Lower LowerState) _ = .ok _ _), seen, found]
    rfl
  | none =>
    refine .error (.undefinedVariable name.text name.position) b (.refl proper) fun around _ => ?_
    rw [lookup, bind_eq_of_ok (rfl : (get : Lower LowerState) _ = .ok _ _), seen, found]
    rfl

theorem define_isolated (name : String) (slot : Value) (ty : Ty) :
    Isolated o (modifyScopes (·.define name slot ty)) b :=
  .ok () { b with scopes := b.scopes.define name slot ty }
    ⟨⟨proper.inside, proper.bounded⟩, rfl, rfl, Nat.le_refl _⟩ fun _ _ => rfl

theorem opened_proper : Body.Proper { b with scopes := b.scopes.push .block } :=
  ⟨proper.inside, List.mem_cons_of_mem _ proper.bounded⟩

/-- A block scope is closed where it was opened, on success and on failure. -/
theorem withBlockScope_isolated {body : Lower Unit}
    (inner : Isolated o body { b with scopes := b.scopes.push .block }) :
    Isolated o (withBlockScope body) b := by
  have closed {b' : Body} (leads : Body.Leads { b with scopes := b.scopes.push .block } b') :
      b.Leads { b' with scopes := b.scopes } ∧ ∀ around : LowerState,
        { b'.within around with scopes := (b'.within around).scopes.pop } =
          { b' with scopes := b.scopes }.within around := by
    refine ⟨⟨⟨leads.proper.inside, proper.bounded⟩, rfl, rfl, leads.size⟩, fun around => ?_⟩
    simp only [Body.within, Scopes.pop, leads.outer]
    rfl
  have unfolded (around : LowerState) : withBlockScope body (b.within around) =
    ensuring body (fun s => { s with scopes := s.scopes.pop })
      ({ b with scopes := b.scopes.push .block }.within around) := rfl
  cases inner with
  | ok a b' leads done =>
    refine .ok a _ (closed leads).1 fun around known => ?_
    rw [unfolded, ensuring, done around known, ← (closed leads).2]
  | error e b' leads failed =>
    refine .error e _ (closed leads).1 fun around known => ?_
    rw [unfolded, ensuring, failed around known, ← (closed leads).2]

end scopes

/-! ## Definitions -/

/-- A definition does the same in all states with a given outline: it adds the same functions and
    constants, and changes nothing else. -/
inductive Appends (o : Outline) (action : Lower Unit) : Prop where
  | ok (functions : Array Func) (globals : Array Global)
      (done : ∀ s : LowerState, s.outline = o → action s = .ok () (s.grow functions globals))
  | error (e : LoweringError) (functions : Array Func) (globals : Array Global)
      (failed : ∀ s : LowerState, s.outline = o → action s = .error e (s.grow functions globals))

/-- The body of a function that has just been entered. -/
def entered (name : String) (params : List Token) : Body where
  cursor := ⟨(declared name params).addBlock "entry", (declared name params).blocks.size⟩
  functions := #[]
  globals := #[]
  scopes := ⟨⟨.function, []⟩, []⟩

theorem entered_proper (name : String) (params : List Token) : (entered name params).Proper :=
  ⟨by simp [entered], List.mem_cons_self ..⟩

theorem enter_eq (s : LowerState) (name : String) (params : List Token) :
    (⟨s.emitter.enter (declared name params), s.scopes.push .function⟩ : LowerState) =
      (entered name params).within s := by
  simp [entered, Body.within, Emitter.enter, Module.addFunction, Scopes.push]

/-- Leaving a function puts the insertion point and the scopes back. -/
theorem leave_eq {name : String} {params : List Token} {b : Body} (leads : (entered name params).Leads b)
    (s : LowerState) :
    (⟨{ (b.within s).emitter with point := s.emitter.point }, (b.within s).scopes.pop⟩ : LowerState) =
      s.grow (#[b.cursor.func] ++ b.functions) b.globals := by
  -- the only scope of the body is that of the function, and is closed
  have outer : b.scopes.outer = [] := leads.outer
  have functions : s.emitter.module.functions.push b.cursor.func ++ b.functions =
      s.emitter.module.functions ++ (#[b.cursor.func] ++ b.functions) := by
    rw [Array.push_eq_append, Array.append_assoc]
  simp only [Body.within, LowerState.grow, Scopes.pop, outer, functions]
  rfl

theorem function_appends (name : Token) {params : List Token} {body : Lower Unit}
    (stored : ∀ {b : Body}, b.Proper → Isolated o (storeParams 0 params) b)
    (isolated : ∀ {b : Body}, b.Proper → Isolated o body b) : Appends o (function name params body) := by
  cases found : o.functions.findIdx? fun f => f.name == name.text with
  | some id =>
    refine .error (.duplicateFunction name.text name.position) #[] #[] fun s same => ?_
    have find_eq : emit (Emitter.findFunction name.text) s = .ok (some id) s := by
      rw [← found, ← same, ← LowerState.findFunction?_eq]
      rfl
    rw [function, bind_eq_of_ok find_eq]
    simp only [LowerState.grow, Array.append_empty]
    rfl
  | none =>
    have unfolded {s : LowerState} (same : s.outline = o) : function name params body s = ensuring
        (do
          storeParams 0 params
          body
          returnZero)
        (fun t => ⟨{ t.emitter with point := s.emitter.point }, t.scopes.pop⟩)
        ((entered name.text params).within s) := by
      rw [← same, ← LowerState.findFunction?_eq] at found
      rw [function_eq params body found, enter_eq]
    have inner : Isolated o (do
        storeParams 0 params
        body
        returnZero) (entered name.text params) :=
      (stored (entered_proper name.text params)).bind fun _ _ leads =>
        (isolated leads.proper).bind fun _ _ leads => terminateIfOpen_isolated leads.proper _
    cases inner with
    | ok a b leads done =>
      refine .ok (#[b.cursor.func] ++ b.functions) b.globals fun s same => ?_
      rw [unfolded same, ensuring, done s same, ← leave_eq leads s]
    | error e b leads failed =>
      refine .error e (#[b.cursor.func] ++ b.functions) b.globals fun s same => ?_
      rw [unfolded same, ensuring, failed s same, ← leave_eq leads s]

/-- To a definition within a body, the body is a part of what is around it. -/
theorem Appends.isolated {action : Lower Unit} (appends : Appends (b.outline o) action) (proper : b.Proper) :
    Isolated o action b := by
  cases appends with
  | ok functions globals done =>
    refine .ok () _ (.behind proper (b.functions ++ functions) (b.globals ++ globals)) fun around known => ?_
    rw [done _ (by rw [Body.outline_within, known]), Body.grow_within]
  | error e functions globals failed =>
    refine .error e _ (.behind proper (b.functions ++ functions) (b.globals ++ globals)) fun around known => ?_
    rw [failed _ (by rw [Body.outline_within, known]), Body.grow_within]

/-! ## The whole of lowering -/

variable {δ : Change} {blocks : List Nat} {names : String → Prop} {texts : List String}

theorem Emits.isolated {x y : Emit α} (emits : Emits δ x y) (proper : b.Proper) :
    Isolated o (emit x) b := by
  cases emits with
  | push i => exact push_isolated proper i
  | pushResult ty name make => exact pushResult_isolated proper ty name make
  | load ty slot name => exact pushResult_isolated proper ty name _
  | alloca ty name => exact alloca_isolated proper ty name
  | terminate t => exact terminate_isolated proper t
  | param index => exact param_isolated proper index
  | call callee args name => exact emit_call_isolated proper callee args name
  | findFunction name => exact findFunction_isolated proper name
  | addFunction name params returnType => exact addFunction_isolated proper name params returnType

/-- No block is removed, so that those to go to are there. -/
theorem Built.isolated {x y : Lower α} (built : Built δ blocks names texts x y) {o : Outline} {b : Body}
    (proper : b.Proper) (there : ∀ k ∈ blocks, k < b.cursor.func.blocks.size) : Isolated o x b := by
  induction built generalizing o b with
  | pure a => exact .pure proper a
  | throw e => exact .throw proper e
  | bind _ _ first rest =>
    exact (first proper there).bind fun a b' leads =>
      rest a leads.proper fun k member => Nat.lt_of_lt_of_le (there k member) leads.size
  | emit emits => exact emits.isolated proper
  | globalString text => exact globalString_isolated proper text
  | signature id _ rest => exact signature_isolated proper id fun f => rest f proper there
  | lookup _ => exact lookup_isolated proper _
  | define _ _ slot ty => exact define_isolated proper _ slot ty
  | appendBlock label _ rest =>
    have later := Cursor.precedes_addBlock proper.inside label
    refine appendBlock_isolated proper label (rest _ (Body.Leads.of_precedes proper later).proper ?_)
    rw [List.forall_mem_cons]
    exact ⟨by simp [Cursor.addBlock], fun k member => Nat.lt_of_lt_of_le (there k member) later.size⟩
  | moveTo known => exact moveTo_isolated proper (there _ known)
  | terminateIfOpen t => exact terminateIfOpen_isolated proper t
  | withBlockScope _ body => exact withBlockScope_isolated proper (body (opened_proper proper) there)
  | function name _ _ stored body =>
    refine (function_appends name ?_ ?_).isolated proper
    · exact fun proper => stored proper (List.forall_mem_nil _)
    · exact fun proper => body proper (List.forall_mem_nil _)

theorem stmt_function_appends (name : Token) (params : List Token) (body : List Stmt) :
    Appends o (stmt (.function name params body)) := by
  have stored : Built Change.none [] _ _ _ _ := storeParams_built 0 params fun _ _ => trivial
  have built : Built Change.none [] _ _ _ _ := stmts_built body fun _ _ => trivial
  rw [stmt]
  refine function_appends name ?_ ?_
  · exact fun proper => stored.isolated proper (List.forall_mem_nil _)
  · exact fun proper => built.isolated proper (List.forall_mem_nil _)

end Lower

/-- The definition of a function does the same in two states that list the same signatures and have
    equally many string constants, whatever scopes are open and wherever they write to.  It ends in
    the same way and adds the same functions and constants.  Whether it fails or not, it leaves the
    insertion point, the scopes and the functions that were there as they are. -/
theorem stmt_function_isolated {s s' : LowerState} (same : s.outline = s'.outline) (name : Token)
    (params : List Token) (body : List Stmt) :
    (∃ functions globals,
      Lower.stmt (.function name params body) s = .ok () (s.grow functions globals) ∧
      Lower.stmt (.function name params body) s' = .ok () (s'.grow functions globals)) ∨
    (∃ e functions globals,
      Lower.stmt (.function name params body) s = .error e (s.grow functions globals) ∧
      Lower.stmt (.function name params body) s' = .error e (s'.grow functions globals)) := by
  cases Lower.stmt_function_appends name params body with
  | ok functions globals done => exact .inl ⟨functions, globals, done s same, done s' rfl⟩
  | error e functions globals failed => exact .inr ⟨e, functions, globals, failed s same, failed s' rfl⟩

/-- A variable of the program is not seen in a function, which fails as it does without the variable:
    behind a function within it, and with nothing around it changed. -/
theorem stmt_function_isolated_variable :
    let x := Token.synthetic .identifier "x"
    let outer := Token.synthetic .identifier "f"
    let inner := Token.synthetic .identifier "g"
    let body : List Stmt := [.function inner [] [], .print (.name x)]
    ∃ s, Lower.stmt (.declare x none) (Lower.entry "m") = .ok () s ∧
      s.scopes.lookup "x" ≠ (Lower.entry "m").scopes.lookup "x" ∧ s.outline = (Lower.entry "m").outline ∧
      ∃ functions globals,
        Lower.stmt (.function outer [] body) s =
          .error (.undefinedVariable "x" x.position) (s.grow functions globals) ∧
        Lower.stmt (.function outer [] body) (Lower.entry "m") =
          .error (.undefinedVariable "x" x.position) ((Lower.entry "m").grow functions globals) := by
  intro x outer inner body
  obtain ⟨s, declared, seen, same⟩ : ∃ s, Lower.stmt (.declare x none) (Lower.entry "m") = .ok () s ∧
      s.scopes.lookup "x" ≠ (Lower.entry "m").scopes.lookup "x" ∧ s.outline = (Lower.entry "m").outline :=
    ⟨_, rfl, by decide, rfl⟩
  obtain ⟨id, c, ready⟩ := Lower.ready_entry "m"
  have conforms := Lower.stmt_follows (.function outer [] body) _ id c ready
  have verdict : checkStmt (.function outer [] body) (Lower.entry "m").context =
      .error (.undefinedVariable "x" x.position) := rfl
  rw [Lower.Conforms, verdict] at conforms
  obtain ⟨functions, globals, _, done⟩ | ⟨e, functions, globals, run, run'⟩ :=
    stmt_function_isolated same outer [] body
  · simp [done] at conforms
  · rw [run'] at conforms
    cases conforms
    exact ⟨s, declared, seen, same, functions, globals, run, run'⟩

end ImpCompiler
