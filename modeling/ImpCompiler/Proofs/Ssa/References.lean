import Mathlib.Data.List.Nodup
import ImpCompiler.Proofs.Ssa.Histories
import ImpCompiler.Proofs.Ssa.WellFormed
import ImpCompiler.Ssa.Assembly

/-! # References in the text of a module

The text of a module names what its instructions and terminators refer to.  Where there is nothing to
name it has a placeholder, so every module has a text, and nothing in the text says for sure that a
reference went astray.

Here the text is written a second time, by a printer that gives up at the first reference to something
that is not there.  It succeeds exactly if all references of all functions resolve, and then it has
written the same text (`Module.assembly?_eq_some_iff`).  The check of a module goes through the same
references, so what passes it is printed without a placeholder (`assembly?_of_check`). -/

namespace ImpCompiler.Ssa

/-! ## References -/

/-- What the text of a function refers to. -/
inductive Reference where
  | global (id : Nat)
  | param (index : Nat)
  | result (id : Nat)
  | block (id : Nat)
  | function (id : Nat)

/-- The module, or the function with the reference in it, has what is referred to. -/
def Reference.Resolves (m : Module) (f : Func) : Reference → Prop
  | .global id => id < m.globals.size
  | .param index => index < f.params.size
  | .result id => id < f.locals.size
  | .block id => id < f.blocks.size
  | .function id => id < m.functions.size

/-- All the references resolve. -/
def Resolve (m : Module) (f : Func) (refs : List Reference) : Prop :=
  ∀ r ∈ refs, r.Resolves m f

def Value.references : Value → List Reference
  | .constInt _ _ => []
  | .constFloat _ => []
  | .global id => [.global id]
  | .param index _ => [.param index]
  | .result id _ => [.result id]

/-- The result, the operands and the callee of an instruction. -/
def Instr.references (i : Instr) : List Reference :=
  let callee :=
    match i with
    | .call _ callee _ => [.function callee]
    | _ => []
  i.result?.toList.map .result ++ i.operands.flatMap Value.references ++ callee

def Terminator.references (t : Terminator) : List Reference :=
  t.operands.flatMap Value.references ++ t.successors.map .block

def Block.references (b : Block) : List Reference :=
  b.instrs.toList.flatMap Instr.references ++ (b.terminator.map Terminator.references).getD []

def Func.references (f : Func) : List Reference :=
  f.blocks.toList.flatMap Block.references

/-! ## The strict printer -/

def Func.resultText? (f : Func) (id : Nat) : Option String := do
  let l ← f.locals[id]?
  return "%" ++ l.name

def Func.labelText? (f : Func) (id : Nat) : Option String := do
  let b ← f.blocks[id]?
  return "%" ++ b.label

/-- An operand, without its type. -/
def Value.text? (m : Module) (f : Func) : Value → Option String
  | .constInt .i1 value => some (if value = 0 then "false" else "true")
  | .constInt _ value => some (toString value)
  | .constFloat bits => some ("0x" ++ Hex.text 16 bits.toNat)
  | .global id => do
    let g ← m.globals[id]?
    return "@" ++ g.name
  | .param index _ => do
    let p ← f.params[index]?
    return "%" ++ p.name
  | .result id _ => f.resultText? id

/-- An operand behind its type. -/
def Value.typedText? (m : Module) (f : Func) (v : Value) : Option String := do
  return v.ty.text ++ " " ++ (← v.text? m f)

def Instr.text? (m : Module) (f : Func) : Instr → Option String
  | .alloca result ty => do
    let result ← f.resultText? result
    return result ++ " = alloca " ++ ty.text ++ ", align " ++ toString ty.align
  | .load result ty ptr => do
    let result ← f.resultText? result
    let ptr ← ptr.text? m f
    return result ++ " = load " ++ ty.text ++ ", ptr " ++ ptr ++ ", align " ++ toString ty.align
  | .store value ptr => do
    let stored ← value.typedText? m f
    let ptr ← ptr.text? m f
    return "store " ++ stored ++ ", ptr " ++ ptr ++ ", align " ++ toString value.ty.align
  | .binary result op lhs rhs => do
    let result ← f.resultText? result
    let lhs ← lhs.typedText? m f
    let rhs ← rhs.text? m f
    return result ++ " = " ++ op.mnemonic ++ " " ++ lhs ++ ", " ++ rhs
  | .icmp result test lhs rhs => do
    let result ← f.resultText? result
    let lhs ← lhs.typedText? m f
    let rhs ← rhs.text? m f
    return result ++ " = icmp " ++ test.mnemonic ++ " " ++ lhs ++ ", " ++ rhs
  | .fcmp result test lhs rhs => do
    let result ← f.resultText? result
    let lhs ← lhs.typedText? m f
    let rhs ← rhs.text? m f
    return result ++ " = fcmp " ++ test.mnemonic ++ " " ++ lhs ++ ", " ++ rhs
  | .fneg result operand => do
    let result ← f.resultText? result
    let operand ← operand.typedText? m f
    return result ++ " = fneg " ++ operand
  | .zext result operand ty => do
    let result ← f.resultText? result
    let operand ← operand.typedText? m f
    return result ++ " = zext " ++ operand ++ " to " ++ ty.text
  | .call none callee args => do
    let args ← args.mapM (Value.typedText? m f)
    let target ← m.functions[callee]?
    return "call " ++ target.returnType.text ++ " @" ++ target.name ++ "(" ++ ", ".intercalate args ++ ")"
  | .call (some result) callee args => do
    let result ← f.resultText? result
    let args ← args.mapM (Value.typedText? m f)
    let target ← m.functions[callee]?
    return result ++ " = call " ++ target.returnType.text ++ " @" ++ target.name ++ "(" ++
      ", ".intercalate args ++ ")"

def Terminator.text? (m : Module) (f : Func) : Terminator → Option String
  | .ret none => some "ret void"
  | .ret (some value) => do
    return "ret " ++ (← value.typedText? m f)
  | .branch target => do
    return "br label " ++ (← f.labelText? target)
  | .condBranch condition yes no => do
    let condition ← condition.text? m f
    let yes ← f.labelText? yes
    let no ← f.labelText? no
    return "br i1 " ++ condition ++ ", label " ++ yes ++ ", label " ++ no

/-- The lines of a block: its label, its instructions and its terminator. -/
def Block.lines? (m : Module) (f : Func) (b : Block) : Option (List String) := do
  let instrs ← b.instrs.toList.mapM (Instr.text? m f)
  let last ← b.terminator.toList.mapM (Terminator.text? m f)
  return (b.label ++ ":") :: (instrs ++ last).map ("  " ++ ·)

/-- The lines of a function; there is nothing to look up for a declaration. -/
def Func.lines? (m : Module) (f : Func) : Option (List String) :=
  if f.isDeclaration then
    some (f.lines m)
  else do
    let blocks ← f.blocks.toList.mapM (Block.lines? m f)
    let params := f.params.toList.map fun p => p.ty.text ++ " %" ++ p.name
    let head := "define " ++ f.returnType.text ++ " @" ++ f.name ++ "("
    return (head ++ ", ".intercalate params ++ ") \x7b") :: [""].intercalate blocks ++ ["\x7d"]

/-- The text of a module, if all references in it resolve. -/
def Module.assembly? (m : Module) : Option String := do
  let functions ← m.functions.toList.mapM (Func.lines? m)
  let names := ["; ModuleID = '" ++ m.name ++ "'", "source_filename = \"" ++ m.name ++ "\""]
  let globals := if m.globals.isEmpty then [] else "" :: m.globals.toList.map Global.text
  let lines := names ++ globals ++ (functions.map ("" :: ·)).flatten
  return String.join (lines.map (· ++ "\n"))

/-! ## What the strict printer looks up -/

section resolve

variable {m : Module} {f : Func} {refs refs' : List Reference}

@[simp] theorem resolve_nil : Resolve m f [] := by
  simp [Resolve]

@[simp] theorem resolve_cons {r : Reference} :
    Resolve m f (r :: refs) ↔ r.Resolves m f ∧ Resolve m f refs :=
  List.forall_mem_cons

@[simp] theorem resolve_append : Resolve m f (refs ++ refs') ↔ Resolve m f refs ∧ Resolve m f refs' :=
  List.forall_mem_append

theorem resolve_flatMap {α : Type} {xs : List α} {of : α → List Reference} :
    Resolve m f (xs.flatMap of) ↔ ∀ x ∈ xs, Resolve m f (of x) :=
  List.forall_mem_flatMap

end resolve

/-- Each part of a list can be written just when it is fine, and so can all of them. -/
theorem mapM_eq_some_iff {α β : Type} {write : α → Option β} (fine : α → Prop) (text : α → β)
    (each : ∀ x y, write x = some y ↔ fine x ∧ text x = y) (xs : List α) (ys : List β) :
    xs.mapM write = some ys ↔ (∀ x ∈ xs, fine x) ∧ xs.map text = ys := by
  induction xs generalizing ys with
  | nil => simp [eq_comm]
  | cons x xs ih =>
    rw [List.mapM_cons]
    simp only [Option.bind_eq_bind, Option.bind_eq_some_iff, each, ih, Option.pure_def,
      Option.some.injEq, List.forall_mem_cons, List.map_cons]
    constructor
    · rintro ⟨_, ⟨fine, rfl⟩, _, ⟨all, rfl⟩, rfl⟩
      exact ⟨⟨fine, all⟩, rfl⟩
    · rintro ⟨⟨fine, all⟩, rfl⟩
      exact ⟨_, ⟨fine, rfl⟩, _, ⟨all, rfl⟩, rfl⟩

variable {m : Module} {f : Func}

theorem Func.resultText?_eq_some_iff {id : Nat} {text : String} :
    f.resultText? id = some text ↔ (Reference.result id).Resolves m f ∧ f.resultText id = text := by
  by_cases bound : id < f.locals.size <;> simp [resultText?, resultText, Reference.Resolves, bound]

theorem Func.labelText?_eq_some_iff {id : Nat} {text : String} :
    f.labelText? id = some text ↔ (Reference.block id).Resolves m f ∧ f.labelText id = text := by
  by_cases bound : id < f.blocks.size <;> simp [labelText?, labelText, Reference.Resolves, bound]

theorem Value.text?_eq_some_iff {v : Value} {text : String} :
    v.text? m f = some text ↔ Resolve m f v.references ∧ v.text m f = text := by
  cases v with
  | constInt ty value => cases ty <;> simp [text?, Value.text, references]
  | constFloat bits => simp [text?, Value.text, references]
  | global id =>
    by_cases bound : id < m.globals.size <;>
      simp [text?, Value.text, references, Reference.Resolves, bound]
  | param index ty =>
    by_cases bound : index < f.params.size <;>
      simp [text?, Value.text, references, Reference.Resolves, bound]
  | result id ty =>
    by_cases bound : id < f.locals.size <;>
      simp [text?, Value.text, references, Reference.Resolves, Func.resultText?, bound]

theorem Value.typedText?_eq_some_iff {v : Value} {text : String} :
    v.typedText? m f = some text ↔ Resolve m f v.references ∧ v.typedText m f = text := by
  simp [typedText?, typedText, Value.text?_eq_some_iff, Option.bind_eq_some_iff, and_assoc]

theorem typedTexts?_eq_some_iff {args : List Value} {texts : List String} :
    args.mapM (Value.typedText? m f) = some texts ↔
      Resolve m f (args.flatMap Value.references) ∧ args.map (Value.typedText m f) = texts := by
  rw [resolve_flatMap]
  exact mapM_eq_some_iff _ _ (fun _ _ => Value.typedText?_eq_some_iff) args texts

theorem Instr.text?_eq_some_iff {i : Instr} {text : String} :
    i.text? m f = some text ↔ Resolve m f i.references ∧ i.text m f = text := by
  cases i with
  | call result callee args =>
    cases result <;> by_cases bound : callee < m.functions.size <;>
      simp [text?, Instr.text, references, result?, operands, Option.bind_eq_some_iff,
        Func.resultText?_eq_some_iff (m := m), typedTexts?_eq_some_iff, Reference.Resolves, bound,
        and_assoc, String.append_assoc]
  | _ =>
    simp [text?, Instr.text, references, result?, operands, Option.bind_eq_some_iff,
      Func.resultText?_eq_some_iff (m := m), Value.text?_eq_some_iff, Value.typedText?_eq_some_iff,
      and_assoc]

theorem Terminator.text?_eq_some_iff {t : Terminator} {text : String} :
    t.text? m f = some text ↔ Resolve m f t.references ∧ t.text m f = text := by
  cases t with
  | ret value =>
    cases value <;>
      simp [text?, Terminator.text, references, operands, successors, Option.bind_eq_some_iff,
        Value.typedText?_eq_some_iff, and_assoc]
  | branch target =>
    simp [text?, Terminator.text, references, operands, successors, Option.bind_eq_some_iff,
      Func.labelText?_eq_some_iff (m := m), and_assoc]
  | condBranch condition yes no =>
    simp [text?, Terminator.text, references, operands, successors, Option.bind_eq_some_iff,
      Func.labelText?_eq_some_iff (m := m), Value.text?_eq_some_iff, and_assoc]

/-! ## Blocks, functions, modules -/

theorem Block.lines?_eq_some_iff {b : Block} {lines : List String} :
    b.lines? m f = some lines ↔ Resolve m f b.references ∧ b.lines m f = lines := by
  have instrs := mapM_eq_some_iff (Resolve m f ·.references) (Instr.text m f)
    fun _ _ => Instr.text?_eq_some_iff
  have last := mapM_eq_some_iff (Resolve m f ·.references) (Terminator.text m f)
    fun _ _ => Terminator.text?_eq_some_iff
  simp only [lines?, Option.bind_eq_bind, Option.bind_eq_some_iff, instrs, last, references,
    resolve_append, resolve_flatMap]
  cases ends : b.terminator <;> simp [Block.lines, ends, and_assoc, Function.comp_def]

/-- Empty lines stand between the blocks. -/
theorem intercalate_lines (m : Module) (f : Func) (bs : List Block) :
    [""].intercalate (bs.map (Block.lines m f)) = blockLines m f bs := by
  fun_induction blockLines m f bs with
  | case1 => rfl
  | case2 b => simp [List.intercalate]
  | case3 b bs more ih =>
    cases bs with
    | nil => exact absurd rfl more
    | cons c cs =>
      rw [← ih]
      simp [List.intercalate]

theorem Func.lines?_eq_some_iff {lines : List String} :
    f.lines? m = some lines ↔ Resolve m f f.references ∧ f.lines m = lines := by
  rw [lines?]
  split
  · rename_i declaration
    have empty : f.blocks = #[] := by simpa [isDeclaration] using declaration
    simp [references, empty]
  · rename_i body
    have blocks := mapM_eq_some_iff (Resolve m f ·.references) (Block.lines m f)
      fun _ _ => Block.lines?_eq_some_iff
    simp [Option.bind_eq_some_iff, blocks, references, resolve_flatMap, Func.lines, body,
      intercalate_lines, and_assoc, String.append_assoc]

/-- The strict printer succeeds just when all references resolve, and then it writes the text of the
    module. -/
theorem Module.assembly?_eq_some_iff {text : String} :
    m.assembly? = some text ↔
      (∀ f ∈ m.functions, Resolve m f f.references) ∧ m.assembly = text := by
  have functions := mapM_eq_some_iff (fun f => Resolve m f f.references) (Func.lines m)
    fun _ _ => Func.lines?_eq_some_iff
  simp only [assembly?, Option.bind_eq_bind, Option.bind_eq_some_iff, functions, assembly_eq_join,
    Module.lines, List.flatMap_def, Array.mem_toList_iff]
  simp [Function.comp_def]

/-- A branch to a block that is not there. -/
example : (Module.mk "m" #[{ Func.declare "f" [] .void with
    blocks := #[⟨"entry", #[], some (.branch 1)⟩] }] #[]).assembly? = none := by
  decide +kernel

/-! ## What the check resolves -/

theorem Value.Valid.resolve {v : Value} (valid : v.Valid m f) : Resolve m f v.references := by
  cases valid with
  | constInt _ => exact resolve_nil
  | constFloat => exact resolve_nil
  | global bound => simpa [references, Reference.Resolves] using bound
  | param found => simpa [references, Reference.Resolves] using (Array.getElem?_eq_some_iff.mp found).1
  | result found _ => simpa [references, Reference.Resolves] using (Array.getElem?_eq_some_iff.mp found).1

theorem Func.WellFormed.resolve_instr (wellFormed : f.WellFormed m) {i : Instr}
    (member : i ∈ f.instrs) : Resolve m f i.references := by
  obtain ⟨valid, typed⟩ := wellFormed.instrs i member
  have results : Resolve m f (i.result?.toList.map .result) := by
    intro r inside
    obtain ⟨id, defines, rfl⟩ := List.mem_map.mp inside
    exact wellFormed.known id (Func.mem_results.mpr ⟨i, member, Option.mem_toList.mp defines⟩)
  have operands : Resolve m f (i.operands.flatMap Value.references) :=
    resolve_flatMap.mpr fun v used => (valid v used).resolve
  refine resolve_append.mpr ⟨resolve_append.mpr ⟨results, operands⟩, ?_⟩
  cases i with
  | call result callee args =>
    obtain ⟨g, found, _⟩ := typed
    simpa [Reference.Resolves] using (Array.getElem?_eq_some_iff.mp found).1
  | _ => exact resolve_nil

theorem Terminator.Typed.resolve {t : Terminator} (typed : t.Typed f)
    (valid : ∀ v ∈ t.operands, v.Valid m f) : Resolve m f t.references := by
  refine resolve_append.mpr ⟨resolve_flatMap.mpr fun v used => (valid v used).resolve, ?_⟩
  cases t with
  | ret value => exact resolve_nil
  | branch target => simpa [Terminator.successors, Reference.Resolves, Terminator.Typed] using typed
  | condBranch condition yes no => simpa [Terminator.successors, Reference.Resolves] using typed.2

theorem Func.WellFormed.resolve (wellFormed : f.WellFormed m) : Resolve m f f.references := by
  refine resolve_flatMap.mpr fun b inside => resolve_append.mpr ⟨?_, ?_⟩
  · refine resolve_flatMap.mpr fun i member => ?_
    exact wellFormed.resolve_instr (List.mem_flatMap.mpr ⟨b, inside, member⟩)
  · obtain ⟨t, ends, valid, typed⟩ := wellFormed.blocks b (Array.mem_toList_iff.mp inside)
    rw [ends]
    exact typed.resolve valid

/-- What passes the check refers only to what is there, and so the strict printer writes it, without
    the placeholders that the other one knows. -/
theorem assembly?_of_check {m : Module} (accepted : m.check = .ok ()) :
    (∀ f ∈ m.functions, Resolve m f f.references) ∧ m.assembly? = some m.assembly := by
  obtain ⟨_, passes⟩ := checkFuncs_eq_ok_iff.mp accepted
  have resolve : ∀ f ∈ m.functions, Resolve m f f.references := by
    intro f member
    have passed := (passes f (Array.mem_toList_iff.mpr member)).2
    rcases Nat.eq_zero_or_pos f.blocks.size with empty | body
    · -- a declaration has no references
      simp [Func.references, Array.eq_empty_of_size_eq_zero empty]
    · exact (checkFunc_eq_ok_iff.mp passed body).resolve
  exact ⟨resolve, Module.assembly?_eq_some_iff.mpr ⟨resolve, rfl⟩⟩

/-- A module with references of all kinds: a string constant, a parameter, results, blocks and callees. -/
theorem assembly?_of_check_greeting :
    let requests : List Request := [
      .addFunction "print_text" [⟨"text", .ptr⟩] .void, .addFunction "greet" [⟨"often", .i1⟩] .i32,
      .appendBlock 1 "entry", .appendBlock 1 "again", .setPoint (some ⟨1, 0⟩), .globalString "hi",
      .call 0 [.global 0] "", .zext (.param 0 .i1) .i32 "n", .condBranch (.param 0 .i1) 1 1,
      .setPoint (some ⟨1, 1⟩), .call 1 [.bool false] "rest",
      .binary .add (.result 1 .i32) (.result 0 .i32) "sum", .ret (some (.result 2 .i32))]
    let m := ((Emitter.start "m").answers requests).module
    m.check = .ok () ∧ (∃ f ∈ m.functions, f.references.length = 13 ∧ Resolve m f f.references) ∧
      m.assembly? = some m.assembly := by
  intro requests m
  have passes : m.check = .ok () := by decide +kernel
  have body : m.functions[1]?.any (fun f => f.references.length == 13) = true := by decide +kernel
  obtain ⟨f, found, body⟩ := (Option.any_eq_true _ _).mp body
  have member := Array.mem_of_getElem? found
  obtain ⟨resolve, strict⟩ := assembly?_of_check passes
  exact ⟨passes, ⟨f, member, eq_of_beq body, resolve f member⟩, strict⟩

end ImpCompiler.Ssa
