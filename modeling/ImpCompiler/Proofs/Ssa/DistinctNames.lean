import Mathlib.Data.List.Nodup
import Mathlib.Data.List.Perm.Subperm
import ImpCompiler.Proofs.Ssa.Histories

/-! # Names are given once

The parameters, the locals and the blocks of a function share one space of names.  A name that is asked
for again gets a number behind it, and the result may be a name that someone else has asked for in this very
form: `x` with the number 11 is `x1` with the number 1.  So each candidate is compared with all names in use,
and there is always a free one, because different numbers make different candidates and only finitely
many names are in use (`NameTable.fresh_not_mem_used`).

The table of names in use covers what the function has, at every point of every history, and so no
two of its names are the same; string constants are numbered (`unambiguous_answers`). -/

namespace ImpCompiler.Ssa

/-! ## Numbers behind names -/

theorem toString_injective {i j : Nat} (same : toString i = toString j) : i = j := by
  have digits := congrArg (fun text => Nat.ofDigitChars 10 (String.toList text) 0) same
  simpa [Nat.toString_eq_ofList_toDigits, Nat.ofDigitChars_toDigits] using digits

namespace NameTable

theorem numbered_injective {base : String} {i j : Nat} (same : numbered base i = numbered base j) :
    i = j :=
  toString_injective ((String.append_right_inj base).mp same)

/-- If the search ends with a name in use, all candidates were in use. -/
theorem candidates_of_mem_used {t : NameTable} {base : String} {tries : List String} {k : Nat}
    (used : numbered base (t.firstFree base tries k) ∈ t.used) :
    ∀ n ≤ tries.length, numbered base (k + n) ∈ t.used := by
  induction tries generalizing k with
  | nil =>
    intro n bound
    rw [Nat.le_zero.mp bound]
    exact used
  | cons try_ tries ih =>
    rw [firstFree] at used
    split at used
    · rename_i first
      intro n bound
      cases n with
      | zero => exact (isUsed_iff t _).mp first
      | succ n =>
        have rest := ih used n (Nat.le_of_succ_le_succ bound)
        rwa [Nat.add_assoc, Nat.add_comm 1 n] at rest
    · rename_i free
      exact absurd ((isUsed_iff t _).mpr used) free

/-- There are more candidates than names in use. -/
theorem firstFree_not_mem_used (t : NameTable) (base : String) (k : Nat) :
    numbered base (t.firstFree base t.used k) ∉ t.used := by
  intro used
  have candidates := candidates_of_mem_used used
  -- the search tries one number more than there are names
  have distinct : ((List.range (t.used.length + 1)).map fun n => numbered base (k + n)).Nodup :=
    List.nodup_range.map fun i j same => Nat.add_left_cancel (numbered_injective same)
  have inside : (List.range (t.used.length + 1)).map (fun n => numbered base (k + n)) ⊆ t.used := by
    intro name member
    obtain ⟨n, bound, rfl⟩ := List.mem_map.mp member
    exact candidates n (Nat.le_of_lt_succ (List.mem_range.mp bound))
  have fewer := (distinct.subperm inside).length_le
  rw [List.length_map, List.length_range] at fewer
  exact Nat.not_succ_le_self _ fewer

theorem fresh_not_mem_used (t : NameTable) (base : String) : (t.fresh base).1 ∉ t.used := by
  rw [fresh]
  split
  · exact t.firstFree_not_mem_used base _
  · rename_i free
    exact fun used => free ((isUsed_iff t base).mpr used)

theorem used_fresh (t : NameTable) (base : String) :
    (t.fresh base).2.used = (t.fresh base).1 :: t.used := by
  rw [fresh]
  split <;> rfl

end NameTable

/-! ## The names of a function -/

/-- The names of the parameters, of the locals and of the blocks, in this order. -/
def Func.givenNames (f : Func) : List String :=
  f.params.toList.map Param.name ++ f.locals.toList.map Local.name ++ f.blocks.toList.map Block.label

/-- The names `given` differ from each other, and the table knows all of them. -/
structure NameTable.Covers (t : NameTable) (given : List String) : Prop where
  distinct : given.Nodup
  used : ∀ name ∈ given, name ∈ t.used

/-- What gets a name from the table can be added to what has got one. -/
theorem NameTable.Covers.fresh {t : NameTable} {given more : List String} (covers : t.Covers given)
    {base : String} (added : more.Perm ((t.fresh base).1 :: given)) : (t.fresh base).2.Covers more where
  distinct := by
    have new : (t.fresh base).1 ∉ given := fun member => t.fresh_not_mem_used base (covers.used _ member)
    exact added.nodup_iff.mpr (List.nodup_cons.mpr ⟨new, covers.distinct⟩)
  used name member := by
    rw [t.used_fresh base]
    rcases List.mem_cons.mp (added.mem_iff.mp member) with rfl | old
    · exact List.mem_cons_self
    · exact List.mem_cons_of_mem _ (covers.used name old)

namespace Func

variable {m : Module} {f F : Func}

def Named (f : Func) : Prop :=
  f.names.Covers f.givenNames

theorem Named.addBlock (named : f.Named) (label : String) : (f.addBlock label).Named := by
  have added : (f.addBlock label).givenNames = f.givenNames ++ [(f.names.fresh label).1] := by
    simp [givenNames, Block.empty]
  refine named.fresh ?_
  rw [added]
  exact List.perm_append_singleton _ _

theorem Named.addLocal (named : f.Named) (name : String) (ty : Ty) : (f.addLocal name ty).Named := by
  have added : (f.addLocal name ty).givenNames =
      (f.params.toList.map Param.name ++ f.locals.toList.map Local.name) ++
        (f.names.fresh name).1 :: f.blocks.toList.map Block.label := by
    simp [givenNames, Func.addLocal]
  refine named.fresh ?_
  rw [added]
  exact List.perm_middle

/-- Instructions and terminators have no names. -/
theorem Named.modify (named : f.Named) {k : Nat} {change : Block → Block}
    (blocks : F.blocks = f.blocks.modify k change) (keeps : ∀ b, (change b).label = b.label)
    (names : F.names = f.names) (params : F.params = f.params) (locals : F.locals = f.locals) :
    F.Named := by
  have labels : F.blocks.toList.map Block.label = f.blocks.toList.map Block.label := by
    apply List.ext_getElem?
    intro j
    rw [List.getElem?_map, List.getElem?_map, Array.getElem?_toList, Array.getElem?_toList, blocks]
    exact map_getElem?_modify Block.label f.blocks k j keeps
  rw [Named, givenNames, names, params, locals, labels]
  exact named

theorem Named.pushInstr (named : f.Named) (b : Nat) (i : Instr) : (f.pushInstr b i).Named :=
  named.modify (blocks_pushInstr f b i) (fun _ => rfl) rfl rfl rfl

theorem Step.named (step : f.Step m F) (named : f.Named) : F.Named := by
  cases step with
  | addBlock label => exact named.addBlock label
  | reserve name _ => exact named.addLocal name .ptr
  | slot name ty _ =>
    exact (named.addLocal name .ptr).modify (blocks_insertSlot _ _) (fun _ => rfl) rfl rfl rfl
  | push _ _ _ => exact named.pushInstr _ _
  | pushResult name _ _ _ _ => exact (named.addLocal name _).pushInstr _ _
  | terminate _ t => exact named.modify (blocks_terminate f _ t) (fun _ => rfl) rfl rfl rfl

section declare

variable {holds : NameTable → List String → Prop}

/-- Parameters that are entered one by one, each under a name that the table leaves free. -/
theorem holds_foldl {enter : NameTable × Array Param → Param → NameTable × Array Param}
    (enters : ∀ table done p, enter (table, done) p =
      ((table.fresh p.name).2, done.push ⟨(table.fresh p.name).1, p.ty⟩))
    (step : ∀ t given base, holds t given → holds (t.fresh base).2 (given ++ [(t.fresh base).1]))
    (params : List Param) (table : NameTable) (done : Array Param)
    (start : holds table (done.toList.map Param.name)) :
    holds (params.foldl enter (table, done)).1 ((params.foldl enter (table, done)).2.toList.map Param.name) := by
  induction params generalizing table done with
  | nil => exact start
  | cons p params ih =>
    rw [List.foldl_cons, enters]
    refine ih _ _ ?_
    rw [Array.toList_push, List.map_append]
    exact step table _ p.name start

/-- What holds of no names, and still holds with one name more, holds of the names of a function that
    is only declared. -/
theorem holds_declare (start : holds .empty [])
    (step : ∀ t given base, holds t given → holds (t.fresh base).2 (given ++ [(t.fresh base).1]))
    (name : String) (params : List Param) (returnType : Ty) :
    holds (Func.declare name params returnType).names (Func.declare name params returnType).givenNames := by
  have only : (Func.declare name params returnType).givenNames =
      (Func.declare name params returnType).params.toList.map Param.name := by
    simp [givenNames, Func.declare]
  rw [only]
  exact holds_foldl (fun _ _ _ => rfl) step params NameTable.empty #[] start

end declare

theorem named_declare (name : String) (params : List Param) (returnType : Ty) :
    (Func.declare name params returnType).Named := by
  refine holds_declare ⟨List.nodup_nil, by simp⟩ (fun t given base covers => ?_) name params returnType
  exact covers.fresh (List.perm_append_singleton _ _)

end Func

/-! ## The names of a module -/

theorem globalName_injective {i j : Nat} (same : Module.globalName i = Module.globalName j) : i = j := by
  have dot : ∀ n : Nat, ".str" ≠ ".str." ++ toString n := by
    intro n equal
    have letters := congrArg String.toList equal
    simp at letters
  -- only the first string constant goes without a number
  unfold Module.globalName at same
  split at same <;> split at same
  · rename_i first second
    rw [first, second]
  · exact absurd same (dot j)
  · exact absurd same.symm (dot i)
  · exact toString_injective ((String.append_right_inj ".str.").mp same)

/-- String constants are named by their numbers. -/
theorem Module.Emitted.globalNames {m : Module} (emitted : m.Emitted) :
    m.globals.toList.map Global.name = (List.range m.globals.size).map globalName := by
  obtain ⟨name, steps⟩ := emitted.steps
  clear emitted
  induction steps with
  | refl => rfl
  | tail _ step ih =>
    cases step with
    | addFunction name params returnType => exact ih
    | addGlobal bytes => simp [Module.addGlobal, List.range_succ, ih]
    | change found step => exact ih

/-- In each function, no two of the parameters, locals and blocks have one name, and no two string
    constants do. -/
structure Module.Unambiguous (m : Module) : Prop where
  functions : ∀ f ∈ m.functions, f.givenNames.Nodup
  globals : (m.globals.toList.map Global.name).Nodup

/-- After any calls that ask for any names, the names that have been given are unambiguous. -/
theorem unambiguous_answers (name : String) (requests : List Request) :
    ((Emitter.start name).answers requests).module.Unambiguous := by
  have emitted : ((Emitter.start name).answers requests).module.Emitted := ⟨name, requests, rfl⟩
  have named := emitted.functions (fun _ => Func.named_declare) Func.Step.named fun _ named => named
  refine ⟨fun f member => ?_, ?_⟩
  · obtain ⟨id, found⟩ := Array.getElem?_of_mem member
    exact (named id f found).distinct
  · rw [emitted.globalNames]
    exact List.nodup_range.map fun i j same => globalName_injective same

/-- Names that are empty, asked for twice, or look as if they had got a number. -/
example :
    ((Emitter.start "m").answers [.addFunction "f" [⟨"x1", .i32⟩, ⟨"", .i32⟩, ⟨"", .i32⟩] .void,
      .appendBlock 0 "x", .appendBlock 0 "x", .setPoint (some ⟨0, 0⟩), .alloca .i32 "x1",
      .alloca .i32 "x"]).module.functions.toList.map Func.givenNames =
        [["x1", "", "1", "x11", "x3", "x", "x2"]] := by
  decide +kernel

end ImpCompiler.Ssa
