import Mathlib.Order.Bounds.Basic
import ImpCompiler.Proofs.Ssa.DistinctNames

/-! # The least number behind a name

A name that is in use is given with a number behind it.  The table does not look for that number from
1 on: for each base it remembers the number given last, and resumes behind it.  The result is the one
that a search from 1 on would have, because all numbers up to the remembered one are in use
(`NameTable.Counted`).  That stays so, since no name is ever given back; which base a candidate was
taken for does not matter.

So whatever blocks and locals a function has been given, the next name is the base itself or the base
with the least number that is free (`fresh_isLeast`). -/

namespace ImpCompiler.Ssa

namespace NameTable

variable {t : NameTable} {base : String}

/-! ## The search -/

/-- The search from number to number, without a bound: it ends with the first candidate that is free. -/
inductive Search (t : NameTable) (base : String) : Nat → Nat → Prop
  | found {k : Nat} (free : numbered base k ∉ t.used) : Search t base k k
  | next {k n : Nat} (taken : numbered base k ∈ t.used) (further : Search t base (k + 1) n) :
      Search t base k n

theorem Search.free {k n : Nat} (search : t.Search base k n) : numbered base n ∉ t.used := by
  induction search with
  | found free => exact free
  | next _ _ ih => exact ih

theorem Search.le {k n : Nat} (search : t.Search base k n) : k ≤ n := by
  induction search with
  | found _ => exact Nat.le_refl _
  | next _ _ ih => exact Nat.le_of_succ_le ih

theorem Search.taken {k n : Nat} (search : t.Search base k n) {j : Nat} (low : k ≤ j) (high : j < n) :
    numbered base j ∈ t.used := by
  induction search with
  | found _ => omega
  | next taken _ ih =>
    obtain rfl | low := Nat.eq_or_lt_of_le low
    · exact taken
    · exact ih low high

/-- As long as it ends at a free candidate, the search that is bounded by a list of tries is the one
    without a bound. -/
theorem search_firstFree {tries : List String} {k : Nat}
    (free : numbered base (t.firstFree base tries k) ∉ t.used) :
    t.Search base k (t.firstFree base tries k) := by
  induction tries generalizing k with
  | nil => exact .found free
  | cons try_ tries ih =>
    rw [firstFree] at free ⊢
    split
    · rename_i taken
      rw [if_pos taken] at free
      exact .next ((isUsed_iff t _).mp taken) (ih free)
    · rename_i untaken
      exact .found fun used => untaken ((isUsed_iff t _).mpr used)

/-! ## The remembered numbers -/

/-- Up to the number given last, all numbers are in use. -/
def Counted (t : NameTable) : Prop :=
  ∀ base k, 1 ≤ k → k ≤ t.lastSuffix base → numbered base k ∈ t.used

/-- The number that `base` gets if it is in use. -/
def nextNumber (t : NameTable) (base : String) : Nat :=
  t.firstFree base t.used (t.lastSuffix base + 1)

theorem search_nextNumber (t : NameTable) (base : String) :
    t.Search base (t.lastSuffix base + 1) (t.nextNumber base) :=
  search_firstFree (t.firstFree_not_mem_used base _)

theorem Counted.taken (counted : t.Counted) {j : Nat} (low : 1 ≤ j) (high : j < t.nextNumber base) :
    numbered base j ∈ t.used := by
  obtain old | new := Nat.lt_or_ge (t.lastSuffix base) j
  · exact (t.search_nextNumber base).taken old high
  · exact counted base j low new

/-- Resuming behind the number given last misses no free number. -/
theorem Counted.isLeast (counted : t.Counted) (base : String) :
    IsLeast {k | 1 ≤ k ∧ numbered base k ∉ t.used} (t.nextNumber base) := by
  have search := t.search_nextNumber base
  constructor
  · exact ⟨Nat.le_trans (Nat.le_add_left 1 _) search.le, search.free⟩
  · rintro k ⟨low, free⟩
    by_contra high
    exact free (counted.taken low (Nat.lt_of_not_le high))

/-! ## Names that are given -/

theorem fresh_of_free (free : base ∉ t.used) : t.fresh base = (base, t.take base) := by
  rw [fresh, if_neg fun used => free ((isUsed_iff t base).mp used)]

theorem fresh_of_used (used : base ∈ t.used) :
    t.fresh base = (numbered base (t.nextNumber base),
      { t.take (numbered base (t.nextNumber base)) with
        suffixes := setSuffix base (t.nextNumber base) t.suffixes }) := by
  rw [fresh, if_pos ((isUsed_iff t base).mpr used)]
  rfl

theorem lookup_cons_eq_ite (other b : String) (n : Nat) (suffixes : List (String × Nat)) :
    ((b, n) :: suffixes).lookup other = if other = b then some n else suffixes.lookup other := by
  rw [List.lookup_cons]
  by_cases same : other = b
  · rw [if_pos same, beq_iff_eq.mpr same]
  · rw [if_neg same, beq_false_of_ne same]

theorem lookup_setSuffix (base : String) (k : Nat) (suffixes : List (String × Nat)) (other : String) :
    (setSuffix base k suffixes).lookup other =
      if other = base then some k else suffixes.lookup other := by
  induction suffixes with
  | nil => exact lookup_cons_eq_ite other base k []
  | cons entry suffixes ih =>
    obtain ⟨b, n⟩ := entry
    rw [setSuffix]
    split
    · rename_i here
      subst here
      simp only [lookup_cons_eq_ite]
      split <;> rfl
    · rename_i elsewhere
      rw [lookup_cons_eq_ite, lookup_cons_eq_ite, ih]
      split
      · rename_i same
        rw [same, if_neg elsewhere]
      · rfl

theorem lastSuffix_fresh_of_used (used : base ∈ t.used) (other : String) :
    (t.fresh base).2.lastSuffix other = if other = base then t.nextNumber base else t.lastSuffix other := by
  rw [fresh_of_used used, lastSuffix, lookup_setSuffix]
  split <;> rfl

theorem counted_empty : NameTable.empty.Counted := by
  intro base k low high
  exact absurd (Nat.le_trans low high) (Nat.not_succ_le_zero 0)

theorem Counted.fresh (counted : t.Counted) (base : String) : (t.fresh base).2.Counted := by
  intro other k low high
  rw [t.used_fresh base]
  by_cases used : base ∈ t.used
  · rw [lastSuffix_fresh_of_used used] at high
    split at high
    · -- the numbers up to the new one are those that the search has passed, and the new one
      rename_i same
      subst same
      obtain rfl | below := Nat.eq_or_lt_of_le high
      · rw [fresh_of_used used]
        exact List.mem_cons_self
      · exact List.mem_cons_of_mem _ (counted.taken low below)
    · exact List.mem_cons_of_mem _ (counted other k low high)
  · rw [fresh_of_free used] at high
    exact List.mem_cons_of_mem _ (counted other k low high)

end NameTable

/-! ## Functions -/

/-- Something that needs a name within a function. -/
inductive Addition where
  | block (label : String)
  | local_ (name : String) (ty : Ty)

namespace Func

def add (f : Func) : Addition → Func
  | .block label => f.addBlock label
  | .local_ name ty => f.addLocal name ty

/-- The names in use are those that the function has given, and their numbers are counted. -/
structure Tallies (f : Func) : Prop where
  used_iff : ∀ name, name ∈ f.names.used ↔ name ∈ f.givenNames
  counted : f.names.Counted

variable {f : Func}

theorem Tallies.add (tallies : f.Tallies) (addition : Addition) : (f.add addition).Tallies := by
  cases addition with
  | block label =>
    refine ⟨fun name => ?_, tallies.counted.fresh label⟩
    have used : (f.addBlock label).names.used = _ := f.names.used_fresh label
    rw [Func.add, used, List.mem_cons, tallies.used_iff]
    simp only [givenNames, addBlock, Array.toList_push, List.map_append, List.mem_append, List.map_cons,
      List.map_nil, List.mem_singleton, Block.empty]
    tauto
  | local_ name ty =>
    refine ⟨fun other => ?_, tallies.counted.fresh name⟩
    have used : (f.addLocal name ty).names.used = _ := f.names.used_fresh name
    rw [Func.add, used, List.mem_cons, tallies.used_iff]
    simp only [givenNames, addLocal, Array.toList_push, List.map_append, List.mem_append, List.map_cons,
      List.map_nil, List.mem_singleton]
    tauto

theorem tallies_declare (name : String) (params : List Param) (returnType : Ty) :
    (Func.declare name params returnType).Tallies := by
  have both := @holds_declare (fun t given => (∀ name, name ∈ t.used ↔ name ∈ given) ∧ t.Counted)
    ⟨fun _ => Iff.rfl, NameTable.counted_empty⟩ ?_ name params returnType
  · exact ⟨both.1, both.2⟩
  · rintro t given base ⟨used_iff, counted⟩
    refine ⟨fun other => ?_, counted.fresh base⟩
    rw [t.used_fresh base, List.mem_cons, used_iff, List.mem_append, List.mem_singleton, or_comm]

theorem tallies_foldl (tallies : f.Tallies) (additions : List Addition) :
    (additions.foldl Func.add f).Tallies := by
  induction additions generalizing f with
  | nil => exact tallies
  | cons addition additions ih => exact ih (tallies.add addition)

end Func

/-- Whatever a function has been given, in any order and under any names: a name that it does not have
    is given as it is.  Otherwise the search that resumes behind the number given last ends, and with
    the least number, from 1 on, that makes a name the function does not have. -/
theorem fresh_isLeast (name : String) (params : List Param) (returnType : Ty)
    (additions : List Addition) (base : String) :
    let f := additions.foldl Func.add (Func.declare name params returnType)
    (base ∉ f.givenNames → (f.names.fresh base).1 = base) ∧
      (base ∈ f.givenNames → ∃ k, f.names.Search base (f.names.lastSuffix base + 1) k ∧
        IsLeast {k | 1 ≤ k ∧ base ++ toString k ∉ f.givenNames} k ∧
        (f.names.fresh base).1 = base ++ toString k) := by
  intro f
  have tallies : f.Tallies := Func.tallies_foldl (Func.tallies_declare name params returnType) additions
  constructor
  · intro free
    rw [NameTable.fresh_of_free (free ∘ (tallies.used_iff base).mp)]
  · intro taken
    have least := tallies.counted.isLeast base
    simp only [tallies.used_iff] at least
    refine ⟨f.names.nextNumber base, f.names.search_nextNumber base, least, ?_⟩
    rw [NameTable.fresh_of_used ((tallies.used_iff base).mpr taken)]
    rfl

/-- A number that was written as part of a name is passed over. -/
theorem fresh_isLeast_overlap :
    let f := [.local_ "x1" .i32, .local_ "x" .i32, .local_ "x" .i32, .block "x3"].foldl Func.add
      (Func.declare "f" [] .void)
    "x" ∈ f.givenNames ∧ (f.names.fresh "x").1 = "x4" ∧
      ∃ k, IsLeast {k | 1 ≤ k ∧ "x" ++ toString k ∉ f.givenNames} k ∧
        (f.names.fresh "x").1 = "x" ++ toString k := by
  intro f
  have taken : "x" ∈ f.givenNames := by decide +kernel
  obtain ⟨k, -, least, given⟩ := (fresh_isLeast "f" [] .void
    [.local_ "x1" .i32, .local_ "x" .i32, .local_ "x" .i32, .block "x3"] "x").2 taken
  exact ⟨taken, by decide +kernel, k, least, given⟩

end ImpCompiler.Ssa
