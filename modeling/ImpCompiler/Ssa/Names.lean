import ImpCompiler.Text.Trie

/-! # Names within a function

The parameters, values and blocks of a function share one space of names.  A name
that is asked for a second time gets a number behind it: the least one, from 1 on,
with which it is not in use.

For every base the table remembers the number given last, so that the search need
not start at 1 again. -/

namespace ImpCompiler.Ssa

/-- The names in use within a function, and for each name asked for more than once
    the number it was given last.  The index finds the names in use by their letters. -/
structure NameTable where
  used : List String
  index : Trie
  suffixes : List (String × Nat)
  contains_index_iff : ∀ name, index.contains name.toList = true ↔ name ∈ used

namespace NameTable

/-- No names in use. -/
def empty : NameTable where
  used := []
  index := .empty
  suffixes := []
  contains_index_iff name := by simp [Trie.contains_empty]

/-- Whether a name is in use. -/
def isUsed (t : NameTable) (name : String) : Bool :=
  t.index.contains name.toList

theorem isUsed_iff (t : NameTable) (name : String) : t.isUsed name = true ↔ name ∈ t.used :=
  t.contains_index_iff name

/-- The table with one more name in use. -/
def take (t : NameTable) (name : String) : NameTable where
  used := name :: t.used
  index := t.index.insert name.toList
  suffixes := t.suffixes
  contains_index_iff other := by
    simp [Trie.contains_insert, String.toList_inj, t.contains_index_iff]

/-- The number that `base` was given last, or 0. -/
def lastSuffix (t : NameTable) (base : String) : Nat :=
  (t.suffixes.lookup base).getD 0

/-- The list with `k` as the entry for `base`. -/
def setSuffix (base : String) (k : Nat) : List (String × Nat) → List (String × Nat)
  | [] => [(base, k)]
  | (b, n) :: rest => if b = base then (base, k) :: rest else (b, n) :: setSuffix base k rest

/-- The name `base` with the number `k` behind it. -/
def numbered (base : String) (k : Nat) : String :=
  base ++ toString k

/-- The first number from `k` on with which `base` is not in use.  There is one try for
    each member of the list and one more: with the names in use as the list, the tries
    cannot all fail. -/
def firstFree (t : NameTable) (base : String) : List String → Nat → Nat
  | [], k => k
  | _ :: tries, k => if t.isUsed (numbered base k) then firstFree t base tries (k + 1) else k

/-- Takes a name that is not in use: `base`, with a number behind it if need be. -/
def fresh (t : NameTable) (base : String) : String × NameTable :=
  if t.isUsed base then
    let k := t.firstFree base t.used (t.lastSuffix base + 1)
    (numbered base k, { t.take (numbered base k) with suffixes := setSuffix base k t.suffixes })
  else
    (base, t.take base)

end NameTable

end ImpCompiler.Ssa
