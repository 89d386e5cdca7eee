/-! # Sets of words

A trie holds a set of words by their letters, so that the time to find a word depends on
the word and not on how many others there are.

`Trie.contains_insert`: a word is in a trie after an insertion if it was there before or
is the word inserted. -/

namespace ImpCompiler

/-- A set of words: whether the empty word is in it, and for each letter the rests of the
    words that start with it. -/
inductive Trie where
  | node (ends : Bool) (branches : List (Char × Trie))

namespace Trie

/-- The empty set. -/
def empty : Trie := .node false []

/-- Whether a word is in the set. -/
def contains : Trie → List Char → Bool
  | .node ends _, [] => ends
  | .node _ branches, c :: cs =>
    match branches.lookup c with
    | some t => t.contains cs
    | none => false

/-- The branches with `t` as the one for the letter `c`. -/
def setBranch (c : Char) (t : Trie) : List (Char × Trie) → List (Char × Trie)
  | [] => [(c, t)]
  | (d, u) :: branches => if c == d then (c, t) :: branches else (d, u) :: setBranch c t branches

/-- The set with one more word. -/
def insert : Trie → List Char → Trie
  | .node _ branches, [] => .node true branches
  | .node ends branches, c :: cs =>
    .node ends (setBranch c (((branches.lookup c).getD .empty).insert cs) branches)

theorem contains_empty (cs : List Char) : empty.contains cs = false := by
  cases cs with
  | nil => rfl
  | cons c cs => rfl

theorem lookup_setBranch_self (c : Char) (t : Trie) (branches : List (Char × Trie)) :
    (setBranch c t branches).lookup c = some t := by
  induction branches with
  | nil => simp [setBranch]
  | cons branch branches ih =>
    obtain ⟨d, u⟩ := branch
    rw [setBranch]
    split
    · exact List.lookup_cons_self
    · rename_i h
      rw [List.lookup_cons, Bool.eq_false_iff.mpr h]
      exact ih

theorem lookup_setBranch_of_ne {c d : Char} (h : (d == c) = false) (t : Trie)
    (branches : List (Char × Trie)) :
    (setBranch c t branches).lookup d = branches.lookup d := by
  induction branches with
  | nil => rw [setBranch, List.lookup_cons, h]
  | cons branch branches ih =>
    obtain ⟨e, u⟩ := branch
    rw [setBranch]
    split
    · rename_i hc
      rw [List.lookup_cons, List.lookup_cons, ← eq_of_beq hc, h]
    · rw [List.lookup_cons, List.lookup_cons, ih]

theorem contains_getD_lookup (ends : Bool) (branches : List (Char × Trie)) (c : Char)
    (cs : List Char) :
    ((branches.lookup c).getD empty).contains cs = (node ends branches).contains (c :: cs) := by
  rw [contains]
  cases branches.lookup c with
  | none => exact contains_empty cs
  | some t => rfl

/-- An insertion adds the word inserted and nothing else. -/
theorem contains_insert (t : Trie) (word other : List Char) :
    (t.insert word).contains other = (decide (other = word) || t.contains other) := by
  induction word generalizing t other with
  | nil =>
    obtain ⟨ends, branches⟩ := t
    cases other with
    | nil => simp [insert, contains]
    | cons d ds => simp [insert, contains]
  | cons c cs ih =>
    obtain ⟨ends, branches⟩ := t
    cases other with
    | nil => simp [insert, contains]
    | cons d ds =>
      by_cases h : d = c
      · subst h
        rw [insert, contains, lookup_setBranch_self]
        simp only [ih, contains_getD_lookup ends, List.cons.injEq, true_and]
      · rw [insert, contains, lookup_setBranch_of_ne (beq_false_of_ne h)]
        simp [contains, h]

end Trie

end ImpCompiler
