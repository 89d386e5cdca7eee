import ImpCompiler.Text.BreakClass

/-! # Clusters

A cluster is what a reader takes for one character, however many characters write it.
A text is cut into clusters from left to right: `joins` says whether the next character
belongs to the cluster that has been read so far.

`flatten_clusters`: the clusters of a text, one behind the other, are the text. -/

namespace ImpCompiler.Text

/-! ## Where a cluster goes on -/

/-- Whether nothing joins a character of this class, nor does it join anything. -/
def BreakClass.isBarrier (k : BreakClass) : Bool :=
  k == .control || k == .cr || k == .lf

/-- Whether a character of this class joins whatever stands before it. -/
def BreakClass.isMark (k : BreakClass) : Bool :=
  k == .extend || k == .joiner || k == .spacingMark

/-- Whether two characters are parts of one Korean syllable. -/
def sameSyllable (left right : BreakClass) : Bool :=
  match left with
  | .leadingJamo =>
    right == .leadingJamo || right == .vowelJamo || right == .openSyllable ||
      right == .closedSyllable
  | .openSyllable => right == .vowelJamo || right == .trailingJamo
  | .vowelJamo => right == .vowelJamo || right == .trailingJamo
  | .closedSyllable => right == .trailingJamo
  | .trailingJamo => right == .trailingJamo
  | _ => false

/-- Whether a cluster ends with a consonant and, behind it, a linker among marks.  Its
    latest character comes first. -/
def awaitsConsonant (cluster : List Char) : Bool :=
  (cluster.takeWhile isWithinConjunct).any isLinker &&
    (cluster.dropWhile isWithinConjunct).head?.any fun c => breakClass c == .consonant

/-- Whether a cluster ends with a pictograph, marks, and a joiner.  Its latest character
    comes first. -/
def awaitsPictograph (cluster : List Char) : Bool :=
  match cluster with
  | [] => false
  | last :: before =>
    breakClass last == .joiner &&
      (before.dropWhile fun c => breakClass c == .extend).head?.any fun c =>
        breakClass c == .pictograph

/-- Whether a cluster ends with half a flag.  Its latest character comes first. -/
def awaitsRegional (cluster : List Char) : Bool :=
  (cluster.takeWhile fun c => breakClass c == .regional).length % 2 == 1

/-- Whether `next` belongs to the cluster of the characters `last :: before`, the latest
    of which comes first. -/
def joins (last : Char) (before : List Char) (next : Char) : Bool :=
  let left := breakClass last
  let right := breakClass next
  (left == .cr && right == .lf) ||
    (!left.isBarrier && !right.isBarrier &&
      (right.isMark || left == .prepended || sameSyllable left right ||
        (right == .consonant && awaitsConsonant (last :: before)) ||
        (right == .pictograph && awaitsPictograph (last :: before)) ||
        (right == .regional && awaitsRegional (last :: before))))

/-! ## Cutting a text -/

/-- The clusters of a text, behind the cluster `last :: before`, which is being read, and
    those in `read`.  Both are in reverse order. -/
def clustersFrom (read : List (List Char)) (last : Char) (before : List Char) :
    List Char → List (List Char)
  | [] => ((last :: before).reverse :: read).reverse
  | next :: cs =>
    if joins last before next then
      clustersFrom read next (last :: before) cs
    else
      clustersFrom ((last :: before).reverse :: read) next [] cs

/-- The clusters of a text. -/
def clusters : List Char → List (List Char)
  | [] => []
  | c :: cs => clustersFrom [] c [] cs

theorem flatten_clustersFrom (read : List (List Char)) (last : Char) (before cs : List Char) :
    (clustersFrom read last before cs).flatten =
      read.reverse.flatten ++ (last :: before).reverse ++ cs := by
  induction cs generalizing read last before with
  | nil => simp [clustersFrom]
  | cons next cs ih =>
    unfold clustersFrom
    split
    · rw [ih]
      simp
    · rw [ih]
      simp

/-- Nothing is lost between clusters. -/
theorem flatten_clusters (cs : List Char) : (clusters cs).flatten = cs := by
  cases cs with
  | nil => rfl
  | cons c cs =>
    rw [clusters, flatten_clustersFrom]
    rfl

end ImpCompiler.Text
