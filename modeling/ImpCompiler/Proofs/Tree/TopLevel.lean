import Mathlib.Data.List.Forall2
import ImpCompiler.Proofs.Tree.Concatenation

/-! # Statements in braces and at the top

The statements of a block are read one behind the other, and so are those at the top of a program.  But
the top is more lenient: a token of an unknown kind or without a text is left out where a statement might
start, and an error that leaves nothing of the input is forgotten.

So the tokens of a block can be read without their braces, and give its statements, if no statement
starts with a token without a text and if the block is all that there was to read
(`parseTokens_of_braced`).  Neither condition can be left out (`braced_read_otherwise`): the empty
string starts a statement in a block and is left out at the top, and behind the brace that closes the
block, two blocks that are never closed may have been forgotten. -/

namespace ImpCompiler

namespace Grammar

/-! ## Cutting tokens into statements -/

/-- The pieces are the tokens in order, and each of them spells the statement in its place. -/
structure Cut (ts : List Token) (ss : List Stmt) (pieces : List (List Token)) : Prop where
  flatten : pieces.flatten = ts
  spells : List.Forall₂ (fun piece st => ∃ opened, Derives (.declaration st opened) piece) pieces ss

theorem Derives.cut {ss : List Stmt} {ts : List Token} (derived : Derives (.body ss) ts) :
    ∃ pieces, Cut ts ss pieces := by
  induction ss generalizing ts with
  | nil =>
    cases derived
    exact ⟨[], rfl, .nil⟩
  | cons st ss ih =>
    cases derived with
    | @nextInBody _ opened us _ vs first further =>
      obtain ⟨pieces, rfl, spells⟩ := ih further
      exact ⟨us :: pieces, rfl, .cons ⟨opened, first⟩ spells⟩

/-- What follows a statement in a block is no `else`. -/
theorem starts_isElse_of_cut {ss : List Stmt} {pieces : List (List Token)}
    (spells : List.Forall₂ (fun piece st => ∃ opened, Derives (.declaration st opened) piece) pieces ss) :
    starts Parser.isElse pieces.flatten = false := by
  cases spells with
  | nil => rfl
  | cons first _ =>
    obtain ⟨opened, first⟩ := first
    exact starts_eq_false Parser.isElse_of_startsDeclaration (starts_append first.starts _)

/-- Tokens can be cut into given statements in one way only. -/
theorem Cut.unique {ts : List Token} {ss : List Stmt} {pieces pieces' : List (List Token)}
    (cut : Cut ts ss pieces) (cut' : Cut ts ss pieces') : pieces = pieces' := by
  obtain ⟨rfl, spells⟩ := cut
  obtain ⟨same, spells'⟩ := cut'
  induction spells generalizing pieces' with
  | nil =>
    cases spells'
    rfl
  | @cons piece st pieces ss first further ih =>
    cases spells' with
    | @cons piece' _ pieces' _ first' further' =>
      obtain ⟨opened, first⟩ := first
      obtain ⟨opened', first'⟩ := first'
      rw [List.flatten_cons, List.flatten_cons] at same
      -- the parser reads the first piece off the tokens, and there is only one way to do so
      have read := Parser.readsBack_of_derives first (9 * (piece.length + piece'.length) + 9) pieces.flatten
        (by omega) fun _ => starts_isElse_of_cut further
      have read' := Parser.readsBack_of_derives first' (9 * (piece.length + piece'.length) + 9) pieces'.flatten
        (by omega) fun _ => starts_isElse_of_cut further'
      rw [← same, read'] at read
      injection read with _ rest
      rw [rest] at same
      rw [List.append_cancel_right same, ih rest further']

/-- At the top, pieces that start with a text are read as in a block. -/
theorem Cut.spelled {ts : List Token} {ss : List Stmt} {pieces : List (List Token)} (cut : Cut ts ss pieces)
    (visible : ∀ piece ∈ pieces, ∀ t ∈ piece.head?, t.text ≠ "") : Spells ts ss := by
  obtain ⟨rfl, spells⟩ := cut
  induction spells with
  | nil => exact .done
  | @cons piece st pieces ss first _ ih =>
    obtain ⟨opened, first⟩ := first
    obtain ⟨here, behind⟩ := List.forall_mem_cons.mp visible
    cases piece with
    | nil => cases first.starts
    | cons t us =>
      exact .next (Parser.isStray_eq_false_of_declaration first (here t rfl)) first (ih behind)

/-! ## Blocks -/

/-- A statement that starts with a brace is a block, and no counting loop that stands for one. -/
theorem Derives.body_of_brace {ss : List Stmt} {opened : Bool} {opening : Token} {ts : List Token}
    (opens : opening.kind = .leftBrace) (derived : Derives (.declaration (.block ss) opened) (opening :: ts)) :
    ∃ us closing, ts = us ++ [closing] ∧ Derives (.body ss) us := by
  cases derived with
  | statement plain =>
    generalize tree : Stmt.block ss = st at plain
    generalize tokens : opening :: ts = all at plain
    cases plain with
    | block _ inner _ =>
      cases tree
      cases tokens
      exact ⟨_, _, rfl, inner⟩
    | forLoop keyed =>
      cases tokens
      rw [(Token.is_iff.mp keyed).1] at opens
      cases opens
    | _ => cases tree

/-- Only stray tokens spell no statement. -/
theorem Spells.isStray {ts : List Token} (spells : Spells ts []) : ∀ t ∈ ts, Parser.isStray t = true := by
  generalize none : ([] : List Stmt) = ss at spells
  induction spells with
  | done => simp
  | stray _ stray _ ih => exact List.forall_mem_cons.mpr ⟨stray, ih none⟩
  | next _ _ _ _ => cases none

/-- If braces and what is between them spell one block, then the last brace closes it. -/
theorem Spells.body {opening closing : Token} {ts : List Token} {ss : List Stmt}
    (opens : opening.is .leftBrace "\x7b" = true) (closes : closing.is .rightBrace "\x7d" = true)
    (spells : Spells (opening :: (ts ++ [closing])) [.block ss]) : Derives (.body ss) ts := by
  obtain ⟨opensKind, opensText⟩ := Token.is_iff.mp opens
  obtain ⟨closesKind, closesText⟩ := Token.is_iff.mp closes
  generalize tokens : opening :: (ts ++ [closing]) = all at spells
  cases spells with
  | stray _ stray _ =>
    obtain ⟨rfl, rfl⟩ := List.cons.inj tokens
    simp [Parser.isStray, opensKind, opensText] at stray
  | @next t us _ opened rest _ _ first further =>
    rw [List.cons_append] at tokens
    obtain ⟨rfl, split⟩ := List.cons.inj tokens
    obtain ⟨inner, brace, rfl, body⟩ := first.body_of_brace opensKind
    rcases rest.eq_nil_or_concat with rfl | ⟨front, last, rfl⟩
    · rw [List.append_nil] at split
      rwa [List.append_inj_left' split rfl]
    · -- the tokens behind the block are stray, and the last brace is not
      rw [List.concat_eq_append, ← List.append_assoc] at split
      cases List.append_inj_right' split rfl
      have stray := further.isStray closing (by simp)
      simp [Parser.isStray, closesKind, closesText] at stray

end Grammar

/-- Tokens that are a block if braces are put around them, with nothing forgotten, can be cut into its
    statements in exactly one way.  If each of these starts with a text, then the tokens without the
    braces are read as these statements. -/
theorem parseTokens_of_braced {opening closing : Token} {ts : List Token} {ss : List Stmt}
    (opens : opening.is .leftBrace "\x7b" = true) (closes : closing.is .rightBrace "\x7d" = true)
    (within : ∀ t ∈ ts, t.isEnd = false)
    (parsed : parseTokens (opening :: (ts ++ [closing])) = .ok [.block ss])
    (whole : firstFailure (opening :: (ts ++ [closing])) = none) :
    ∃ pieces, Grammar.Cut ts ss pieces ∧ (∀ other, Grammar.Cut ts ss other → other = pieces) ∧
      ((∀ piece ∈ pieces, ∀ t ∈ piece.head?, t.text ≠ "") → parseTokens ts = .ok ss) := by
  have inside : ∀ t ∈ opening :: (ts ++ [closing]), t.isEnd = false := by
    simp only [List.forall_mem_cons, List.forall_mem_append, List.not_mem_nil, false_implies, implies_true,
      and_true]
    exact ⟨by simp [Token.isEnd, (Token.is_iff.mp opens).1], within,
      by simp [Token.isEnd, (Token.is_iff.mp closes).1]⟩
  obtain ⟨program, parsed', spelled⟩ := spells_of_firstFailure inside whole
  cases parsed.symm.trans parsed'
  obtain ⟨pieces, cut⟩ := (spelled.body opens closes).cut
  exact ⟨pieces, cut, fun other cut' => cut'.unique cut, fun visible => parseTokens_of_spells (cut.spelled visible)⟩

/-- The empty string is printed, and no statement starts with it. -/
theorem parseTokens_of_braced_string :
    let x := Token.synthetic .identifier "x"
    let empty := Token.synthetic .stringLiteral ""
    let stop := Token.synthetic .semicolon ";"
    let print := Token.synthetic .keyword "screenit"
    let ts := [x, stop, print, empty, stop]
    let ss := [Stmt.expression (.name x), .print (.literal empty)]
    parseTokens (.synthetic .leftBrace "\x7b" :: (ts ++ [.synthetic .rightBrace "\x7d"])) = .ok [.block ss] ∧
      parseTokens ts = .ok ss := by
  intro x empty stop print ts ss
  have parsed : parseTokens (.synthetic .leftBrace "\x7b" :: (ts ++ [.synthetic .rightBrace "\x7d"])) =
      .ok [.block ss] := rfl
  obtain ⟨pieces, _, only, read⟩ := parseTokens_of_braced rfl rfl (by decide) parsed rfl
  have named : Grammar.Derives (.declaration (.expression (.name x)) false) [x, stop] :=
    .statement (.effectStatement (@Grammar.Derives.effect _ [x] _
      (.comparison (.arithmetic (.operand (.primary (.name rfl))))) rfl))
  have printed : Grammar.Derives (.declaration (.print (.literal empty)) false) [print, empty, stop] :=
    .statement (@Grammar.Derives.print _ _ [empty] _ rfl
      (.comparison (.arithmetic (.operand (.primary (.literal rfl))))) rfl)
  cases only [[x, stop], [print, empty, stop]] ⟨rfl, .cons ⟨_, named⟩ (.cons ⟨_, printed⟩ .nil)⟩
  exact ⟨parsed, read (by decide)⟩

/-- The empty string is a statement between braces and is left out at the top.  And between braces, what
    closes the block may stand in front of blocks that are never closed, and that are forgotten; at the top
    it is an error. -/
theorem braced_read_otherwise :
    let empty := Token.synthetic .stringLiteral ""
    let stop := Token.synthetic .semicolon ";"
    let opening := Token.synthetic .leftBrace "\x7b"
    let closing := Token.synthetic .rightBrace "\x7d"
    let braced (ts : List Token) := opening :: (ts ++ [closing])
    (parseTokens (braced [empty, stop]) = .ok [.block [.expression (.literal empty)]] ∧
      parseTokens [empty, stop] ≠ .ok [.expression (.literal empty)]) ∧
    parseTokens (braced [closing, opening, opening]) = .ok [.block []] ∧
      parseTokens [closing, opening, opening] ≠ .ok [] := by
  intro empty stop opening closing braced
  have failed {ts : List Token} {ss : List Stmt} (error : (parseTokens ts).isOk = false) :
      parseTokens ts ≠ .ok ss := by
    intro parsed
    rw [parsed] at error
    cases error
  exact ⟨⟨rfl, failed rfl⟩, rfl, failed rfl⟩

end ImpCompiler
