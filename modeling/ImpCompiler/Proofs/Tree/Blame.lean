import ImpCompiler.Proofs.Tree.Construction
import ImpCompiler.Proofs.Tree.Relabelling

/-! # What the parser blames

When the parser fails with something of its input left, then at a token of the input: the next one, or
one that it has taken before.  When it fails with nothing left, the error may be about the end of the
input, but such an error is forgotten at the top of a program.  So every error that is reported
is about a token in front of the end (`blamed_of_parseTokens`). -/

namespace ImpCompiler

namespace Parser

open Grammar

variable {α β : Type} {ts : List Token}

/-- The error is about a token of `ts` that is not an end token. -/
def Blamed (ts : List Token) (e : ParseError) : Prop :=
  ∃ t ∈ ts, t.isEnd = false ∧ e.position = t.position ∧ e.found = t.text

theorem blamed_atToken {t : Token} (member : t ∈ ts) (inside : t.isEnd = false) (cause : Cause) :
    Blamed ts (.atToken t cause) := by
  refine ⟨t, member, inside, rfl, ?_⟩
  simp [ParseError.atToken, inside]

/-- How a parser ends that has come to a tail of `ts`: it leaves a tail of `ts`, or it blames one of
    these tokens, or nothing is left where it fails. -/
inductive Blames (ts : List Token) : EStateM.Result ParseError (List Token) α → Prop where
  | ok (a : α) {rest : List Token} (tail : rest <:+ ts) : Blames ts (.ok a rest)
  | error {e : ParseError} (rest : List Token) (blamed : Blamed ts e) : Blames ts (.error e rest)
  | errorAtEnd (e : ParseError) {rest : List Token} (ended : atEnd rest = true) :
      Blames ts (.error e rest)

namespace Blames

variable {rest : List Token}

theorem failHere (tail : rest <:+ ts) (cause : Cause) :
    Blames ts (Parser.failHere cause rest : EStateM.Result ParseError (List Token) α) := by
  cases rest with
  | nil => exact .errorAtEnd _ rfl
  | cons t behind =>
    cases ends : t.isEnd with
    | true => exact .errorAtEnd _ ends
    | false => exact .error _ (blamed_atToken (tail.mem List.mem_cons_self) ends cause)

theorem bind {p : Parser α} {next : α → Parser β} (first : Blames ts (p rest))
    (second : ∀ a rest', rest' <:+ ts → Blames ts (next a rest')) : Blames ts ((p >>= next) rest) := by
  simp only [Bind.bind, EStateM.bind]
  generalize p rest = r at first
  cases first with
  | @ok a rest' tail => exact second a rest' tail
  | error rest' blamed => exact .error rest' blamed
  | errorAtEnd e ended => exact .errorAtEnd e ended

/-- A token that is taken is not an end token, and can be blamed later on. -/
theorem takeIf {accepts : Token → Bool} {next : Option Token → Parser α} (tail : rest <:+ ts)
    (absent : Blames ts (next none rest))
    (present : ∀ t rest', t ∈ ts → t.isEnd = false → rest' <:+ ts → Blames ts (next (some t) rest')) :
    Blames ts ((takeIf accepts >>= next) rest) := by
  cases first : starts accepts rest with
  | false =>
    rw [bind_eq (takeIf_eq_none first)]
    exact absent
  | true =>
    cases rest with
    | nil => cases first
    | cons t behind =>
      rw [bind_eq (takeIf_eq_some first)]
      simp only [starts, Bool.and_eq_true, Bool.not_eq_true'] at first
      exact present t behind (tail.mem List.mem_cons_self) first.1 ((List.suffix_cons t behind).trans tail)

end Blames

/-- Readers of single tokens blame the tokens that they read, and so does all that is put together
    from them. -/
theorem Built.blames {seen : List Token} {p : Parser α} (built : Built seen p)
    (taken : ∀ t ∈ seen, t ∈ ts ∧ t.isEnd = false) (rest : List Token) (tail : rest <:+ ts) :
    Blames ts (p rest) := by
  induction built generalizing rest with
  | pure a => exact .ok a tail
  | failHere cause => exact .failHere tail cause
  | failAt member cause =>
    obtain ⟨known, inside⟩ := taken _ member
    exact .error rest (blamed_atToken known inside cause)
  | bind _ _ first second => exact (first taken rest tail).bind fun a => second a taken
  | takeIf _ _ absent present =>
    refine .takeIf tail (absent taken rest tail) fun t rest' member inside => ?_
    exact present t (List.forall_mem_cons.mpr ⟨⟨member, inside⟩, taken⟩) rest'
  | nextIs _ either =>
    rw [bind_eq (nextIs_eq rfl)]
    exact either _ taken rest tail
  | @ifAtEnd seen γ stop go _ _ stops goes =>
    change Blames ts ((if atEnd rest then stop else go) rest)
    split
    · exact stops taken rest tail
    · exact goes taken rest tail

/-! ## Programs -/

/-- At the top of a program an error with nothing left is forgotten, so that only the others are left.
    There is a step for every token, since a declaration takes one at least. -/
theorem statements_blame (n : Nat) (read : List Stmt) (rest : List Token) (fuel : rest.length < n)
    (tail : rest <:+ ts) {e : ParseError} {rest' : List Token}
    (run : statements n read rest = .error e rest') : Blamed ts e := by
  induction n generalizing read rest with
  | zero => omega
  | succ n ih =>
    cases rest with
    | nil => cases run
    | cons t behind =>
      have later : behind <:+ ts := (List.suffix_cons t behind).trans tail
      rw [List.length_cons] at fuel
      simp only [statements] at run
      split at run
      · cases run
      split at run
      · exact ih read behind (by omega) later run
      -- nothing has been taken yet, so that there is no token to go back to
      have blames : Blames ts (declaration n (t :: behind)) :=
        ((stmts_built n).declaration []).blames (List.forall_mem_nil _) (t :: behind) tail
      have shorter := @declaration_length_lt n (t :: behind)
      generalize declaration n (t :: behind) = r at run blames shorter
      cases blames with
      | @ok st rest tail' =>
        have less := shorter rfl
        rw [List.length_cons] at less
        exact ih (st :: read) rest (by omega) tail' run
      | error rest blamed =>
        -- it may still be forgotten, but if it is reported, then as it is
        dsimp only at run
        split at run
        · cases run
        · cases run
          exact blamed
      | errorAtEnd e ended =>
        dsimp only at run
        rw [if_pos ended] at run
        cases run

end Parser

/-- Only an end token is put behind the tokens. -/
theorem mem_of_mem_closeTokens {tokens : List Token} {t : Token} (member : t ∈ closeTokens tokens)
    (inside : t.isEnd = false) : t ∈ tokens := by
  have other (p : Position) : t ≠ Token.endOfFile p := by
    rintro rfl
    cases inside
  rw [closeTokens] at member
  split at member
  · split at member
    · exact member
    · simpa [other] using member
  · simp [other] at member

/-- Whatever the parser reports, it reports about one of the tokens, and never about an end token. -/
theorem blamed_of_parseTokens {tokens : List Token} {e : ParseError}
    (failed : parseTokens tokens = .error e) : Parser.Blamed tokens e := by
  rw [parseTokens] at failed
  split at failed
  · cases failed
  · rename_i e' rest run
    cases failed
    have fuel : (closeTokens tokens).length < Parser.steps (closeTokens tokens) := by
      rw [Parser.steps]
      omega
    obtain ⟨t, member, inside, same⟩ :=
      Parser.statements_blame _ [] (closeTokens tokens) fuel (List.suffix_refl _) run
    exact ⟨t, mem_of_mem_closeTokens member inside, inside, same⟩

end ImpCompiler
