import ImpCompiler.Proofs.Tree.Concatenation
import ImpCompiler.Proofs.Tree.Construction

/-! # Programs that are cut off

If tokens are read as a program, then so are the tokens in front of any cut
(`parseTokens_truncated`).

A parser looks at no token behind the next one, and never goes back.  So two runs whose inputs agree
up to a cut do the same until one of them comes to the cut.  If the input of the other one ends there,
then that run stays there: it fails where nothing is left of its input, which is forgotten, or it
returns what it has.  Only a conditional can be returned that way and be another one without the cut. -/

namespace ImpCompiler

namespace Parser

open Grammar

variable {α β : Type}

/-! ## Parsers that meet the end of their input -/

/-- How the run of a parser ends if its input ends behind `front`, compared with the first result, of
    a run whose input goes on with `more` there.  In front of the end, both end in the same way. -/
inductive CutShort (front more ending : List Token) : EStateM.Result ParseError (List Token) α →
    EStateM.Result ParseError (List Token) α → Prop where
  | ok (a : α) {rest : List Token} (kept : rest ≠ []) (left : rest <:+ front) :
      CutShort front more ending (.ok a (rest ++ more)) (.ok a (rest ++ ending))
  | error (e : ParseError) {rest : List Token} (kept : rest ≠ []) (left : rest <:+ front) :
      CutShort front more ending (.error e (rest ++ more)) (.error e (rest ++ ending))
  | okAtEnd (r : EStateM.Result ParseError (List Token) α) (a : α) :
      CutShort front more ending r (.ok a ending)
  | errorAtEnd (r : EStateM.Result ParseError (List Token) α) (e : ParseError) :
      CutShort front more ending r (.error e ending)

theorem CutShort.mono {front front' more ending : List Token}
    {r r' : EStateM.Result ParseError (List Token) α} (cut : CutShort front' more ending r r')
    (shorter : front' <:+ front) : CutShort front more ending r r' := by
  cases cut with
  | ok a kept left => exact .ok a kept (left.trans shorter)
  | error e kept left => exact .error e kept (left.trans shorter)
  | okAtEnd r a => exact .okAtEnd r a
  | errorAtEnd r e => exact .errorAtEnd r e

theorem CutShort.of_atEnd {front more ending : List Token} (r : EStateM.Result ParseError (List Token) α)
    {r' : EStateM.Result ParseError (List Token) α}
    (stays : (∃ a, r' = .ok a ending) ∨ ∃ e, r' = .error e ending) : CutShort front more ending r r' := by
  obtain ⟨a, rfl⟩ | ⟨e, rfl⟩ := stays
  · exact .okAtEnd r a
  · exact .errorAtEnd r e

/-- The parser does the same whatever follows, until it meets the end of its input. -/
def Incremental (p : Parser α) : Prop :=
  ∀ front more ending, atEnd ending = true →
    CutShort front more ending (p (front ++ more)) (p (front ++ ending))

namespace Incremental

variable {p : Parser α} {next : α → Parser β}

/-- Where the input has ended, nothing is taken. -/
theorem stays (incremental : Incremental p) {ending : List Token} (ended : atEnd ending = true) :
    (∃ a, p ending = .ok a ending) ∨ ∃ e, p ending = .error e ending := by
  have cut : CutShort [] [] ending (p []) (p ending) := incremental [] [] ending ended
  generalize p [] = r, p ending = r' at cut ⊢
  cases cut with
  | ok a kept left => exact absurd (List.suffix_nil.mp left) kept
  | error e kept left => exact absurd (List.suffix_nil.mp left) kept
  | okAtEnd r a => exact .inl ⟨a, rfl⟩
  | errorAtEnd r e => exact .inr ⟨e, rfl⟩

theorem pure (a : α) : Incremental (Pure.pure a) := by
  intro front more ending _
  cases front with
  | nil => exact .okAtEnd _ a
  | cons t front => exact .ok a (List.cons_ne_nil t front) (List.suffix_refl _)

theorem failAt (t : Token) (cause : Cause) : Incremental (Parser.failAt t cause : Parser α) := by
  intro front more ending _
  cases front with
  | nil => exact .errorAtEnd _ _
  | cons t front => exact .error _ (List.cons_ne_nil t front) (List.suffix_refl _)

theorem failHere (cause : Cause) : Incremental (Parser.failHere cause : Parser α) := by
  intro front more ending _
  cases front with
  | nil => exact .errorAtEnd _ _
  | cons t front => exact .error _ (List.cons_ne_nil t front) (List.suffix_refl _)

theorem bind (first : Incremental p) (second : ∀ a, Incremental (next a)) : Incremental (p >>= next) := by
  intro front more ending ended
  simp only [Bind.bind, EStateM.bind]
  have cut := first front more ending ended
  generalize p (front ++ more) = r, p (front ++ ending) = r' at cut
  cases cut with
  | @ok a rest kept left => exact (second a rest more ending ended).mono left
  | error e kept left => exact .error e kept left
  | okAtEnd r a =>
    -- the run is at the end of its input, and whatever follows leaves it there
    exact .of_atEnd _ ((second a).stays ended)
  | errorAtEnd r e => exact .errorAtEnd _ e

theorem takeIf (accepts : Token → Bool) : Incremental (Parser.takeIf accepts) := by
  intro front more ending ended
  cases front with
  | nil =>
    have nothing : starts accepts ending = false := by
      cases ending with
      | nil => rfl
      | cons t behind => rw [starts, show t.isEnd = true from ended, Bool.not_true, Bool.false_and]
    have done : Parser.takeIf accepts ([] ++ ending) = .ok none ending := takeIf_eq_none nothing
    rw [done]
    exact .okAtEnd _ none
  | cons t front =>
    cases taken : !t.isEnd && accepts t with
    | false =>
      simp only [List.cons_append, Parser.takeIf, taken]
      exact .ok none (List.cons_ne_nil t front) (List.suffix_refl _)
    | true =>
      simp only [List.cons_append, Parser.takeIf, taken, if_true]
      cases front with
      | nil => exact .okAtEnd _ (some t)
      | cons next front => exact .ok (some t) (List.cons_ne_nil next front) (List.suffix_cons t _)

theorem nextIs (kind : Kind) : Incremental (Parser.nextIs kind) := by
  intro front more ending ended
  cases front with
  | nil =>
    have done : Parser.nextIs kind ([] ++ ending) = .ok _ ending := nextIs_eq rfl
    rw [done]
    exact .okAtEnd _ _
  | cons t front => exact .ok _ (List.cons_ne_nil t front) (List.suffix_refl _)

/-- Whether the input has ended is seen in the same way, as long as it has not. -/
theorem ifAtEnd {stop go : Parser α} (stops : Incremental stop) (goes : Incremental go) :
    Incremental (do if atEnd (← get) then stop else go) := by
  intro front more ending ended
  cases front with
  | nil =>
    change CutShort _ _ _ _ ((if atEnd ending then stop else go) ending)
    rw [if_pos ended]
    exact .of_atEnd _ (stops.stays ended)
  | cons t front =>
    change CutShort _ _ _ ((if t.isEnd then stop else go) _) ((if t.isEnd then stop else go) _)
    split
    · exact stops (t :: front) more ending ended
    · exact goes (t :: front) more ending ended

end Incremental

/-- Readers of single tokens are incremental, and so is all that is put together from them. -/
theorem Built.incremental {seen : List Token} {p : Parser α} (built : Built seen p) : Incremental p := by
  induction built with
  | pure a => exact .pure a
  | failHere cause => exact .failHere cause
  | failAt _ cause => exact .failAt _ cause
  | bind _ _ first second => exact first.bind second
  | takeIf _ _ absent present =>
    refine (Incremental.takeIf _).bind fun taken => ?_
    cases taken with
    | none => exact absent
    | some t => exact present t
  | nextIs _ either => exact (Incremental.nextIs _).bind either
  | ifAtEnd _ _ stops goes => exact stops.ifAtEnd goes

/-! ## Programs -/

/-- What has been read stays at the front of the program. -/
theorem read_isPrefix {n : Nat} {read : List Stmt} {rest rest' : List Token} {program : List Stmt}
    (run : statements n read rest = .ok program rest') : read.reverse <+: program := by
  obtain ⟨_, _, more, rfl, _⟩ := statements_spell n read rest run
  exact List.prefix_append _ _

/-- A declaration that is read up to the end is read if something else follows there, unless it is a
    conditional and an `else` follows. -/
theorem declaration_of_atEnd {n : Nat} {front more ending : List Token} {st : Stmt}
    (fuel : 9 * front.length + 2 ≤ n) (run : declaration n (front ++ ending) = .ok st ending)
    (follows : starts isElse more = false) : declaration n (front ++ more) = .ok st more := by
  obtain ⟨used, split, opened, derived, _⟩ := (stmts_take n).declaration _ st ending run
  obtain rfl := List.append_cancel_right split
  exact readsBack_of_derives derived n more fuel fun _ => follows

/-- If all is read when the input goes on behind `front`, then all is read when it ends there. -/
theorem statements_cutShort (n : Nat) (read : List Stmt) (front : List Token) {more ending rest : List Token}
    {program : List Stmt} (fuel : 9 * front.length + 3 ≤ n) (ended : atEnd ending = true)
    (within : ∀ t ∈ front, t.isEnd = false) (run : statements n read (front ++ more) = .ok program rest) :
    ∃ program', statements n read (front ++ ending) = .ok program' ending ∧
      program'.dropLast <+: program ∧ (starts isElse more = false → program' <+: program) := by
  induction n generalizing read front with
  | zero => omega
  | succ n ih =>
    have before := read_isPrefix run
    have before' : read.reverse.dropLast <+: read.reverse := List.dropLast_prefix _
    cases front with
    | nil =>
      refine ⟨read.reverse, ?_, before'.trans before, fun _ => before⟩
      exact statements_atEnd (Nat.zero_lt_succ n) read ending ended
    | cons t front =>
      obtain ⟨inside, within'⟩ := List.forall_mem_cons.mp within
      rw [List.length_cons] at fuel
      simp only [List.cons_append, statements, inside, Bool.false_eq_true, if_false] at run ⊢
      by_cases stray : isStray t = true
      · rw [if_pos stray] at run ⊢
        exact ih read front (by omega) within' run
      rw [if_neg stray] at run ⊢
      have cut := ((stmts_built n).declaration []).incremental (t :: front) more ending ended
      have whole := @declaration_of_atEnd n (t :: front) more ending
      have shorter := @declaration_length_lt n (t :: (front ++ ending))
      simp only [List.cons_append, List.length_cons] at cut whole shorter
      generalize declaration n (t :: (front ++ more)) = r at cut run whole
      generalize declaration n (t :: (front ++ ending)) = r' at cut whole shorter ⊢
      cases cut with
      | @ok st left kept suffix =>
        -- both runs are in front of the cut, and go on in the same way
        have less := shorter rfl
        simp only [List.length_append] at less
        exact ih (st :: read) left (by omega) (fun u member => within u (suffix.mem member)) run
      | @error e left kept suffix =>
        -- this would be an error of the longer input too, and not one that is forgotten
        obtain ⟨u, us, rfl⟩ := List.exists_cons_of_ne_nil kept
        have inside : u.isEnd = false := within u (suffix.mem List.mem_cons_self)
        simp only [List.cons_append, atEnd, inside] at run
        cases run
      | okAtEnd r st =>
        -- the shorter run has its last statement; the longer one may still make something else of it
        refine ⟨(st :: read).reverse, statements_atEnd (by omega) (st :: read) ending ended, ?_, ?_⟩
        · rw [List.reverse_cons, List.dropLast_concat]
          exact before
        · intro follows
          have same := whole (by omega) rfl follows
          subst same
          exact read_isPrefix run
      | errorAtEnd r e =>
        -- the statement that was cut is forgotten with its error
        dsimp only
        rw [if_pos ended]
        exact ⟨read.reverse, rfl, before'.trans before, fun _ => before⟩

end Parser

/-- Tokens without an end token get one behind them. -/
theorem closeTokens_of_inside {ts : List Token} (within : ∀ t ∈ ts, t.isEnd = false) :
    ∃ p, closeTokens ts = ts ++ [Token.endOfFile p] := by
  rw [closeTokens]
  split
  · rename_i last found
    rw [within last (List.mem_of_getLast? found)]
    exact ⟨_, rfl⟩
  · rename_i none
    rw [List.getLast?_eq_none_iff.mp none]
    exact ⟨_, rfl⟩

theorem closeTokens_ne_nil (ts : List Token) : closeTokens ts ≠ [] := by
  rw [closeTokens]
  split
  · rename_i last found
    split
    · exact List.ne_nil_of_mem (List.mem_of_getLast? found)
    · exact List.concat_ne_nil _ ts
  · exact List.cons_ne_nil _ _

/-- If tokens are read as a program, then so are the tokens in front of any cut.  All statements in
    front of the cut are those of the program, but for the last one if an `else` is cut off: then the
    conditional in front of it is read without its second branch. -/
theorem parseTokens_truncated {ts us : List Token} (last : ∀ t ∈ (ts ++ us).dropLast, t.isEnd = false)
    {ss : List Stmt} (parsed : parseTokens (ts ++ us) = .ok ss) :
    ∃ ss', parseTokens ts = .ok ss' ∧ ss'.dropLast <+: ss ∧
      (Grammar.starts Parser.isElse us = false → ss' <+: ss) := by
  -- the end token is cut off with whatever is cut off, and added again
  by_cases whole : us = []
  · rw [whole, List.append_nil] at parsed
    exact ⟨ss, parsed, List.dropLast_prefix ss, fun _ => List.prefix_refl ss⟩
  have within : ∀ t ∈ ts, t.isEnd = false := fun t member => by
    refine last t ?_
    rw [List.dropLast_append_of_ne_nil whole]
    exact List.mem_append_left _ member
  obtain ⟨p, closed⟩ := closeTokens_of_inside within
  obtain ⟨rest, run⟩ := program_of_parseTokens parsed
  rw [Parser.program, closeTokens_append ts whole] at run
  have fuel : 9 * ts.length + 17 ≤ Parser.steps (ts ++ closeTokens us) := by
    have some := List.length_pos_iff.mpr (closeTokens_ne_nil us)
    rw [Parser.steps, List.length_append]
    omega
  obtain ⟨ss', run', front, same⟩ :=
    Parser.statements_cutShort _ [] ts (by omega) (rfl : Parser.atEnd [Token.endOfFile p] = true) within run
  -- alone, the tokens in front of the cut are read with fewer steps
  have alone := Parser.statements_eq_of_fuel [] (ts ++ [Token.endOfFile p])
    (n := Parser.steps (ts ++ [Token.endOfFile p])) (m := Parser.steps (ts ++ closeTokens us))
    (by rw [Parser.steps]; omega) (by rw [List.length_append, List.length_singleton]; omega)
  refine ⟨ss', ?_, front, fun follows => same ?_⟩
  · rw [parseTokens, closed, Parser.program, alone, run']
  · rw [starts_closeTokens _ whole, follows]

/-- A cut in front of an `else`: the statement before the conditional stays as it is, and the
    conditional loses its second branch. -/
theorem parseTokens_truncated_conditional :
    let x := Token.synthetic .identifier "x"
    let stop := Token.synthetic .semicolon ";"
    let front := [x, stop, .synthetic .keyword "if", .synthetic .leftParen "(", x, .synthetic .rightParen ")",
      x, stop]
    let behind := [.synthetic .keyword "else", x, stop, .endOfFile .start]
    let use := Stmt.expression (.name x)
    let whole := [use, .ifElse (.name x) use (some use)]
    parseTokens (front ++ behind) = .ok whole ∧ (∀ t ∈ (front ++ behind).dropLast, t.isEnd = false) ∧
      ∃ ss, parseTokens front = .ok ss ∧ ss.dropLast <+: whole ∧ ss = [use, .ifElse (.name x) use none] := by
  intro x stop front behind use whole
  have parsed : parseTokens (front ++ behind) = .ok whole := rfl
  have last : ∀ t ∈ (front ++ behind).dropLast, t.isEnd = false := by decide
  obtain ⟨ss, short, kept, _⟩ := parseTokens_truncated last parsed
  have read : parseTokens front = .ok [use, .ifElse (.name x) use none] := rfl
  exact ⟨parsed, last, ss, short, kept, Except.ok.inj (short.symm.trans read)⟩

end ImpCompiler
