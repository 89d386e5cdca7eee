import ImpCompiler.Proofs.Tree.Truncation

/-! # The parser comes to an end

A parser can be called again and goes on where it stopped.  Whatever its tokens are, every call comes to an
end, the cursor stays among the tokens, never goes back and never passes an end token (`calls_progress`).

Three facts carry this.  What is put together from readers of single tokens passes no end token
(`Built.passes`).  What reads something takes a token for it.  And the steps are not used up, since every
token that is taken makes room for more of them than can be made without taking one (`Follows`). -/

namespace ImpCompiler

namespace Parser

open Grammar

variable {α β : Type}

/-! ## What a run passes -/

/-- What is left of the input after a run, whether it fails or not. -/
def left : EStateM.Result ParseError (List Token) α → List Token
  | .ok _ rest => rest
  | .error _ rest => rest

/-- The run takes tokens from the front of `rest`, and no end token. -/
def Passes (rest : List Token) (r : EStateM.Result ParseError (List Token) α) : Prop :=
  ∃ passed, rest = passed ++ left r ∧ ∀ t ∈ passed, t.isEnd = false

namespace Passes

variable {rest : List Token}

theorem nothing {r : EStateM.Result ParseError (List Token) α} (stays : left r = rest) : Passes rest r :=
  ⟨[], stays.symm, List.forall_mem_nil _⟩

theorem cons {t : Token} {r : EStateM.Result ParseError (List Token) α} (inside : t.isEnd = false)
    (passes : Passes rest r) : Passes (t :: rest) r := by
  obtain ⟨passed, split, within⟩ := passes
  exact ⟨t :: passed, congrArg (t :: ·) split, List.forall_mem_cons.mpr ⟨inside, within⟩⟩

/-- A run that goes on where another one stopped. -/
theorem trans {r : EStateM.Result ParseError (List Token) α} {r' : EStateM.Result ParseError (List Token) β}
    (first : Passes rest r) (second : Passes (left r) r') : Passes rest r' := by
  obtain ⟨passed, split, within⟩ := first
  obtain ⟨passed', split', within'⟩ := second
  refine ⟨passed ++ passed', ?_, List.forall_mem_append.mpr ⟨within, within'⟩⟩
  rw [List.append_assoc, ← split', ← split]

theorem bind {p : Parser α} {next : α → Parser β} (first : Passes rest (p rest))
    (second : ∀ a rest', Passes rest' (next a rest')) : Passes rest ((p >>= next) rest) := by
  simp only [Bind.bind, EStateM.bind]
  cases run : p rest with
  | ok a rest' =>
    rw [run] at first
    exact first.trans (second a rest')
  | error e rest' =>
    rw [run] at first
    exact first

theorem takeIf {accepts : Token → Bool} {next : Option Token → Parser α}
    (absent : Passes rest (next none rest)) (present : ∀ t rest', Passes rest' (next (some t) rest')) :
    Passes rest ((takeIf accepts >>= next) rest) := by
  cases first : starts accepts rest with
  | false =>
    rw [bind_eq (takeIf_eq_none first)]
    exact absent
  | true =>
    cases rest with
    | nil => cases first
    | cons t behind =>
      rw [bind_eq (takeIf_eq_some first)]
      simp only [starts, Bool.and_eq_true, Bool.not_eq_true'] at first
      exact (present t behind).cons first.1

end Passes

/-- Readers of single tokens pass no end token, and neither does what is put together from them. -/
theorem Built.passes {seen : List Token} {p : Parser α} (built : Built seen p) (rest : List Token) :
    Passes rest (p rest) := by
  induction built generalizing rest with
  | pure a => exact .nothing rfl
  | failHere cause => exact .nothing rfl
  | failAt _ cause => exact .nothing rfl
  | bind _ _ first second => exact (first rest).bind second
  | takeIf _ _ absent present => exact .takeIf (absent rest) present
  | nextIs _ either =>
    rw [bind_eq (nextIs_eq rfl)]
    exact either _ rest
  | @ifAtEnd seen γ stop go _ _ stops goes =>
    change Passes rest ((if atEnd rest then stop else go) rest)
    split
    · exact stops rest
    · exact goes rest

theorem statements_pass (n : Nat) (read : List Stmt) (rest : List Token) :
    Passes rest (statements n read rest) := by
  induction n generalizing read rest with
  | zero => exact .nothing rfl
  | succ n ih =>
    cases rest with
    | nil => exact .nothing rfl
    | cons t behind =>
      simp only [statements]
      split
      · exact .nothing rfl
      rename_i inside
      split
      · exact (ih read behind).cons (Bool.eq_false_iff.mpr inside)
      have first := ((stmts_built n).declaration []).passes (t :: behind)
      cases run : declaration n (t :: behind) with
      | ok st rest =>
        rw [run] at first
        exact first.trans (ih (st :: read) rest)
      | error e rest =>
        rw [run] at first
        dsimp only
        -- The error is forgotten or reported, and the cursor stays where it is in both cases.
        split
        · exact first
        · exact first

/-! ## Steps -/

theorem Follows.finished {φ : Token → Token} {f : α → β} {r : EStateM.Result ParseError (List Token) α}
    {r' : EStateM.Result ParseError (List Token) β} (follows : Follows φ f r r') {e : ParseError}
    {rest : List Token} (failed : r = .error e rest) : e.cause ≠ .outOfFuel := by
  obtain ⟨_, _, done, _⟩ | ⟨_, _, _, failed', _, _, finished⟩ := follows.cases
  · cases failed.symm.trans done
  · cases failed.symm.trans failed'
    exact finished

/-- The parser comes to an end within the steps for `rest`: more of them change nothing, and it does not
    fail because they are used up. -/
structure Finishes (p : Nat → Parser α) (rest : List Token) : Prop where
  steady : ∀ n ≥ steps rest, p n rest = p (steps rest) rest
  finished : ∀ e rest', p (steps rest) rest = .error e rest' → e.cause ≠ .outOfFuel

theorem finishes_of_follows {p : Nat → Parser α} {f : α → α} {rest : List Token} (unchanged : ∀ a, f a = a)
    (follows : ∀ n ≥ steps rest, Follows id f (p n rest) (p (steps rest) (rest.map id))) :
    Finishes p rest := by
  rw [List.map_id] at follows
  exact ⟨fun n enough => (follows n enough).eq unchanged, fun e rest' => (follows _ (Nat.le_refl _)).finished⟩

theorem statements_finish (rest : List Token) : Finishes (fun n => statements n []) rest := by
  refine finishes_of_follows (f := List.map (Stmt.relabel id)) (fun ss => ?_) fun n enough => ?_
  · rw [← Stmt.listRelabel_eq_map, Stmt.listRelabel_id]
  · rw [steps] at enough
    exact statements_follow relabelling_id n _ [] rest (by omega) (by rw [steps]; omega)

/-- The error of a statement is never that the steps are used up, also if it is forgotten. -/
theorem failedStatement_finished (n : Nat) (rest : List Token) (fuel : 9 * rest.length + 8 ≤ n)
    {e : ParseError} {rest' : List Token} (failed : failedStatement n rest = some (e, rest')) :
    e.cause ≠ .outOfFuel := by
  induction n generalizing rest with
  | zero => omega
  | succ n ih =>
    cases rest with
    | nil => cases failed
    | cons t behind =>
      rw [List.length_cons] at fuel
      simp only [failedStatement] at failed
      split at failed
      · cases failed
      split at failed
      · exact ih behind (by omega) failed
      have follows := (stmts_follow relabelling_id n).declaration n (t :: behind)
        (by rw [List.length_cons]; omega) (by rw [List.length_cons]; omega)
      split at failed
      -- A token that is taken pays for the next round, nine steps for one.
      · rename_i st middle run
        have shorter := declaration_length_lt run
        rw [List.length_cons] at shorter
        exact ih middle (by omega) failed
      · rename_i run
        cases failed
        exact follows.finished run

/-! ## The cursor -/

/-- A run with the cursor at `c` leaves it at `c'`, which is a place of the array.  The cursor does not go
    back, and no end token is passed. -/
structure Moves (array : List Token) (c : Nat) (r : EStateM.Result ParseError (List Token) α)
    (c' : Nat) : Prop where
  left : left r = array.drop c'
  forward : c ≤ c'
  inside : c' < array.length
  passed : ∀ i t, c ≤ i → i < c' → array[i]? = some t → t.isEnd = false

/-- The last token is an end token. -/
def Closed (array : List Token) : Prop :=
  ∃ front last, array = front ++ [last] ∧ last.isEnd = true

variable {array : List Token}

/-- The last token is not passed, so that there is always a next one. -/
theorem Passes.moves (closed : Closed array) {c : Nat} (inside : c < array.length)
    {r : EStateM.Result ParseError (List Token) α} (passes : Passes (array.drop c) r) :
    ∃ c', Moves array c r c' := by
  obtain ⟨passed, split, within⟩ := passes
  have rest : array.drop (c + passed.length) = Parser.left r := by
    rw [← List.drop_drop, split, List.drop_left]
  refine ⟨c + passed.length, rest.symm, Nat.le_add_right _ _, ?_, fun i t from_c below found => ?_⟩
  -- A run that goes beyond the array has passed the last token of it, which is an end token.
  · obtain ⟨front, last, rfl, ends⟩ := closed
    rw [List.length_append, List.length_singleton] at inside
    rw [List.drop_append_of_le_length (by omega)] at split
    refine Nat.lt_of_not_le fun beyond => ?_
    rw [List.drop_eq_nil_of_le beyond] at rest
    rw [← rest, List.append_nil] at split
    have member : last ∈ passed := split ▸ List.mem_append_right _ List.mem_cons_self
    rw [within last member] at ends
    cases ends
  · obtain ⟨j, rfl⟩ := Nat.exists_eq_add_of_le from_c
    rw [← List.getElem?_drop, split, List.getElem?_append_left (by omega)] at found
    exact within t (List.mem_of_getElem? found)

theorem Moves.eq {c c' : Nat} {r : EStateM.Result ParseError (List Token) α} (moves : Moves array c r c') :
    c' = array.length - (Parser.left r).length := by
  have inside := moves.inside
  rw [moves.left, List.length_drop]
  omega

/-- Wherever the cursor stands in the array, the parser leaves it in the array, with any number of steps.
    If it reads something, then it takes a token at least, and it comes to an end. -/
structure Progresses (array : List Token) (p : Nat → Parser α) : Prop where
  moves : ∀ n, ∀ c < array.length, ∃ c', Moves array c (p n (array.drop c)) c' ∧
    ∀ a rest, p n (array.drop c) = .ok a rest → c < c'
  finishes : ∀ c < array.length, Finishes p (array.drop c)

/-- What makes a function of the grammar progress: it is put together from readers of single tokens, the
    tokens that it takes spell something, and it needs at most nine steps for each of them and some more. -/
theorem progresses {p : Nat → Parser α} {f : α → α} {Q : List Token → α → List Token → Prop}
    (closed : Closed array) (built : ∀ n, Built [] (p n)) (takes : ∀ n rest, Takes (p n) rest Q)
    (some : ∀ used a rest, Q used a rest → 0 < used.length) (unchanged : ∀ a, f a = a)
    (follows : ∀ n m rest, 9 * rest.length + 7 ≤ n → 9 * rest.length + 7 ≤ m →
      Follows id f (p n rest) (p m (rest.map id))) : Progresses array p := by
  constructor
  · intro n c inside
    obtain ⟨c', moves⟩ := ((built n).passes (array.drop c)).moves closed inside
    refine ⟨c', moves, fun a rest run => ?_⟩
    obtain ⟨used, split, holds⟩ := takes n _ a rest run
    have first := some used a rest holds
    have length := congrArg List.length split
    have place := moves.eq
    rw [run] at place
    simp only [List.length_drop, List.length_append, Parser.left] at length place
    omega
  · intro c _
    refine finishes_of_follows unchanged fun n enough => follows n _ _ ?_ ?_
    · rw [steps] at enough
      omega
    · rw [steps]
      omega

theorem exprs_progress (closed : Closed array) :
    ∀ p ∈ [expression, comparison, arithmetic, unary, primary], Progresses array p := by
  have follow := exprs_follow relabelling_id
  simp only [List.forall_mem_cons, List.not_mem_nil, false_imp_iff, implies_true, and_true]
  refine ⟨?_, ?_, ?_, ?_, ?_⟩
  · exact progresses closed (fun n => (exprs_built n).expression []) (fun n => (exprs_take n).expression)
      (fun _ _ _ derived => length_pos_of_starts derived.starts) Expr.relabel_id
      fun n m rest fuel fuel' => (follow n).expression m rest (by omega) (by omega)
  · exact progresses closed (fun n => (exprs_built n).comparison []) (fun n => (exprs_take n).comparison)
      (fun _ _ _ derived => length_pos_of_starts derived.starts) Expr.relabel_id
      fun n m rest fuel fuel' => (follow n).comparison m rest (by omega) (by omega)
  · exact progresses closed (fun n => (exprs_built n).arithmetic []) (fun n => (exprs_take n).arithmetic)
      (fun _ _ _ derived => length_pos_of_starts derived.starts) Expr.relabel_id
      fun n m rest fuel fuel' => (follow n).arithmetic m rest (by omega) (by omega)
  · exact progresses closed (fun n => (exprs_built n).unary []) (fun n => (exprs_take n).unary)
      (fun _ _ _ derived => length_pos_of_starts derived.starts) Expr.relabel_id
      fun n m rest fuel fuel' => (follow n).unary m rest (by omega) (by omega)
  · exact progresses closed (fun n => (exprs_built n).primary []) (fun n => (exprs_take n).primary)
      (fun _ _ _ derived => length_pos_of_starts derived.starts) Expr.relabel_id
      fun n m rest fuel fuel' => (follow n).primary m rest (by omega) (by omega)

theorem stmts_progress (closed : Closed array) :
    ∀ p ∈ [declaration, statement], Progresses array p := by
  have follow := stmts_follow relabelling_id
  simp only [List.forall_mem_cons, List.not_mem_nil, false_imp_iff, implies_true, and_true]
  refine ⟨?_, ?_⟩
  · exact progresses closed (fun n => (stmts_built n).declaration []) (fun n => (stmts_take n).declaration)
      (fun _ _ _ => Declaration.length_pos) Stmt.relabel_id
      fun n m rest fuel fuel' => (follow n).declaration m rest (by omega) (by omega)
  · exact progresses closed (fun n => (stmts_built n).statement []) (fun n => (stmts_take n).statement)
      (fun _ _ _ => Statement.length_pos) Stmt.relabel_id
      fun n m rest fuel fuel' => (follow n).statement m rest (by omega) (by omega)

/-! ## Calls -/

/-- Where the cursor stands after `k` calls. -/
def cursor (array : List Token) : Nat → Nat
  | 0 => 0
  | k + 1 => array.length - (left (program (array.drop (cursor array k)))).length

/-- The result of the call behind `k` others. -/
def call (array : List Token) (k : Nat) : EStateM.Result ParseError (List Token) (List Stmt) :=
  program (array.drop (cursor array k))

theorem moves_call (closed : Closed array) {k : Nat} (inside : cursor array k < array.length) :
    Moves array (cursor array k) (call array k) (cursor array (k + 1)) := by
  obtain ⟨c', moves⟩ := (statements_pass _ [] (array.drop (cursor array k))).moves closed inside
  rw [moves.eq] at moves
  exact moves

theorem cursor_lt (closed : Closed array) (k : Nat) : cursor array k < array.length := by
  induction k with
  | zero =>
    obtain ⟨front, last, rfl, _⟩ := closed
    rw [cursor, List.length_append]
    exact Nat.zero_lt_succ _
  | succ k ih => exact (moves_call closed ih).inside

/-- A program ends where the input has ended, and an error is reported where it has not. -/
theorem statements_end (n : Nat) (read : List Stmt) (rest : List Token) (fuel : rest.length < n) :
    (∃ ss rest', statements n read rest = .ok ss rest' ∧ atEnd rest' = true) ∨
      ∃ e rest', statements n read rest = .error e rest' ∧ atEnd rest' = false := by
  induction n generalizing read rest with
  | zero => omega
  | succ n ih =>
    cases rest with
    | nil => exact .inl ⟨_, _, rfl, rfl⟩
    | cons t behind =>
      rw [List.length_cons] at fuel
      simp only [statements]
      split
      · rename_i ends
        exact .inl ⟨_, _, rfl, ends⟩
      split
      · exact ih read behind (by omega)
      split
      · rename_i st rest run
        have shorter := declaration_length_lt run
        rw [List.length_cons] at shorter
        exact ih (st :: read) rest (by omega)
      · split
        · rename_i ended
          exact .inl ⟨_, _, rfl, ended⟩
        · rename_i goesOn
          exact .inr ⟨_, _, rfl, Bool.eq_false_iff.mpr goesOn⟩

theorem program_end (rest : List Token) :
    (∃ ss rest', program rest = .ok ss rest' ∧ atEnd rest' = true) ∨
      ∃ e rest', program rest = .error e rest' ∧ atEnd rest' = false :=
  statements_end _ [] rest (by rw [steps]; omega)

/-- Where the input has ended, every further call reads nothing and stays there. -/
theorem call_atEnd {k : Nat} (ended : atEnd (array.drop (cursor array k)) = true) (closed : Closed array)
    (j : Nat) : cursor array (k + j) = cursor array k ∧
      call array (k + j) = .ok [] (array.drop (cursor array k)) := by
  have again : program (array.drop (cursor array k)) = .ok [] (array.drop (cursor array k)) :=
    statements_atEnd (by rw [steps]; omega) [] _ ended
  have inside := cursor_lt closed k
  have stays : cursor array (k + j) = cursor array k := by
    induction j with
    | zero => rfl
    | succ j ih =>
      rw [← Nat.add_assoc, cursor, ih, again, left, List.length_drop]
      omega
  rw [call, stays]
  exact ⟨rfl, again⟩

theorem map_isEnd_getElem? {c : Nat} (inside : c < array.length) :
    array[c]?.map Token.isEnd = some (atEnd (array.drop c)) := by
  rw [List.getElem?_eq_getElem inside, List.drop_eq_getElem_cons inside]
  rfl

end Parser

theorem closed_closeTokens (tokens : List Token) : Parser.Closed (closeTokens tokens) := by
  rw [closeTokens]
  split
  · rename_i last found
    split
    · rename_i ends
      obtain ⟨front, rfl⟩ := List.getLast?_eq_some_iff.mp found
      exact ⟨front, last, rfl, ends⟩
    · exact ⟨tokens, _, rfl, rfl⟩
  · exact ⟨[], _, rfl, rfl⟩

namespace Parser

/-- The cursor stays among the tokens, does not go back and passes no end token, in every part of the parser
    and in every call, however often it is called.  Declarations, statements and expressions of every form
    take a token at least.  Every call comes to an end, and so does the reading of a statement whose error
    is forgotten.  After a program the cursor is on an end token, and every later call reads nothing.
    After an error it is not on an end token. -/
theorem calls_progress (tokens : List Token) :
    let array := closeTokens tokens
    (∀ (α : Type) (seen : List Token) (p : Parser α), Built seen p →
      ∀ c < array.length, ∃ c', Moves array c (p (array.drop c)) c') ∧
    (∀ p ∈ [declaration, statement], Progresses array p) ∧
    (∀ p ∈ [expression, comparison, arithmetic, unary, primary], Progresses array p) ∧
    ∀ k,
      let rest := array.drop (cursor array k)
      Moves array (cursor array k) (call array k) (cursor array (k + 1)) ∧
      Finishes (fun n => statements n []) rest ∧
      (∀ e rest', failedStatement (steps rest) rest = some (e, rest') → e.cause ≠ .outOfFuel) ∧
      ((∃ ss rest', call array k = .ok ss rest' ∧
          array[cursor array (k + 1)]?.map Token.isEnd = some true ∧
          ∀ j > k, ∃ rest', call array j = .ok [] rest') ∨
        ∃ e rest', call array k = .error e rest' ∧
          array[cursor array (k + 1)]?.map Token.isEnd = some false) := by
  intro array
  have closed : Closed array := closed_closeTokens tokens
  refine ⟨fun α seen p built c inside => ?_, stmts_progress closed, exprs_progress closed, fun k => ?_⟩
  · exact (built.passes _).moves closed inside
  have moves := moves_call closed (cursor_lt closed k)
  refine ⟨moves, statements_finish _, fun e rest' => ?_, ?_⟩
  · exact failedStatement_finished _ _ (by rw [steps]; omega)
  rw [map_isEnd_getElem? moves.inside, ← moves.left]
  obtain ⟨ss, rest', run, ended⟩ | ⟨e, rest', run, goesOn⟩ := program_end (array.drop (cursor array k))
  · have result : call array k = .ok ss rest' := run
    rw [result] at moves ⊢
    refine .inl ⟨ss, rest', rfl, congrArg some ended, fun j later => ?_⟩
    obtain ⟨i, rfl⟩ := Nat.exists_eq_add_of_le (Nat.succ_le_of_lt later)
    have stopped : atEnd (array.drop (cursor array (k + 1))) = true := by
      rw [← moves.left]
      exact ended
    exact ⟨_, (call_atEnd stopped closed i).2⟩
  · have result : call array k = .error e rest' := run
    rw [result]
    exact .inr ⟨e, rest', rfl, congrArg some goesOn⟩

end Parser

end ImpCompiler
