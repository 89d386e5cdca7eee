import ImpCompiler.Compilation
import ImpCompiler.Proofs.Lowering.Positions
import ImpCompiler.Proofs.Tree.Concatenation

/-! # Layout does not matter

Two texts with the same tokens, apart from where these stand, are compiled to the same module, or fail
with the same error, apart from where it is (`compile_layout`).  The parser carries places from tokens to
trees and errors, and lowering carries them from trees to errors; neither looks at them. -/

namespace ImpCompiler

/-- The error without its place. -/
def ParseError.unplaced (e : ParseError) : ParseError :=
  { e with position := .synthetic }

def LoweringError.unplaced : LoweringError → LoweringError :=
  .move fun _ => .synthetic

def CompileError.unplaced : CompileError → CompileError
  | .parse e => .parse e.unplaced
  | .lowering e => .lowering e.unplaced
  | .file e => .file e
  | .noMachine => .noMachine

theorem Token.unplaced_eq_move : Token.unplaced = Token.move fun _ => .synthetic := rfl

theorem ParseError.unplaced_atToken (t : Token) (cause : Cause) :
    (atToken t.unplaced cause).unplaced = (atToken t cause).unplaced := rfl

theorem Parser.Moved.unplaced {e e' : ParseError} (moved : Moved Token.unplaced e e') :
    e.unplaced = e'.unplaced := by
  cases moved with
  | atToken t cause => exact (ParseError.unplaced_atToken t cause).symm
  | atEnd cause => rfl

/-- Programs that differ in the places of their tokens only have the same module, or errors that differ
    in their places only. -/
theorem lowerProgram_unplaced (moduleName : String) {ss ss' : List Stmt}
    (same : ss'.map (Stmt.relabel Token.unplaced) = ss.map (Stmt.relabel Token.unplaced)) :
    (lowerProgram moduleName ss').mapError LoweringError.unplaced =
      (lowerProgram moduleName ss).mapError LoweringError.unplaced := by
  rw [Token.unplaced_eq_move] at same
  rw [LoweringError.unplaced, ← lowerProgram_move rfl, ← lowerProgram_move rfl, same]

/-- Two texts whose tokens have the same kinds and texts are compiled to the same module, or fail with the
    same error up to its position. -/
theorem compile_layout (moduleName : String) {a b : String}
    (same : (tokenize a).map Token.unplaced = (tokenize b).map Token.unplaced) :
    (∃ c c', compile moduleName a = .ok c ∧ compile moduleName b = .ok c' ∧ c.module = c'.module) ∨
    ∃ e e', compile moduleName a = .error e ∧ compile moduleName b = .error e' ∧
      e.unplaced = e'.unplaced := by
  rw [← closeTokens_tokenize a, ← closeTokens_tokenize b] at same
  obtain ⟨ss, ss', parsed, parsed', trees⟩ | ⟨e, e', moved, failed, failed', at_e, at_e'⟩ :=
    parseTokens_alike relabelling_unplaced same
  -- both texts are programs, with the same trees up to places
  · simp only [compile, parsed, parsed']
    obtain ⟨m, lowered', lowered⟩ | ⟨e', e, failed', failed, errors⟩ :=
      mapError_eq_cases (lowerProgram_unplaced moduleName trees)
    · rw [lowered, lowered']
      exact .inl ⟨_, _, rfl, rfl, rfl⟩
    · rw [failed, failed']
      exact .inr ⟨_, _, rfl, rfl, congrArg CompileError.lowering errors.symm⟩
  -- or neither is, and the parser fails at corresponding tokens
  · refine .inr ⟨.parse e, .parse e', ?_, ?_, ?_⟩
    · simp only [compile, failed]
    · simp only [compile, failed']
    · exact congrArg CompileError.parse (at_e.unplaced.trans at_e'.unplaced.symm)

/-- A program on one line, and the same one behind a comment and with another blank. -/
theorem compile_layout_comment :
    let a := "screenit 1;"
    let b := "//\nscreenit 1 ;"
    (tokenize a).map Token.unplaced = (tokenize b).map Token.unplaced ∧ tokenize a ≠ tokenize b ∧
      ∃ c c', compile "m" a = .ok c ∧ compile "m" b = .ok c' ∧ c.module = c'.module := by
  intro a b
  have same : (tokenize a).map Token.unplaced = (tokenize b).map Token.unplaced := by decide +kernel
  have lowers : (compile "m" a).isOk = true := by decide +kernel
  obtain compiled | ⟨e, e', failed, _⟩ := compile_layout "m" same
  · exact ⟨same, by decide +kernel, compiled⟩
  · rw [failed] at lowers
    cases lowers

end ImpCompiler
