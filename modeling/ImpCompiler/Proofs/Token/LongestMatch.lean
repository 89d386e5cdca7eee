import Mathlib.Computability.Language
import ImpCompiler.Proofs.Token.Layout

/-! # The longest match

A lexeme is a word of one of the patterns below, which are languages made of single words and of
classes of characters.  At each point the scanner takes the longest word that any pattern has there,
and one unknown character where no pattern has any (`next_longestMatch`).

The patterns overlap in how their words start, but the first character leaves at most two of them
(`leading_of_mem`), so that the match is compared with the words of these only. -/

namespace ImpCompiler

open Computability

/-! ## Patterns -/

/-- The words of one character that has the property. -/
def oneChar (property : Char → Prop) : Language Char :=
  {word | ∃ c, property c ∧ word = [c]}

/-- The words of a list. -/
def anyOf (words : List (List Char)) : Language Char :=
  {word | word ∈ words}

@[simp]
theorem mem_anyOf {words : List (List Char)} {word : List Char} : word ∈ anyOf words ↔ word ∈ words :=
  Iff.rfl

def IsDigit (c : Char) : Prop :=
  '0' ≤ c ∧ c ≤ '9'

def IsLetter (c : Char) : Prop :=
  'A' ≤ c ∧ c ≤ 'Z' ∨ 'a' ≤ c ∧ c ≤ 'z' ∨ c = '_'

/-- The words of one digit or more. -/
def digits : Language Char :=
  oneChar IsDigit * (oneChar IsDigit)∗

/-- The forms of lexemes. -/
inductive Pattern where
  | leftParen
  | rightParen
  | leftBrace
  | rightBrace
  | semicolon
  | comma
  | compare
  | operator
  | arithmetic
  | float
  | int
  | string
  /-- A string that is not closed. -/
  | openString
  | word

namespace Pattern

def language : Pattern → Language Char
  | .leftParen => anyOf [['(']]
  | .rightParen => anyOf [[')']]
  | .leftBrace => anyOf [['{']]
  | .rightBrace => anyOf [['}']]
  | .semicolon => anyOf [[';']]
  | .comma => anyOf [[',']]
  | .compare => anyOf [['=', '='], ['!', '='], ['<', '='], ['>', '='], ['<'], ['>']]
  | .operator => anyOf [['='], ['!']]
  | .arithmetic => anyOf [['+'], ['-'], ['*'], ['/']]
  | .float => digits * anyOf [['.']] * digits
  | .int => digits
  | .string => anyOf [['"']] * (oneChar (· ≠ '"'))∗ * anyOf [['"']]
  | .openString => anyOf [['"']] * (oneChar (· ≠ '"'))∗
  | .word => oneChar IsLetter * (oneChar fun c => IsLetter c ∨ IsDigit c)∗

/-- The kind of the token for a word of the pattern. -/
def kind : Pattern → List Char → Kind
  | .leftParen, _ => .leftParen
  | .rightParen, _ => .rightParen
  | .leftBrace, _ => .leftBrace
  | .rightBrace, _ => .rightBrace
  | .semicolon, _ => .semicolon
  | .comma, _ => .comma
  | .compare, _ => .compare
  | .operator, _ => .operator
  | .arithmetic, _ => .arithmetic
  | .float, _ => .floatLiteral
  | .int, _ => .intLiteral
  | .string, _ => .stringLiteral
  | .openString, _ => .unknown
  | .word, lexeme => Kind.ofWord (String.ofList lexeme)

/-- The text of the token for a word of the pattern: a string loses its quotes. -/
def text : Pattern → List Char → String
  | .string, lexeme => String.ofList lexeme.tail.dropLast
  | .openString, _ => Lexeme.unterminated
  | _, lexeme => String.ofList lexeme

end Pattern

/-- What the patterns say about the lexeme at the front of `rest`, and about kind and text of its
    token: it is the longest word that a pattern has there, and that of one pattern only; where no
    pattern has a word, it is an unknown character. -/
inductive LongestMatch (rest : List Char) : List Char → Kind → String → Prop where
  | matched {lexeme} (pattern : Pattern) (member : lexeme ∈ pattern.language) (front : lexeme <+: rest)
      (longest : ∀ other : Pattern, ∀ word ∈ other.language, word <+: rest → word.length ≤ lexeme.length)
      (only : ∀ other : Pattern, lexeme ∈ other.language → other = pattern) :
      LongestMatch rest lexeme (pattern.kind lexeme) (pattern.text lexeme)
  | unmatched {c cs} (starts : rest = c :: cs)
      (absent : ∀ pattern : Pattern, ∀ word ∈ pattern.language, ¬ word <+: rest) :
      LongestMatch rest [c] .unknown (String.ofList [c])

/-! ## Words of patterns -/

theorem mem_star_iff {property : Char → Prop} {word : List Char} :
    word ∈ (oneChar property)∗ ↔ ∀ c ∈ word, property c := by
  rw [Language.mem_kstar]
  constructor
  · rintro ⟨words, rfl, single⟩ c member
    obtain ⟨word, found, inside⟩ := List.mem_flatten.mp member
    obtain ⟨d, holds, rfl⟩ := single word found
    rwa [List.mem_singleton.mp inside]
  · intro all
    refine ⟨word.map fun c => [c], by rw [← List.flatMap_def, List.flatMap_singleton'], ?_⟩
    intro single member
    obtain ⟨c, inside, rfl⟩ := List.mem_map.mp member
    exact ⟨c, all c inside, rfl⟩

/-- A character of one class, and behind it any number of characters of another. -/
theorem mem_oneChar_mul_star_iff {first further : Char → Prop} {word : List Char} :
    word ∈ oneChar first * (oneChar further)∗ ↔
      ∃ c cs, word = c :: cs ∧ first c ∧ ∀ d ∈ cs, further d := by
  rw [Language.mem_mul]
  constructor
  · rintro ⟨_, ⟨c, holds, rfl⟩, cs, all, rfl⟩
    exact ⟨c, cs, rfl, holds, mem_star_iff.mp all⟩
  · rintro ⟨c, cs, rfl, holds, all⟩
    exact ⟨[c], ⟨c, holds, rfl⟩, cs, mem_star_iff.mpr all, rfl⟩

theorem isDigit_iff (c : Char) : c.isDigit = true ↔ IsDigit c := by
  simp [Char.isDigit, IsDigit, Char.le_def]

theorem isWordStart_iff (c : Char) : Lexeme.isWordStart c = true ↔ IsLetter c := by
  delta Lexeme.isWordStart Char.isAlpha Char.isUpper Char.isLower
  simp [IsLetter, Char.le_def, or_assoc]

theorem isWordPart_iff (c : Char) : Lexeme.isWordPart c = true ↔ IsLetter c ∨ IsDigit c := by
  rw [← isWordStart_iff, ← isDigit_iff]
  simp only [Lexeme.isWordPart, Lexeme.isWordStart, Char.isAlphanum, Bool.or_eq_true]
  exact or_right_comm

theorem mem_digits_iff {word : List Char} :
    word ∈ digits ↔ word ≠ [] ∧ ∀ c ∈ word, c.isDigit = true := by
  simp only [digits, mem_oneChar_mul_star_iff, ← isDigit_iff]
  cases word with
  | nil => simp
  | cons c cs => simp

theorem mem_float_iff {word : List Char} :
    word ∈ Pattern.language .float ↔
      ∃ whole fraction, whole ∈ digits ∧ fraction ∈ digits ∧ word = whole ++ '.' :: fraction := by
  simp only [Pattern.language, Language.mem_mul, mem_anyOf, List.mem_singleton]
  constructor
  · rintro ⟨_, ⟨whole, inWhole, _, rfl, rfl⟩, fraction, inFraction, rfl⟩
    exact ⟨whole, fraction, inWhole, inFraction, by simp⟩
  · rintro ⟨whole, fraction, inWhole, inFraction, rfl⟩
    exact ⟨_, ⟨whole, inWhole, _, rfl, rfl⟩, fraction, inFraction, by simp⟩

theorem mem_openString_iff {word : List Char} :
    word ∈ Pattern.language .openString ↔ ∃ content, '"' ∉ content ∧ word = '"' :: content := by
  simp only [Pattern.language, Language.mem_mul, mem_star_iff, mem_anyOf, List.mem_singleton]
  constructor
  · rintro ⟨_, rfl, content, within, rfl⟩
    exact ⟨content, fun member => within _ member rfl, rfl⟩
  · rintro ⟨content, within, rfl⟩
    exact ⟨_, rfl, content, fun c member same => within (same ▸ member), rfl⟩

theorem mem_string_iff {word : List Char} :
    word ∈ Pattern.language .string ↔ ∃ content, '"' ∉ content ∧ word = '"' :: content ++ ['"'] := by
  have split : Pattern.language .string = Pattern.language .openString * anyOf [['"']] := rfl
  simp only [split, Language.mem_mul, mem_anyOf, List.mem_singleton]
  constructor
  · rintro ⟨_, opened, _, rfl, rfl⟩
    obtain ⟨content, within, rfl⟩ := mem_openString_iff.mp opened
    exact ⟨content, within, rfl⟩
  · rintro ⟨content, within, rfl⟩
    exact ⟨_, mem_openString_iff.mpr ⟨content, within, rfl⟩, _, rfl, rfl⟩

/-! ## First characters -/

/-- What a first character says about the lexeme. -/
inductive Leading where
  | sign (kind : Kind)
  | relation
  | digit
  | letter
  | quote
  | other
  deriving DecidableEq

def Leading.of (c : Char) : Leading :=
  match Lexeme.punctuation? c with
  | some kind => .sign kind
  | none =>
    if (Lexeme.relation? c).isSome then .relation
    else if c.isDigit then .digit
    else if Lexeme.isWordStart c then .letter
    else if c == '"' then .quote
    else .other

/-- How the words of a pattern start. -/
def Pattern.leading : Pattern → Leading
  | .leftParen => .sign .leftParen
  | .rightParen => .sign .rightParen
  | .leftBrace => .sign .leftBrace
  | .rightBrace => .sign .rightBrace
  | .semicolon => .sign .semicolon
  | .comma => .sign .comma
  | .compare => .relation
  | .operator => .relation
  | .arithmetic => .sign .arithmetic
  | .float => .digit
  | .int => .digit
  | .string => .quote
  | .openString => .quote
  | .word => .letter

/-- No digit and no letter is a sign or part of a comparison. -/
theorem punctuation?_of_isWordPart {c : Char} (part : Lexeme.isWordPart c = true) :
    Lexeme.punctuation? c = none ∧ Lexeme.relation? c = none := by
  constructor
  · unfold Lexeme.punctuation?
    split
    case h_11 => rfl
    all_goals exact absurd part (by decide)
  · unfold Lexeme.relation?
    split
    case h_5 => rfl
    all_goals exact absurd part (by decide)

theorem Leading.of_digit {c : Char} (digit : c.isDigit = true) : Leading.of c = .digit := by
  have part : Lexeme.isWordPart c = true := (isWordPart_iff c).mpr (.inr ((isDigit_iff c).mp digit))
  obtain ⟨noSign, noRelation⟩ := punctuation?_of_isWordPart part
  simp [Leading.of, noSign, noRelation, digit]

theorem Leading.of_letter {c : Char} (letter : Lexeme.isWordStart c = true) : Leading.of c = .letter := by
  have part : Lexeme.isWordPart c = true := (isWordPart_iff c).mpr (.inl ((isWordStart_iff c).mp letter))
  obtain ⟨noSign, noRelation⟩ := punctuation?_of_isWordPart part
  have noDigit : c.isDigit = false := by
    refine Bool.eq_false_iff.mpr fun digit => ?_
    simp only [isWordStart_iff, isDigit_iff, IsLetter, IsDigit, Char.le_def] at letter digit
    obtain letter | letter | rfl := letter
    · exact absurd (UInt32.le_trans letter.1 digit.2) (by decide)
    · exact absurd (UInt32.le_trans letter.1 digit.2) (by decide)
    · exact absurd digit (by decide)
  simp [Leading.of, noSign, noRelation, letter, noDigit]

theorem leading_of_mem_digits {word : List Char} (member : word ∈ digits) :
    ∃ c cs, word = c :: cs ∧ Leading.of c = .digit := by
  obtain ⟨some, all⟩ := mem_digits_iff.mp member
  cases word with
  | nil => exact absurd rfl some
  | cons c cs => exact ⟨c, cs, rfl, Leading.of_digit (all c (List.mem_cons_self ..))⟩

theorem leading_of_mem_anyOf {words : List (List Char)} {leading : Leading} {word : List Char}
    (member : word ∈ anyOf words) (starts : ∀ word ∈ words, word.head?.map Leading.of = some leading) :
    ∃ c cs, word = c :: cs ∧ Leading.of c = leading := by
  obtain ⟨c, first, same⟩ := Option.map_eq_some_iff.mp (starts word member)
  obtain ⟨cs, rfl⟩ := List.head?_eq_some_iff.mp first
  exact ⟨c, cs, rfl, same⟩

/-- A word starts as its pattern does. -/
theorem leading_of_mem {pattern : Pattern} {word : List Char} (member : word ∈ pattern.language) :
    ∃ c cs, word = c :: cs ∧ Leading.of c = pattern.leading := by
  cases pattern with
  | leftParen | rightParen | leftBrace | rightBrace | semicolon | comma | compare | operator | arithmetic =>
    exact leading_of_mem_anyOf member (by decide)
  | float =>
    obtain ⟨whole, fraction, inWhole, _, rfl⟩ := mem_float_iff.mp member
    obtain ⟨c, cs, rfl, digit⟩ := leading_of_mem_digits inWhole
    exact ⟨c, _, rfl, digit⟩
  | int => exact leading_of_mem_digits member
  | string =>
    obtain ⟨content, _, rfl⟩ := mem_string_iff.mp member
    exact ⟨_, _, rfl, rfl⟩
  | openString =>
    obtain ⟨content, _, rfl⟩ := mem_openString_iff.mp member
    exact ⟨_, _, rfl, rfl⟩
  | word =>
    obtain ⟨c, cs, rfl, letter, _⟩ := mem_oneChar_mul_star_iff.mp member
    exact ⟨c, cs, rfl, Leading.of_letter ((isWordStart_iff c).mpr letter)⟩

/-! ## The words of each pattern, compared with the others -/

/-- Only patterns that start alike compete. -/
theorem longestMatch_of_leading {pattern : Pattern} {lexeme rest : List Char}
    (member : lexeme ∈ pattern.language) (front : lexeme <+: rest)
    (longest : ∀ other : Pattern, other.leading = pattern.leading →
      ∀ word ∈ other.language, word <+: rest → word.length ≤ lexeme.length)
    (only : ∀ other : Pattern, other.leading = pattern.leading → lexeme ∈ other.language →
      other = pattern) :
    LongestMatch rest lexeme (pattern.kind lexeme) (pattern.text lexeme) := by
  obtain ⟨c, cs, rfl, first⟩ := leading_of_mem member
  refine .matched pattern member front (fun other word found isFront => ?_) (fun other found => ?_)
  · obtain ⟨d, ds, rfl, firstOther⟩ := leading_of_mem found
    obtain ⟨behind, rfl⟩ := front
    have same : d = c := (List.cons_prefix_cons.mp isFront).1
    exact longest other (by rw [← firstOther, same, first]) _ found isFront
  · obtain ⟨d, ds, split, firstOther⟩ := leading_of_mem found
    rw [← (List.cons.inj split).1] at firstOther
    exact only other (firstOther.symm.trans first) found

/-- The text does not go on with a character of the class. -/
def Stops (accepts : Char → Bool) (text : List Char) : Prop :=
  ∀ c, text.head? = some c → accepts c = false

theorem stops_cons {accepts : Char → Bool} {c : Char} (other : accepts c = false) (cs : List Char) :
    Stops accepts (c :: cs) := by
  rintro d ⟨⟩
  exact other

theorem stops_dropWhile (accepts : Char → Bool) (cs : List Char) :
    Stops accepts (cs.dropWhile accepts) := by
  intro c found
  simpa [found] using List.head?_dropWhile_not accepts cs

/-- A text of some class is no longer than the characters before the first one that is not of the
    class. -/
theorem length_le_of_stops {accepts : Char → Bool} {word front behind : List Char}
    (isFront : word <+: front ++ behind) (all : ∀ c ∈ word, accepts c = true)
    (stops : Stops accepts behind) : word.length ≤ front.length := by
  obtain shorter | ⟨more, rfl⟩ := List.prefix_or_prefix_of_prefix isFront (List.prefix_append front behind)
  · exact shorter.length_le
  · cases more with
    | nil => rw [List.append_nil]
    | cons c more =>
      obtain ⟨rest, same⟩ := List.prefix_append_right_inj front |>.mp isFront
      have stop := stops c (by rw [← same]; rfl)
      rw [all c (by simp)] at stop
      cases stop

/-- A text can be cut in one way only before the first character that is not of a class. -/
theorem cut_unique {accepts : Char → Bool} {front behind front' behind' : List Char}
    (all : ∀ c ∈ front, accepts c = true) (stops : Stops accepts behind)
    (all' : ∀ c ∈ front', accepts c = true) (stops' : Stops accepts behind')
    (same : front ++ behind = front' ++ behind') : front = front' ∧ behind = behind' := by
  have shorter := length_le_of_stops ⟨behind, same⟩ all stops'
  have longer := length_le_of_stops ⟨behind', same.symm⟩ all' stops
  exact List.append_inj same (Nat.le_antisymm shorter longer)

/-- The pattern of a sign or a lone relation. -/
def Pattern.ofKind : Kind → Pattern
  | .leftParen => .leftParen
  | .rightParen => .rightParen
  | .leftBrace => .leftBrace
  | .rightBrace => .rightBrace
  | .semicolon => .semicolon
  | .comma => .comma
  | .compare => .compare
  | .operator => .operator
  | _ => .arithmetic

theorem Pattern.text_ofKind (kind : Kind) (lexeme : List Char) :
    (ofKind kind).text lexeme = String.ofList lexeme := by
  unfold ofKind
  split <;> rfl

/-- A lexeme of one character. -/
theorem longestMatch_single {c : Char} {cs : List Char} {kind : Kind}
    (member : [c] ∈ (Pattern.ofKind kind).language) (named : (Pattern.ofKind kind).kind [c] = kind)
    (longest : ∀ other : Pattern, other.leading = (Pattern.ofKind kind).leading →
      ∀ word ∈ other.language, word <+: c :: cs → word.length ≤ 1)
    (only : ∀ other : Pattern, other.leading = (Pattern.ofKind kind).leading →
      [c] ∈ other.language → other = .ofKind kind) :
    LongestMatch (c :: cs) [c] kind (String.ofList [c]) := by
  have found := longestMatch_of_leading member ⟨cs, rfl⟩ longest only
  rwa [named, Pattern.text_ofKind] at found

theorem eq_ofKind_of_sign {pattern : Pattern} {kind : Kind} (sign : pattern.leading = .sign kind) :
    pattern = .ofKind kind := by
  cases pattern <;> cases sign <;> rfl

theorem length_of_sign {pattern : Pattern} {kind : Kind} (sign : pattern.leading = .sign kind)
    {word : List Char} (member : word ∈ pattern.language) : word.length = 1 := by
  cases pattern <;> cases sign <;>
    simp only [Pattern.language, mem_anyOf, List.mem_cons, List.not_mem_nil, or_false] at member <;>
    grind

theorem longestMatch_sign {c : Char} {kind : Kind} (sign : Lexeme.punctuation? c = some kind)
    (cs : List Char) : LongestMatch (c :: cs) [c] kind (String.ofList [c]) := by
  have pattern : [c] ∈ (Pattern.ofKind kind).language ∧ (Pattern.ofKind kind).leading = .sign kind ∧
      (Pattern.ofKind kind).kind [c] = kind := by
    revert sign
    unfold Lexeme.punctuation?
    split <;> intro sign <;> cases sign <;>
      simp [Pattern.ofKind, Pattern.language, Pattern.leading, Pattern.kind]
  obtain ⟨member, leading, named⟩ := pattern
  refine longestMatch_single member named (fun other same word member _ => ?_) (fun other same _ => ?_)
  · exact (length_of_sign (same.trans leading) member).le
  · exact eq_ofKind_of_sign (same.trans leading)

/-- Comparisons and operators have one character, or a second one that is `=`. -/
theorem word_of_relation {pattern : Pattern} (relation : pattern.leading = .relation)
    {word : List Char} (member : word ∈ pattern.language) :
    word.length = 1 ∨ pattern = .compare ∧ ∃ c, word = [c, '='] := by
  cases pattern <;> cases relation <;>
    simp only [Pattern.language, mem_anyOf, List.mem_cons, List.not_mem_nil, or_false] at member <;>
    grind

theorem relation?_of_mem : ∀ c ∈ ['=', '!', '<', '>'], ∃ kind, Lexeme.relation? c = some kind := by
  simp [Lexeme.relation?]

theorem longestMatch_comparison {c : Char} {kind : Kind} (relation : Lexeme.relation? c = some kind)
    (cs : List Char) :
    LongestMatch (c :: '=' :: cs) [c, '='] .compare (String.ofList [c, '=']) := by
  have member : [c, '='] ∈ Pattern.language .compare := by
    revert relation
    unfold Lexeme.relation?
    split <;> simp [Pattern.language]
  refine longestMatch_of_leading member ⟨cs, rfl⟩ (fun other same word member _ => ?_)
    (fun other same member => ?_)
  · obtain single | ⟨-, d, rfl⟩ := word_of_relation same member
    · simp [single]
    · exact Nat.le_refl 2
  · obtain single | ⟨rfl, -⟩ := word_of_relation same member
    · cases single
    · rfl

theorem longestMatch_relation {c : Char} {kind : Kind} (relation : Lexeme.relation? c = some kind)
    {cs : List Char} (alone : cs.head? ≠ some '=') :
    LongestMatch (c :: cs) [c] kind (String.ofList [c]) := by
  have pattern : [c] ∈ (Pattern.ofKind kind).language ∧ (Pattern.ofKind kind).leading = .relation ∧
      (Pattern.ofKind kind).kind [c] = kind := by
    revert relation
    unfold Lexeme.relation?
    split <;> intro relation <;> cases relation <;>
      simp [Pattern.ofKind, Pattern.language, Pattern.leading, Pattern.kind]
  -- the characters that are operators alone are no comparisons alone
  have only (other : Pattern) (same : other.leading = .relation) (member : [c] ∈ other.language) :
      other = .ofKind kind := by
    revert relation
    unfold Lexeme.relation?
    split <;> intro relation <;> cases relation <;> cases other <;> cases same <;>
      simp [Pattern.language, Pattern.ofKind] at member ⊢
  obtain ⟨member, leading, named⟩ := pattern
  refine longestMatch_single member named (fun other same word member isFront => ?_)
    (fun other same => only other (same.trans leading))
  obtain single | ⟨-, d, rfl⟩ := word_of_relation (same.trans leading) member
  · exact single.le
  · -- a longer word would need the `=` that does not follow
    obtain ⟨more, split⟩ := isFront
    exact absurd (congrArg List.head? (List.cons.inj split).2).symm alone

theorem point_stops (behind : List Char) : Stops Char.isDigit ('.' :: behind) :=
  stops_cons (by decide) behind

theorem not_mem_of_digits {word : List Char} (member : word ∈ digits) : '.' ∉ word := by
  intro point
  exact absurd ((mem_digits_iff.mp member).2 _ point) (by decide)

theorem longestMatch_float {whole fraction behind : List Char} (inWhole : whole ∈ digits)
    (inFraction : fraction ∈ digits) (stops : Stops Char.isDigit behind) :
    LongestMatch (whole ++ '.' :: fraction ++ behind) (whole ++ '.' :: fraction) .floatLiteral
      (String.ofList (whole ++ '.' :: fraction)) := by
  have member : whole ++ '.' :: fraction ∈ Pattern.language .float :=
    mem_float_iff.mpr ⟨whole, fraction, inWhole, inFraction, rfl⟩
  refine longestMatch_of_leading member ⟨behind, rfl⟩ (fun other same word found isFront => ?_)
    (fun other same found => ?_)
  · cases other with
    | float =>
      -- the point is where the digits end, so both words have the same one
      obtain ⟨whole', fraction', inWhole', inFraction', rfl⟩ := mem_float_iff.mp found
      obtain ⟨more, split⟩ := isFront
      rw [List.append_assoc, List.append_assoc] at split
      obtain ⟨rfl, same⟩ := cut_unique (mem_digits_iff.mp inWhole').2 (point_stops _)
        (mem_digits_iff.mp inWhole).2 (point_stops _) split
      have shorter := length_le_of_stops ⟨more, (List.cons.inj same).2⟩ (mem_digits_iff.mp inFraction').2 stops
      simpa using shorter
    | int =>
      rw [List.append_assoc] at isFront
      have shorter := length_le_of_stops isFront (mem_digits_iff.mp found).2 (point_stops _)
      simp only [List.length_append]
      omega
    | _ => cases same
  · cases other with
    | float => rfl
    | int => exact absurd (by simp) (not_mem_of_digits found)
    | _ => cases same

theorem longestMatch_int {whole behind : List Char} (inWhole : whole ∈ digits)
    (stops : Stops Char.isDigit behind)
    (noFraction : ∀ c more, behind = '.' :: c :: more → c.isDigit = false) :
    LongestMatch (whole ++ behind) whole .intLiteral (String.ofList whole) := by
  have member : whole ∈ Pattern.language .int := inWhole
  -- the digits of a float would end here too, and its fraction would start behind the point
  have noFloat (word : List Char) (found : word ∈ Pattern.language .float)
      (isFront : word <+: whole ++ behind) : False := by
    obtain ⟨whole', fraction, inWhole', inFraction, rfl⟩ := mem_float_iff.mp found
    obtain ⟨more, split⟩ := isFront
    rw [List.append_assoc] at split
    obtain ⟨-, rfl⟩ := cut_unique (mem_digits_iff.mp inWhole').2 (point_stops _)
      (mem_digits_iff.mp inWhole).2 stops split
    obtain ⟨c, cs, rfl, -⟩ := leading_of_mem_digits inFraction
    have digit := (mem_digits_iff.mp inFraction).2 c (List.mem_cons_self ..)
    rw [noFraction c (cs ++ more) rfl] at digit
    cases digit
  refine longestMatch_of_leading member ⟨behind, rfl⟩ (fun other same word found isFront => ?_)
    (fun other same found => ?_)
  · cases other with
    | float => exact (noFloat word found isFront).elim
    | int => exact length_le_of_stops isFront (mem_digits_iff.mp found).2 stops
    | _ => cases same
  · cases other with
    | float => exact (noFloat whole found ⟨behind, rfl⟩).elim
    | int => rfl
    | _ => cases same

theorem longestMatch_word {c : Char} {cs behind : List Char} (letter : Lexeme.isWordStart c = true)
    (parts : ∀ d ∈ cs, Lexeme.isWordPart d = true)
    (stops : Stops Lexeme.isWordPart behind) :
    LongestMatch (c :: cs ++ behind) (c :: cs) (Kind.ofWord (String.ofList (c :: cs)))
      (String.ofList (c :: cs)) := by
  have member : c :: cs ∈ Pattern.language .word :=
    mem_oneChar_mul_star_iff.mpr ⟨c, cs, rfl, (isWordStart_iff c).mp letter,
      fun d inside => (isWordPart_iff d).mp (parts d inside)⟩
  refine longestMatch_of_leading member ⟨behind, rfl⟩ (fun other same word found isFront => ?_)
    (fun other same found => ?_)
  · cases other with
    | word =>
      obtain ⟨d, ds, rfl, letter, parts⟩ := mem_oneChar_mul_star_iff.mp found
      refine length_le_of_stops isFront (fun e inside => ?_) stops
      rw [isWordPart_iff]
      obtain rfl | inside := List.mem_cons.mp inside
      · exact .inl letter
      · exact parts e inside
    | _ => cases same
  · cases other with
    | word => rfl
    | _ => cases same

theorem unquoted_of_not_mem {content : List Char} (within : '"' ∉ content) :
    ∀ c ∈ content, (c != '"') = true := by
  intro c member
  rw [bne_iff_ne]
  rintro rfl
  exact within member

theorem longestMatch_string {content : List Char} (within : '"' ∉ content) (behind : List Char) :
    LongestMatch ('"' :: content ++ ['"'] ++ behind) ('"' :: content ++ ['"']) .stringLiteral
      (String.ofList content) := by
  have member : '"' :: content ++ ['"'] ∈ Pattern.language .string :=
    mem_string_iff.mpr ⟨content, within, rfl⟩
  have inner : Pattern.text .string ('"' :: content ++ ['"']) = String.ofList content := by
    simp [Pattern.text]
  rw [← inner]
  refine longestMatch_of_leading member ⟨behind, rfl⟩ (fun other same word found isFront => ?_)
    (fun other same found => ?_)
  · have shorter (inner : List Char) (within' : '"' ∉ inner)
        (isFront : '"' :: inner <+: '"' :: content ++ ['"'] ++ behind) : inner.length ≤ content.length := by
      rw [List.append_assoc] at isFront
      exact length_le_of_stops (List.cons_prefix_cons.mp isFront).2 (unquoted_of_not_mem within')
        (stops_cons (by decide) behind)
    cases other with
    | string =>
      obtain ⟨inner, within', rfl⟩ := mem_string_iff.mp found
      have := shorter inner within' ((List.prefix_append _ _).trans isFront)
      simpa using this
    | openString =>
      obtain ⟨inner, within', rfl⟩ := mem_openString_iff.mp found
      have := shorter inner within' isFront
      simp only [List.cons_append, List.length_cons, List.length_append]
      omega
    | _ => cases same
  · cases other with
    | string => rfl
    | openString =>
      obtain ⟨inner, within', split⟩ := mem_openString_iff.mp found
      have closed : content ++ ['"'] = inner := (List.cons.inj split).2
      exact absurd (by simp [← closed]) within'
    | _ => cases same

theorem longestMatch_openString {content : List Char} (within : '"' ∉ content) :
    LongestMatch ('"' :: content) ('"' :: content) .unknown Lexeme.unterminated := by
  have member : '"' :: content ∈ Pattern.language .openString :=
    mem_openString_iff.mpr ⟨content, within, rfl⟩
  refine longestMatch_of_leading member (List.prefix_refl _) (fun other _ word _ isFront => isFront.length_le)
    (fun other same found => ?_)
  cases other with
  | string =>
    obtain ⟨inner, _, split⟩ := mem_string_iff.mp found
    have closed : content = inner ++ ['"'] := (List.cons.inj split).2
    exact absurd (by simp [closed]) within
  | openString => rfl
  | _ => cases same

theorem longestMatch_unknown {c : Char} (other : Leading.of c = .other) (cs : List Char) :
    LongestMatch (c :: cs) [c] .unknown (String.ofList [c]) := by
  refine .unmatched rfl fun pattern word found isFront => ?_
  obtain ⟨d, ds, rfl, leading⟩ := leading_of_mem found
  rw [(List.cons_prefix_cons.mp isFront).1, other] at leading
  cases pattern <;> cases leading

/-! ## The scanner -/

theorem LongestMatch.exists_cons {rest lexeme : List Char} {kind : Kind} {text : String}
    (found : LongestMatch rest lexeme kind text) : ∃ c cs, rest = c :: cs := by
  cases found with
  | matched pattern member front =>
    obtain ⟨c, cs, rfl, -⟩ := leading_of_mem member
    obtain ⟨behind, rfl⟩ := front
    exact ⟨c, cs ++ behind, rfl⟩
  | unmatched starts => exact ⟨_, _, starts⟩

/-- Only one lexeme is the longest match. -/
theorem LongestMatch.unique {rest lexeme lexeme' : List Char} {kind kind' : Kind} {text text' : String}
    (found : LongestMatch rest lexeme kind text) (found' : LongestMatch rest lexeme' kind' text') :
    lexeme = lexeme' ∧ kind = kind' ∧ text = text' := by
  cases found with
  | matched pattern member front longest only =>
    cases found' with
    | matched pattern' member' front' longest' _ =>
      have shorter := longest' pattern lexeme member front
      have longer := longest pattern' lexeme' member' front'
      obtain rfl := (List.prefix_of_prefix_length_le front front' shorter).eq_of_length_le longer
      obtain rfl := only pattern' member'
      exact ⟨rfl, rfl, rfl⟩
    | unmatched _ absent => exact absurd front (absent pattern lexeme member)
  | unmatched starts absent =>
    cases found' with
    | matched pattern' member' front' => exact absurd front' (absent pattern' lexeme' member')
    | unmatched starts' _ =>
      obtain ⟨rfl, -⟩ := List.cons.inj (starts.symm.trans starts')
      exact ⟨rfl, rfl, rfl⟩

/-- The lexeme is the longest match at the front of the text. -/
def Lexeme.IsLongest (lexeme : Lexeme) (rest : List Char) : Prop :=
  LongestMatch rest lexeme.source lexeme.kind lexeme.text

theorem takeWhile_mem_digits {c : Char} (digit : c.isDigit = true) (cs : List Char) :
    (c :: cs).takeWhile Char.isDigit ∈ digits := by
  refine mem_digits_iff.mpr ⟨?_, fun d member => List.mem_takeWhile_imp member⟩
  rw [List.takeWhile_cons_of_pos digit]
  exact List.cons_ne_nil _ _

theorem number_isLongest {c : Char} (digit : c.isDigit = true) (cs : List Char) :
    (Lexeme.number (c :: cs)).1.IsLongest (c :: cs) := by
  have inWhole := takeWhile_mem_digits digit cs
  have stops := stops_dropWhile Char.isDigit (c :: cs)
  have cut := List.takeWhile_append_dropWhile (p := Char.isDigit) (l := c :: cs)
  rw [Lexeme.number]
  split
  · rename_i d more rest
    rw [rest] at stops cut
    split
    · rename_i digit
      have found := longestMatch_float inWhole (takeWhile_mem_digits digit more)
        (stops_dropWhile Char.isDigit (d :: more))
      rw [List.append_assoc, List.cons_append, List.takeWhile_append_dropWhile, cut] at found
      exact found
    · rename_i noDigit
      have found := longestMatch_int inWhole stops fun e further same => by
        obtain ⟨rfl, -⟩ := List.cons.inj (List.cons.inj same).2
        exact Bool.eq_false_iff.mpr noDigit
      rw [cut] at found
      exact found
  · rename_i noPoint
    have found := longestMatch_int inWhole stops fun e further same => absurd same (noPoint e further)
    rw [cut] at found
    exact found

theorem word_isLongest {c : Char} (letter : Lexeme.isWordStart c = true) (cs : List Char) :
    (Lexeme.word (c :: cs)).1.IsLongest (c :: cs) := by
  have part : Lexeme.isWordPart c = true := (isWordPart_iff c).mpr (.inl ((isWordStart_iff c).mp letter))
  have parts (d : Char) (member : d ∈ cs.takeWhile Lexeme.isWordPart) : Lexeme.isWordPart d = true :=
    List.mem_takeWhile_imp member
  have found := longestMatch_word letter parts (stops_dropWhile Lexeme.isWordPart cs)
  rw [List.cons_append, List.takeWhile_append_dropWhile] at found
  rw [Lexeme.word, List.takeWhile_cons_of_pos part]
  exact found

theorem quoted_isLongest (cs : List Char) : (Lexeme.quoted cs).1.IsLongest ('"' :: cs) := by
  have within := Lexeme.not_mem_takeWhile_quote cs
  have stops := stops_dropWhile (· != '"') cs
  have cut := List.takeWhile_append_dropWhile (p := (· != '"')) (l := cs)
  rw [Lexeme.quoted]
  split
  · rename_i rest
    rw [rest, List.append_nil] at cut
    have found := longestMatch_openString within
    nth_rewrite 1 [cut] at found
    exact found
  · rename_i quote behind rest
    rw [rest] at stops cut
    obtain rfl : quote = '"' := by simpa using stops quote rfl
    have found := longestMatch_string within behind
    rw [List.append_assoc, List.cons_append, List.singleton_append, cut] at found
    exact found

theorem take_isLongest (c : Char) (cs : List Char) : (Lexeme.take c cs).1.IsLongest (c :: cs) := by
  cases sign : Lexeme.punctuation? c with
  | some kind =>
    simp only [Lexeme.take, sign]
    exact longestMatch_sign sign cs
  | none =>
    cases relation : Lexeme.relation? c with
    | some kind =>
      simp only [Lexeme.take, sign, relation]
      split
      · exact longestMatch_comparison relation _
      · rename_i alone
        exact longestMatch_relation relation fun starts => by
          obtain ⟨more, rfl⟩ := List.head?_eq_some_iff.mp starts
          exact alone more rfl
    | none =>
      simp only [Lexeme.take, sign, relation]
      by_cases digit : c.isDigit = true
      · rw [if_pos digit]
        exact number_isLongest digit cs
      by_cases letter : Lexeme.isWordStart c = true
      · rw [if_neg digit, if_pos letter]
        exact word_isLongest letter cs
      by_cases quote : c = '"'
      · subst quote
        exact quoted_isLongest cs
      · rw [if_neg digit, if_neg letter, if_neg (by simpa using quote)]
        exact longestMatch_unknown (by simp [Leading.of, sign, relation, digit, letter, quote]) cs

/-- The scanner leaves out the gap, takes the lexeme and stands at what is behind it. -/
def Scanner.Takes (s : Scanner) (gap lexeme : List Char) (kind : Kind) (text : String)
    (behind : List Char) : Prop :=
  s.next = (⟨kind, text, s.position.after gap⟩, ⟨behind, (s.position.after gap).after lexeme⟩)

theorem takes_of_longestMatch {gap rest lexeme behind : List Char} {kind : Kind} {text : String}
    (skipped : Gap gap rest) (stops : startsGap rest = false)
    (found : LongestMatch rest lexeme kind text) (split : rest = lexeme ++ behind) (p : Position) :
    Scanner.Takes ⟨gap ++ rest, p⟩ gap lexeme kind text behind := by
  obtain ⟨c, cs, rfl⟩ := found.exists_cons
  obtain ⟨rfl, rfl, rfl⟩ := found.unique (take_isLongest c cs)
  have whole := take_source c cs
  rw [split, List.append_cancel_left_eq] at whole
  rw [Scanner.Takes, Scanner.next_of_piece skipped stops p, whole]

/-- Behind a gap, the scanner takes the longest match of the patterns, or a character that none of
    them matches.  So a point between digits makes one float of them, and any other point behind
    digits is an unknown character.  A comparison of two characters is never split, and a quote opens
    a string that runs to the next quote, or to the end of the text if there is none. -/
theorem next_longestMatch {gap rest : List Char} (skipped : Gap gap rest)
    (stops : startsGap rest = false) (goesOn : rest ≠ []) (p : Position) :
    (∃ lexeme kind text behind, rest = lexeme ++ behind ∧ LongestMatch rest lexeme kind text ∧
      Scanner.Takes ⟨gap ++ rest, p⟩ gap lexeme kind text behind) ∧
    (∀ whole ∈ digits, ∀ fraction ∈ digits, ∀ behind, (∀ c, behind.head? = some c → ¬ IsDigit c) →
      rest = whole ++ '.' :: fraction ++ behind →
      Scanner.Takes ⟨gap ++ rest, p⟩ gap (whole ++ '.' :: fraction) .floatLiteral
        (String.ofList (whole ++ '.' :: fraction)) behind) ∧
    (∀ whole ∈ digits, ∀ behind, (∀ c, behind.head? = some c → ¬ IsDigit c) →
      rest = whole ++ '.' :: behind →
      Scanner.Takes ⟨gap ++ rest, p⟩ gap whole .intLiteral (String.ofList whole) ('.' :: behind) ∧
      Scanner.Takes ⟨'.' :: behind, (p.after gap).after whole⟩ [] ['.'] .unknown "." behind) ∧
    (∀ c ∈ ['=', '!', '<', '>'], ∀ behind, rest = c :: '=' :: behind →
      Scanner.Takes ⟨gap ++ rest, p⟩ gap [c, '='] .compare (String.ofList [c, '=']) behind) ∧
    (∀ content behind, '"' ∉ content → rest = '"' :: content ++ ['"'] ++ behind →
      Scanner.Takes ⟨gap ++ rest, p⟩ gap ('"' :: content ++ ['"']) .stringLiteral
        (String.ofList content) behind) ∧
    (∀ content, '"' ∉ content → rest = '"' :: content →
      Scanner.Takes ⟨gap ++ rest, p⟩ gap ('"' :: content) .unknown Lexeme.unterminated []) := by
  have unlessDigit (behind : List Char) (ends : ∀ c, behind.head? = some c → ¬ IsDigit c) :
      Stops Char.isDigit behind := by
    intro c found
    rw [Bool.eq_false_iff, ne_eq, isDigit_iff]
    exact ends c found
  refine ⟨?_, ?_, ?_, ?_, ?_, ?_⟩
  · cases rest with
    | nil => exact absurd rfl goesOn
    | cons c cs =>
      exact ⟨_, _, _, _, (take_source c cs).symm, take_isLongest c cs, Scanner.next_of_piece skipped stops p⟩
  · rintro whole inWhole fraction inFraction behind ends rfl
    have found := longestMatch_float inWhole inFraction (unlessDigit behind ends)
    exact takes_of_longestMatch skipped stops found rfl p
  · rintro whole inWhole behind ends rfl
    have found := longestMatch_int inWhole (point_stops behind) fun c more same => by
      cases same
      exact unlessDigit (c :: more) ends c rfl
    have point : LongestMatch ('.' :: behind) ['.'] .unknown "." := longestMatch_unknown rfl behind
    exact ⟨takes_of_longestMatch skipped stops found rfl p, takes_of_longestMatch .empty rfl point rfl _⟩
  · rintro c relation behind rfl
    obtain ⟨kind, relation⟩ := relation?_of_mem c relation
    exact takes_of_longestMatch skipped stops (longestMatch_comparison relation behind) rfl p
  · rintro content behind within rfl
    exact takes_of_longestMatch skipped stops (longestMatch_string within behind) rfl p
  · rintro content within rfl
    exact takes_of_longestMatch skipped stops (longestMatch_openString within) (List.append_nil _).symm p

/-- Behind a comment, digits and a point without a fraction. -/
theorem next_longestMatch_point :
    Gap ['/', '/', '\n'] ['1', '.', '=', '='] ∧
    Scanner.Takes ⟨['/', '/', '\n', '1', '.', '=', '='], .start⟩ ['/', '/', '\n'] ['1'] .intLiteral "1"
      ['.', '=', '='] ∧
    Scanner.Takes ⟨['.', '=', '='], ⟨2, 2⟩⟩ [] ['.'] .unknown "." ['=', '='] := by
  have skipped : Gap ['/', '/', '\n'] ['1', '.', '=', '='] :=
    @Gap.comment [] ['\n'] _ (by simp) (by simp) (.blank rfl .empty)
  have whole : ['1'] ∈ digits := mem_digits_iff.mpr ⟨List.cons_ne_nil _ _, List.forall_mem_singleton.mpr rfl⟩
  have noDigit : ¬ IsDigit '=' := (isDigit_iff '=').not.mp Bool.false_ne_true
  have matched := next_longestMatch skipped rfl (List.cons_ne_nil _ _) .start
  exact ⟨skipped, matched.2.2.1 ['1'] whole ['=', '='] (by rintro c ⟨⟩; exact noDigit) rfl⟩

end ImpCompiler
