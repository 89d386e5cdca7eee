import ImpCompiler.Lowering
import ImpCompiler.Proofs.Number.Nearest
import ImpCompiler.Proofs.Token.LongestMatch

/-! # Short float literals print back as written

A float literal consists of digits around one point, and stands for the float nearest to the number it
writes (`Binary64.ofText?_of_digits`).  If that number has few digits, the nearest number with six places
is again the one that was written (`Binary64.toFixed_ofDecimal`).  What is left is a matter of digits:
those that a number is printed with are those it was read from, without the zeros in front
(`toString_digitsValue`), and behind the point with all of them (`padded_digitsValue`).

Together they say that printing such a literal gives back its text, with zeros behind it up to six places
(`realLine_literal`). -/

namespace ImpCompiler

/-! ## Digits -/

/-- The digits behind the zeros in front. -/
def significant (cs : List Char) : List Char :=
  cs.dropWhile (· == '0')

/-- A number without superfluous zeros in front. -/
def plainNumber (cs : List Char) : List Char :=
  if significant cs = [] then ['0'] else significant cs

section digits

variable {cs : List Char}

theorem digitsValue_cons (n : Nat) (c : Char) (cs : List Char) :
    digitsValue n (c :: cs) = digitsValue (10 * n + (c.toNat - '0'.toNat)) cs := by
  rw [digitsValue, List.foldl_cons, digitsValue]

theorem digitsValue_append (n : Nat) (cs ds : List Char) :
    digitsValue n (cs ++ ds) = digitsValue (digitsValue n cs) ds :=
  Nat.ofDigitChars_append n

theorem digitsValue_eq_add (n : Nat) (cs : List Char) :
    digitsValue n cs = n * 10 ^ cs.length + digitsValue 0 cs := by
  rw [Nat.mul_comm]
  exact Nat.ofDigitChars_eq_ofDigitChars_zero

theorem digitsValue_zeros (n k : Nat) : digitsValue n (List.replicate k '0') = n * 10 ^ k := by
  rw [Nat.mul_comm]
  exact Nat.ofDigitChars_replicate_zero

theorem digit_lt {c : Char} (digit : c.isDigit = true) : c.toNat - '0'.toNat < 10 := by
  have range := Char.isDigit_iff_toNat.mp digit
  simp only [Char.reduceToNat] at range ⊢
  omega

theorem digitsValue_lt (digits : ∀ c ∈ cs, c.isDigit = true) : digitsValue 0 cs < 10 ^ cs.length := by
  induction cs with
  | nil => decide
  | cons c cs ih =>
    obtain ⟨first, further⟩ := List.forall_mem_cons.mp digits
    have small := mul_add_le_of_lt (digit_lt first) (10 ^ cs.length)
    have split : digitsValue 0 (c :: cs) = (c.toNat - '0'.toNat) * 10 ^ cs.length + digitsValue 0 cs := by
      rw [digitsValue_cons, Nat.mul_zero, Nat.zero_add, digitsValue_eq_add]
    have rest := ih further
    rw [split, List.length_cons, Nat.pow_succ']
    omega

theorem digitChar_toNat {c : Char} (digit : c.isDigit = true) : (c.toNat - '0'.toNat).digitChar = c := by
  have range := Char.isDigit_iff_toNat.mp digit
  apply Char.toNat_inj.mp
  rw [Nat.toNat_digitChar_of_lt_ten (digit_lt digit)]
  simp only [Char.reduceToNat] at range ⊢
  omega

/-- Digits behind a number that is not zero are its last digits. -/
theorem toDigits_digitsValue {n : Nat} (pos : 0 < n) (digits : ∀ c ∈ cs, c.isDigit = true) :
    Nat.toDigits 10 (digitsValue n cs) = Nat.toDigits 10 n ++ cs := by
  induction cs generalizing n with
  | nil => rw [List.append_nil]; rfl
  | cons c cs ih =>
    obtain ⟨first, further⟩ := List.forall_mem_cons.mp digits
    -- as `n` is not zero, `c` becomes its last digit, and what follows is behind a greater number
    have step : Nat.toDigits 10 (10 * n + (c.toNat - '0'.toNat)) = Nat.toDigits 10 n ++ [c] := by
      rw [← Nat.toDigits_append_toDigits (by decide) pos (digit_lt first),
        Nat.toDigits_of_lt_base (digit_lt first), digitChar_toNat first]
    rw [digitsValue_cons, ih (by omega) further, step, List.append_assoc, List.singleton_append]

theorem isDigit_of_significant (digits : ∀ c ∈ cs, c.isDigit = true) :
    ∀ c ∈ significant cs, c.isDigit = true :=
  fun c member => digits c ((List.dropWhile_sublist _).subset member)

/-- Zeros in front do not change a number. -/
theorem digitsValue_significant (cs : List Char) : digitsValue 0 (significant cs) = digitsValue 0 cs := by
  induction cs with
  | nil => rfl
  | cons c cs ih =>
    rw [significant]
    by_cases zero : c = '0'
    · subst zero
      exact ih
    · rw [List.dropWhile_cons_of_neg (by simpa using zero)]

theorem toDigits_digitsValue_cons {c : Char} (digits : ∀ d ∈ c :: cs, d.isDigit = true) (nonzero : c ≠ '0') :
    Nat.toDigits 10 (digitsValue 0 (c :: cs)) = c :: cs := by
  obtain ⟨first, further⟩ := List.forall_mem_cons.mp digits
  have pos : 0 < c.toNat - '0'.toNat := by
    have range := Char.isDigit_iff_toNat.mp first
    have other : c.toNat ≠ '0'.toNat := fun same => nonzero (Char.toNat_inj.mp same)
    omega
  rw [digitsValue_cons, Nat.mul_zero, Nat.zero_add, toDigits_digitsValue pos further,
    Nat.toDigits_of_lt_base (digit_lt first), digitChar_toNat first, List.singleton_append]

/-- A number is printed without the zeros in front. -/
theorem toString_digitsValue (digits : ∀ c ∈ cs, c.isDigit = true) :
    toString (digitsValue 0 cs) = String.ofList (plainNumber cs) := by
  have kept := isDigit_of_significant digits
  have stops : Stops (· == '0') (significant cs) := stops_dropWhile _ cs
  rw [Nat.toString_eq_ofList_toDigits, ← digitsValue_significant, plainNumber]
  congr 1
  cases split : significant cs with
  | nil => rfl
  | cons c ds =>
    rw [split] at kept stops
    rw [if_neg (List.cons_ne_nil c ds)]
    exact toDigits_digitsValue_cons kept (ne_of_beq_false (stops c rfl))

/-- Only zeros in front are left out. -/
theorem replicate_append_plainNumber (some : cs ≠ []) :
    List.replicate (cs.length - (plainNumber cs).length) '0' ++ plainNumber cs = cs := by
  induction cs with
  | nil => exact absurd rfl some
  | cons c cs ih =>
    by_cases zero : c = '0'
    · subst zero
      have skipped : plainNumber ('0' :: cs) = plainNumber cs := rfl
      rw [skipped]
      cases cs with
      | nil => rfl
      | cons d ds =>
        have further := ih (List.cons_ne_nil d ds)
        have shorter : (plainNumber (d :: ds)).length ≤ (d :: ds).length := by
          conv_rhs => rw [← further]
          rw [List.length_append]
          omega
        rw [List.length_cons, Nat.succ_sub shorter, List.replicate_succ, List.cons_append, further]
    · have kept : significant (c :: cs) = c :: cs := List.dropWhile_cons_of_neg (by simpa using zero)
      rw [plainNumber, kept, if_neg (List.cons_ne_nil c cs), Nat.sub_self]
      rfl

/-- With the zeros in front that it lacks, a number is printed as it was written. -/
theorem padded_digitsValue (digits : ∀ c ∈ cs, c.isDigit = true) (some : cs ≠ []) :
    Binary64.padded cs.length (digitsValue 0 cs) = String.ofList cs := by
  rw [Binary64.padded, toString_digitsValue digits, String.length_ofList, ← String.ofList_append,
    replicate_append_plainNumber some]

/-- The digits around the point are printed as they were written, but for zeros in front. -/
theorem fixedText_digitsValue {whole fraction : List Char} (inWhole : ∀ c ∈ whole, c.isDigit = true)
    (inFraction : ∀ c ∈ fraction, c.isDigit = true) (some : fraction ≠ []) :
    Binary64.fixedText fraction.length (digitsValue 0 (whole ++ fraction)) =
      String.ofList (plainNumber whole ++ '.' :: fraction) := by
  have small := digitsValue_lt inFraction
  have split : digitsValue 0 (whole ++ fraction) =
      digitsValue 0 fraction + digitsValue 0 whole * 10 ^ fraction.length := by
    rw [digitsValue_append, digitsValue_eq_add, Nat.add_comm]
  rw [Binary64.fixedText, split, Nat.pow_eq, Nat.add_mul_div_right _ _ (Nat.pow_pos (by decide)),
    Nat.div_eq_of_lt small, Nat.add_mul_mod_self_right, Nat.mod_eq_of_lt small, Nat.zero_add,
    padded_digitsValue inFraction some, toString_digitsValue inWhole]
  exact String.toList_inj.mp (by simp)

end digits

/-! ## Reading -/

theorem splitSign_of_digit {c : Char} (digit : c.isDigit = true) (cs : List Char) :
    splitSign (c :: cs) = (false, c :: cs) := by
  rw [splitSign]
  · rintro _ ⟨rfl, -⟩
    cases digit
  · rintro _ ⟨rfl, -⟩
    cases digit

theorem toLower_of_digit {c : Char} (digit : c.isDigit = true) : c.toLower = c := by
  have range := Char.isDigit_iff_toNat.mp digit
  delta Char.toLower
  refine dif_neg fun upper => ?_
  have low : 'A'.toNat ≤ c.toNat := upper.1
  simp only [Char.reduceToNat] at range low
  omega

namespace Binary64

/-- What starts with a digit is none of the words for special floats. -/
theorem magnitude?_of_digit {c : Char} (digit : c.isDigit = true) (cs : List Char) :
    magnitude? (c :: cs) = decimal? (c :: cs) := by
  -- the words start with letters, and a digit is a digit in lower case too
  have other (d : Char) (ds : List Char) (word : d.isDigit = false) :
      String.ofList ((c :: cs).map Char.toLower) ≠ String.ofList (d :: ds) := by
    intro same
    have letters := String.ofList_injective same
    rw [List.map_cons, toLower_of_digit digit] at letters
    rw [(List.cons.inj letters).1, word] at digit
    cases digit
  rw [magnitude?, if_neg, if_neg]
  · exact other 'n' ['a', 'n'] rfl
  · rintro (inf | infinity)
    · exact other 'i' ['n', 'f'] rfl inf
    · exact other 'i' ['n', 'f', 'i', 'n', 'i', 't', 'y'] rfl infinity

theorem decimal?_of_digits {whole fraction : List Char} (inWhole : whole ∈ digits)
    (inFraction : fraction ∈ digits) :
    decimal? (whole ++ '.' :: fraction) =
      some (ofDecimal (digitsValue 0 (whole ++ fraction)) (0 - fraction.length)) := by
  obtain ⟨someWhole, inWhole⟩ := mem_digits_iff.mp inWhole
  obtain ⟨_, inFraction⟩ := mem_digits_iff.mp inFraction
  have taken : (whole ++ '.' :: fraction).takeWhile Char.isDigit = whole := by
    rw [List.takeWhile_append_of_pos inWhole]
    exact List.append_nil whole
  have left : (whole ++ '.' :: fraction).dropWhile Char.isDigit = '.' :: fraction := by
    rw [List.dropWhile_append_of_pos inWhole]
    rfl
  have number : natOfDigits? (whole ++ fraction) = some (digitsValue 0 (whole ++ fraction)) := by
    have some : whole ++ fraction ≠ [] := List.append_ne_nil_of_left_ne_nil someWhole fraction
    have all : (whole ++ fraction).all Char.isDigit = true :=
      List.all_eq_true.mpr (List.forall_mem_append.mpr ⟨inWhole, inFraction⟩)
    rw [natOfDigits?, if_neg]
    simp [some, all]
  have rest : fraction.takeWhile Char.isDigit = fraction ∧ fraction.dropWhile Char.isDigit = [] :=
    ⟨List.takeWhile_eq_self_iff.mpr inFraction, List.dropWhile_eq_nil_iff.mpr inFraction⟩
  rw [decimal?]
  simp only [taken, left, rest, number, exponent?]
  rfl

/-- A literal with a point stands for the float nearest to the number it writes. -/
theorem ofText?_of_digits {whole fraction : List Char} (inWhole : whole ∈ digits)
    (inFraction : fraction ∈ digits) :
    ofText? (String.ofList (whole ++ '.' :: fraction)) =
      some (UInt64.ofNat (ofDecimal (digitsValue 0 (whole ++ fraction)) (0 - fraction.length))) := by
  obtain ⟨c, cs, rfl, digit⟩ : ∃ c cs, whole = c :: cs ∧ c.isDigit = true := by
    obtain ⟨some, inside⟩ := mem_digits_iff.mp inWhole
    obtain ⟨c, cs, rfl⟩ := List.exists_cons_of_ne_nil some
    exact ⟨c, cs, rfl, inside c List.mem_cons_self⟩
  have read := decimal?_of_digits inWhole inFraction
  rw [List.cons_append, ← magnitude?_of_digit digit] at read
  rw [ofText?, String.toList_ofList, List.cons_append, splitSign_of_digit digit]
  simp only [read, Option.bind_eq_bind, Option.bind_some, withSign, if_neg Bool.false_ne_true]
  rfl

/-- A number with a fraction is far from the ends of the range of floats. -/
theorem ofDecimal_eq_ofRatio {number f : Nat} (pos : 0 < number) (short : number < 2 ^ 52) (some : 0 < f)
    (few : f ≤ 255) : ofDecimal number (0 - f) = ofRatio number (10 ^ f) := by
  have length : (toString number).length ≤ 16 := by
    rw [Nat.toString_eq_ofList_toDigits, String.length_ofList, Nat.length_toDigits_le_iff (by decide) (by decide)]
    omega
  have exponent : (-(0 - f : Int)).toNat = f := by omega
  rw [ofDecimal, if_neg pos.ne']
  dsimp only
  rw [if_neg (by omega), if_neg (by omega), if_neg (by omega), exponent, Nat.pow_eq]

theorem ten_pow_le_two_pow {f p : Nat} (far : 4 * f ≤ p) : 10 ^ f ≤ 2 ^ p :=
  calc 10 ^ f ≤ (2 ^ 4) ^ f := Nat.pow_le_pow_left (by decide) f
    _ = 2 ^ (4 * f) := (Nat.pow_mul 2 4 f).symm
    _ ≤ 2 ^ p := Nat.pow_le_pow_right (by decide) far

/-- A decimal number of `f` places is printed with the zeros behind it that are missing. -/
theorem toFixed_ofDecimal {number f places : Nat} (some : 0 < f) (fits : f ≤ places) (few : places ≤ 255)
    (short : number * 10 ^ (places - f) < 2 ^ 52) :
    toFixed places (UInt64.ofNat (ofDecimal number (0 - f))) = fixedText places (number * 10 ^ (places - f)) := by
  obtain rfl | pos := Nat.eq_zero_or_pos number
  · -- zero has no leading bit, so that it is not the quotient of the other case
    have zero : decode (UInt64.ofNat 0) = .finite false 0 0 := rfl
    rw [ofDecimal, if_pos rfl, Nat.zero_mul]
    refine toFixed_of_decode zero (Nat.zero_le _) ?_ ?_
    all_goals
      generalize 1074 - 0 = p
      rw [Nat.zero_mul, Nat.zero_mul]
      exact Nat.lt_add_of_pos_right (Nat.two_pow_pos p)
  · have whole : number ≤ number * 10 ^ (places - f) := Nat.le_mul_of_pos_right _ (Nat.pow_pos (by decide))
    have low : 10 ^ f ≤ number * 2 ^ 1022 :=
      Nat.le_trans (ten_pow_le_two_pow (by omega)) (Nat.le_mul_of_pos_left _ pos)
    have same : number * 10 ^ (places - f) * 10 ^ f = number * 10 ^ places := by
      rw [Nat.mul_assoc, ← Nat.pow_add, Nat.sub_add_cancel fits]
    rw [ofDecimal_eq_ofRatio pos (by omega) some (by omega)]
    exact toFixed_ofRatio pos (Nat.pow_pos (by decide)) low same short

end Binary64

/-! ## Literals -/

theorem LongestMatch.mem_float {rest lexeme : List Char} {text : String}
    (found : LongestMatch rest lexeme .floatLiteral text) :
    lexeme ∈ Pattern.language .float ∧ text = String.ofList lexeme := by
  generalize kind : Kind.floatLiteral = k at found
  cases found with
  | unmatched starts absent => cases kind
  | matched pattern member front longest only =>
    cases pattern with
    | float => exact ⟨member, rfl⟩
    | word => exact absurd kind.symm (Kind.ofWord_ne (by decide) _)
    | _ => cases kind

/-- The text of a float literal has the form of one. -/
theorem Scanner.Reads.mem_float {s : Scanner} {pieces : List Piece} (reads : Reads s pieces) {t : Token}
    (member : t ∈ s.tokensAfter []) (float : t.kind = .floatLiteral) :
    t.text.toList ∈ Pattern.language .float := by
  induction reads with
  | @ending p gap skipped =>
    rw [tokensAfter_of_end (next_of_ending skipped p) rfl] at member
    cases List.mem_singleton.mp member
    cases float
  | @next p gap c cs pieces skipped stops _ ih =>
    rw [tokens_of_token (next_of_piece skipped stops p) (beq_false_of_ne (take_kind_ne c cs))] at member
    obtain rfl | later := List.mem_cons.mp member
    · have longest := take_isLongest c cs
      rw [Lexeme.IsLongest, show (Lexeme.take c cs).1.kind = .floatLiteral from float] at longest
      obtain ⟨inside, text⟩ := longest.mem_float
      rw [text, String.toList_ofList]
      exact inside
    · exact ih later

/-- There is one point in a float, so that it has one integer part and one fraction. -/
theorem digits_of_mem_float {whole fraction : List Char}
    (float : whole ++ '.' :: fraction ∈ Pattern.language .float) : whole ∈ digits ∧ fraction ∈ digits := by
  obtain ⟨_, _, inWhole, inFraction, same⟩ := mem_float_iff.mp float
  obtain ⟨rfl, -, rfl⟩ := (List.append_cons_inj_of_notMem (not_mem_of_digits inWhole)
    (not_mem_of_digits inFraction)).mp same.symm
  exact ⟨inWhole, inFraction⟩

/-- Few digits around the point are printed with six places as they were written. -/
theorem realLine_ofDecimal {whole fraction : List Char} (inWhole : whole ∈ digits)
    (inFraction : fraction ∈ digits) (short : (significant whole).length ≤ 9) (few : fraction.length ≤ 6) :
    realLine (UInt64.ofNat (Binary64.ofDecimal (digitsValue 0 (whole ++ fraction)) (0 - fraction.length))) =
      String.ofList (plainNumber whole ++ '.' :: fraction ++
        List.replicate (6 - fraction.length) '0') ++ "\n" := by
  obtain ⟨-, inWhole⟩ := mem_digits_iff.mp inWhole
  obtain ⟨some, inFraction⟩ := mem_digits_iff.mp inFraction
  -- with the zeros that are missing there are six places to print
  let places := fraction ++ List.replicate (6 - fraction.length) '0'
  have six : places.length = 6 := by
    rw [List.length_append, List.length_replicate]
    omega
  have inPlaces : ∀ c ∈ places, c.isDigit = true := by
    refine List.forall_mem_append.mpr ⟨inFraction, fun c zero => ?_⟩
    rw [List.eq_of_mem_replicate zero]
    rfl
  have units : digitsValue 0 (whole ++ fraction) * 10 ^ (6 - fraction.length) =
      digitsValue 0 (whole ++ places) := by
    rw [← digitsValue_zeros, ← digitsValue_append, List.append_assoc]
  -- nine digits and six places are less than `10 ^ 15`, which `2 ^ 52` is above
  have small : digitsValue 0 (whole ++ places) < 2 ^ 52 := by
    have above : digitsValue 0 whole < 10 ^ 9 := by
      rw [← digitsValue_significant]
      exact Nat.lt_of_lt_of_le (digitsValue_lt (isDigit_of_significant inWhole))
        (Nat.pow_le_pow_right (by decide) short)
    have below := digitsValue_lt inPlaces
    rw [digitsValue_append, digitsValue_eq_add]
    rw [six] at below ⊢
    omega
  have printed := fixedText_digitsValue inWhole inPlaces (List.append_ne_nil_of_left_ne_nil some _)
  rw [six] at printed
  rw [realLine, Binary64.toFixed_ofDecimal (List.length_pos_of_ne_nil some) few (by decide) (by rwa [units]),
    units, printed, List.append_assoc, List.cons_append]

/-- A float literal with at most nine digits before the point, zeros in front not counted, and
    at most six behind it is printed as it was written, with six digits behind the point. -/
theorem realLine_literal {source : String} {t : Token} (member : t ∈ tokenize source)
    (float : t.kind = .floatLiteral) {whole fraction : List Char}
    (text : t.text = String.ofList (whole ++ '.' :: fraction)) (short : (significant whole).length ≤ 9)
    (few : fraction.length ≤ 6) (s : LowerState) :
    ∃ bits, Lower.literal t s = .ok (.constFloat bits) s ∧
      realLine bits = String.ofList (plainNumber whole ++ '.' :: fraction ++
        List.replicate (6 - fraction.length) '0') ++ "\n" := by
  obtain ⟨_, reads⟩ := Scanner.exists_reads .start source.toList
  have inside := reads.mem_float member float
  rw [text, String.toList_ofList] at inside
  obtain ⟨inWhole, inFraction⟩ := digits_of_mem_float inside
  refine ⟨_, ?_, realLine_ofDecimal inWhole inFraction short few⟩
  rw [Lower.literal, float]
  simp only [text, Binary64.ofText?_of_digits inWhole inFraction]
  rfl

/-- Zeros in front of the whole part are no digits of the number that is printed. -/
theorem realLine_literal_zeros :
    ⟨.floatLiteral, "007.125", ⟨1, 10⟩⟩ ∈ tokenize "screenit 007.125;" ∧
      ∀ s : LowerState, ∃ bits,
        Lower.literal ⟨.floatLiteral, "007.125", ⟨1, 10⟩⟩ s = .ok (.constFloat bits) s ∧
          realLine bits = "7.125000\n" := by
  have member : ⟨.floatLiteral, "007.125", ⟨1, 10⟩⟩ ∈ tokenize "screenit 007.125;" := by decide +kernel
  have text : "007.125" = String.ofList (['0', '0', '7'] ++ '.' :: ['1', '2', '5']) := rfl
  exact ⟨member, realLine_literal member rfl text (by decide) (by decide)⟩

end ImpCompiler
