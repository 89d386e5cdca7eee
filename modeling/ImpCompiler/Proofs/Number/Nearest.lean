import Mathlib.Algebra.Order.Field.Power
import Mathlib.Data.Rat.Cast.Order
import Mathlib.Tactic.Ring
import ImpCompiler.Number.Fixed
import ImpCompiler.Number.Literal

/-! # Rounding to the nearest float and back

A quotient is read as the float nearest to it, and a float is printed as the nearest number with so
many decimal places.  Both steps are `roundDiv`, of which only one thing is needed: it is off by at most
one half, and what is off by less than one half is its result (`roundDiv_near`, `roundDiv_eq_of_near`).

The first rounding moves a number by half a unit of the mantissa.  If the number has less than `2 ^ 52`
units in its last decimal place, then these are coarser than the units of the mantissa, so that the
second rounding takes the move back (`Binary64.toFixed_ofRatio`).  For that the mantissa is known to have
53 bits, whatever exponent the quotient has (`Binary64.exists_scale`), also when it is rounded up to the
next power of two (`Binary64.toFixed_of_near`). -/

namespace ImpCompiler

/-! ## Quotients -/

section roundDiv

variable {num den : Nat}

/-- The rounded quotient is off by at most one half. -/
theorem roundDiv_near (num : Nat) (pos : 0 < den) :
    2 * (roundDiv num den * den) ≤ 2 * num + den ∧ 2 * num ≤ 2 * (roundDiv num den * den) + den := by
  have split := Nat.div_add_mod' num den
  have small := Nat.mod_lt num pos
  have next : (num / den + 1) * den = num / den * den + den := Nat.succ_mul _ _
  unfold roundDiv
  dsimp only
  split
  · omega
  · split
    · omega
    · split <;> omega

theorem mul_add_le_of_lt {a b : Nat} (less : a < b) (den : Nat) : a * den + den ≤ b * den := by
  rw [← Nat.succ_mul]
  exact Nat.mul_le_mul_right den less

theorem le_roundDiv {n : Nat} (pos : 0 < den) (low : 2 * (n * den) < 2 * num + den) :
    n ≤ roundDiv num den := by
  have near := (roundDiv_near num pos).2
  by_contra less
  have apart := mul_add_le_of_lt (Nat.lt_of_not_le less) den
  omega

theorem roundDiv_le {n : Nat} (pos : 0 < den) (high : 2 * num < 2 * (n * den) + den) :
    roundDiv num den ≤ n := by
  have near := (roundDiv_near num pos).1
  by_contra more
  have apart := mul_add_le_of_lt (Nat.lt_of_not_le more) den
  omega

/-- What is off by less than one half is the rounded quotient. -/
theorem roundDiv_eq_of_near {n : Nat} (pos : 0 < den) (low : 2 * (n * den) < 2 * num + den)
    (high : 2 * num < 2 * (n * den) + den) : roundDiv num den = n :=
  Nat.le_antisymm (roundDiv_le pos high) (le_roundDiv pos low)

end roundDiv

namespace Binary64

/-! ## Exponents -/

/-- Whether `num / den` is less than `2 ^ lead`. -/
def isBelow (num den : Nat) (lead : Int) : Bool :=
  if 0 ≤ lead then num < den * Nat.pow 2 lead.toNat else num * Nat.pow 2 (-lead).toNat < den

/-- The exponent of the greatest power of two that is not above `num / den`. -/
def exponent (num den : Nat) : Int :=
  let lead : Int := (Nat.log2 num : Int) - Nat.log2 den
  if isBelow num den lead then lead - 1 else lead

theorem ofRatio_eq (num den : Nat) :
    ofRatio num den =
      let shift := (exponent num den - 52 + 1074).toNat
      min (shift * Nat.pow 2 52 +
        if shift ≤ 1074 then roundDiv (num * Nat.pow 2 (1074 - shift)) den
        else roundDiv num (den * Nat.pow 2 (shift - 1074))) infinityBits :=
  rfl

section exponent

variable {num den : Nat}

/-- A quotient is compared with a power of two in natural numbers. -/
theorem div_lt_zpow_iff (num : Nat) (pos : 0 < den) (k p : Nat) :
    (num : ℚ) / den < 2 ^ ((k : ℤ) - p) ↔ num * 2 ^ p < 2 ^ k * den := by
  have den_pos : (0 : ℚ) < den := by exact_mod_cast pos
  have power_pos : (0 : ℚ) < 2 ^ p := pow_pos two_pos p
  rw [zpow_sub₀ two_ne_zero, zpow_natCast, zpow_natCast, div_lt_div_iff₀ den_pos power_pos]
  exact_mod_cast Iff.rfl

theorem zpow_le_div_iff (num : Nat) (pos : 0 < den) (k p : Nat) :
    (2 : ℚ) ^ ((k : ℤ) - p) ≤ num / den ↔ 2 ^ k * den ≤ num * 2 ^ p := by
  rw [← not_lt, div_lt_zpow_iff num pos, not_lt]

theorem isBelow_iff (pos : 0 < den) (lead : Int) :
    isBelow num den lead = true ↔ (num : ℚ) / den < 2 ^ lead := by
  rw [isBelow]
  split
  · rename_i up
    obtain ⟨k, rfl⟩ := Int.eq_ofNat_of_zero_le up
    have compared := div_lt_zpow_iff num pos k 0
    rw [Nat.cast_zero, sub_zero, pow_zero, mul_one, mul_comm] at compared
    rw [decide_eq_true_iff, Int.toNat_natCast, compared, Nat.pow_eq]
  · rename_i down
    obtain ⟨p, rfl⟩ : ∃ p : ℕ, lead = -p := ⟨(-lead).toNat, by omega⟩
    have compared := div_lt_zpow_iff num pos 0 p
    rw [Nat.cast_zero, zero_sub, pow_zero, one_mul] at compared
    rw [decide_eq_true_iff, neg_neg, Int.toNat_natCast, compared, Nat.pow_eq]

/-- The exponents of numerator and denominator determine that of the quotient up to one. -/
theorem lead_bounds (pos : 0 < num) (pos' : 0 < den) :
    (2 : ℚ) ^ ((Nat.log2 num : ℤ) - Nat.log2 den - 1) ≤ num / den ∧
      (num : ℚ) / den < 2 ^ ((Nat.log2 num : ℤ) - Nat.log2 den + 1) := by
  have numLow := Nat.log2_self_le pos.ne'
  have numHigh := Nat.lt_log2_self (n := num)
  have denLow := Nat.log2_self_le pos'.ne'
  have denHigh := Nat.lt_log2_self (n := den)
  constructor
  · have compared := zpow_le_div_iff num pos' (Nat.log2 num) (Nat.log2 den + 1)
    rw [Nat.cast_succ, ← sub_sub] at compared
    exact compared.mpr (Nat.mul_le_mul numLow denHigh.le)
  · have compared := div_lt_zpow_iff num pos' (Nat.log2 num + 1) (Nat.log2 den)
    rw [Nat.cast_succ, add_sub_right_comm] at compared
    exact compared.mpr (Nat.mul_lt_mul_of_lt_of_le numHigh denLow pos')

/-- A quotient lies between the powers of two with its exponent and with the next one. -/
theorem exponent_spec (pos : 0 < num) (pos' : 0 < den) :
    (2 : ℚ) ^ exponent num den ≤ num / den ∧ (num : ℚ) / den < 2 ^ (exponent num den + 1) := by
  obtain ⟨low, high⟩ := lead_bounds pos pos'
  rw [exponent]
  split
  · rename_i below
    rw [sub_add_cancel]
    exact ⟨low, (isBelow_iff pos' _).mp below⟩
  · rename_i above
    exact ⟨le_of_not_gt fun below => above ((isBelow_iff pos' _).mpr below), high⟩

/-- A quotient in the range of the normal floats below `2 ^ 53` is scaled to a mantissa of 53 bits, which
    is rounded. -/
theorem exists_scale (pos : 0 < num) (pos' : 0 < den) (low : den ≤ num * 2 ^ 1022)
    (high : num < 2 ^ 53 * den) :
    ∃ p ≤ 1074, 2 ^ 52 * den ≤ num * 2 ^ p ∧ num * 2 ^ p < 2 ^ 53 * den ∧
      ofRatio num den = (1074 - p) * 2 ^ 52 + roundDiv (num * 2 ^ p) den := by
  obtain ⟨lower, upper⟩ := exponent_spec pos pos'
  have least : (2 : ℚ) ^ (-1022 : ℤ) < 2 ^ (exponent num den + 1) :=
    lt_of_le_of_lt ((zpow_le_div_iff num pos' 0 1022).mpr (by rwa [pow_zero, one_mul])) upper
  have most : (2 : ℚ) ^ exponent num den < 2 ^ (53 : ℤ) :=
    lt_of_le_of_lt lower ((div_lt_zpow_iff num pos' 53 0).mpr (by rwa [pow_zero, mul_one]))
  -- so the exponent is between -1022 and 52, and the quotient is scaled up
  rw [zpow_lt_zpow_iff_right₀ one_lt_two] at least most
  obtain ⟨p, scale⟩ : ∃ p : ℕ, exponent num den = 52 - p := ⟨(52 - exponent num den).toNat, by omega⟩
  have bound : p ≤ 1074 := by omega
  have shift : (exponent num den - 52 + 1074).toNat = 1074 - p := by omega
  rw [scale] at lower upper
  have below : num * 2 ^ p < 2 ^ 53 * den := by
    refine (div_lt_zpow_iff num pos' 53 p).mp (lt_of_lt_of_eq upper ?_)
    congr 1
    push_cast
    ring
  -- the mantissa may be rounded up to the next power of two, which is far from the infinite
  have finite : roundDiv (num * 2 ^ p) den ≤ 2 ^ 53 := roundDiv_le pos' (by omega)
  refine ⟨p, bound, (zpow_le_div_iff num pos' 52 p).mp lower, below, ?_⟩
  rw [ofRatio_eq]
  dsimp only
  rw [shift, if_pos (Nat.sub_le _ _), Nat.sub_sub_self bound]
  simp only [Nat.pow_eq, infinityBits]
  omega

end exponent

/-! ## Bits -/

/-- The bits of a normal float, without its sign, are its exponent and its mantissa. -/
theorem decode_normal {mantissa shift : Nat} (low : 2 ^ 52 ≤ mantissa) (high : mantissa < 2 ^ 53)
    (finite : shift ≤ 2045) :
    decode (UInt64.ofNat (shift * 2 ^ 52 + mantissa)) = .finite false mantissa shift := by
  have small : shift * 2 ^ 52 + mantissa < 2 ^ 63 := by omega
  have bits : (UInt64.ofNat (shift * 2 ^ 52 + mantissa)).toNat = shift * 2 ^ 52 + mantissa :=
    UInt64.toNat_ofNat_of_lt' (Nat.lt_trans small (by decide))
  have field : (shift * 2 ^ 52 + mantissa) / 2 ^ 52 = shift + 1 := by omega
  have fraction : (shift * 2 ^ 52 + mantissa) % 2 ^ 52 = mantissa - 2 ^ 52 := by omega
  have positive : ¬ signBit ≤ shift * 2 ^ 52 + mantissa := by
    rw [signBit]
    omega
  have magnitude : (shift * 2 ^ 52 + mantissa) % signBit = shift * 2 ^ 52 + mantissa :=
    Nat.mod_eq_of_lt small
  have number : shift * 2 ^ 52 + mantissa < infinityBits := by
    rw [infinityBits]
    omega
  rw [decode]
  simp only [bits, magnitude, Nat.pow_eq, field, fraction, decide_eq_false positive]
  rw [if_neg (Nat.lt_asymm number), if_neg number.ne, if_neg (Nat.succ_ne_zero shift),
    Nat.add_sub_cancel' low, Nat.add_sub_cancel]

/-! ## Decimal places -/

section places

variable {num den places decimal : Nat}

theorem toFixed_of_decode {bits : UInt64} {mantissa shift : Nat}
    (decoded : decode bits = .finite false mantissa shift) (bound : shift ≤ 1074)
    (low : 2 * (decimal * 2 ^ (1074 - shift)) < 2 * (mantissa * 10 ^ places) + 2 ^ (1074 - shift))
    (high : 2 * (mantissa * 10 ^ places) < 2 * (decimal * 2 ^ (1074 - shift)) + 2 ^ (1074 - shift)) :
    toFixed places bits = fixedText places decimal := by
  have rounded : units places mantissa shift = decimal := by
    rw [units, if_pos bound]
    exact roundDiv_eq_of_near (Nat.two_pow_pos _) low high
  rw [toFixed, decoded]
  dsimp only
  rw [rounded, if_neg Bool.false_ne_true, String.empty_append]

/-- Rounding to a mantissa moves a decimal number by half a unit of the mantissa, which is half of
    `10 ^ places` when both are scaled. -/
theorem scaled_near (pos : 0 < den) (same : decimal * den = num * 10 ^ places) (p : Nat) :
    2 * (decimal * 2 ^ p) ≤ 2 * (roundDiv (num * 2 ^ p) den * 10 ^ places) + 10 ^ places ∧
      2 * (roundDiv (num * 2 ^ p) den * 10 ^ places) ≤ 2 * (decimal * 2 ^ p) + 10 ^ places := by
  obtain ⟨high, low⟩ := roundDiv_near (num * 2 ^ p) pos
  generalize roundDiv (num * 2 ^ p) den = mantissa at low high
  constructor
  · refine Nat.le_of_mul_le_mul_right ?_ pos
    calc 2 * (decimal * 2 ^ p) * den = 2 * 2 ^ p * (decimal * den) := by ring
      _ = 10 ^ places * (2 * (num * 2 ^ p)) := by rw [same]; ring
      _ ≤ 10 ^ places * (2 * (mantissa * den) + den) := Nat.mul_le_mul_left _ low
      _ = (2 * (mantissa * 10 ^ places) + 10 ^ places) * den := by ring
  · refine Nat.le_of_mul_le_mul_right ?_ pos
    calc 2 * (mantissa * 10 ^ places) * den = 10 ^ places * (2 * (mantissa * den)) := by ring
      _ ≤ 10 ^ places * (2 * (num * 2 ^ p) + den) := Nat.mul_le_mul_left _ high
      _ = 2 * 2 ^ p * (num * 10 ^ places) + 10 ^ places * den := by ring
      _ = (2 * (decimal * 2 ^ p) + 10 ^ places) * den := by rw [← same]; ring

/-- Seen from the mantissa, the decimal number is off by less than half a unit of its last place. -/
theorem toFixed_of_near {p mantissa : Nat} (bound : p ≤ 1074) (low : 2 ^ 52 ≤ mantissa)
    (high : mantissa ≤ 2 ^ 53) (room : 10 ^ places < 2 ^ p)
    (nearLow : 2 * (decimal * 2 ^ p) ≤ 2 * (mantissa * 10 ^ places) + 10 ^ places)
    (nearHigh : 2 * (mantissa * 10 ^ places) ≤ 2 * (decimal * 2 ^ p) + 10 ^ places) :
    toFixed places (UInt64.ofNat ((1074 - p) * 2 ^ 52 + mantissa)) = fixedText places decimal := by
  obtain full | rfl := Nat.lt_or_eq_of_le high
  · have scale : 1074 - (1074 - p) = p := Nat.sub_sub_self bound
    refine toFixed_of_decode (decode_normal low full (by omega)) (Nat.sub_le _ _) ?_ ?_
    · rw [scale]
      omega
    · rw [scale]
      omega
  · -- the mantissa was rounded up to a power of two: half of it stands there, with the next exponent
    have tens : 0 < 10 ^ places := Nat.pow_pos (by decide)
    have some : p ≠ 0 := by
      rintro rfl
      omega
    obtain ⟨q, rfl⟩ := Nat.exists_eq_add_one_of_ne_zero some
    have carried : (1074 - (q + 1)) * 2 ^ 52 + 2 ^ 53 = (1074 - q) * 2 ^ 52 + 2 ^ 52 := by omega
    have scale : 1074 - (1074 - q) = q := Nat.sub_sub_self (by omega)
    have double : 2 ^ (q + 1) = 2 * 2 ^ q := Nat.pow_succ'
    have doubled : decimal * 2 ^ (q + 1) = 2 * (decimal * 2 ^ q) := by
      rw [double]
      ring
    rw [carried]
    refine toFixed_of_decode (decode_normal (Nat.le_refl _) (by decide) (by omega)) (Nat.sub_le _ _) ?_ ?_
    · rw [scale]
      omega
    · rw [scale]
      omega

/-- A decimal number with less than `2 ^ 52` units in its last place is the nearest one to the float
    that is nearest to it. -/
theorem toFixed_ofRatio (pos : 0 < num) (pos' : 0 < den) (low : den ≤ num * 2 ^ 1022)
    (same : decimal * den = num * 10 ^ places) (short : decimal < 2 ^ 52) :
    toFixed places (UInt64.ofNat (ofRatio num den)) = fixedText places decimal := by
  have less : num * 10 ^ places < 2 ^ 52 * den := same ▸ Nat.mul_lt_mul_of_pos_right short pos'
  have whole : num ≤ num * 10 ^ places := Nat.le_mul_of_pos_right num (Nat.pow_pos (by decide))
  obtain ⟨p, bound, least, most, bits⟩ := exists_scale pos pos' low (by omega)
  obtain ⟨nearLow, nearHigh⟩ := scaled_near pos' same p
  rw [bits]
  refine toFixed_of_near bound (le_roundDiv pos' (by omega)) (roundDiv_le pos' (by omega)) ?_ nearLow nearHigh
  -- the units of the decimal number are coarser than those of the mantissa
  exact Nat.lt_of_mul_lt_mul_left (Nat.lt_of_lt_of_le less least)

end places

end Binary64

end ImpCompiler
