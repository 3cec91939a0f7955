import JobClosure.Numeral.Binary64
import Mathlib.Algebra.Order.Field.Power
import Mathlib.Algebra.Order.Field.Rat
import Mathlib.Tactic.FieldSimp
import Mathlib.Tactic.Linarith
import Mathlib.Tactic.NormNum
import Mathlib.Tactic.Positivity

/-!
# Rounding to 64 bits

`Binary64.ofRatio` rounds a positive fraction in exact arithmetic. Here the fraction is a rational number,
and what the code computes with pairs of natural numbers is said of that number: the exponent is the one at
which it has a mantissa of 53 bits (`exponentOf_eq`), and the result is the number in whose rounding
interval it lies (`ofRatio_eq`). An interval reaches half way to the neighbours on both sides; below a power
of two the lower neighbour is only half as far away.

Whatever is rounded is `Canonical`: its mantissa has 53 bits unless its exponent is the least.
-/

namespace JobClosure.Numeral

/-! ## Powers -/

theorem powerOf_ne_zero {base : Nat} (hbase : 0 < base) (exponent : Int) : (powerOf base exponent : ℚ) ≠ 0 := by
  have hpos : 0 < powerOf base exponent := Nat.pow_pos hbase
  exact_mod_cast hpos.ne'

/-- A power with any exponent is a quotient of two natural ones. -/
theorem powerOf_eq {base : Nat} (hbase : 0 < base) (exponent : Int) :
    (powerOf base exponent : ℚ) = (base : ℚ) ^ exponent * powerOf base (-exponent) := by
  have hne : (base : ℚ) ≠ 0 := by exact_mod_cast hbase.ne'
  cases exponent with
  | ofNat n =>
    have hback : powerOf base (-Int.ofNat n) = 1 := by
      have : (-Int.ofNat n).toNat = 0 := by simp
      rw [powerOf, this]
      rfl
    rw [hback, Nat.cast_one, mul_one]
    show ((base ^ n : Nat) : ℚ) = (base : ℚ) ^ (n : ℤ)
    rw [Nat.cast_pow, zpow_natCast]
  | negSucc n =>
    have hpower : powerOf base (Int.negSucc n) = 1 := rfl
    have hback : powerOf base (-Int.negSucc n) = base ^ (n + 1) := rfl
    rw [hpower, hback, zpow_negSucc, Nat.cast_pow, Nat.cast_one, inv_mul_cancel₀ (pow_ne_zero _ hne)]

namespace Binary64

/-- The fraction that is rounded. -/
def ratio (num den : Nat) : ℚ := num / den

theorem ratio_scaled {num den : Nat} (exponent : Int) :
    ratio (scaled num den exponent).1 (scaled num den exponent).2 = ratio num den / 2 ^ exponent := by
  have hpower := powerOf_eq (show 0 < 2 by decide) exponent
  have hne := powerOf_ne_zero (show 0 < 2 by decide) (-exponent)
  have htwo : (2 : ℚ) ^ exponent ≠ 0 := zpow_ne_zero _ (by norm_num)
  show ((num * powerOf 2 (-exponent) : Nat) : ℚ) / ((den * powerOf 2 exponent : Nat) : ℚ) = _
  rw [Nat.cast_mul, Nat.cast_mul, hpower, ratio, Nat.cast_ofNat]
  rw [div_div, mul_comm ((2 : ℚ) ^ exponent) _, ← mul_assoc, mul_comm (den : ℚ) _, mul_assoc,
    mul_comm (num : ℚ) _, mul_div_mul_left _ _ hne]

theorem scaled_den_pos {num den : Nat} (h : 0 < den) (exponent : Int) : 0 < (scaled num den exponent).2 :=
  Nat.mul_pos h (Nat.pow_pos (by decide))

theorem mantissaBound_eq : mantissaBound = 2 ^ 53 := rfl

/-! ## Rounding to a whole number -/

/-- `mantissa` is the nearest whole number, or the even one of two nearest. -/
def Nearest (x : ℚ) (mantissa : Nat) : Prop :=
  ((mantissa : ℚ) - 1 / 2 < x ∨ (mantissa : ℚ) - 1 / 2 = x ∧ mantissa % 2 = 0) ∧
    (x < (mantissa : ℚ) + 1 / 2 ∨ x = (mantissa : ℚ) + 1 / 2 ∧ mantissa % 2 = 0)

theorem Nearest.near {x : ℚ} {mantissa : Nat} (h : Nearest x mantissa) :
    (mantissa : ℚ) - 1 / 2 ≤ x ∧ x ≤ mantissa + 1 / 2 :=
  ⟨h.1.elim le_of_lt fun h => h.1.le, h.2.elim le_of_lt fun h => h.1.le⟩

theorem roundedQuotient_eq {num den mantissa : Nat} (hden : 0 < den) (h : Nearest (ratio num den) mantissa) :
    roundedQuotient num den = mantissa := by
  have hden' : (0 : ℚ) < den := by exact_mod_cast hden
  obtain ⟨hlow, hhigh⟩ := h
  -- both sides without fractions
  have hlow : 2 * (den * mantissa) < 2 * num + den ∨ 2 * (den * mantissa) = 2 * num + den ∧ mantissa % 2 = 0 := by
    rcases hlow with hlow | ⟨hlow, heven⟩
    · rw [ratio, lt_div_iff₀ hden'] at hlow
      have : 2 * ((den : ℚ) * mantissa) < 2 * num + den := by linarith
      exact .inl (by exact_mod_cast this)
    · rw [ratio, eq_div_iff hden'.ne'] at hlow
      have : 2 * ((den : ℚ) * mantissa) = 2 * num + den := by linarith
      exact .inr ⟨by exact_mod_cast this, heven⟩
  have hhigh : 2 * num < 2 * (den * mantissa) + den ∨ 2 * num = 2 * (den * mantissa) + den ∧ mantissa % 2 = 0 := by
    rcases hhigh with hhigh | ⟨hhigh, heven⟩
    · rw [ratio, div_lt_iff₀ hden'] at hhigh
      have : 2 * (num : ℚ) < 2 * (den * mantissa) + den := by linarith
      exact .inl (by exact_mod_cast this)
    · rw [ratio, div_eq_iff hden'.ne'] at hhigh
      have : 2 * (num : ℚ) = 2 * (den * mantissa) + den := by linarith
      exact .inr ⟨by exact_mod_cast this, heven⟩
  have hsplit : den * (num / den) + num % den = num := Nat.div_add_mod num den
  have hrest : num % den < den := Nat.mod_lt num hden
  -- the mantissa is the quotient or the one above it
  have hcases : mantissa = num / den ∨ mantissa = num / den + 1 := by
    have hle : mantissa ≤ num / den + 1 := by
      by_contra hgt
      have : den * (num / den + 2) ≤ den * mantissa := Nat.mul_le_mul_left den (by omega)
      rw [Nat.mul_add] at this
      omega
    have hge : num / den ≤ mantissa := by
      by_contra hlt
      have : den * (mantissa + 1) ≤ den * (num / den) := Nat.mul_le_mul_left den (by omega)
      rw [Nat.mul_add] at this
      omega
    omega
  unfold roundedQuotient
  rcases hcases with rfl | rfl
  · rw [if_neg]
    simp only [Bool.or_eq_true, Bool.and_eq_true, decide_eq_true_eq, beq_iff_eq]
    omega
  · rw [if_pos]
    rw [Nat.mul_add] at hlow
    simp only [Bool.or_eq_true, Bool.and_eq_true, decide_eq_true_eq, beq_iff_eq]
    omega

/-- Rounding moves a fraction by half at most. -/
theorem roundedQuotient_near {num den : Nat} (hden : 0 < den) :
    (roundedQuotient num den : ℚ) ≤ ratio num den + 1 / 2 ∧ ratio num den - 1 / 2 ≤ (roundedQuotient num den : ℚ) := by
  have hden' : (0 : ℚ) < den := by exact_mod_cast hden
  have hsplit : den * (num / den) + num % den = num := Nat.div_add_mod num den
  have hrest : num % den < den := Nat.mod_lt num hden
  -- said of whole numbers first, where it is the choice between the quotient and its successor
  have hbounds : 2 * (den * roundedQuotient num den) ≤ 2 * num + den ∧
      2 * num ≤ 2 * (den * roundedQuotient num den) + den := by
    unfold roundedQuotient
    dsimp only
    split
    · rename_i hup
      simp only [Bool.or_eq_true, Bool.and_eq_true, decide_eq_true_eq, beq_iff_eq] at hup
      rw [Nat.mul_add]
      omega
    · rename_i hdown
      simp only [Bool.or_eq_true, Bool.and_eq_true, decide_eq_true_eq, beq_iff_eq] at hdown
      omega
  obtain ⟨hle, hge⟩ := hbounds
  have hle : 2 * ((den : ℚ) * roundedQuotient num den) ≤ 2 * num + den := by exact_mod_cast hle
  have hge : 2 * (num : ℚ) ≤ 2 * (den * roundedQuotient num den) + den := by exact_mod_cast hge
  constructor
  · have : (roundedQuotient num den : ℚ) - 1 / 2 ≤ ratio num den := by
      rw [ratio, le_div_iff₀ hden']
      linarith
    linarith
  · have : ratio num den ≤ (roundedQuotient num den : ℚ) + 1 / 2 := by
      rw [ratio, div_le_iff₀ hden']
      linarith
    linarith

/-! ## The exponent -/

/-- `exponent` is the one at which `x` has a mantissa of 53 bits, or the least one. -/
structure Scales (x : ℚ) (exponent : Int) : Prop where
  below : x < 2 ^ 53 * 2 ^ exponent
  reaches : exponent = leastExponent ∨ 2 ^ 52 * (2 : ℚ) ^ exponent ≤ x
  least : leastExponent ≤ exponent

theorem two_zpow_pos (exponent : Int) : (0 : ℚ) < 2 ^ exponent := zpow_pos (by norm_num) _

theorem two_zpow_add_one (exponent : Int) : (2 : ℚ) ^ (exponent + 1) = 2 * 2 ^ exponent := by
  rw [zpow_add₀ (by norm_num), zpow_one, mul_comm]

theorem two_zpow_le {a b : Int} (h : a ≤ b) : (2 : ℚ) ^ a ≤ 2 ^ b := zpow_le_zpow_right₀ (by norm_num) h

/-- There is only one such exponent. -/
theorem Scales.unique {x : ℚ} {a b : Int} (ha : Scales x a) (hb : Scales x b) : a = b := by
  have le : ∀ {a b : Int}, Scales x a → Scales x b → a ≤ b := by
    intro a b ha hb
    by_contra hlt
    have hstep := two_zpow_le (show b + 1 ≤ a by omega)
    rw [two_zpow_add_one] at hstep
    rcases ha.reaches with hleast | hreaches
    · have := hb.least
      omega
    · have := hb.below
      linarith
  exact le_antisymm (le ha hb) (le hb ha)

/-- The first guess is right or one too small. -/
theorem ratio_bounds {num den : Nat} (hnum : 0 < num) (hden : 0 < den) :
    2 ^ 52 * (2 : ℚ) ^ ((Nat.log2 num : Int) - (Nat.log2 den : Int) - 53) ≤ ratio num den ∧
      ratio num den < 2 ^ 54 * (2 : ℚ) ^ ((Nat.log2 num : Int) - (Nat.log2 den : Int) - 53) := by
  have hden' : (0 : ℚ) < den := by exact_mod_cast hden
  -- the logarithms say the numerator and the denominator up to a factor of two each
  have hnumLow : (2 : ℚ) ^ Nat.log2 num ≤ num := by exact_mod_cast Nat.log2_self_le hnum.ne'
  have hnumHigh : (num : ℚ) < 2 ^ Nat.log2 num * 2 := by
    rw [← pow_succ]
    exact_mod_cast Nat.lt_log2_self
  have hdenLow : (2 : ℚ) ^ Nat.log2 den ≤ den := by exact_mod_cast Nat.log2_self_le hden.ne'
  have hdenHigh : (den : ℚ) < 2 ^ Nat.log2 den * 2 := by
    rw [← pow_succ]
    exact_mod_cast Nat.lt_log2_self
  have hguess : (2 : ℚ) ^ ((Nat.log2 num : Int) - (Nat.log2 den : Int) - 53) * 2 ^ Nat.log2 den * 2 ^ 53
      = 2 ^ Nat.log2 num := by
    have hexponent : (Nat.log2 num : Int) - (Nat.log2 den : Int) - 53 + (Nat.log2 den : Int) + 53
        = (Nat.log2 num : Int) := by omega
    have hpower := congrArg (fun e : Int => (2 : ℚ) ^ e) hexponent
    rw [zpow_add₀ (by norm_num), zpow_add₀ (by norm_num), zpow_natCast, zpow_natCast] at hpower
    exact_mod_cast hpower
  have hpos := two_zpow_pos ((Nat.log2 num : Int) - (Nat.log2 den : Int) - 53)
  generalize (2 : ℚ) ^ ((Nat.log2 num : Int) - (Nat.log2 den : Int) - 53) = guess at hguess hpos
  constructor
  · rw [ratio, le_div_iff₀ hden']
    have := mul_le_mul_of_nonneg_left hdenHigh.le hpos.le
    linarith
  · rw [ratio, div_lt_iff₀ hden']
    have := mul_le_mul_of_nonneg_left hdenLow hpos.le
    linarith

theorem scales_exponentOf {num den : Nat} (hnum : 0 < num) (hden : 0 < den) :
    Scales (ratio num den) (exponentOf num den) := by
  obtain ⟨hlow, hhigh⟩ := ratio_bounds hnum hden
  unfold exponentOf
  dsimp only
  generalize (Nat.log2 num : Int) - (Nat.log2 den : Int) - 53 = guess at hlow hhigh
  have hpos := two_zpow_pos guess
  have htest : (scaled num den guess).1 < (scaled num den guess).2 * mantissaBound ↔
      ratio num den < 2 ^ 53 * 2 ^ guess := by
    have hden' : (0 : ℚ) < (scaled num den guess).2 := by exact_mod_cast scaled_den_pos hden guess
    rw [← div_lt_iff₀ hpos, ← ratio_scaled, ratio, div_lt_iff₀ hden', mantissaBound_eq]
    rw [← Nat.cast_lt (α := ℚ), Nat.cast_mul, mul_comm]
    norm_num
  -- before the least exponent is taken into account
  have hraw : ∃ exponent, (if (scaled num den guess).1 < (scaled num den guess).2 * mantissaBound then guess
      else guess + 1) = exponent ∧ ratio num den < 2 ^ 53 * 2 ^ exponent ∧
        2 ^ 52 * (2 : ℚ) ^ exponent ≤ ratio num den := by
    by_cases hbelow : (scaled num den guess).1 < (scaled num den guess).2 * mantissaBound
    · exact ⟨guess, if_pos hbelow, htest.mp hbelow, hlow⟩
    · refine ⟨guess + 1, if_neg hbelow, ?_⟩
      have := not_lt.mp fun h => hbelow (htest.mpr h)
      rw [two_zpow_add_one]
      constructor
      · linarith
      · linarith
  obtain ⟨exponent, hexponent, hbelow, hreaches⟩ := hraw
  rw [hexponent]
  by_cases hleast : leastExponent ≤ exponent
  · rw [max_eq_right hleast]
    exact ⟨hbelow, .inr hreaches, hleast⟩
  · rw [max_eq_left (by omega)]
    refine ⟨?_, .inl rfl, le_refl _⟩
    have := two_zpow_le (show exponent ≤ leastExponent by omega)
    linarith

theorem exponentOf_eq {num den : Nat} (hnum : 0 < num) (hden : 0 < den) {exponent : Int}
    (h : Scales (ratio num den) exponent) : exponentOf num den = exponent :=
  (scales_exponentOf hnum hden).unique h

/-! ## Rounding to a number -/

/-- A finite number in its only form: a mantissa of 53 bits, or less at the least exponent. -/
structure Normal (mantissa : Nat) (exponent : Int) : Prop where
  least : leastExponent ≤ exponent
  greatest : exponent ≤ greatestExponent
  below : mantissa < 2 ^ 53
  reaches : exponent = leastExponent ∨ 2 ^ 52 ≤ mantissa

/-- A number that rounding can give. -/
def Canonical : Binary64 → Prop
  | .finite _ mantissa exponent => Normal mantissa exponent
  | .infinite _ => True
  | .notANumber => True

/-- The fraction at its own exponent, and what its mantissa is before it is cut down to 53 bits. -/
theorem exists_scaled {num den : Nat} (hnum : 0 < num) (hden : 0 < den) :
    ∃ n d, scaled num den (exponentOf num den) = (n, d) ∧ 0 < d ∧
      ratio n d = ratio num den / 2 ^ exponentOf num den ∧ ratio n d < 2 ^ 53 ∧
      (exponentOf num den = leastExponent ∨ 2 ^ 52 ≤ ratio n d) := by
  have hscales := scales_exponentOf hnum hden
  have hpos := two_zpow_pos (exponentOf num den)
  have hratio : ratio (scaled num den (exponentOf num den)).1 (scaled num den (exponentOf num den)).2
      = ratio num den / 2 ^ exponentOf num den := ratio_scaled _
  have hd : 0 < (scaled num den (exponentOf num den)).2 := scaled_den_pos hden _
  obtain ⟨n, d, hscaled⟩ : ∃ n d, scaled num den (exponentOf num den) = (n, d) := ⟨_, _, rfl⟩
  rw [hscaled] at hratio hd
  refine ⟨n, d, hscaled, hd, hratio, ?_, ?_⟩
  · rw [hratio, div_lt_iff₀ hpos]
    exact hscales.below
  · rcases hscales.reaches with hleast | hreaches
    · exact .inl hleast
    · refine .inr ?_
      rw [hratio, le_div_iff₀ hpos]
      exact hreaches

/-- A mantissa that is rounded up to the bound is halved, and the exponent goes up by one. -/
theorem ofRatio_of_scaled (negative : Bool) {num den n d : Nat} (h : scaled num den (exponentOf num den) = (n, d)) :
    ofRatio negative num den =
      if roundedQuotient n d = 2 ^ 53 then
        if greatestExponent < exponentOf num den + 1 then .infinite negative
        else .finite negative (2 ^ 52) (exponentOf num den + 1)
      else if greatestExponent < exponentOf num den then .infinite negative
      else .finite negative (roundedQuotient n d) (exponentOf num den) := by
  have hhalf : 2 ^ 53 / 2 = 2 ^ 52 := by norm_num
  rw [ofRatio, h, ofMantissa, mantissaBound_eq, hhalf, bounded, bounded]
  by_cases hbound : roundedQuotient n d = 2 ^ 53
  · rw [if_pos hbound, if_pos (beq_iff_eq.mpr hbound)]
  · rw [if_neg hbound, if_neg fun h => hbound (beq_iff_eq.mp h)]

/-- **What is rounded is canonical.** -/
theorem canonical_ofRatio (negative : Bool) {num den : Nat} (hnum : 0 < num) (hden : 0 < den) :
    (ofRatio negative num den).Canonical := by
  obtain ⟨n, d, hscaled, hd, -, hbelow, hreaches⟩ := exists_scaled hnum hden
  obtain ⟨hle, hge⟩ : (roundedQuotient n d : ℚ) ≤ ratio n d + 1 / 2 ∧ ratio n d - 1 / 2 ≤ (roundedQuotient n d : ℚ) :=
    roundedQuotient_near hd
  have hleast := (scales_exponentOf hnum hden).least
  have hmantissa : roundedQuotient n d ≤ 2 ^ 53 := by
    have : (roundedQuotient n d : ℚ) < 2 ^ 53 + 1 := by linarith
    have : roundedQuotient n d < 2 ^ 53 + 1 := by exact_mod_cast this
    omega
  rw [ofRatio_of_scaled negative hscaled]
  split
  · -- rounding has reached the next power of two, and the exponent goes up by one
    split
    · trivial
    · rename_i hfinite
      exact ⟨by omega, by omega, by norm_num, .inr (le_refl _)⟩
  · rename_i hbound
    split
    · trivial
    · rename_i hfinite
      refine ⟨hleast, by omega, by omega, ?_⟩
      rcases hreaches with hleast | hreaches
      · exact .inl hleast
      · refine .inr ?_
        have : (2 : ℚ) ^ 52 < (roundedQuotient n d + 1 : Nat) := by
          push_cast
          linarith
        have : 2 ^ 52 < roundedQuotient n d + 1 := by exact_mod_cast this
        omega

/-- `x`, in units of the last place, rounds to a number with this mantissa. Below a power of two the lower
neighbour is only half as far away, unless the exponent is the least. -/
def Within (x : ℚ) (mantissa : Nat) (exponent : Int) : Prop :=
  Nearest x mantissa ∧ (mantissa = 2 ^ 52 → leastExponent < exponent → (mantissa : ℚ) - 1 / 4 ≤ x)

theorem ofRatio_of_scales (negative : Bool) {num den mantissa : Nat} {exponent : Int} (hnum : 0 < num)
    (hden : 0 < den) (hscales : Scales (ratio num den) exponent) (h : Nearest (ratio num den / 2 ^ exponent) mantissa) :
    ofRatio negative num den = ofMantissa negative mantissa exponent := by
  have hexponent := exponentOf_eq hnum hden hscales
  obtain ⟨n, d, hscaled, hd, hratio, -, -⟩ := exists_scaled hnum hden
  rw [hexponent] at hratio
  have hrounded : roundedQuotient n d = mantissa := roundedQuotient_eq hd (by rwa [hratio])
  rw [ofRatio, hscaled, hrounded, hexponent]

/-- Just below a power of two, in units that are half as large, the power is the nearest whole number. -/
theorem nearest_double {x : ℚ} (hlow : 2 ^ 52 - 1 / 4 ≤ x) (hhigh : x < 2 ^ 52) : Nearest (2 * x) (2 ^ 53) := by
  have heven : 2 ^ 53 % 2 = 0 := by norm_num
  rw [Nearest, heven]
  refine ⟨?_, .inl ?_⟩
  · push_cast
    rcases lt_or_eq_of_le hlow with hlow | hlow
    · exact .inl (by linarith)
    · exact .inr ⟨by linarith, trivial⟩
  · push_cast
    linarith

/-- **A fraction is rounded to the number in whose interval it lies.** -/
theorem ofRatio_eq (negative : Bool) {num den mantissa : Nat} {exponent : Int} (hnum : 0 < num) (hden : 0 < den)
    (hnormal : Normal mantissa exponent) (h : Within (ratio num den / 2 ^ exponent) mantissa exponent) :
    ofRatio negative num den = .finite negative mantissa exponent := by
  obtain ⟨hnearest, hnarrow⟩ := h
  have hpos := two_zpow_pos exponent
  have hmantissa : (mantissa : ℚ) + 1 ≤ 2 ^ 53 := by exact_mod_cast hnormal.below
  obtain ⟨hlow, hhigh⟩ := hnearest.near
  have hbound : (mantissa == mantissaBound) = false := by
    rw [mantissaBound_eq, beq_eq_false_iff_ne]
    exact hnormal.below.ne
  by_cases hown : exponent = leastExponent ∨ 2 ^ 52 ≤ ratio num den / 2 ^ exponent
  · -- the exponent of the fraction is the one of the number
    have hscales : Scales (ratio num den) exponent := by
      refine ⟨?_, ?_, hnormal.least⟩
      · rw [← div_lt_iff₀ hpos]
        linarith
      · exact hown.imp_right fun hreaches => (le_div_iff₀ hpos).mp hreaches
    rw [ofRatio_of_scales negative hnum hden hscales hnearest, ofMantissa, hbound, if_neg Bool.false_ne_true, bounded,
      if_neg (not_lt.mpr hnormal.greatest)]
  · -- the fraction lies below a power of two, and its mantissa is rounded up to it
    obtain ⟨hleast, hbelow⟩ := not_or.mp hown
    have hbelow := not_le.mp hbelow
    -- that mantissa is the least, and next to it a double one with the exponent below
    obtain rfl : mantissa = 2 ^ 52 := by
      have hreaches := hnormal.reaches.resolve_left hleast
      have : (mantissa : ℚ) < 2 ^ 52 + 1 := by linarith
      have : mantissa < 2 ^ 52 + 1 := by exact_mod_cast this
      omega
    have hlt : leastExponent < exponent := lt_of_le_of_ne hnormal.least (Ne.symm hleast)
    have hquarter := hnarrow rfl hlt
    push_cast at hquarter
    have hpos' := two_zpow_pos (exponent - 1)
    have hhalf : ratio num den / 2 ^ (exponent - 1) = 2 * (ratio num den / 2 ^ exponent) := by
      rw [← sub_add_cancel exponent 1, two_zpow_add_one, sub_add_cancel]
      field_simp
    have hscales : Scales (ratio num den) (exponent - 1) := by
      refine ⟨?_, .inr ?_, by omega⟩
      · rw [← div_lt_iff₀ hpos', hhalf]
        linarith
      · rw [← le_div_iff₀ hpos', hhalf]
        linarith
    have hnearest' : Nearest (ratio num den / 2 ^ (exponent - 1)) (2 ^ 53) := by
      rw [hhalf]
      exact nearest_double hquarter hbelow
    rw [ofRatio_of_scales negative hnum hden hscales hnearest', ofMantissa, mantissaBound_eq, if_pos (beq_self_eq_true _),
      bounded, sub_add_cancel, if_neg (not_lt.mpr hnormal.greatest)]
    norm_num

end Binary64

end JobClosure.Numeral
