import JobClosure.Numeral.Shortest
import JobClosure.Proofs.Numeral.Binary64
import Mathlib.Algebra.Order.Ring.Unbundled.Basic
import Mathlib.Order.Compare
import Mathlib.Tactic.Ring

/-!
# The shortest text rounds back

The decimal that is chosen for a number lies in the rounding interval of that number (`within_shortest`): each
candidate is tested for just that, and where none is left the exact value is taken. Whatever decimal of that
value is read afterwards, with more zeros or fewer, is rounded to the number (`ofDecimal_eq`). How few digits
were chosen plays no part.
-/

namespace JobClosure.Numeral

namespace Decimal

open Binary64 (Nearest Within two_zpow_pos)

variable {mantissa : Nat} {exponent : Int}

/-- The rational number that a decimal writes. -/
def value (d : Decimal) : ℚ := d.digits * 10 ^ d.power

/-! ## Comparing exactly -/

theorem compareScaled_eq (a : Nat) (i : Int) (b : Nat) (j : Int) :
    compareScaled a i b j = cmp ((a : ℚ) * 10 ^ i) (b * 2 ^ j) := by
  have hunit : (0 : ℚ) < powerOf 10 (-i) * powerOf 2 (-j) := by
    have hten : 0 < powerOf 10 (-i) := Nat.pow_pos (by decide)
    have htwo : 0 < powerOf 2 (-j) := Nat.pow_pos (by decide)
    exact_mod_cast Nat.mul_pos hten htwo
  -- both sides are whole multiples of one unit
  have hleft : ((a * powerOf 10 i * powerOf 2 (-j) : Nat) : ℚ) = a * 10 ^ i * (powerOf 10 (-i) * powerOf 2 (-j)) := by
    rw [Nat.cast_mul, Nat.cast_mul, powerOf_eq (show 0 < 10 by decide) i, Nat.cast_ofNat]
    ring
  have hright : ((b * powerOf 2 j * powerOf 10 (-i) : Nat) : ℚ) = b * 2 ^ j * (powerOf 10 (-i) * powerOf 2 (-j)) := by
    rw [Nat.cast_mul, Nat.cast_mul, powerOf_eq (show 0 < 2 by decide) j, Nat.cast_ofNat]
    ring
  rw [compareScaled, ← cmp_eq_compare, ← (Nat.strictMono_cast (α := ℚ)).cmp_map_eq, hleft, hright,
    cmp_mul_pos_right hunit]

/-- A decimal in units of the last place, against quarters of such a unit. -/
theorem compareScaled_quarters (d : Decimal) (quarters : Nat) (exponent : Int) :
    (compareScaled d.digits d.power quarters (exponent - 2) = .lt ↔ d.value / 2 ^ exponent < quarters / 4) ∧
      (compareScaled d.digits d.power quarters (exponent - 2) = .eq ↔ d.value / 2 ^ exponent = quarters / 4) ∧
      (compareScaled d.digits d.power quarters (exponent - 2) = .gt ↔ quarters / 4 < d.value / 2 ^ exponent) := by
  have hpos := two_zpow_pos exponent
  have hquarter : (quarters : ℚ) * 2 ^ (exponent - 2) = quarters / 4 * 2 ^ exponent := by
    rw [zpow_sub₀ (by norm_num)]
    norm_num
    ring
  have hvalue : d.value = d.value / 2 ^ exponent * 2 ^ exponent := (div_mul_cancel₀ _ hpos.ne').symm
  have hcompare : compareScaled d.digits d.power quarters (exponent - 2)
      = cmp (d.value / 2 ^ exponent) (quarters / 4) := by
    rw [compareScaled_eq, hquarter, ← value, hvalue, cmp_mul_pos_right hpos, ← hvalue]
  rw [hcompare]
  exact ⟨cmp_eq_lt_iff _ _, cmp_eq_eq_iff _ _, cmp_eq_gt_iff _ _⟩

/-! ## Candidates -/

/-- **What passes the test lies in the rounding interval.** -/
theorem within_of_roundsTo {d : Decimal} (hmantissa : 0 < mantissa) (h : d.roundsTo mantissa exponent = true) :
    Within (d.value / 2 ^ exponent) mantissa exponent := by
  unfold roundsTo at h
  simp only [compareScaled_quarters, Bool.and_eq_true, Bool.or_eq_true, beq_iff_eq, decide_eq_true_eq] at h
  obtain ⟨hlow, hhigh⟩ := h
  generalize d.value / 2 ^ exponent = x at hlow hhigh
  have hfour : ((4 * mantissa + 2 : Nat) : ℚ) / 4 = mantissa + 1 / 2 := by
    push_cast
    ring
  rw [hfour] at hhigh
  split at hlow
  · -- a quarter of a unit below a power of two
    have hquarter : ((4 * mantissa - 1 : Nat) : ℚ) / 4 = mantissa - 1 / 4 := by
      rw [Nat.cast_sub (by omega)]
      push_cast
      ring
    rw [hquarter] at hlow
    have hlow : (mantissa : ℚ) - 1 / 4 ≤ x := by
      rcases hlow with hlow | ⟨-, hlow⟩ <;> linarith
    exact ⟨⟨.inl (by linarith), hhigh.imp_right And.symm⟩, fun _ _ => hlow⟩
  · rename_i hwide
    have hhalf : ((4 * mantissa - 2 : Nat) : ℚ) / 4 = mantissa - 1 / 2 := by
      rw [Nat.cast_sub (by omega)]
      push_cast
      ring
    rw [hhalf] at hlow
    refine ⟨⟨?_, hhigh.imp_right And.symm⟩, fun hpower hleast => absurd ⟨?_, hleast⟩ hwide⟩
    · exact hlow.imp_right fun hclosed => ⟨hclosed.2.symm, hclosed.1⟩
    · rw [hpower]
      rfl

theorem roundsTo_of_nearestAt? {d : Decimal} {power : Int} (h : nearestAt? mantissa exponent power = some d) :
    d.roundsTo mantissa exponent = true := by
  unfold nearestAt? at h
  dsimp only at h
  generalize mantissa * powerOf 2 exponent * powerOf 10 (-power) / (powerOf 2 (-exponent) * powerOf 10 power)
    = floor at h
  split at h
  · rename_i hbelow _
    rwa [← Option.some.inj h]
  · rename_i _ habove
    rwa [← Option.some.inj h]
  · exact nomatch h
  · rename_i hbelow habove
    split at h
    · rwa [← Option.some.inj h]
    · rwa [← Option.some.inj h]
    · rw [← Option.some.inj h]
      split
      · exact hbelow
      · exact habove

/-- The exact value of a number as a decimal. -/
theorem value_exact (mantissa : Nat) (exponent : Int) :
    value ⟨mantissa * powerOf 2 exponent * powerOf 5 (-exponent), min exponent 0⟩ = mantissa * 2 ^ exponent := by
  have htwo := powerOf_eq (show 0 < 2 by decide) exponent
  have hten : (10 : ℚ) ^ min exponent 0 * (powerOf 2 (-exponent) * powerOf 5 (-exponent)) = 1 := by
    have hnone : powerOf 10 (min exponent 0) = 1 := by
      rw [powerOf, Int.toNat_of_nonpos (min_le_right exponent 0)]
    have hback : powerOf 10 (-min exponent 0) = powerOf 2 (-exponent) * powerOf 5 (-exponent) := by
      have htoNat : (-min exponent 0).toNat = (-exponent).toNat := by omega
      rw [powerOf, htoNat]
      exact Nat.mul_pow 2 5 _
    have hpower := powerOf_eq (show 0 < 10 by decide) (min exponent 0)
    rw [hnone, hback] at hpower
    exact_mod_cast hpower.symm
  calc value ⟨mantissa * powerOf 2 exponent * powerOf 5 (-exponent), min exponent 0⟩
      = mantissa * powerOf 2 exponent * powerOf 5 (-exponent) * 10 ^ min exponent 0 := by
        rw [value, Nat.cast_mul, Nat.cast_mul]
    _ = mantissa * 2 ^ exponent * (10 ^ min exponent 0 * (powerOf 2 (-exponent) * powerOf 5 (-exponent))) := by
        rw [htwo, Nat.cast_ofNat]
        ring
    _ = mantissa * 2 ^ exponent := by rw [hten, mul_one]

theorem within_self (mantissa : Nat) (exponent : Int) : Within mantissa mantissa exponent :=
  ⟨⟨.inl (by linarith), .inl (by linarith)⟩, fun _ _ => by linarith⟩

/-- **The shortest decimal rounds back.** -/
theorem within_shortest (hmantissa : 0 < mantissa) :
    Within ((shortest mantissa exponent).value / 2 ^ exponent) mantissa exponent := by
  unfold shortest
  dsimp only
  cases hfound : (List.range 17).findSome? fun (n : Nat) => nearestAt? mantissa exponent (scale mantissa exponent - n - 1) with
  | none =>
    rw [Option.getD_none, value_exact, mul_div_cancel_right₀ _ (two_zpow_pos exponent).ne']
    exact within_self mantissa exponent
  | some d =>
    obtain ⟨places, -, hnearest⟩ := List.exists_of_findSome?_eq_some hfound
    exact within_of_roundsTo hmantissa (roundsTo_of_nearestAt? hnearest)

end Decimal

namespace Binary64

open Decimal (value)

/-! ## Reading a decimal -/

/-- Powers of two against powers of ten: ten to the seventh is a little more than two to the twenty-third. -/
theorem two_pow_le_ten_pow (n : Nat) : (2 : ℚ) ^ (23 * n) ≤ 10 ^ (7 * n) := by
  rw [pow_mul, pow_mul]
  exact pow_le_pow_left₀ (by norm_num) (by norm_num) n

/-- A decimal lies between the powers of ten that its number of digits says. -/
theorem value_bounds {digits : Nat} (hdigits : 0 < digits) (power : Int) :
    (10 : ℚ) ^ ((Nat.toDigits 10 digits).length + power - 1) ≤ value ⟨digits, power⟩ ∧
      value ⟨digits, power⟩ < 10 ^ ((Nat.toDigits 10 digits).length + power) := by
  have hcount : ∀ {count : Nat}, 0 < count → ((Nat.toDigits 10 digits).length ≤ count ↔ digits < 10 ^ count) :=
    Nat.length_toDigits_le_iff (by decide)
  have hlength : 0 < (Nat.toDigits 10 digits).length := Nat.length_toDigits_pos
  obtain ⟨more, hmore⟩ := Nat.exists_eq_add_one_of_ne_zero hlength.ne'
  rw [hmore] at hcount ⊢
  have hhigh : digits < 10 ^ (more + 1) := (hcount (Nat.succ_pos more)).mp le_rfl
  have hlow : 10 ^ more ≤ digits := by
    cases more with
    | zero => exact hdigits
    | succ more => exact not_lt.mp fun h => absurd ((hcount (Nat.succ_pos more)).mpr h) (by omega)
  have hpos : (0 : ℚ) < 10 ^ power := zpow_pos (by norm_num) power
  have hstart : ((more + 1 : Nat) : Int) + power - 1 = more + power := by omega
  rw [hstart, zpow_add₀ (by norm_num), zpow_add₀ (by norm_num), zpow_natCast, zpow_natCast]
  constructor
  · exact mul_le_mul_of_nonneg_right (by exact_mod_cast hlow) hpos.le
  · exact mul_lt_mul_of_pos_right (by exact_mod_cast hhigh) hpos

/-- The finite numbers stay within the decimal places that are looked at. -/
theorem places_le {places : Int} (h : (10 : ℚ) ^ (places - 1) < 2 ^ 53 * 2 ^ greatestExponent) : places ≤ 330 := by
  by_contra hgt
  have hten : (10 : ℚ) ^ (7 * 47) ≤ 10 ^ (places - 1) := by
    rw [← zpow_natCast]
    exact zpow_le_zpow_right₀ (by norm_num) (by push_cast; omega)
  have htwo : (2 : ℚ) ^ 53 * 2 ^ greatestExponent ≤ 2 ^ (23 * 47) := by
    rw [← zpow_natCast, ← zpow_natCast, ← zpow_add₀ (by norm_num)]
    exact two_zpow_le (by decide)
  exact absurd h (not_lt.mpr (htwo.trans ((two_pow_le_ten_pow 47).trans hten)))

theorem le_places {places : Int} (h : 1 / 2 * 2 ^ leastExponent < (10 : ℚ) ^ places) : -330 ≤ places := by
  by_contra hlt
  have hten : (10 : ℚ) ^ places ≤ (10 ^ (7 * 47))⁻¹ := by
    rw [← zpow_natCast, ← zpow_neg]
    exact zpow_le_zpow_right₀ (by norm_num) (by push_cast; omega)
  have htwo : (2 ^ (23 * 47) : ℚ)⁻¹ ≤ 1 / 2 * 2 ^ leastExponent := by
    have hhalf : (1 / 2 : ℚ) = 2 ^ (-1 : Int) := by norm_num
    rw [← zpow_natCast, ← zpow_neg, hhalf, ← zpow_add₀ (by norm_num)]
    exact two_zpow_le (by decide)
  have hpos : (0 : ℚ) < 2 ^ (23 * 47) := pow_pos (by norm_num) _
  exact absurd h (not_lt.mpr (hten.trans ((inv_anti₀ hpos (two_pow_le_ten_pow 47)).trans htwo)))

/-- What is rounded to a positive number lies in the range of these numbers. -/
theorem Within.range {x : ℚ} {mantissa : Nat} {exponent : Int} (h : Within (x / 2 ^ exponent) mantissa exponent)
    (hmantissa : 0 < mantissa) (hnormal : Normal mantissa exponent) :
    1 / 2 * 2 ^ leastExponent ≤ x ∧ x < 2 ^ 53 * 2 ^ greatestExponent := by
  have hpos := two_zpow_pos exponent
  obtain ⟨hlow, hhigh⟩ := h.1.near
  have hone : (1 : ℚ) ≤ mantissa := by exact_mod_cast hmantissa
  have hmost : (mantissa : ℚ) + 1 ≤ 2 ^ 53 := by exact_mod_cast hnormal.below
  have hleast := two_zpow_le hnormal.least
  have hgreatest := two_zpow_le hnormal.greatest
  have hlow : 1 / 2 * 2 ^ exponent ≤ x := by
    rw [← le_div_iff₀ hpos]
    linarith
  have hhigh : x < 2 ^ 53 * 2 ^ exponent := by
    rw [← div_lt_iff₀ hpos]
    linarith
  exact ⟨by linarith, by linarith⟩

/-- **A decimal is rounded to the number in whose interval it lies.** -/
theorem ofDecimal_eq (negative : Bool) {d : Decimal} {mantissa : Nat} {exponent : Int} (hmantissa : 0 < mantissa)
    (hnormal : Normal mantissa exponent) (h : Within (d.value / 2 ^ exponent) mantissa exponent) :
    ofDecimal negative d.digits d.power = .finite negative mantissa exponent := by
  obtain ⟨digits, power⟩ := d
  obtain ⟨hlow, hhigh⟩ := h.range hmantissa hnormal
  have hdigits : 0 < digits := by
    by_contra hzero
    have hvalue : value ⟨digits, power⟩ = 0 := by
      rw [value, Nat.eq_zero_of_not_pos hzero, Nat.cast_zero, zero_mul]
    linarith [two_zpow_pos leastExponent]
  obtain ⟨hfrom, hto⟩ := value_bounds hdigits power
  have hmost : (Nat.toDigits 10 digits).length + power ≤ 330 := places_le (hfrom.trans_lt hhigh)
  have hleast : -330 ≤ (Nat.toDigits 10 digits).length + power := le_places (hlow.trans_lt hto)
  have hratio : ratio (digits * powerOf 10 power) (powerOf 10 (-power)) = value ⟨digits, power⟩ := by
    have hne := powerOf_ne_zero (show 0 < 10 by decide) (-power)
    rw [ratio, value, Nat.cast_mul, powerOf_eq (show 0 < 10 by decide) power, ← mul_assoc, mul_div_cancel_right₀ _ hne,
      Nat.cast_ofNat]
  have hten : ∀ power : Int, 0 < powerOf 10 power := fun power => Nat.pow_pos (by decide)
  rw [ofDecimal, if_neg (by simpa using hdigits.ne'), if_neg (not_lt.mpr hleast), if_neg (not_lt.mpr hmost)]
  exact ofRatio_eq negative (Nat.mul_pos hdigits (hten power)) (hten _) hnormal (by rwa [hratio])

end Binary64

end JobClosure.Numeral
