import JobClosure.Numeral.Fault
import JobClosure.Numeral.Real
import JobClosure.Proofs.Numeral.Binary64
import JobClosure.Proofs.Numeral.Whole

/-!
# Real numbers that were read

A real number that is read is rounded, so it is canonical (`canonical_of_readReal?`). Its whole part is
smaller than two to the power of 1024 and so never too long to be written (`digitCount_le_of_wholeOfReal`).
-/

namespace JobClosure.Numeral

open Binary64 (Canonical)

theorem canonical_zero (negative : Bool) : (Binary64.zero negative).Canonical :=
  ⟨by decide, by decide, by norm_num, .inl rfl⟩

theorem canonical_ofDecimal (negative : Bool) (digits : Nat) (power : Int) :
    (Binary64.ofDecimal negative digits power).Canonical := by
  unfold Binary64.ofDecimal
  dsimp only
  split
  · exact canonical_zero negative
  · rename_i hdigits
    split
    · exact canonical_zero negative
    · split
      · trivial
      · have hpos : ∀ exponent : Int, 0 < powerOf 10 exponent := fun _ => Nat.pow_pos (by decide)
        have hne : digits ≠ 0 := by simpa using hdigits
        exact Binary64.canonical_ofRatio negative (Nat.mul_pos (Nat.pos_of_ne_zero hne) (hpos power)) (hpos (-power))

/-- **A real number that is read is canonical.** -/
theorem canonical_of_readReal? {cs : List Char} {value : Binary64} (h : readReal? cs = some value) :
    value.Canonical := by
  unfold readReal? at h
  split at h
  · exact nomatch h
  · dsimp only at h
    split at h
    · obtain rfl := Option.some.inj h
      trivial
    · split at h
      · obtain rfl := Option.some.inj h
        trivial
      · unfold readMagnitude at h
        dsimp only at h
        split at h
        · exact nomatch h
        · obtain ⟨exponent, -, rfl⟩ := Option.map_eq_some_iff.mp h
          exact canonical_ofDecimal _ _ _

theorem mul_two_pow_lt {mantissa bits exponent greatest places : Nat} (h : mantissa < 2 ^ bits)
    (hexponent : exponent ≤ greatest) (hplaces : bits + greatest ≤ places) : mantissa * 2 ^ exponent < 10 ^ places := by
  calc mantissa * 2 ^ exponent
      < 2 ^ bits * 2 ^ greatest :=
        Nat.mul_lt_mul_of_lt_of_le h (Nat.pow_le_pow_right (by decide) hexponent) (Nat.pow_pos (by decide))
    _ = 2 ^ (bits + greatest) := (Nat.pow_add 2 bits greatest).symm
    _ ≤ 10 ^ (bits + greatest) := Nat.pow_le_pow_left (by decide) _
    _ ≤ 10 ^ places := Nat.pow_le_pow_right (by decide) hplaces

/-- The whole part of a canonical number can be written. -/
theorem digitCount_le_of_wholePart {value : Binary64} (hvalue : value.Canonical) {whole : Int}
    (h : value.wholePart = .ok whole) : digitCount whole ≤ digitLimit := by
  cases value with
  | notANumber => exact nomatch h
  | infinite negative => exact nomatch h
  | finite negative mantissa exponent =>
    have hnormal : Binary64.Normal mantissa exponent := hvalue
    have hgreatest : exponent.toNat ≤ 971 := Int.toNat_le.mpr hnormal.greatest
    have hsize : mantissa * powerOf 2 exponent / powerOf 2 (-exponent) < 10 ^ digitLimit := by
      calc mantissa * powerOf 2 exponent / powerOf 2 (-exponent)
          ≤ mantissa * powerOf 2 exponent := Nat.div_le_self _ _
        _ < 10 ^ digitLimit := mul_two_pow_lt hnormal.below hgreatest (by decide)
    obtain rfl := Except.ok.inj h
    rw [digitCount_le_iff (by decide)]
    split
    · rwa [Int.natAbs_neg, Int.natAbs_natCast]
    · rwa [Int.natAbs_natCast]

theorem digitCount_le_of_wholeOfReal {value : Binary64} (hvalue : value.Canonical) {whole : Int}
    (h : wholeOfReal value = .ok whole) : digitCount whole ≤ digitLimit := by
  unfold wholeOfReal at h
  split at h
  · rename_i found hfound
    obtain rfl := Except.ok.inj h
    exact digitCount_le_of_wholePart hvalue hfound
  · exact nomatch h
  · exact nomatch h

theorem digitCount_le_of_wholeOf {text shown : String} {whole : Int} (h : wholeOf text shown = .ok whole) :
    digitCount whole ≤ digitLimit := by
  unfold wholeOf at h
  split at h
  · rename_i found hfound
    obtain rfl := Except.ok.inj h
    exact digitCount_le_of_readWhole hfound
  · exact nomatch h
  · exact nomatch h

end JobClosure.Numeral
