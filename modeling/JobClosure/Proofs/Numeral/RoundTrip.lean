import JobClosure.Proofs.Numeral.Real
import JobClosure.Proofs.Numeral.Shortest
import Mathlib.Data.List.TakeWhile

/-!
# Real numbers that were written

The text of a real number is read as that number again (`readReal?_text`), and never as a whole number
(`readWhole_text`), because a point or an exponent follows its first digits.

There are several layouts, and each moves the point or fills up with zeros. What they have in common is that a
text writes digits times a power of ten (`Writes`), with the value that was to be laid out (`exists_writes`). The
reader takes such a text for just these digits and this power, and the value is all that rounding looks at.
-/

namespace JobClosure.Numeral

open Binary64 (Canonical Normal ofDecimal)
open Decimal (value)

/-! ## Digits -/

/-- The number that decimal digits write. -/
def numeral (ds : List Char) : Nat := ofDigits (ds.map digitOf)

theorem numeral_append (ds more : List Char) : numeral (ds ++ more) = numeral ds * 10 ^ more.length + numeral more := by
  have hfold : ∀ (ns : List Nat) (n : Nat),
      ns.foldl (fun n d => 10 * n + d) n = n * 10 ^ ns.length + ns.foldl (fun n d => 10 * n + d) 0 := by
    intro ns
    induction ns with
    | nil => simp
    | cons d ns ih =>
      intro n
      rw [List.foldl_cons, List.foldl_cons, ih, ih (10 * 0 + d), List.length_cons, Nat.pow_succ]
      ring
  rw [numeral, ofDigits, List.map_append, List.foldl_append, hfold, List.length_map]
  rfl

theorem numeral_zeros (count : Nat) : numeral (List.replicate count '0') = 0 := by
  induction count with
  | zero => rfl
  | succ count ih => rw [List.replicate_succ', numeral_append, ih]; rfl

/-- Zeros in front of digits say nothing. -/
theorem numeral_zeros_append (count : Nat) (ds : List Char) :
    numeral (List.replicate count '0' ++ ds) = numeral ds := by
  rw [numeral_append, numeral_zeros, Nat.zero_mul, Nat.zero_add]

/-- Zeros behind digits go with a smaller power of ten. -/
theorem value_append_zeros (ds : List Char) (count : Nat) (power : Int) :
    value ⟨numeral (ds ++ List.replicate count '0'), power - count⟩ = value ⟨numeral ds, power⟩ := by
  rw [value, value, numeral_append, numeral_zeros, List.length_replicate, Nat.add_zero, Nat.cast_mul, Nat.cast_pow,
    Nat.cast_ofNat, mul_assoc, ← zpow_natCast, ← zpow_add₀ (by norm_num), add_sub_cancel]

theorem significant_ne_nil (ds : List Char) : significant ds ≠ [] := by
  unfold significant
  split
  · exact List.cons_ne_nil _ _
  · assumption

/-- Only zeros are cut off. -/
theorem exists_significant {ds : List Char} (hne : ds ≠ []) :
    ∃ count, ds = significant ds ++ List.replicate count '0' := by
  have hzeros : ∃ count, ds.reverse.takeWhile (· == '0') = List.replicate count '0' :=
    ⟨_, List.eq_replicate_iff.mpr ⟨rfl, fun c hc => by simpa using List.mem_takeWhile_imp hc⟩⟩
  obtain ⟨count, hcount⟩ := hzeros
  have hsplit : ds = (ds.reverse.dropWhile (· == '0')).reverse ++ List.replicate count '0' := by
    conv_lhs => rw [← List.reverse_reverse ds, ← List.takeWhile_append_dropWhile (p := (· == '0')) (l := ds.reverse)]
    rw [List.reverse_append, hcount, List.reverse_replicate]
  unfold significant
  split
  · rename_i hnone
    rw [hnone, List.nil_append] at hsplit
    cases count with
    | zero => exact absurd hsplit hne
    | succ count => exact ⟨count, by rw [hsplit, List.replicate_succ]; rfl⟩
  · exact ⟨count, hsplit⟩

/-! ## What the texts have in common -/

/-- What stands behind the digits: nothing, or a power of ten. -/
inductive Scaling : Int → List Char → Prop
  | none : Scaling 0 []
  | exponent (width : Nat) (power : Int) : Scaling power ('e' :: exponentText width power)

/-- A text writes digits times a power of ten. There is a digit in front, and a point or an exponent follows. -/
inductive Writes : List Char → Int → List Char → Prop
  | point {before after tail : List Char} {power : Int} (start : before ≠ []) (whole : ∀ c ∈ before, c.isDigit = true)
      (fraction : ∀ c ∈ after, c.isDigit = true) (scaling : Scaling power tail) :
      Writes (before ++ after) (power - after.length) (before ++ '.' :: (after ++ tail))
  | plain {before : List Char} (width : Nat) (power : Int) (start : before ≠ [])
      (whole : ∀ c ∈ before, c.isDigit = true) : Writes before power (before ++ 'e' :: exponentText width power)

/-- A text that writes this value. -/
def WritesValue (x : ℚ) (text : List Char) : Prop :=
  ∃ written power, Writes written power text ∧ value ⟨numeral written, power⟩ = x

theorem WritesValue.point {x : ℚ} {before after : List Char} (start : before ≠ [])
    (whole : ∀ c ∈ before, c.isDigit = true) (fraction : ∀ c ∈ after, c.isDigit = true)
    (h : value ⟨numeral (before ++ after), -(after.length : Int)⟩ = x) : WritesValue x (before ++ '.' :: after) := by
  have hwrites := Writes.point start whole fraction .none
  rw [List.append_nil, zero_sub] at hwrites
  exact ⟨_, _, hwrites, h⟩

/-! ## The layouts -/

theorem isDigit_zeros (count : Nat) : ∀ c ∈ List.replicate count '0', c.isDigit = true := by
  intro c hc
  rw [List.eq_of_mem_replicate hc]
  rfl

section

variable {ds : List Char} (hne : ds ≠ []) (hdigits : ∀ c ∈ ds, c.isDigit = true)
include hdigits

/-- The point stands in front of the digits, with zeros between. -/
theorem writes_in_front (count : Nat) :
    WritesValue (value ⟨numeral ds, -(count : Int) - ds.length⟩)
      (['0'] ++ '.' :: (List.replicate count '0' ++ ds)) := by
  refine .point (List.cons_ne_nil _ _) (isDigit_zeros 1) (List.forall_mem_append.mpr ⟨isDigit_zeros count, hdigits⟩) ?_
  have hzeros := numeral_zeros_append (1 + count) ds
  rw [List.replicate_add, List.append_assoc] at hzeros
  have hpower : -((List.replicate count '0' ++ ds).length : Int) = -count - ds.length := by
    rw [List.length_append, List.length_replicate]
    omega
  rw [hpower, ← hzeros]
  rfl

include hne

/-- The point stands behind the digits, with zeros between. -/
theorem writes_behind (count : Nat) :
    WritesValue (value ⟨numeral ds, count⟩) (ds ++ List.replicate count '0' ++ '.' :: ['0']) := by
  have hbefore : ∀ c ∈ ds ++ List.replicate count '0', c.isDigit = true :=
    List.forall_mem_append.mpr ⟨hdigits, isDigit_zeros count⟩
  refine .point (List.append_ne_nil_of_left_ne_nil hne _) hbefore (isDigit_zeros 1) ?_
  have hvalue := value_append_zeros ds (count + 1) count
  have hpower : (count : Int) - ((count + 1 : Nat) : Int) = -(['0'].length : Int) := by
    rw [List.length_singleton]
    omega
  rw [hpower, List.replicate_add, ← List.append_assoc] at hvalue
  exact hvalue

/-- The point stands among the digits. -/
theorem writes_among {count : Nat} (hcount : 0 < count) (hlong : count < ds.length) :
    WritesValue (value ⟨numeral ds, count - ds.length⟩) (ds.take count ++ '.' :: ds.drop count) := by
  refine .point ?_ (fun c hc => hdigits c (List.mem_of_mem_take hc)) (fun c hc => hdigits c (List.mem_of_mem_drop hc)) ?_
  · exact fun h => (List.take_eq_nil_iff.mp h).elim hcount.ne' hne
  · have hpower : -((ds.drop count).length : Int) = count - ds.length := by
      rw [List.length_drop]
      omega
    rw [hpower, List.take_append_drop]

/-- A point behind the first digit, if there are more, and an exponent. -/
theorem writes_scaled (width : Nat) (point : Int) :
    WritesValue (value ⟨numeral ds, point - ds.length⟩)
      (ds.take 1 ++ (if (ds.drop 1).isEmpty then [] else '.' :: ds.drop 1) ++ 'e' :: exponentText width (point - 1)) := by
  obtain ⟨first, more, rfl⟩ := List.exists_cons_of_ne_nil hne
  obtain ⟨hfirst, hmore⟩ := List.forall_mem_cons.mp hdigits
  have hstart : ∀ c ∈ [first], c.isDigit = true := List.forall_mem_singleton.mpr hfirst
  have hpower : point - 1 - (more.length : Int) = point - ((first :: more).length : Int) := by
    rw [List.length_cons]
    omega
  cases more with
  | nil =>
    rw [List.length_nil, Nat.cast_zero, sub_zero] at hpower
    exact ⟨[first], _, .plain width (point - 1) hne hstart, by rw [hpower]⟩
  | cons second more =>
    have hwrites := Writes.point (List.cons_ne_nil _ _) hstart hmore (.exponent width (point - 1))
    exact ⟨_, _, hwrites, by rw [← hpower]; rfl⟩

/-- **Every layout of digits writes their value.** -/
theorem writesValue_write (layout : Layout) (point : Int) :
    WritesValue (value ⟨numeral ds, point - ds.length⟩) (layout.write ds point) := by
  unfold Layout.write
  -- the point stands in front of the digits, behind them or among them, or the number is scaled
  split
  · split
    · rename_i hpoint
      have hfront := writes_in_front hdigits (-point).toNat
      rwa [Int.toNat_of_nonneg (by omega), neg_neg] at hfront
    · rename_i hpoint
      have hcount : (point.toNat : Int) = point := Int.toNat_of_nonneg (by omega)
      dsimp only
      split
      · rename_i hall
        have hshort : ds.length ≤ point.toNat := List.drop_eq_nil_iff.mp (List.isEmpty_iff.mp hall)
        rw [List.take_of_length_le hshort]
        have hbehind := writes_behind hne hdigits (point.toNat - ds.length)
        rwa [Nat.cast_sub hshort, hcount] at hbehind
      · rename_i hsome
        have hlong : point.toNat < ds.length := by
          rw [List.isEmpty_iff, List.drop_eq_nil_iff] at hsome
          omega
        have hamong := writes_among hne hdigits (by omega) hlong
        rw [hcount] at hamong
        rw [List.length_take_of_le hlong.le, Nat.sub_self, List.replicate_zero, List.append_nil]
        exact hamong
  · exact writes_scaled hne hdigits layout.exponentWidth point

end

/-- The digits of a decimal, without the zeros at their end, are laid out to its value. -/
theorem writesValue_decimal (layout : Layout) (d : Decimal) :
    WritesValue d.value
      (layout.write (significant (Nat.toDigits 10 d.digits)) ((Nat.toDigits 10 d.digits).length + d.power)) := by
  have hdigits : ∀ c ∈ Nat.toDigits 10 d.digits, c.isDigit = true := fun c => isDigit_of_mem_toDigits
  have hall : numeral (Nat.toDigits 10 d.digits) = d.digits := ofDigits_toDigits d.digits
  obtain ⟨count, hcount⟩ := exists_significant (@Nat.toDigits_ne_nil d.digits 10)
  rw [hcount] at hdigits hall
  have hlength : ((Nat.toDigits 10 d.digits).length : Int)
      = (significant (Nat.toDigits 10 d.digits)).length + count := by
    conv_lhs => rw [hcount]
    rw [List.length_append, List.length_replicate, Nat.cast_add]
  have hwrites := writesValue_write (significant_ne_nil _) (fun c hc => hdigits c (List.mem_append_left _ hc)) layout
    ((Nat.toDigits 10 d.digits).length + d.power)
  have hpower : (Nat.toDigits 10 d.digits).length + d.power - (significant (Nat.toDigits 10 d.digits)).length
      = d.power + count := by omega
  have hvalue := value_append_zeros (significant (Nat.toDigits 10 d.digits)) count (d.power + count)
  rw [hall, add_sub_cancel_right] at hvalue
  rwa [hpower, ← hvalue] at hwrites

/-- **What is written for a finite number rounds back to it.** -/
theorem exists_writes_magnitudeText (mantissa : Nat) (exponent : Int) :
    ∃ written power, Writes written power (magnitudeText mantissa exponent) ∧
      (Normal mantissa exponent →
        ∀ negative, ofDecimal negative (numeral written) power = .finite negative mantissa exponent) := by
  unfold magnitudeText
  split
  · rename_i hzero
    obtain rfl := beq_iff_eq.mp hzero
    refine ⟨['0', '0'], _, .point (List.cons_ne_nil _ _) (isDigit_zeros 1) (isDigit_zeros 1) .none, ?_⟩
    intro hnormal negative
    rw [hnormal.reaches.resolve_right (by norm_num)]
    rfl
  · rename_i hmantissa
    have hmantissa : 0 < mantissa := Nat.pos_of_ne_zero (by simpa using hmantissa)
    obtain ⟨written, power, hwrites, hvalue⟩ := writesValue_decimal realLayout (Decimal.shortest mantissa exponent)
    refine ⟨written, power, hwrites, fun hnormal negative => ?_⟩
    have hwithin : Binary64.Within (value ⟨numeral written, power⟩ / 2 ^ exponent) mantissa exponent := by
      rw [hvalue]
      exact Decimal.within_shortest hmantissa
    exact Binary64.ofDecimal_eq negative hmantissa hnormal hwithin

/-! ## Reading -/

/-- A run of digits and what follows it. -/
theorem digits_append {ds rest : List Char} (h : ∀ c ∈ ds, c.isDigit = true)
    (hrest : rest.takeWhile isAsciiDigit = [] ∧ rest.dropWhile isAsciiDigit = rest) :
    (ds ++ rest).takeWhile isAsciiDigit = ds ∧ (ds ++ rest).dropWhile isAsciiDigit = rest := by
  have h : ∀ c ∈ ds, isAsciiDigit c = true := h
  rw [List.takeWhile_append_of_pos h, List.dropWhile_append_of_pos h, hrest.1, hrest.2, List.append_nil]
  exact ⟨rfl, rfl⟩

/-- An exponent in digits, with its sign. -/
theorem readExponent_of_digits {ds : List Char} (hne : ds ≠ []) (h : ∀ c ∈ ds, c.isDigit = true) (power : Int)
    (hvalue : numeral ds = power.natAbs) :
    readExponent ('e' :: (if power < 0 then '-' else '+') :: ds) = some power := by
  have hsign : sign ((if power < 0 then '-' else '+') :: ds) = (decide (power < 0), ds) := by
    split <;> simp [sign, *]
  have hall : ds.all isAsciiDigit = true := List.all_eq_true.mpr h
  have hsome : ds.isEmpty = false := List.isEmpty_eq_false_iff.mpr hne
  have hvalue : ofDigits (ds.map fun c => c.toNat - '0'.toNat) = power.natAbs := hvalue
  rw [readExponent, hsign]
  dsimp only
  rw [hall, hsome, hvalue, if_pos (by decide)]
  by_cases hnegative : power < 0
  · rw [if_pos (decide_eq_true hnegative)]
    exact congrArg some (by omega)
  · rw [if_neg (by simpa using hnegative)]
    exact congrArg some (by omega)

theorem readExponent_exponentText (width : Nat) (power : Int) :
    readExponent ('e' :: exponentText width power) = some power :=
  readExponent_of_digits (List.append_ne_nil_of_right_ne_nil _ Nat.toDigits_ne_nil)
    (List.forall_mem_append.mpr ⟨isDigit_zeros _, fun _ => isDigit_of_mem_toDigits⟩) power
    ((numeral_zeros_append _ _).trans (ofDigits_toDigits _))

theorem Scaling.readExponent_eq {power : Int} {tail : List Char} (h : Scaling power tail) :
    readExponent tail = some power := by
  cases h with
  | none => rfl
  | exponent width => exact readExponent_exponentText width power

theorem Scaling.ends {power : Int} {tail : List Char} (h : Scaling power tail) :
    tail.takeWhile isAsciiDigit = [] ∧ tail.dropWhile isAsciiDigit = tail := by
  cases h with
  | none => exact ⟨rfl, rfl⟩
  | exponent width => exact ⟨rfl, rfl⟩

theorem splitMantissa_point {before after tail : List Char} {power : Int} (whole : ∀ c ∈ before, c.isDigit = true)
    (fraction : ∀ c ∈ after, c.isDigit = true) (scaling : Scaling power tail) :
    splitMantissa (before ++ '.' :: (after ++ tail)) = (before, after, tail) := by
  have hpoint : ('.' :: (after ++ tail)).takeWhile isAsciiDigit = [] := rfl
  obtain ⟨hbefore, hrest⟩ := digits_append whole ⟨hpoint, rfl⟩
  obtain ⟨hafter, htail⟩ := digits_append fraction scaling.ends
  rw [splitMantissa, hbefore, hrest]
  show (before, (after ++ tail).takeWhile isAsciiDigit, (after ++ tail).dropWhile isAsciiDigit) = _
  rw [hafter, htail]

theorem splitMantissa_plain {before : List Char} (whole : ∀ c ∈ before, c.isDigit = true) (width : Nat) (power : Int) :
    splitMantissa (before ++ 'e' :: exponentText width power) = (before, [], 'e' :: exponentText width power) := by
  obtain ⟨hbefore, hrest⟩ := digits_append whole (Scaling.exponent width power).ends
  rw [splitMantissa, hbefore, hrest]
  rfl

/-- **A text is read as the digits and the power that it writes.** -/
theorem Writes.readMagnitude_eq {written text : List Char} {power : Int} (h : Writes written power text)
    (negative : Bool) : readMagnitude negative text = some (ofDecimal negative (numeral written) power) := by
  cases h with
  | @point before after tail _ start whole fraction scaling =>
    have hne : (before ++ after).isEmpty = false :=
      List.isEmpty_eq_false_iff.mpr (List.append_ne_nil_of_left_ne_nil start _)
    rw [readMagnitude, splitMantissa_point whole fraction scaling]
    dsimp only
    rw [hne, if_neg Bool.false_ne_true, scaling.readExponent_eq]
    rfl
  | plain width power start whole =>
    have hne : written.isEmpty = false := List.isEmpty_eq_false_iff.mpr start
    rw [readMagnitude, splitMantissa_plain whole]
    dsimp only
    rw [List.append_nil, hne, if_neg Bool.false_ne_true, readExponent_exponentText]
    show some (ofDecimal negative (numeral written) (power - ((0 : Nat) : Int))) = _
    rw [Nat.cast_zero, sub_zero]

/-! ## The characters of a number -/

/-- A character that numbers are written with. -/
def isNumeralChar (c : Char) : Bool := c.isDigit || c == '.' || c == 'e' || c == '+' || c == '-'

/-- Such a character is read as it stands. -/
theorem plain_of_isNumeralChar {c : Char} (h : isNumeralChar c = true) :
    asciiDigit c = c ∧ c ≠ '_' ∧ Text.isWideBlank c = false := by
  simp only [isNumeralChar, Bool.or_eq_true, beq_iff_eq] at h
  rcases h with (((h | rfl) | rfl) | rfl) | rfl
  · refine ⟨?_, ne_underscore_of_isDigit h, isWideBlank_of_isDigit h⟩
    have hback : '0'.toNat + digitOf c = c.toNat := Nat.add_sub_cancel' (bounds_of_isDigit h).1
    rw [asciiDigit, digitValue?_of_isDigit h]
    show Char.ofNat ('0'.toNat + digitOf c) = c
    rw [hback, Char.ofNat_toNat]
  all_goals decide

theorem isNumeralChar_of_isDigit {c : Char} (h : c.isDigit = true) : isNumeralChar c = true := by
  simp [isNumeralChar, h]

theorem isNumeralChar_exponentText (width : Nat) (power : Int) :
    ∀ c ∈ 'e' :: exponentText width power, isNumeralChar c = true := by
  have hdigits : ∀ c ∈ List.replicate (width - (Nat.toDigits 10 power.natAbs).length) '0'
      ++ Nat.toDigits 10 power.natAbs, isNumeralChar c = true :=
    List.forall_mem_append.mpr ⟨fun c hc => isNumeralChar_of_isDigit (isDigit_zeros _ c hc),
      fun c hc => isNumeralChar_of_isDigit (isDigit_of_mem_toDigits hc)⟩
  refine List.forall_mem_cons.mpr ⟨rfl, List.forall_mem_cons.mpr ⟨?_, hdigits⟩⟩
  split <;> rfl

theorem Scaling.isNumeralChar {power : Int} {tail : List Char} (h : Scaling power tail) :
    ∀ c ∈ tail, isNumeralChar c = true := by
  cases h with
  | none => exact fun c hc => absurd hc List.not_mem_nil
  | exponent width => exact isNumeralChar_exponentText width power

theorem Writes.isNumeralChar {written text : List Char} {power : Int} (h : Writes written power text) :
    ∀ c ∈ text, isNumeralChar c = true := by
  cases h with
  | point start whole fraction scaling =>
    refine List.forall_mem_append.mpr ⟨fun c hc => isNumeralChar_of_isDigit (whole c hc), ?_⟩
    refine List.forall_mem_cons.mpr ⟨rfl, List.forall_mem_append.mpr ⟨?_, scaling.isNumeralChar⟩⟩
    exact fun c hc => isNumeralChar_of_isDigit (fraction c hc)
  | plain width power start whole =>
    exact List.forall_mem_append.mpr
      ⟨fun c hc => isNumeralChar_of_isDigit (whole c hc), isNumeralChar_exponentText width power⟩

/-- Nothing is taken away from a text of such characters. -/
theorem cleaned_of_isNumeralChar {cs : List Char} (h : ∀ c ∈ cs, isNumeralChar c = true) :
    withoutUnderscores ' ' ((Text.trimBlanks cs).map asciiDigit) = some cs := by
  have hblank : ∀ c ∈ cs, Text.isWideBlank c = false := fun c hc => (plain_of_isNumeralChar (h c hc)).2.2
  have htrim : Text.trimBlanks cs = cs := by
    rw [Text.trimBlanks, dropWhile_of_forall hblank, dropWhile_of_forall fun c hc => hblank c (List.mem_reverse.mp hc),
      List.reverse_reverse]
  have hdigits : cs.map asciiDigit = cs := by
    rw [List.map_congr_left fun c hc => (plain_of_isNumeralChar (h c hc)).1, List.map_id']
  have hkept : ∀ before, withoutUnderscores before cs = some cs := by
    clear htrim hdigits hblank
    induction cs with
    | nil => exact fun _ => rfl
    | cons c cs ih =>
      obtain ⟨hc, hcs⟩ := List.forall_mem_cons.mp h
      intro before
      rw [withoutUnderscores, ih hcs, Option.map_some]
      exact (plain_of_isNumeralChar hc).2.1
  rw [htrim, hdigits, hkept]

/-! ## Numbers with their signs -/

/-- A magnitude behind its sign. -/
def signed (negative : Bool) (text : List Char) : List Char := (if negative then ['-'] else []) ++ text

theorem isNumeralChar_signed (negative : Bool) {text : List Char} (h : ∀ c ∈ text, isNumeralChar c = true) :
    ∀ c ∈ signed negative text, isNumeralChar c = true := by
  cases negative with
  | true => exact List.forall_mem_cons.mpr ⟨rfl, h⟩
  | false => exact h

theorem sign_signed (negative : Bool) {first : Char} {rest : List Char} (h : first.isDigit = true) :
    sign (signed negative (first :: rest)) = (negative, first :: rest) := by
  cases negative with
  | true => rfl
  | false =>
    show sign (first :: rest) = _
    unfold sign
    split
    · rename_i heq
      rw [(List.cons.inj heq).1] at h
      exact absurd h (by decide)
    · rename_i heq
      rw [(List.cons.inj heq).1] at h
      exact absurd h (by decide)
    · rfl

/-- Digits stand in front, and a mark follows them. -/
theorem Writes.exists_start {written text : List Char} {power : Int} (h : Writes written power text) :
    ∃ first digits mark rest, text = (first :: digits) ++ mark :: rest ∧
      (∀ c ∈ first :: digits, c.isDigit = true) ∧ (mark = '.' ∨ mark = 'e') := by
  cases h with
  | point start whole fraction scaling =>
    obtain ⟨first, digits, rfl⟩ := List.exists_cons_of_ne_nil start
    exact ⟨first, digits, _, _, rfl, whole, .inl rfl⟩
  | plain width power start whole =>
    obtain ⟨first, digits, rfl⟩ := List.exists_cons_of_ne_nil start
    exact ⟨first, digits, _, _, rfl, whole, .inr rfl⟩

theorem toLower_of_isDigit {c : Char} (h : c.isDigit = true) : c.toLower = c := by
  obtain ⟨-, hhigh⟩ := bounds_of_isDigit h
  have hval : c.val.toNat = c.toNat := rfl
  unfold Char.toLower
  rw [dif_neg]
  simp only [UInt32.le_iff_toNat_le, ge_iff_le, not_and]
  intro hupper
  have hupper : 0x41 ≤ c.val.toNat := hupper
  omega

/-- What starts with a digit is none of the words for values that are not finite. -/
theorem word_ne {first : Char} {rest : List Char} (h : first.isDigit = true) :
    ∀ word ∈ ["inf", "infinity", "nan"], (String.ofList ((first :: rest).map Char.toLower) == word) = false := by
  have hwords : ∀ word ∈ ["inf", "infinity", "nan"], ∃ start more, word.toList = start :: more ∧ start.isDigit = false := by
    simp only [List.forall_mem_cons]
    exact ⟨⟨'i', ['n', 'f'], rfl, rfl⟩, ⟨'i', ['n', 'f', 'i', 'n', 'i', 't', 'y'], rfl, rfl⟩, ⟨'n', ['a', 'n'], rfl, rfl⟩,
      List.forall_mem_nil _⟩
  intro word hword
  obtain ⟨start, more, hstart, hother⟩ := hwords word hword
  refine beq_eq_false_iff_ne.mpr fun heq => ?_
  rw [← heq, String.toList_ofList, List.map_cons, toLower_of_isDigit h] at hstart
  rw [(List.cons.inj hstart).1, hother] at h
  exact nomatch h

/-- **A signed text is read as the digits and the power that it writes.** -/
theorem readReal?_signed {written text : List Char} {power : Int} (h : Writes written power text) (negative : Bool) :
    readReal? (signed negative text) = some (ofDecimal negative (numeral written) power) := by
  have hclean := cleaned_of_isNumeralChar (isNumeralChar_signed negative h.isNumeralChar)
  have hmagnitude := h.readMagnitude_eq negative
  obtain ⟨first, digits, mark, rest, rfl, hdigits, -⟩ := h.exists_start
  have hfirst := hdigits first List.mem_cons_self
  have hword := @word_ne first (digits ++ mark :: rest) hfirst
  simp only [List.forall_mem_cons] at hword
  obtain ⟨hinf, hinfinity, hnan, -⟩ := hword
  rw [readReal?, hclean]
  dsimp only
  rw [List.cons_append, sign_signed negative hfirst]
  dsimp only
  rw [hinf, hinfinity, hnan]
  exact hmagnitude

/-- A mark behind digits is not part of a whole number. -/
theorem readWhole_signed {written text : List Char} {power : Int} (h : Writes written power text) (negative : Bool) :
    ∃ fault, readWhole (signed negative text) = .error fault := by
  have hblank : ∀ c ∈ signed negative text, Text.isWideBlank c = false := fun c hc =>
    (plain_of_isNumeralChar (isNumeralChar_signed negative h.isNumeralChar c hc)).2.2
  obtain ⟨first, digits, mark, rest, rfl, hdigits, hmark⟩ := h.exists_start
  have hfirst := hdigits first List.mem_cons_self
  have hend : moreDigits (mark :: rest) = some ([], mark :: rest) := by
    rcases hmark with rfl | rfl
    · rfl
    · rfl
  have hrun := digitRun_append (List.cons_ne_nil first digits) hdigits hend
  have htail : (mark :: rest).all Text.isWideBlank = false := by
    rcases hmark with rfl | rfl
    · rfl
    · rfl
  rw [readWhole, dropWhile_of_forall hblank, List.cons_append, sign_signed negative hfirst]
  dsimp only
  rw [← List.cons_append, hrun]
  dsimp only
  rw [htail]
  split
  · exact ⟨_, rfl⟩
  · exact ⟨_, rfl⟩

/-! ## The text of a number -/

theorem toList_text_finite (negative : Bool) (mantissa : Nat) (exponent : Int) :
    (Binary64.finite negative mantissa exponent).text.toList = signed negative (magnitudeText mantissa exponent) :=
  String.toList_ofList

/-- **A real number is read as it was written.** -/
theorem readReal?_text {value : Binary64} (h : value.Canonical) : readReal? value.text.toList = some value := by
  cases value with
  | notANumber => decide
  | infinite negative => cases negative <;> decide
  | finite negative mantissa exponent =>
    obtain ⟨written, power, hwrites, hrounds⟩ := exists_writes_magnitudeText mantissa exponent
    rw [toList_text_finite, readReal?_signed hwrites, hrounds h]

/-- No text of a real number is a whole number. -/
theorem readWhole_text (value : Binary64) : ∃ fault, readWhole value.text.toList = .error fault := by
  cases value with
  | notANumber => exact ⟨.malformed, by decide⟩
  | infinite negative => cases negative <;> exact ⟨.malformed, by decide⟩
  | finite negative mantissa exponent =>
    obtain ⟨written, power, hwrites, -⟩ := exists_writes_magnitudeText mantissa exponent
    rw [toList_text_finite]
    exact readWhole_signed hwrites negative

end JobClosure.Numeral
