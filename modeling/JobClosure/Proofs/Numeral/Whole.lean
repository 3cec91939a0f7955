import JobClosure.Numeral.Whole
import Mathlib.Algebra.Group.Nat.Defs

/-!
# Whole numbers that were written in decimal

The decimal digits of a number, with a minus in front if it is negative, are read as that number again
(`readWhole_toString`), as long as there are no more of them than a whole number may have. Every whole
number that is read has no more (`digitCount_le_of_readWhole`).
-/

namespace JobClosure.Numeral

/-- The number of decimal digits of a whole number. -/
def digitCount (value : Int) : Nat := (Nat.toDigits 10 value.natAbs).length

/-- The value of a digit of ASCII. -/
def digitOf (c : Char) : Nat := c.toNat - '0'.toNat

theorem bounds_of_isDigit {c : Char} (h : c.isDigit = true) : 0x30 ≤ c.toNat ∧ c.toNat ≤ 0x39 := by
  simp only [Char.isDigit, Bool.and_eq_true, decide_eq_true_eq] at h
  exact h

theorem digitValue?_of_isDigit {c : Char} (h : c.isDigit = true) : Text.digitValue? c = some (digitOf c) := by
  obtain ⟨hlow, hhigh⟩ := bounds_of_isDigit h
  have hfind : Text.decimalDigits.find? c = some (0x30, 0x39) := by
    simp [Text.Ranges.find?, Text.decimalDigits, hlow, hhigh]
  have : (c.toNat - 0x30) % 10 = digitOf c := by
    show (c.toNat - 0x30) % 10 = c.toNat - 0x30
    omega
  simp [Text.digitValue?, hfind, this]

theorem ne_underscore_of_isDigit {c : Char} (h : c.isDigit = true) : c ≠ '_' := by
  rintro rfl
  exact absurd h (by decide)

theorem isBlank_of_isDigit {c : Char} (h : c.isDigit = true) : Text.isBlank c = false := by
  obtain ⟨hlow, hhigh⟩ := bounds_of_isDigit h
  have hspace : c ≠ ' ' := by
    rintro rfl
    exact absurd h (by decide)
  simp only [Text.isBlank, Bool.or_eq_false_iff, Bool.and_eq_false_iff, decide_eq_false_iff_not,
    beq_eq_false_iff_ne]
  exact ⟨hspace, by omega⟩

theorem isWideBlank_of_isDigit {c : Char} (h : c.isDigit = true) : Text.isWideBlank c = false := by
  have hwide : ∀ r ∈ Text.wideBlanks, 0x39 < r.1 := by decide
  have hbeyond : Text.wideBlanks.contains c = false := by
    rw [Text.Ranges.contains, List.any_eq_false]
    intro r hr
    have := hwide r hr
    have := bounds_of_isDigit h
    simp only [Bool.and_eq_true, decide_eq_true_eq]
    omega
  rw [Text.isWideBlank, isBlank_of_isDigit h, hbeyond, Bool.or_false]

/-- Every digit of a run is read, up to what ends it. -/
theorem moreDigits_append {cs tail : List Char} (h : ∀ c ∈ cs, c.isDigit = true)
    (htail : moreDigits tail = some ([], tail)) : moreDigits (cs ++ tail) = some (cs.map digitOf, tail) := by
  induction cs with
  | nil => exact htail
  | cons c cs ih =>
    have hc := h c List.mem_cons_self
    have hrest := ih fun c hc => h c (List.mem_cons_of_mem _ hc)
    rw [List.cons_append, moreDigits]
    · simp [digitValue?_of_isDigit hc, hrest]
    · exact fun heq _ => ne_underscore_of_isDigit hc heq
    · exact fun _ _ heq _ => ne_underscore_of_isDigit hc heq

theorem digitRun_append {cs tail : List Char} (hne : cs ≠ []) (h : ∀ c ∈ cs, c.isDigit = true)
    (htail : moreDigits tail = some ([], tail)) : digitRun (cs ++ tail) = some (cs.map digitOf, tail) := by
  obtain ⟨c, cs, rfl⟩ := List.exists_cons_of_ne_nil hne
  simp [digitRun, digitValue?_of_isDigit (h c List.mem_cons_self),
    moreDigits_append (fun c hc => h c (List.mem_cons_of_mem _ hc)) htail]

theorem digitRun_of_digits {cs : List Char} (hne : cs ≠ []) (h : ∀ c ∈ cs, c.isDigit = true) :
    digitRun cs = some (cs.map digitOf, []) := by
  have hend : moreDigits [] = some ([], []) := rfl
  rw [← digitRun_append hne h hend, List.append_nil]

theorem ofDigits_map_digitOf (cs : List Char) : ofDigits (cs.map digitOf) = Nat.ofDigitChars 10 cs 0 := by
  rw [ofDigits, List.foldl_map, Nat.ofDigitChars_eq_foldl]
  rfl

theorem ofDigits_toDigits (n : Nat) : ofDigits ((Nat.toDigits 10 n).map digitOf) = n := by
  rw [ofDigits_map_digitOf, Nat.ofDigitChars_toDigits (by decide) (by decide)]

theorem isDigit_of_mem_toDigits {n : Nat} {c : Char} (h : c ∈ Nat.toDigits 10 n) : c.isDigit = true :=
  Nat.isDigit_of_mem_toDigits (by decide) (by decide) h

theorem toList_toString_ofNat (n : Nat) : (toString (Int.ofNat n)).toList = Nat.toDigits 10 n :=
  Nat.toList_repr

theorem toList_toString_negSucc (n : Nat) :
    (toString (Int.negSucc n)).toList = '-' :: Nat.toDigits 10 (n + 1) := by
  show ("-" ++ (n + 1).repr).toList = _
  rw [String.toList_append, Nat.toList_repr]
  rfl

theorem sign_of_digits {cs : List Char} (h : ∀ c ∈ cs, c.isDigit = true) : sign cs = (false, cs) := by
  unfold sign
  split
  · exact absurd (h '-' List.mem_cons_self) (by decide)
  · exact absurd (h '+' List.mem_cons_self) (by decide)
  · rfl

theorem dropWhile_of_forall {p : Char → Bool} {cs : List Char} (h : ∀ c ∈ cs, p c = false) : cs.dropWhile p = cs := by
  cases cs with
  | nil => rfl
  | cons c cs => rw [List.dropWhile_cons_of_neg (by simp [h c List.mem_cons_self])]

theorem dropWhile_of_digits {cs : List Char} (h : ∀ c ∈ cs, c.isDigit = true) :
    cs.dropWhile Text.isWideBlank = cs :=
  dropWhile_of_forall fun c hc => isWideBlank_of_isDigit (h c hc)

/-- A sign and digits are read as what they say. -/
theorem readWhole_of_sign {cs : List Char} {negative : Bool} {n : Nat}
    (hsign : sign (cs.dropWhile Text.isWideBlank) = (negative, Nat.toDigits 10 n))
    (hshort : (Nat.toDigits 10 n).length ≤ digitLimit) :
    readWhole cs = .ok (if negative then -(n : Int) else n) := by
  have hrun := digitRun_of_digits (@Nat.toDigits_ne_nil n 10) fun c => isDigit_of_mem_toDigits
  unfold readWhole
  simp [hsign, hrun, Nat.not_lt.mpr hshort, ofDigits_toDigits]

/-- **A whole number is read as it was written.** -/
theorem readWhole_toString {value : Int} (h : digitCount value ≤ digitLimit) :
    readWhole (toString value).toList = .ok value := by
  cases value with
  | ofNat n =>
    have digits : ∀ c ∈ Nat.toDigits 10 n, c.isDigit = true := fun c => isDigit_of_mem_toDigits
    have hsign : sign ((Nat.toDigits 10 n).dropWhile Text.isWideBlank) = (false, Nat.toDigits 10 n) := by
      rw [dropWhile_of_digits digits, sign_of_digits digits]
    rw [toList_toString_ofNat, readWhole_of_sign hsign h]
    rfl
  | negSucc n =>
    have hsign : sign (('-' :: Nat.toDigits 10 (n + 1)).dropWhile Text.isWideBlank)
        = (true, Nat.toDigits 10 (n + 1)) := by
      rw [List.dropWhile_cons_of_neg (by decide)]
      rfl
    rw [toList_toString_negSucc, readWhole_of_sign hsign h]
    rfl

/-! ## How large a number is that was read -/

theorem digitCount_le_iff {value : Int} {count : Nat} (h : 0 < count) :
    digitCount value ≤ count ↔ value.natAbs < 10 ^ count :=
  Nat.length_toDigits_le_iff (by decide) h

theorem digitValue?_lt {c : Char} {d : Nat} (h : Text.digitValue? c = some d) : d < 10 := by
  obtain ⟨range, -, rfl⟩ := Option.map_eq_some_iff.mp h
  exact Nat.mod_lt _ (by decide)

/-- One more digit in front of a run. -/
theorem forall_lt_of_map_cons {run : Option (List Nat × List Char)} {d : Nat} {ds : List Nat} {tail : List Char}
    (hd : d < 10) (hrun : ∀ {ds tail}, run = some (ds, tail) → ∀ d ∈ ds, d < 10)
    (h : run.map (fun found => (d :: found.1, found.2)) = some (ds, tail)) : ∀ d ∈ ds, d < 10 := by
  obtain ⟨⟨more, tail'⟩, hmore, heq⟩ := Option.map_eq_some_iff.mp h
  obtain ⟨rfl, -⟩ := Prod.mk.inj heq
  exact List.forall_mem_cons.mpr ⟨hd, hrun hmore⟩

theorem forall_lt_of_moreDigits {cs tail : List Char} {ds : List Nat} (h : moreDigits cs = some (ds, tail)) :
    ∀ d ∈ ds, d < 10 := by
  fun_induction moreDigits cs generalizing ds tail with
  | case1 =>
    obtain ⟨rfl, -⟩ := Prod.mk.inj (Option.some.inj h)
    exact fun d hd => absurd hd List.not_mem_nil
  | case2 => exact nomatch h
  | case3 c rest d hd ih => exact forall_lt_of_map_cons (digitValue?_lt hd) ih h
  | case4 => exact nomatch h
  | case5 c rest _ _ d hd ih => exact forall_lt_of_map_cons (digitValue?_lt hd) ih h
  | case6 =>
    obtain ⟨rfl, -⟩ := Prod.mk.inj (Option.some.inj h)
    exact fun d hd => absurd hd List.not_mem_nil

theorem forall_lt_of_digitRun {cs tail : List Char} {ds : List Nat} (h : digitRun cs = some (ds, tail)) :
    ∀ d ∈ ds, d < 10 := by
  unfold digitRun at h
  split at h
  · exact nomatch h
  · split at h
    · rename_i d hd
      exact forall_lt_of_map_cons (digitValue?_lt hd) forall_lt_of_moreDigits h
    · exact nomatch h

theorem ofDigits_lt {ds : List Nat} (h : ∀ d ∈ ds, d < 10) : ofDigits ds < 10 ^ ds.length := by
  have hfold : ∀ n, ds.foldl (fun n d => 10 * n + d) n < (n + 1) * 10 ^ ds.length := by
    induction ds with
    | nil => intro n; simp
    | cons d ds ih =>
      intro n
      obtain ⟨hd, hds⟩ := List.forall_mem_cons.mp h
      have hstep := ih hds (10 * n + d)
      have hgrow : (10 * n + d + 1) * 10 ^ ds.length ≤ (n + 1) * 10 * 10 ^ ds.length :=
        Nat.mul_le_mul_right _ (by omega)
      rw [List.foldl_cons, List.length_cons, Nat.pow_succ', ← Nat.mul_assoc]
      exact Nat.lt_of_lt_of_le hstep hgrow
  rw [ofDigits]
  simpa using hfold 0

/-- **No whole number that is read has too many digits.** -/
theorem digitCount_le_of_readWhole {cs : List Char} {value : Int} (h : readWhole cs = .ok value) :
    digitCount value ≤ digitLimit := by
  unfold readWhole at h
  dsimp only at h
  split at h
  · exact nomatch h
  · rename_i ds tail hrun
    split at h
    · exact nomatch h
    · rename_i hshort
      split at h
      · have hdigits := forall_lt_of_digitRun hrun
        obtain rfl := Except.ok.inj h
        have hlt : ofDigits ds < 10 ^ digitLimit :=
          Nat.lt_of_lt_of_le (ofDigits_lt hdigits) (Nat.pow_le_pow_right (by decide) (Nat.not_lt.mp hshort))
        rw [digitCount_le_iff (by decide)]
        split
        · rwa [Int.natAbs_neg, Int.natAbs_natCast]
        · rwa [Int.natAbs_natCast]
      · exact nomatch h

end JobClosure.Numeral
