import Piclaw.CanonicalText

/-!
# The texts of numbers

A number's text is read back as digits, a point and an exponent. Its reading is the number it shows,
so different numbers have different texts, the two zeros apart.
-/

namespace Piclaw.CanonicalText

section Digits

def isDigitUnit (u : ℕ) : Bool := decide (48 ≤ u) && decide (u ≤ 57)

/-- The number that decimal digits show. -/
def digitsValue (digits : Units) : ℕ := digits.foldl (fun v u => 10 * v + (u - 48)) 0

theorem foldl_digits (digits : Units) (v : ℕ) :
    digits.foldl (fun v u => 10 * v + (u - 48)) v =
      v * 10 ^ digits.length + digitsValue digits := by
  unfold digitsValue
  induction digits generalizing v with
  | nil => simp
  | cons u digits ih =>
    rw [List.foldl_cons, List.foldl_cons, ih, ih (10 * 0 + (u - 48)), List.length_cons]
    ring

theorem digitsValue_append (a b : Units) :
    digitsValue (a ++ b) = digitsValue a * 10 ^ b.length + digitsValue b := by
  conv_lhs => unfold digitsValue
  rw [List.foldl_append, foldl_digits]
  rfl

theorem digitsValue_zeros (n : ℕ) : digitsValue (List.replicate n 48) = 0 := by
  induction n with
  | zero => rfl
  | succ n ih =>
    rw [List.replicate_succ', digitsValue_append, ih]
    rfl

theorem digitsValue_decimalDigits (n : ℕ) : digitsValue (decimalDigits n) = n := by
  have hdigits : ∀ l : List ℕ, digitsValue (l.reverse.map (48 + ·)) = Nat.ofDigits 10 l := by
    intro l
    induction l with
    | nil => rfl
    | cons d l ih =>
      rw [List.reverse_cons, List.map_append, digitsValue_append, ih, Nat.ofDigits_cons]
      simp [digitsValue]
      ring
  unfold decimalDigits
  rw [hdigits, Nat.ofDigits_digits]

theorem decimalDigits_digit {n u : ℕ} (h : u ∈ decimalDigits n) : isDigitUnit u = true := by
  unfold decimalDigits at h
  obtain ⟨d, hd, rfl⟩ := List.mem_map.mp h
  have hlt := Nat.digits_lt_base (by norm_num) (List.mem_reverse.mp hd)
  unfold isDigitUnit
  simp only [Bool.and_eq_true, decide_eq_true_eq]
  omega

theorem decimalDigits_ne_nil {n : ℕ} (h : n ≠ 0) : decimalDigits n ≠ [] := by
  unfold decimalDigits
  simpa using Nat.digits_ne_nil_iff_ne_zero.mpr h

theorem natText_digit {n u : ℕ} (h : u ∈ natText n) : isDigitUnit u = true := by
  unfold natText at h
  split_ifs at h
  · rw [List.mem_singleton] at h
    subst h
    rfl
  · exact decimalDigits_digit h

theorem digitsValue_natText (n : ℕ) : digitsValue (natText n) = n := by
  unfold natText
  split_ifs with h
  · subst h
    rfl
  · exact digitsValue_decimalDigits n

end Digits

section Readings

def exponentOf : Units → ℤ
  | _ :: 43 :: digits => digitsValue digits
  | _ :: 45 :: digits => -digitsValue digits
  | _ => 0

/-- The number that digits with an optional point and exponent show. -/
def reading (t : Units) : ℚ :=
  let mantissa := t.takeWhile (· ≠ 101)
  let fraction := (mantissa.dropWhile (· ≠ 46)).tail
  digitsValue (mantissa.takeWhile (· ≠ 46) ++ fraction) *
    10 ^ (exponentOf (t.dropWhile (· ≠ 101)) - fraction.length)

def pointed (fraction : Units) : Units := if fraction = [] then [] else 46 :: fraction

theorem isDigitUnit_ne {u : ℕ} (h : isDigitUnit u = true) : u ≠ 101 ∧ u ≠ 46 ∧ u ≠ 45 := by
  unfold isDigitUnit at h
  simp only [Bool.and_eq_true, decide_eq_true_eq] at h
  omega

/-- Whole digits, fraction and exponent are read back. -/
theorem reading_parts {whole fraction exponent : Units} (hw : ∀ u ∈ whole, isDigitUnit u = true)
    (hf : ∀ u ∈ fraction, isDigitUnit u = true)
    (he : exponent = [] ∨ exponent.head? = some 101) :
    reading (whole ++ pointed fraction ++ exponent) =
      digitsValue (whole ++ fraction) * 10 ^ (exponentOf exponent - fraction.length) := by
  have hmantissa : ∀ u ∈ whole ++ pointed fraction, decide (u ≠ 101) = true := by
    intro u hu
    rcases List.mem_append.mp hu with hu | hu
    · simpa using (isDigitUnit_ne (hw u hu)).1
    · unfold pointed at hu
      split_ifs at hu with hnil
      · cases hu
      · rcases List.mem_cons.mp hu with rfl | hu
        · rfl
        · simpa using (isDigitUnit_ne (hf u hu)).1
  have hexponent : exponent.takeWhile (· ≠ 101) = [] ∧
      exponent.dropWhile (· ≠ 101) = exponent := by
    rcases he with rfl | he
    · exact ⟨rfl, rfl⟩
    · obtain ⟨rest, rfl⟩ := List.head?_eq_some_iff.mp he
      exact ⟨rfl, rfl⟩
  have hwhole : ∀ u ∈ whole, decide (u ≠ 46) = true := fun u hu => by
    simpa using (isDigitUnit_ne (hw u hu)).2.1
  have hpointed : (pointed fraction).takeWhile (· ≠ 46) = [] ∧
      ((pointed fraction).dropWhile (· ≠ 46)).tail = fraction := by
    unfold pointed
    split_ifs with hnil
    · exact ⟨rfl, hnil.symm⟩
    · exact ⟨rfl, rfl⟩
  unfold reading
  dsimp only
  rw [List.takeWhile_append_of_pos hmantissa, List.dropWhile_append_of_pos hmantissa,
    hexponent.1, hexponent.2, List.append_nil, List.takeWhile_append_of_pos hwhole,
    List.dropWhile_append_of_pos hwhole, hpointed.1, hpointed.2, List.append_nil]

theorem exponentOf_signed (n : ℤ) :
    exponentOf (101 :: (if 0 ≤ n then 43 else 45) :: natText n.natAbs) = n := by
  split_ifs with hn
  · change ((digitsValue (natText n.natAbs) : ℕ) : ℤ) = n
    rw [digitsValue_natText]
    omega
  · change -((digitsValue (natText n.natAbs) : ℕ) : ℤ) = n
    rw [digitsValue_natText]
    omega

/-- A numeral shows its digits, shifted to where its point stands. -/
theorem reading_numeral {digits : Units} {n : ℤ} (hd : ∀ u ∈ digits, isDigitUnit u = true)
    (hne : digits ≠ []) :
    reading (numeral digits n) = digitsValue digits * 10 ^ (n - digits.length) := by
  have hlength : 0 < digits.length := List.length_pos_of_ne_nil hne
  have hzero : ∀ m, ∀ u ∈ List.replicate m 48, isDigitUnit u = true := by
    intro m u hu
    rw [List.eq_of_mem_replicate hu]
    rfl
  have htake : ∀ m, ∀ u ∈ digits.take m, isDigitUnit u = true :=
    fun m u hu => hd u (List.mem_of_mem_take hu)
  have hdrop : ∀ m, ∀ u ∈ digits.drop m, isDigitUnit u = true :=
    fun m u hu => hd u (List.mem_of_mem_drop hu)
  unfold numeral
  dsimp only
  by_cases hwhole : (digits.length : ℤ) ≤ n ∧ n ≤ 21
  · -- all digits stand before the point
    have hparts := @reading_parts (digits ++ List.replicate (n - digits.length).toNat 48) [] []
      (fun u hu => (List.mem_append.mp hu).elim (hd u) (hzero _ u))
      (fun _ hu => absurd hu List.not_mem_nil) (Or.inl rfl)
    simp only [pointed, if_true, List.append_nil, exponentOf, List.length_nil] at hparts
    rw [if_pos hwhole, hparts, digitsValue_append, digitsValue_zeros, List.length_replicate]
    have hcast : ((n - digits.length).toNat : ℤ) = n - digits.length := by omega
    rw [← hcast, zpow_natCast]
    push_cast
    simp
  rw [if_neg hwhole]
  by_cases hpoint : 0 < n ∧ n ≤ 21
  · -- the point stands among the digits
    have hparts := @reading_parts (digits.take n.toNat) (digits.drop n.toNat) [] (htake _)
      (hdrop _) (Or.inl rfl)
    have hrest : digits.drop n.toNat ≠ [] := by
      rw [ne_eq, List.drop_eq_nil_iff]
      omega
    have hshift : exponentOf [] - ((digits.drop n.toNat).length : ℤ) = n - digits.length := by
      rw [List.length_drop]
      change (0 : ℤ) - _ = _
      omega
    rw [hshift, List.take_append_drop, pointed, if_neg hrest, List.append_nil] at hparts
    rw [if_pos hpoint, hparts]
  rw [if_neg hpoint]
  by_cases hsmall : -6 < n ∧ n ≤ 0
  · -- the point stands before the digits
    have hparts := @reading_parts [48] (List.replicate (-n).toNat 48 ++ digits) []
      (fun u hu => by rw [List.mem_singleton.mp hu]; rfl)
      (fun u hu => (List.mem_append.mp hu).elim (hzero _ u) (hd u)) (Or.inl rfl)
    have hrest : List.replicate (-n).toNat 48 ++ digits ≠ [] := by simp [hne]
    have hshift : exponentOf [] - ((List.replicate (-n).toNat 48 ++ digits).length : ℤ) =
        n - digits.length := by
      rw [List.length_append, List.length_replicate]
      change (0 : ℤ) - _ = _
      omega
    have hvalue : digitsValue ([48] ++ (List.replicate (-n).toNat 48 ++ digits)) =
        digitsValue digits := by
      rw [digitsValue_append, digitsValue_append, digitsValue_zeros]
      simp [digitsValue]
    rw [hshift, hvalue, pointed, if_neg hrest, List.append_nil] at hparts
    rw [if_pos hsmall]
    exact hparts
  · -- an exponent shifts the point behind the first digit
    have hparts := @reading_parts (digits.take 1) (digits.drop 1)
      (101 :: (if 0 ≤ n - 1 then 43 else 45) :: natText (n - 1).natAbs) (htake _) (hdrop _)
      (Or.inr rfl)
    have hfraction : (if (digits.length : ℤ) = 1 then [] else 46 :: digits.drop 1) =
        pointed (digits.drop 1) := by
      unfold pointed
      by_cases hone : digits.length = 1
      · have hnil : digits.drop 1 = [] := List.drop_eq_nil_iff.mpr (by omega)
        rw [if_pos (by omega), if_pos hnil]
      · have hrest : digits.drop 1 ≠ [] := by
          rw [ne_eq, List.drop_eq_nil_iff]
          omega
        rw [if_neg (by omega), if_neg hrest]
    have hshift : n - 1 - ((digits.drop 1).length : ℤ) = n - digits.length := by
      rw [List.length_drop]
      omega
    rw [exponentOf_signed, hshift, List.take_append_drop] at hparts
    rw [if_neg hsmall, hfraction, hparts]

end Readings

section Texts

/-- Numbers that are equal, the two zeros identified. -/
def SameNumber (x y : FiniteNumber) : Prop := x = y ∨ (x.significand = 0 ∧ y.significand = 0)

theorem canonical_unique {s s' : ℕ} {e e' : ℤ} (hs : s % 10 ≠ 0) (hs' : s' % 10 ≠ 0)
    (h : (s : ℚ) * 10 ^ e = s' * 10 ^ e') : s = s' ∧ e = e' := by
  wlog hle : e ≤ e' with hswap
  · obtain ⟨h1, h2⟩ := hswap hs' hs h.symm (by omega)
    exact ⟨h1.symm, h2.symm⟩
  obtain ⟨d, hd⟩ := Int.eq_ofNat_of_zero_le (sub_nonneg.mpr hle)
  have he' : e' = e + d := by omega
  subst he'
  rw [zpow_add₀ (by norm_num), zpow_natCast, mul_comm ((10 : ℚ) ^ e), ← mul_assoc] at h
  have hscaled := mul_right_cancel₀ (zpow_ne_zero e (by norm_num)) h
  have hnat : s = s' * 10 ^ d := by exact_mod_cast hscaled
  rcases Nat.eq_zero_or_pos d with rfl | hpos
  · simpa using hnat
  · exfalso
    apply hs
    obtain ⟨m, rfl⟩ := Nat.exists_eq_succ_of_ne_zero hpos.ne'
    rw [hnat, pow_succ, ← mul_assoc]
    exact Nat.mul_mod_left _ _

def isNumberUnit (u : ℕ) : Bool :=
  isDigitUnit u || decide (u = 43) || decide (u = 45) || decide (u = 46) || decide (u = 101)

theorem isNumberUnit_digit {u : ℕ} (h : isDigitUnit u = true) : isNumberUnit u = true := by
  simp [isNumberUnit, h]

theorem numeral_units {digits : Units} {n : ℤ} (hd : ∀ u ∈ digits, isDigitUnit u = true) {u : ℕ}
    (h : u ∈ numeral digits n) : isNumberUnit u = true := by
  have hzero : ∀ m, u ∈ List.replicate m 48 → isNumberUnit u = true := by
    intro m hu
    rw [List.eq_of_mem_replicate hu]
    rfl
  unfold numeral at h
  dsimp only at h
  by_cases hwhole : (digits.length : ℤ) ≤ n ∧ n ≤ 21
  · rw [if_pos hwhole] at h
    rcases List.mem_append.mp h with h | h
    · exact isNumberUnit_digit (hd u h)
    · exact hzero _ h
  rw [if_neg hwhole] at h
  by_cases hpoint : 0 < n ∧ n ≤ 21
  · rw [if_pos hpoint] at h
    rcases List.mem_append.mp h with h | h
    · exact isNumberUnit_digit (hd u (List.mem_of_mem_take h))
    · rcases List.mem_cons.mp h with rfl | h
      · rfl
      · exact isNumberUnit_digit (hd u (List.mem_of_mem_drop h))
  rw [if_neg hpoint] at h
  by_cases hsmall : -6 < n ∧ n ≤ 0
  · rw [if_pos hsmall] at h
    rcases List.mem_cons.mp h with rfl | h
    · rfl
    rcases List.mem_cons.mp h with rfl | h
    · rfl
    rcases List.mem_append.mp h with h | h
    · exact hzero _ h
    · exact isNumberUnit_digit (hd u h)
  · rw [if_neg hsmall] at h
    rcases List.mem_append.mp h with h | h
    · rcases List.mem_append.mp h with h | h
      · exact isNumberUnit_digit (hd u (List.mem_of_mem_take h))
      · split_ifs at h
        · cases h
        · rcases List.mem_cons.mp h with rfl | h
          · rfl
          · exact isNumberUnit_digit (hd u (List.mem_of_mem_drop h))
    · rcases List.mem_cons.mp h with rfl | h
      · rfl
      rcases List.mem_cons.mp h with rfl | h
      · split_ifs <;> rfl
      · exact isNumberUnit_digit (natText_digit h)

theorem numberText_units {x : FiniteNumber} {u : ℕ} (h : u ∈ numberText x) :
    isNumberUnit u = true := by
  unfold numberText at h
  split_ifs at h with hzero hnegative
  · rw [List.mem_singleton.mp h]
    rfl
  · rcases List.mem_cons.mp h with rfl | h
    · rfl
    · exact numeral_units (fun v hv => decimalDigits_digit hv) h
  · exact numeral_units (fun v hv => decimalDigits_digit hv) h

theorem numeral_head {digits : Units} {n : ℤ} (hd : ∀ u ∈ digits, isDigitUnit u = true)
    (hne : digits ≠ []) : ∃ u rest, numeral digits n = u :: rest ∧ isDigitUnit u = true := by
  obtain ⟨d, ds, rfl⟩ := List.exists_cons_of_ne_nil hne
  have hhead : isDigitUnit d = true := hd d List.mem_cons_self
  unfold numeral
  dsimp only
  by_cases hwhole : ((d :: ds).length : ℤ) ≤ n ∧ n ≤ 21
  · rw [if_pos hwhole]
    exact ⟨d, _, rfl, hhead⟩
  rw [if_neg hwhole]
  by_cases hpoint : 0 < n ∧ n ≤ 21
  · rw [if_pos hpoint]
    obtain ⟨m, hm⟩ : ∃ m, n.toNat = m + 1 := ⟨n.toNat - 1, by omega⟩
    rw [hm]
    exact ⟨d, _, rfl, hhead⟩
  rw [if_neg hpoint]
  by_cases hsmall : -6 < n ∧ n ≤ 0
  · rw [if_pos hsmall]
    exact ⟨48, _, rfl, rfl⟩
  · rw [if_neg hsmall]
    exact ⟨d, _, rfl, hhead⟩

/-- The first unit of a number's text is a digit or the sign of a negative number. -/
theorem numberText_head (x : FiniteNumber) : ∃ u rest, numberText x = u :: rest ∧
    (u = 45 ∧ x.significand ≠ 0 ∧ x.negative = true ∧
        rest = numeral (decimalDigits x.significand)
          (x.exponent + (decimalDigits x.significand).length) ∨
      isDigitUnit u = true ∧ (x.significand ≠ 0 → x.negative = false)) := by
  unfold numberText
  by_cases hzero : x.significand = 0
  · rw [if_pos hzero]
    exact ⟨48, [], rfl, Or.inr ⟨rfl, fun hne => absurd hzero hne⟩⟩
  rw [if_neg hzero]
  cases hnegative : x.negative with
  | true => exact ⟨45, _, rfl, Or.inl ⟨rfl, hzero, rfl, rfl⟩⟩
  | false =>
    obtain ⟨u, rest, hnumeral, hdigit⟩ := @numeral_head (decimalDigits x.significand)
      (x.exponent + (decimalDigits x.significand).length) (fun v hv => decimalDigits_digit hv)
      (decimalDigits_ne_nil hzero)
    exact ⟨u, rest, hnumeral, Or.inr ⟨hdigit, fun _ => rfl⟩⟩

theorem reading_decimal {x : FiniteNumber} (h : x.significand ≠ 0) :
    reading (numeral (decimalDigits x.significand)
      (x.exponent + (decimalDigits x.significand).length)) =
      x.significand * 10 ^ x.exponent := by
  rw [reading_numeral (fun v hv => decimalDigits_digit hv) (decimalDigits_ne_nil h),
    digitsValue_decimalDigits, add_sub_cancel_right]

theorem FiniteNumber.mod_ten (x : FiniteNumber) (h : x.significand ≠ 0) :
    x.significand % 10 ≠ 0 := by
  rcases x.canonical with ⟨hzero, -⟩ | hmod
  · exact absurd hzero h
  · exact hmod

theorem same_of_numeral {x y : FiniteNumber} (hx : x.significand ≠ 0) (hy : y.significand ≠ 0)
    (hsign : x.negative = y.negative)
    (h : numeral (decimalDigits x.significand)
        (x.exponent + (decimalDigits x.significand).length) =
      numeral (decimalDigits y.significand)
        (y.exponent + (decimalDigits y.significand).length)) : x = y := by
  have hreading := congrArg reading h
  rw [reading_decimal hx, reading_decimal hy] at hreading
  obtain ⟨hs, he⟩ := canonical_unique (x.mod_ten hx) (y.mod_ten hy) hreading
  cases x
  cases y
  cases hs
  cases he
  cases hsign
  rfl

theorem numberText_zero {x : FiniteNumber} (h : x.significand = 0) : numberText x = [48] := by
  unfold numberText
  rw [if_pos h]

theorem numberText_zero_ne {x y : FiniteNumber} (hx : x.significand = 0) (hy : y.significand ≠ 0) :
    numberText x ≠ numberText y := by
  rw [numberText_zero hx]
  intro h
  obtain ⟨u, rest, htext, hhead⟩ := numberText_head y
  rcases hhead with ⟨rfl, -⟩ | ⟨-, hnegative⟩
  · rw [htext] at h
    simp at h
  · unfold numberText at h
    rw [if_neg hy, hnegative hy, if_neg Bool.false_ne_true, List.nil_append] at h
    have hreading := congrArg reading h
    rw [reading_decimal hy] at hreading
    have hzero : reading [48] = 0 := by
      simp [reading, digitsValue]
    rw [hzero] at hreading
    have hpow : (10 : ℚ) ^ y.exponent ≠ 0 := zpow_ne_zero _ (by norm_num)
    have hcast : (y.significand : ℚ) ≠ 0 := by exact_mod_cast hy
    exact mul_ne_zero hcast hpow hreading.symm

theorem numberText_nonzero {x : FiniteNumber} (h : x.significand ≠ 0) :
    numberText x = (if x.negative then [45] else []) ++
      numeral (decimalDigits x.significand)
        (x.exponent + (decimalDigits x.significand).length) := by
  unfold numberText
  rw [if_neg h]

theorem negative_of_numberText {x y : FiniteNumber} (hx : x.significand ≠ 0)
    (hy : y.significand ≠ 0) (h : numberText x = numberText y) (hnegative : x.negative = true) :
    y.negative = true := by
  cases hsign : y.negative with
  | true => rfl
  | false =>
    exfalso
    obtain ⟨u, rest, hnumeral, hdigit⟩ := @numeral_head (decimalDigits y.significand)
      (y.exponent + (decimalDigits y.significand).length) (fun v hv => decimalDigits_digit hv)
      (decimalDigits_ne_nil hy)
    rw [numberText_nonzero hx, numberText_nonzero hy, hnegative, hsign, hnumeral] at h
    have hu : 45 = u := by simpa using congrArg List.head? h
    exact (isDigitUnit_ne hdigit).2.2 hu.symm

/-- Numbers with one text are the same number. -/
theorem numberText_injective {x y : FiniteNumber} (h : numberText x = numberText y) :
    SameNumber x y := by
  by_cases hx : x.significand = 0
  · by_cases hy : y.significand = 0
    · exact Or.inr ⟨hx, hy⟩
    · exact absurd h (numberText_zero_ne hx hy)
  by_cases hy : y.significand = 0
  · exact absurd h.symm (numberText_zero_ne hy hx)
  have hsign : x.negative = y.negative := by
    cases hxn : x.negative with
    | true => exact (negative_of_numberText hx hy h hxn).symm
    | false =>
      cases hyn : y.negative with
      | false => rfl
      | true => rw [negative_of_numberText hy hx h.symm hyn] at hxn; cases hxn
  refine Or.inl (same_of_numeral hx hy hsign ?_)
  rw [numberText_nonzero hx, numberText_nonzero hy, hsign] at h
  exact List.append_cancel_left h

theorem SameNumber.numberText {x y : FiniteNumber} (h : SameNumber x y) :
    numberText x = numberText y := by
  rcases h with rfl | ⟨hx, hy⟩
  · rfl
  · rw [numberText_zero hx, numberText_zero hy]

/-- A text that ends, or goes on with a unit that no number contains. -/
def Terminated (t : Units) : Prop := ∀ u, t.head? = some u → isNumberUnit u = false

theorem takeWhile_number {x : FiniteNumber} {t : Units} (h : Terminated t) :
    (numberText x ++ t).takeWhile isNumberUnit = numberText x := by
  rw [List.takeWhile_append_of_pos fun u hu => numberText_units hu]
  cases t with
  | nil => simp
  | cons u t => rw [List.takeWhile_cons, h u rfl]; simp

/-- A number is told from what follows it. -/
theorem numberText_append {x y : FiniteNumber} {t t' : Units} (ht : Terminated t)
    (ht' : Terminated t') (h : numberText x ++ t = numberText y ++ t') :
    SameNumber x y ∧ t = t' := by
  have htext : numberText x = numberText y := by
    rw [← takeWhile_number ht, h, takeWhile_number ht']
  refine ⟨numberText_injective htext, ?_⟩
  rw [htext] at h
  exact List.append_cancel_left h

end Texts

end Piclaw.CanonicalText
